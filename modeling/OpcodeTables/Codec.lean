import OpcodeTables.Flags
import OpcodeTables.Text.Utf8

/-!
# Binary codecs

Little-endian words of fixed width, texts and lists after their length in eight bytes, and products as their parts one
after the other. Decoding takes a value from the front of the bytes and leaves the rest.
-/

namespace OpcodeTables

namespace Codec

inductive Fault where
  | cutOff
  | cutOffText
  | invalidText (fault : Utf8.Fault)
  | unknownVariant (index count : Nat)
  | unknownFlags (bits : UInt8)
deriving DecidableEq

def Fault.message : Fault → String
  | .cutOff => "io error: unexpected end of file"
  | .cutOffText => "io error: "
  | .invalidText ⟨index, some length⟩ =>
    "string is not valid utf8: invalid utf-8 sequence of " ++ Text.decimal length ++ " bytes from index " ++
      Text.decimal index
  | .invalidText ⟨index, none⟩ =>
    "string is not valid utf8: incomplete utf-8 byte sequence from index " ++ Text.decimal index
  | .unknownVariant index count =>
    "invalid value: integer `" ++ Text.decimal index ++ "`, expected variant index 0 <= i < " ++ Text.decimal count
  | .unknownFlags bits => Flags.unknownMessage bits

end Codec

structure Codec (α : Type) where
  encode : α → List UInt8
  decode : List UInt8 → Except Codec.Fault (α × List UInt8)

namespace Codec

/-- The lowest `n` bytes of a number, the first one counting least. -/
def littleEndian : (n : Nat) → Nat → List UInt8
  | 0, _ => []
  | n + 1, v => .ofNat v :: littleEndian n (v / 256)

/-- The number that bytes spell, the first one counting least. -/
def ofLittleEndian : List UInt8 → Nat
  | [] => 0
  | b :: bs => b.toNat + 256 * ofLittleEndian bs

def byte : Codec UInt8 where
  encode b := [b]
  decode
    | [] => .error .cutOff
    | b :: s => .ok (b, s)

/-- A number in `n` bytes. -/
def word (n : Nat) : Codec Nat where
  encode v := littleEndian n v
  decode s :=
    let front := s.take n
    if front.length < n then .error .cutOff else .ok (ofLittleEndian front, s.drop n)

/-- The length of a text or list. -/
def length : Codec Nat :=
  word 8

def text : Codec String where
  encode t := length.encode (Utf8.encode t).length ++ Utf8.encode t
  decode s :=
    match length.decode s with
    | .error e => .error e
    | .ok (n, s) =>
      let front := s.take n
      if front.length < n then .error .cutOffText
      else
        match Utf8.decode front with
        | .error e => .error (.invalidText e)
        | .ok t => .ok (t, s.drop n)

/-- `n` values one after the other. -/
def decodeMany {α : Type} (c : Codec α) : (n : Nat) → List UInt8 → Except Fault (List α × List UInt8)
  | 0, s => .ok ([], s)
  | n + 1, s =>
    match c.decode s with
    | .error e => .error e
    | .ok (a, s) => (decodeMany c n s).map fun t => (a :: t.1, t.2)

def list {α : Type} (c : Codec α) : Codec (List α) where
  encode as := length.encode as.length ++ as.flatMap c.encode
  decode s :=
    match length.decode s with
    | .error e => .error e
    | .ok (n, s) => decodeMany c n s

def pair {α β : Type} (a : Codec α) (b : Codec β) : Codec (α × β) where
  encode p := a.encode p.1 ++ b.encode p.2
  decode s :=
    match a.decode s with
    | .error e => .error e
    | .ok (x, s) => (b.decode s).map fun t => ((x, t.1), t.2)

/-- Another representation of what a codec carries. -/
def convert {α β : Type} (c : Codec α) (into : α → Except Fault β) (back : β → α) : Codec β where
  encode b := c.encode (back b)
  decode s :=
    match c.decode s with
    | .error e => .error e
    | .ok (a, s) => (into a).map (·, s)

def iso {α β : Type} (c : Codec α) (into : α → β) (back : β → α) : Codec β :=
  c.convert (fun a => .ok (into a)) back

/-- One of `count` cases by its number, which takes four bytes. -/
def case {α : Type} (count : Nat) (toNat : α → Nat) (ofNat? : Nat → Option α) : Codec α :=
  (word 4).convert
    (fun n =>
      match ofNat? n with
      | some a => .ok a
      | none => .error (.unknownVariant n count))
    toNat

/-- The left or the right alternative, numbered 0 and 1. -/
def either {α β : Type} (a : Codec α) (b : Codec β) : Codec (α ⊕ β) where
  encode
    | .inl x => (word 4).encode 0 ++ a.encode x
    | .inr y => (word 4).encode 1 ++ b.encode y
  decode s :=
    match (word 4).decode s with
    | .error e => .error e
    | .ok (0, s) => (a.decode s).map fun t => (.inl t.1, t.2)
    | .ok (1, s) => (b.decode s).map fun t => (.inr t.1, t.2)
    | .ok (n, _) => .error (.unknownVariant n 2)

end Codec

end OpcodeTables
