import OpcodeTables.Checks
import OpcodeTables.Codec
import OpcodeTables.Power

/-!
# Exact codecs

A codec is exact for a class of values if decoding takes a value from the front of some bytes exactly when the value is
in the class and the bytes begin with its encoding.  So every value of the class is read back whatever follows it, and
no other bytes are accepted.  The words, texts and bytes are exact (`exact_word`, `exact_text`, `exact_byte`), and every
way of building a codec from others keeps exactness (`Exact.list`, `Exact.pair`, `Exact.convert`, `Exact.either`).
-/

namespace OpcodeTables.Codec

/-- Decoding accepts exactly the encodings of the values in the class `Fits`, and leaves what follows them. -/
def Exact {α : Type} (c : Codec α) (Fits : α → Prop) : Prop :=
  ∀ s a r, c.decode s = .ok (a, r) ↔ Fits a ∧ s = c.encode a ++ r

/-- The bytes of a text can be counted in a word of eight bytes. -/
def FitsText (t : String) : Prop :=
  (Utf8.encode t).length < 2 ^ 64

/-- The elements of a list can be counted in a word of eight bytes, and each of them is in the class `Fits`. -/
def FitsList {α : Type} (Fits : α → Prop) (as : List α) : Prop :=
  as.length < 2 ^ 64 ∧ ∀ a ∈ as, Fits a

instance (t : String) : Decidable (FitsText t) :=
  inferInstanceAs (Decidable (_ < _))

instance {α : Type} (Fits : α → Prop) [DecidablePred Fits] (as : List α) : Decidable (FitsList Fits as) :=
  inferInstanceAs (Decidable (_ ∧ _))

/-! ### Words -/

private theorem length_littleEndian (n v : Nat) : (littleEndian n v).length = n := by
  induction n generalizing v with
  | zero => rfl
  | succ n ih => simp [littleEndian, ih]

private theorem ofLittleEndian_littleEndian {n v : Nat} (h : v < 256 ^ n) :
    ofLittleEndian (littleEndian n v) = v := by
  induction n generalizing v with
  | zero =>
    simp only [Nat.pow_zero] at h
    simp only [littleEndian, ofLittleEndian]
    omega
  | succ n ih =>
    have hd : v / 256 < 256 ^ n := by
      rw [Nat.pow_succ] at h
      exact Nat.div_lt_of_lt_mul (by rwa [Nat.mul_comm] at h)
    simp only [littleEndian, ofLittleEndian, ih hd, UInt8.toNat_ofNat']
    omega

private theorem littleEndian_ofLittleEndian (bs : List UInt8) :
    littleEndian bs.length (ofLittleEndian bs) = bs := by
  induction bs with
  | nil => rfl
  | cons b bs ih =>
    have hb := b.toNat_lt
    have hdiv : (b.toNat + 256 * ofLittleEndian bs) / 256 = ofLittleEndian bs := by omega
    have hlow : UInt8.ofNat (b.toNat + 256 * ofLittleEndian bs) = b := by
      apply UInt8.toNat_inj.1
      rw [UInt8.toNat_ofNat']
      omega
    simp only [List.length_cons, ofLittleEndian, littleEndian, hdiv, hlow, ih]

private theorem ofLittleEndian_lt (bs : List UInt8) : ofLittleEndian bs < 256 ^ bs.length := by
  induction bs with
  | nil => simp [ofLittleEndian]
  | cons b bs ih =>
    have hb := b.toNat_lt
    rw [List.length_cons, Nat.pow_succ]
    simp only [ofLittleEndian]
    omega

theorem exact_byte : Exact byte fun _ => True := by
  intro s a r
  cases s with
  | nil => simp [byte]
  | cons b s => simp [byte]

theorem exact_word (n : Nat) : Exact (word n) (· < 256 ^ n) := by
  intro s v r
  simp only [word]
  constructor
  · intro h
    split at h
    · simp at h
    · rename_i hn
      simp only [Except.ok.injEq, Prod.mk.injEq] at h
      obtain ⟨rfl, rfl⟩ := h
      -- the bytes are as many as a word has, so its number gives them back
      have hl : (s.take n).length = n := by
        simp only [List.length_take] at hn ⊢
        omega
      have hv := ofLittleEndian_lt (s.take n)
      have he := littleEndian_ofLittleEndian (s.take n)
      rw [hl] at hv he
      exact ⟨hv, by rw [he, List.take_append_drop]⟩
  · rintro ⟨hv, rfl⟩
    have hl := length_littleEndian n v
    have ht : (littleEndian n v ++ r).take n = littleEndian n v := by
      rw [List.take_append_of_le_length (by omega), List.take_of_length_le (by omega)]
    have hd : (littleEndian n v ++ r).drop n = r := by
      rw [List.drop_append_of_le_length (by omega), List.drop_of_length_le (by omega), List.nil_append]
    rw [ht, hd, hl, ofLittleEndian_littleEndian hv]
    simp

theorem exact_length : Exact length (· < 2 ^ 64) :=
  exact_word 8

/-! ### Texts -/

theorem exact_text : Exact text FitsText := by
  intro s t r
  simp only [text]
  constructor
  · intro h
    split at h
    · simp at h
    · rename_i n u hn
      obtain ⟨hlt, rfl⟩ := (exact_length _ _ _).1 hn
      split at h
      · simp at h
      · rename_i hlen
        split at h
        · simp at h
        · rename_i t' hd
          simp only [Except.ok.injEq, Prod.mk.injEq] at h
          obtain ⟨rfl, rfl⟩ := h
          rw [Utf8.decode_eq_ok_iff] at hd
          have hl : (Utf8.encode t').length = n := by
            rw [← hd]
            simp only [List.length_take] at hlen ⊢
            omega
          unfold FitsText
          rw [hl]
          exact ⟨hlt, by rw [← hd, List.append_assoc, List.take_append_drop]⟩
  · rintro ⟨hlt, rfl⟩
    have hlen : length.decode (length.encode (Utf8.encode t).length ++ (Utf8.encode t ++ r)) =
        .ok ((Utf8.encode t).length, Utf8.encode t ++ r) :=
      (exact_length _ _ _).2 ⟨hlt, rfl⟩
    rw [List.append_assoc, hlen]
    have hd : Utf8.decode (Utf8.encode t) = .ok t := Utf8.decode_eq_ok_iff.2 rfl
    simp [hd]

/-! ### Lists -/

theorem Exact.decodeMany {α : Type} {c : Codec α} {Fits : α → Prop} (hc : Exact c Fits) {n : Nat} {s r : List UInt8}
    {as : List α} : decodeMany c n s = .ok (as, r) ↔
      as.length = n ∧ (∀ a ∈ as, Fits a) ∧ s = as.flatMap c.encode ++ r := by
  induction n generalizing s as with
  | zero =>
    simp only [Codec.decodeMany, Except.ok.injEq, Prod.mk.injEq, List.length_eq_zero_iff]
    constructor
    · rintro ⟨rfl, rfl⟩
      simp
    · rintro ⟨rfl, -, rfl⟩
      simp
  | succ n ih =>
    simp only [Codec.decodeMany]
    constructor
    · intro h
      split at h
      · simp at h
      · rename_i a u ha
        obtain ⟨⟨bs, w⟩, hm, hb⟩ := map_eq_ok_iff.1 h
        obtain ⟨rfl, rfl⟩ := Prod.mk.inj hb
        obtain ⟨hfa, rfl⟩ := (hc _ _ _).1 ha
        obtain ⟨hl, hfs, rfl⟩ := ih.1 hm
        refine ⟨by simp [hl], ?_, by simp⟩
        intro b hb
        rcases List.mem_cons.1 hb with rfl | hb
        · exact hfa
        · exact hfs b hb
    · rintro ⟨hl, hf, rfl⟩
      cases as with
      | nil => simp at hl
      | cons a bs =>
        have ha : c.decode (c.encode a ++ (bs.flatMap c.encode ++ r)) = .ok (a, bs.flatMap c.encode ++ r) :=
          (hc _ _ _).2 ⟨hf a (by simp), rfl⟩
        have hm : Codec.decodeMany c n (bs.flatMap c.encode ++ r) = .ok (bs, r) :=
          ih.2 ⟨by simpa using hl, fun b hb => hf b (by simp [hb]), rfl⟩
        rw [List.flatMap_cons, List.append_assoc, ha]
        simp [hm, Except.map]

theorem Exact.list {α : Type} {c : Codec α} {Fits : α → Prop} (hc : Exact c Fits) :
    Exact (list c) (FitsList Fits) := by
  intro s as r
  simp only [Codec.list]
  constructor
  · intro h
    split at h
    · simp at h
    · rename_i n u hn
      obtain ⟨hlt, rfl⟩ := (exact_length _ _ _).1 hn
      obtain ⟨rfl, hf, rfl⟩ := hc.decodeMany.1 h
      exact ⟨⟨hlt, hf⟩, by simp⟩
  · rintro ⟨⟨hlt, hf⟩, rfl⟩
    have hlen : length.decode (length.encode as.length ++ (as.flatMap c.encode ++ r)) =
        .ok (as.length, as.flatMap c.encode ++ r) :=
      (exact_length _ _ _).2 ⟨hlt, rfl⟩
    rw [List.append_assoc, hlen]
    exact hc.decodeMany.2 ⟨rfl, hf, rfl⟩

/-! ### Products, sums and other representations -/

theorem Exact.pair {α β : Type} {a : Codec α} {b : Codec β} {FitsA : α → Prop} {FitsB : β → Prop}
    (ha : Exact a FitsA) (hb : Exact b FitsB) : Exact (pair a b) fun p => FitsA p.1 ∧ FitsB p.2 := by
  rintro s ⟨x, y⟩ r
  simp only [Codec.pair]
  constructor
  · intro h
    split at h
    · simp at h
    · rename_i hx
      obtain ⟨⟨y', r'⟩, hy, he⟩ := map_eq_ok_iff.1 h
      simp only [Prod.mk.injEq] at he
      obtain ⟨⟨rfl, rfl⟩, rfl⟩ := he
      obtain ⟨hfx, rfl⟩ := (ha _ _ _).1 hx
      obtain ⟨hfy, rfl⟩ := (hb _ _ _).1 hy
      exact ⟨⟨hfx, hfy⟩, by simp⟩
  · rintro ⟨⟨hfx, hfy⟩, rfl⟩
    have hx : a.decode (a.encode x ++ (b.encode y ++ r)) = .ok (x, b.encode y ++ r) := (ha _ _ _).2 ⟨hfx, rfl⟩
    have hy : b.decode (b.encode y ++ r) = .ok (y, r) := (hb _ _ _).2 ⟨hfy, rfl⟩
    rw [List.append_assoc, hx]
    simp [hy, Except.map]

/-- A checked change of representation is exact if it accepts only what the way back gives. -/
theorem Exact.convert {α β : Type} {c : Codec α} {Fits : α → Prop} (hc : Exact c Fits)
    {into : α → Except Fault β} {back : β → α} (hinto : ∀ a b, into a = .ok b ↔ a = back b) :
    Exact (convert c into back) fun b => Fits (back b) := by
  intro s b r
  simp only [Codec.convert]
  constructor
  · intro h
    split at h
    · simp at h
    · rename_i a u ha
      obtain ⟨b', hb, he⟩ := map_eq_ok_iff.1 h
      obtain ⟨rfl, rfl⟩ := Prod.mk.inj he
      obtain rfl := (hinto _ _).1 hb
      exact (hc _ _ _).1 ha
  · intro h
    rw [(hc _ _ _).2 h]
    simp [(hinto _ _).2 rfl, Except.map]

theorem Exact.iso {α β : Type} {c : Codec α} {Fits : α → Prop} (hc : Exact c Fits) {into : α → β} {back : β → α}
    (hinto : ∀ a b, into a = b ↔ a = back b) : Exact (iso c into back) fun b => Fits (back b) :=
  hc.convert fun a b => by simp [hinto]

theorem exact_case {α : Type} {count : Nat} {toNat : α → Nat} {ofNat? : Nat → Option α}
    (hof : ∀ n a, ofNat? n = some a ↔ n = toNat a) :
    Exact (case count toNat ofNat?) fun a => toNat a < 256 ^ 4 := by
  refine (exact_word 4).convert fun n a => ?_
  rw [← hof]
  cases ofNat? n with
  | none => simp
  | some b => simp

theorem Exact.either {α β : Type} {a : Codec α} {b : Codec β} {FitsA : α → Prop} {FitsB : β → Prop}
    (ha : Exact a FitsA) (hb : Exact b FitsB) : Exact (either a b) (Sum.elim FitsA FitsB) := by
  have hword : ∀ n < 256 ^ 4, ∀ s, (word 4).decode ((word 4).encode n ++ s) = .ok (n, s) :=
    fun n hn s => (exact_word 4 _ _ _).2 ⟨hn, rfl⟩
  intro s x r
  simp only [Codec.either]
  constructor
  · intro h
    split at h
    · simp at h
    · rename_i u hn
      obtain ⟨-, rfl⟩ := (exact_word 4 _ _ _).1 hn
      obtain ⟨⟨y, w⟩, hy, he⟩ := map_eq_ok_iff.1 h
      obtain ⟨rfl, rfl⟩ := Prod.mk.inj he
      obtain ⟨hf, rfl⟩ := (ha _ _ _).1 hy
      exact ⟨hf, by simp⟩
    · rename_i u hn
      obtain ⟨-, rfl⟩ := (exact_word 4 _ _ _).1 hn
      obtain ⟨⟨y, w⟩, hy, he⟩ := map_eq_ok_iff.1 h
      obtain ⟨rfl, rfl⟩ := Prod.mk.inj he
      obtain ⟨hf, rfl⟩ := (hb _ _ _).1 hy
      exact ⟨hf, by simp⟩
    · simp at h
  · rintro ⟨hf, rfl⟩
    cases x with
    | inl y =>
      rw [List.append_assoc, hword 0 (by decide)]
      simp [(ha _ _ _).2 ⟨hf, rfl⟩, Except.map]
    | inr y =>
      rw [List.append_assoc, hword 1 (by decide)]
      simp [(hb _ _ _).2 ⟨hf, rfl⟩, Except.map]

theorem Exact.congr {α : Type} {c : Codec α} {Fits Fits' : α → Prop} (hc : Exact c Fits)
    (h : ∀ a, Fits a ↔ Fits' a) : Exact c Fits' :=
  fun s a r => by rw [hc s a r, h]

end OpcodeTables.Codec
