import OpcodeTables.Emit
import OpcodeTables.Proofs.Codec

/-!
# Images of tables

The codecs of the entries are exact (`exact_codec` of each), so the images of tables are an exact code without
prefixes: the bytes that begin with the image of some tables are read as these tables, and all other bytes are refused
(`ofImage_iff_image`).
-/

namespace OpcodeTables

open Codec (Exact FitsList FitsText)

/-! ### Opcodes, flags, kinds and types -/

def Opcode.Fits (o : Opcode) : Prop :=
  FitsText o.source

instance (o : Opcode) : Decidable o.Fits :=
  inferInstanceAs (Decidable (FitsText _))

theorem Opcode.exact_codec : Exact Opcode.codec Opcode.Fits := by
  have h : Exact Opcode.codec _ :=
    ((Codec.exact_byte.pair Codec.exact_text).either Codec.exact_text).iso (by
      rintro (⟨value, text⟩ | name) (⟨value', text'⟩ | name')
      all_goals simp)
  refine h.congr fun o => ?_
  cases o with
  | literal value text => simp [Opcode.Fits, Opcode.source]
  | symbol name => simp [Opcode.Fits, Opcode.source]

theorem Flags.exact_codec : Exact Flags.codec fun _ => True := by
  refine Codec.exact_byte.convert fun b f => ?_
  constructor
  · intro h
    split at h
    · rename_i g hg
      simp only [Except.ok.injEq] at h
      rw [← h, bits_of_ofBits? hg]
    · simp at h
  · rintro rfl
    rw [ofBits?_bits]

theorem OperandKind.exact_codec : Exact OperandKind.codec fun _ => True := by
  refine (Codec.exact_case fun _ _ => ofNat?_eq_some_iff).congr fun k => ?_
  cases k <;> decide

theorem NumericType.exact_codec : Exact NumericType.codec fun _ => True := by
  refine (Codec.exact_case fun _ _ => ofNat?_eq_some_iff).congr fun ty => ?_
  cases ty <;> decide

/-! ### Entries -/

namespace Tables

theorem RegisterEntry.exact_codec : Exact RegisterEntry.codec fun r => FitsText r.name :=
  ((Codec.exact_text.pair Codec.exact_byte).iso fun _ r => by cases r; simp [Prod.ext_iff]).congr fun r => by simp

theorem IndexEntry.exact_codec : Exact IndexEntry.codec fun e => FitsText e.name :=
  ((Codec.exact_text.pair Codec.exact_byte).iso fun _ e => by cases e; simp [Prod.ext_iff]).congr fun e => by simp

theorem VariantEntry.exact_codec : Exact VariantEntry.codec fun v => v.opcode.Fits :=
  ((NumericType.exact_codec.pair Opcode.exact_codec).iso fun _ v => by cases v; simp [Prod.ext_iff]).congr
    fun v => by simp

structure Form.Fits (f : Form) : Prop where
  opcode : f.opcode.Fits
  params : f.params.length < 2 ^ 64
  variants : FitsList (fun v => v.opcode.Fits) f.variants

instance (f : Form) : Decidable f.Fits :=
  decidable_of_iff (f.opcode.Fits ∧ f.params.length < 2 ^ 64 ∧ FitsList (fun v => v.opcode.Fits) f.variants)
    ⟨fun ⟨ho, hp, hv⟩ => ⟨ho, hp, hv⟩, fun ⟨ho, hp, hv⟩ => ⟨ho, hp, hv⟩⟩

theorem Form.exact_codec : Exact Form.codec Form.Fits := by
  have h : Exact Form.codec _ :=
    (Opcode.exact_codec.pair <| Flags.exact_codec.pair <|
      OperandKind.exact_codec.list.pair VariantEntry.exact_codec.list).iso
    fun _ f => by cases f; simp [Prod.ext_iff]
  refine h.congr fun f => ?_
  constructor
  · rintro ⟨ho, -, ⟨hp, -⟩, hv⟩
    exact ⟨ho, hp, hv⟩
  · rintro ⟨ho, hp, hv⟩
    exact ⟨ho, trivial, ⟨hp, fun _ _ => trivial⟩, hv⟩

/-- The texts and lists of the tables can be counted in a word of eight bytes each. -/
structure Fits (t : Tables) : Prop where
  registers : FitsList (fun r => FitsText r.name) t.registers
  index : FitsList (fun e => FitsText e.name) t.index
  instructions : FitsList (FitsList Form.Fits) t.instructions

instance (t : Tables) : Decidable t.Fits :=
  decidable_of_iff (FitsList (fun r => FitsText r.name) t.registers ∧ FitsList (fun e => FitsText e.name) t.index ∧
      FitsList (FitsList Form.Fits) t.instructions)
    ⟨fun ⟨hr, hi, hf⟩ => ⟨hr, hi, hf⟩, fun ⟨hr, hi, hf⟩ => ⟨hr, hi, hf⟩⟩

theorem exact_codec : Exact Tables.codec Fits := by
  have h : Exact Tables.codec _ :=
    (RegisterEntry.exact_codec.list.pair <|
      IndexEntry.exact_codec.list.pair Form.exact_codec.list.list).iso
    fun _ t => by cases t; simp [Prod.ext_iff]
  exact h.congr fun t => ⟨fun ⟨hr, hi, hf⟩ => ⟨hr, hi, hf⟩, fun ⟨hr, hi, hf⟩ => ⟨hr, hi, hf⟩⟩

/-! ### Images -/

/-- Bytes hold certain tables exactly if they begin with the image of these tables. -/
theorem ofImage_eq_ok_iff {b : List UInt8} {t : Tables} :
    ofImage b = .ok t ↔ t.verify = .ok () ∧ t.Fits ∧ t.image <+: b := by
  have hdecode : (codec.decode b).map (·.1) = .ok t ↔ ∃ r, codec.decode b = .ok (t, r) := by
    cases codec.decode b with
    | error e => simp [Except.map]
    | ok p => simp [Except.map, Prod.ext_iff]
  rw [ofImage, verified_eq_ok_iff, hdecode]
  constructor
  · rintro ⟨⟨r, hr⟩, hv⟩
    obtain ⟨hf, rfl⟩ := (exact_codec _ _ _).1 hr
    exact ⟨hv, hf, List.prefix_append _ _⟩
  · rintro ⟨hv, hf, r, rfl⟩
    exact ⟨⟨r, (exact_codec _ _ _).2 ⟨hf, rfl⟩⟩, hv⟩

/-- The image of other tables never continues an image. -/
theorem error_of_prefix_image {b : List UInt8} {t : Tables} (hv : t.verify = .ok ()) (hf : t.Fits)
    (hb : b <+: t.image) (hne : b ≠ t.image) : ∃ e, ofImage b = .error e := by
  cases h : ofImage b with
  | error e => exact ⟨e, rfl⟩
  | ok u =>
    obtain ⟨hv', hf', hu⟩ := ofImage_eq_ok_iff.1 h
    -- both tables would be read from the whole image
    have h1 : ofImage t.image = .ok u := ofImage_eq_ok_iff.2 ⟨hv', hf', hu.trans hb⟩
    have h2 : ofImage t.image = .ok t := ofImage_eq_ok_iff.2 ⟨hv, hf, List.prefix_refl _⟩
    obtain rfl : u = t := by simpa [h1] using h2
    exact absurd (hb.eq_of_length_le hu.length_le) hne

/-- Images are an exact code without prefixes: bytes are read as certain tables exactly if they are the image of these
tables and whatever follows it, no part of an image is read, and what is read belongs together. -/
theorem ofImage_iff_image (namespaceName : String) :
    (∀ t : Tables, t.verify = .ok () → t.Fits → ∃ image, t.emit .bincode namespaceName = .ok image ∧
      (∀ b, ofImage b = .ok t ↔ ∃ s, b = image ++ s) ∧
      ∀ b, b <+: image → b ≠ image → ∃ e, ofImage b = .error e) ∧
    ∀ b t, ofImage b = .ok t → t.verify = .ok () ∧
      ∃ image s, t.emit .bincode namespaceName = .ok image ∧ b = image ++ s := by
  constructor
  · intro t hv hf
    refine ⟨t.image, emit_eq_ok_iff.2 ⟨hv, rfl⟩, fun b => ?_, fun b hb hne => error_of_prefix_image hv hf hb hne⟩
    rw [ofImage_eq_ok_iff]
    constructor
    · rintro ⟨-, -, s, rfl⟩
      exact ⟨s, rfl⟩
    · rintro ⟨s, rfl⟩
      exact ⟨hv, hf, List.prefix_append _ _⟩
  · intro b t h
    obtain ⟨hv, -, s, rfl⟩ := ofImage_eq_ok_iff.1 h
    exact ⟨hv, t.image, s, emit_eq_ok_iff.2 ⟨hv, rfl⟩, rfl⟩

/-- Tables with a text beyond ASCII, both kinds of opcodes and two forms, and a byte after their image. -/
theorem ofImage_iff_image_two_forms :
    let t : Tables :=
      { registers := [⟨"r\"é", 5⟩], index := [⟨"push", 0⟩],
        instructions := [[⟨.literal 160 "0xA0", ⟨true, true⟩, [.intType, .sysInt], [⟨.f64, .symbol "OP::😀"⟩]⟩,
          ⟨.symbol "", ⟨false, false⟩, [], []⟩]] }
    t.verify = .ok () ∧ t.Fits ∧ ∃ image, t.emit .bincode "Asm" = .ok image ∧ ofImage (image ++ [7]) = .ok t ∧
      ∃ image' s, t.emit .bincode "Asm" = .ok image' ∧ image ++ [7] = image' ++ s := by
  intro t
  have hv : t.verify = .ok () := rfl
  have hf : t.Fits := by decide
  obtain ⟨image, he, hiff, -⟩ := (ofImage_iff_image "Asm").1 t hv hf
  have hread : ofImage (image ++ [7]) = .ok t := (hiff _).2 ⟨[7], rfl⟩
  exact ⟨hv, hf, image, he, hread, ((ofImage_iff_image "Asm").2 _ t hread).2⟩

end Tables

end OpcodeTables
