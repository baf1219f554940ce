import OpcodeTables.Proofs.Description
import OpcodeTables.Proofs.Emit.Word

/-!
# Initializers of tables

The generated languages write the forms of instructions as lists of the same shape and differ in their words only
(`Dialect`).  The opcode of a place of the tables is the word at the path of the place (`Dialect.word?_items`), and the
initializer tells the forms when the words tell what they are for (`Dialect.Injective.items_inj`).
-/

namespace OpcodeTables

/-- The positions at which the word of an opcode stands. -/
def Tables.OpcodePlace.path : OpcodePlace → List Nat
  | .form i j => [i, j, 0]
  | .variant i j k => [i, j, 3, k, 1]

namespace Emit

/-- The words of a language: those before lists, and those of the parts of a form. -/
structure Dialect where
  instructionHead : List Char
  formHead : List Char
  paramsHead : List Char
  variantsHead : List Char
  variantHead : List Char
  opcode : Opcode → List Char
  flags : Flags → List Char
  kind : OperandKind → List Char
  type : NumericType → List Char

namespace Dialect

def variantItem (d : Dialect) (v : Tables.VariantEntry) : Item :=
  .group d.variantHead [.word (d.type v.type), .word (d.opcode v.opcode)]

def formItem (d : Dialect) (f : Tables.Form) : Item :=
  .group d.formHead
    [.word (d.opcode f.opcode), .word (d.flags f.flags), .group d.paramsHead (f.params.map fun k => .word (d.kind k)),
      .group d.variantsHead (f.variants.map d.variantItem)]

def instructionItem (d : Dialect) (fs : List Tables.Form) : Item :=
  .group d.instructionHead (fs.map d.formItem)

/-- The initializer of the forms. -/
def items (d : Dialect) (t : Tables) : List Item :=
  t.instructions.map d.instructionItem

theorem word?_items (d : Dialect) {t : Tables} {p : Tables.OpcodePlace} {o : Opcode} (h : t.opcodeAt? p = some o) :
    Item.word? (d.items t) p.path = some (d.opcode o) := by
  have hform : ∀ {i j f} (path : List Nat), t.form? i j = some f →
      Item.word? (d.items t) (i :: j :: path) =
        Item.word? [.word (d.opcode f.opcode), .word (d.flags f.flags),
          .group d.paramsHead (f.params.map fun k => .word (d.kind k)),
          .group d.variantsHead (f.variants.map d.variantItem)] path := by
    intro i j f path hf
    obtain ⟨fs, hfs, hf⟩ := Option.bind_eq_some_iff.1 hf
    have hi : t.instructions[i]? = some fs := hfs
    simp [items, Item.word?, instructionItem, formItem, hi, hf]
  cases p with
  | form i j =>
    obtain ⟨f, hf, rfl⟩ := Option.map_eq_some_iff.1 h
    exact hform [0] hf
  | variant i j k =>
    obtain ⟨f, hf, h⟩ := Option.bind_eq_some_iff.1 h
    obtain ⟨v, hv, rfl⟩ := Option.map_eq_some_iff.1 h
    rw [Tables.OpcodePlace.path, hform [3, k, 1] hf]
    simp [Item.word?, variantItem, hv]

/-- Different opcodes, flags, kinds and types have different words. -/
structure Injective (d : Dialect) : Prop where
  opcode : ∀ o o', o.Spelled → o'.Spelled → d.opcode o = d.opcode o' → o = o'
  flags : Function.Injective d.flags
  kind : Function.Injective d.kind
  type : Function.Injective d.type

namespace Injective

variable {d : Dialect}

theorem variantItem_inj (hd : d.Injective) (v v' : Tables.VariantEntry) (hv : v.opcode.Spelled)
    (hv' : v'.opcode.Spelled) (h : d.variantItem v = d.variantItem v') : v = v' := by
  simp only [variantItem, Item.group.injEq, Item.word.injEq, List.cons.injEq, true_and, and_true] at h
  obtain ⟨type, opcode⟩ := v
  obtain ⟨type', opcode'⟩ := v'
  obtain rfl : type = type' := hd.type h.1
  obtain rfl : opcode = opcode' := hd.opcode _ _ hv hv' h.2
  rfl

theorem formItem_inj (hd : d.Injective) (f f' : Tables.Form) (hf : ∀ o ∈ f.opcodes, o.Spelled)
    (hf' : ∀ o ∈ f'.opcodes, o.Spelled) (h : d.formItem f = d.formItem f') : f = f' := by
  have hvariants : ∀ {f : Tables.Form}, (∀ o ∈ f.opcodes, o.Spelled) → ∀ v ∈ f.variants, v.opcode.Spelled :=
    fun hf v hv => hf v.opcode (List.mem_cons_of_mem _ (List.mem_map_of_mem hv))
  simp only [formItem, Item.group.injEq, Item.word.injEq, List.cons.injEq, true_and, and_true] at h
  obtain ⟨hopcode, hflags, hparams, hvs⟩ := h
  have hopcode := hd.opcode _ _ (hf _ List.mem_cons_self) (hf' _ List.mem_cons_self) hopcode
  have hparams := (List.map_inj_right fun k k' hk => hd.kind (Item.word.inj hk)).1 hparams
  have hvs := map_inj_of_mem hd.variantItem_inj (hvariants hf) (hvariants hf') hvs
  obtain ⟨opcode, flags, params, variants⟩ := f
  obtain ⟨opcode', flags', params', variants'⟩ := f'
  obtain rfl : opcode = opcode' := hopcode
  obtain rfl : flags = flags' := hd.flags hflags
  obtain rfl : params = params' := hparams
  obtain rfl : variants = variants' := hvs
  rfl

/-- The initializer tells the forms. -/
theorem items_inj (hd : d.Injective) {t t' : Tables} (ht : ∀ o ∈ t.opcodes, o.Spelled)
    (ht' : ∀ o ∈ t'.opcodes, o.Spelled) (h : d.items t = d.items t') : t.instructions = t'.instructions := by
  have hinstruction : ∀ fs fs' : List Tables.Form, (∀ f ∈ fs, ∀ o ∈ f.opcodes, o.Spelled) →
      (∀ f ∈ fs', ∀ o ∈ f.opcodes, o.Spelled) → d.instructionItem fs = d.instructionItem fs' → fs = fs' := by
    intro fs fs' hfs hfs' hitem
    rw [instructionItem, instructionItem, Item.group.injEq] at hitem
    exact map_inj_of_mem hd.formItem_inj hfs hfs' hitem.2
  exact map_inj_of_mem hinstruction (fun fs hfs f hf o ho => ht o (Tables.mem_opcodes hfs hf ho))
    (fun fs hfs f hf o ho => ht' o (Tables.mem_opcodes hfs hf ho)) h

end Injective

end Dialect

/-- The text has the declaration with the initializer behind it. -/
def Declares (text declaration : List Char) (b : Initializer.Bracket) (items : List Item) : Prop :=
  ∃ before after rest, text = before ++ (declaration ++ after) ∧ Initializer.readList b after = some (items, rest)

theorem declares_of_lines {k : Initializer.Bracket} {c : Char} {body : List Line} {items : List Item}
    (hc : Initializer.mark? c = some (.closing k)) (h : Initializer.Adds (body.flatMap Line.chars) items)
    (before after : List Line) {declaration last : Line} {tail : List Char} (hlast : last.chars = c :: tail) :
    Declares (render (before ++ declaration :: body ++ last :: after)).toList declaration.text.toList k items := by
  have hfills := ((Initializer.adds_blank Initializer.blank_newline).append h).fills
  refine ⟨before.flatMap Line.chars ++ List.replicate (4 * declaration.depth) ' ',
    ['\n'] ++ body.flatMap Line.chars ++ c :: (tail ++ after.flatMap Line.chars), _, ?_,
    Initializer.readList_eq_some hc hfills⟩
  have hdeclaration : declaration.chars =
      List.replicate (4 * declaration.depth) ' ' ++ declaration.text.toList ++ ['\n'] := rfl
  simp [render, hdeclaration, hlast]

end Emit

/-! ### Opcodes in generated sources -/

namespace Opcode

theorem Spelled.source_ne_nil {o : Opcode} (h : o.Spelled) : o.source.toList ≠ [] := by
  intro he
  cases o with
  | literal value text =>
    rw [Spelled, show text.toList = [] from he] at h
    cases h
  | symbol name =>
    have hs := h.2
    rw [Symbol.isSymbol, show name.toList = [] from he] at hs
    cases hs

/-- The source of an opcode is a word of an initializer. -/
theorem Spelled.plain_source {o : Opcode} (h : o.Spelled) : Emit.Initializer.Plain o.source.toList :=
  h.isWord.plain

end Opcode

end OpcodeTables
