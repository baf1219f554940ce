import OpcodeTables.Document.Content
import OpcodeTables.Proofs.Json.Compact
import OpcodeTables.Proofs.Names

/-!
# Documents that spell a description

The compact JSON texts of a description (`Description.Spells`): its members in any order, others between them that mean
nothing, texts with any escapes, codes and opcodes as numbers or as texts.  Whatever the text is, the description is
loaded from it (`Description.load_spelled`).  Each record is read as something raw that passes its checks, wherever it
stands in its list, and becomes the record that was spelled.
-/

namespace OpcodeTables

open Json (Entry IsDigits IsNumber IsText IsValue Leaf Reader Scalar SpellsList SpellsObject SpellsText enclosed
  exists_spellsList exists_spellsObject spellsObject_written writtenText)
open Json.Reader (Takes takes_boolean takes_scalar takes_spelled takes_spelledList takes_spelledObject)
open Utf8 (ofChars)

/-! ### Spellings -/

/-- A code is a number, a text of decimal digits, or one of hexadecimal digits behind `0x`. -/
inductive SpellsCode (code : UInt8) : List Char → Prop
  | number : SpellsCode code (Text.decimal code.toNat).toList
  | decimal {t : String} {cs : List Char} (ne_nil : t.toList ≠ []) (digits : ∀ c ∈ t.toList, c.isDigit)
    (value : Nat.ofDigitChars 10 t.toList 0 = code.toNat) (text : SpellsText t cs) : SpellsCode code cs
  | hex (ds : List Char) {cs : List Char} (ne_nil : ds ≠ []) (value : Integer.value? 16 ds = some code.toNat)
    (text : SpellsText (String.ofList ('0' :: 'x' :: ds)) cs) : SpellsCode code cs

/-- An opcode is the text of its source, or a number if its source is the decimal numeral of its value. -/
inductive SpellsOpcode : Opcode → List Char → Prop
  | text {o : Opcode} {cs : List Char} (text : SpellsText o.source cs) : SpellsOpcode o cs
  | number (value : UInt8) : SpellsOpcode (.ofByte value) (Text.decimal value.toNat).toList

/-- A flag is `true` or `false`. -/
def SpellsFlag (b : Bool) (cs : List Char) : Prop :=
  cs = (toString b).toList

namespace Description

def Register.Spells (r : Register) : List Char → Prop :=
  SpellsObject [("name", SpellsText r.name), ("bytecode", SpellsCode r.code)]

def Variant.Spells (v : Variant) : List Char → Prop :=
  SpellsObject [("type", SpellsText v.type), ("opcode", SpellsOpcode v.opcode)]

def Form.Spells (f : Form) : List Char → Prop :=
  SpellsObject [("opcode", SpellsOpcode f.opcode), ("encodeType", SpellsFlag f.encodeType),
    ("params", SpellsList SpellsText f.params), ("typeVariants", SpellsList Variant.Spells f.variants)]

def Instruction.Spells (x : Instruction) : List Char → Prop :=
  SpellsObject [("name", SpellsText x.name), ("paramList", SpellsList Form.Spells x.forms)]

/-- The compact JSON texts of a description. -/
def Spells (d : Description) : List Char → Prop :=
  SpellsObject [("registers", SpellsList Register.Spells d.registers),
    ("instructions", SpellsList Instruction.Spells d.instructions)]

end Description

/-- A traversal whose steps succeed with given results succeeds with them. -/
theorem Indexed.traverse_of_forall₂ {α β ε : Type} {f : Nat → α → Except ε β} {as : List α} {bs : List β}
    (h : List.Forall₂ (fun a b => ∀ i, f i a = .ok b) as bs) (i : Nat) : traverse f i as = .ok bs := by
  induction h generalizing i with
  | nil => rfl
  | cons hstep _ ih => exact traverse_cons_eq_ok_iff.2 ⟨_, _, hstep i, ih (i + 1), rfl⟩

namespace Document

/-! ### Numbers and texts -/

private theorem checkCode_text {t : String} {code : UInt8} (h : Integer.read? t.toList = some code.toNat) :
    checkCode (.text t) = .ok code := by
  simp [checkCode, checkCode.ofNat, Integer.trim_of_read? h, h, code.toNat_lt]

theorem takes_code {code : UInt8} {cs : List Char} (h : SpellsCode code cs) :
    ∃ s, Reader.scalar.Takes 0 (ofChars cs) s ∧ checkCode s = .ok code := by
  have hlt := code.toNat_lt
  cases h with
  | number =>
    refine ⟨.natural code.toNat, takes_scalar (Leaf.reads_decimal (by omega)) rfl, ?_⟩
    simp [checkCode, checkCode.ofNat, hlt]
  | decimal ne_nil digits value text =>
    have hread := Integer.read?_of_isDigit ne_nil digits (by omega)
    rw [value] at hread
    exact ⟨.text _, takes_scalar (Leaf.reads_text text) rfl, checkCode_text hread⟩
  | hex ds ne_nil value text =>
    have hread := Integer.read?_of_hex ne_nil value (by omega)
    rw [← String.toList_ofList (l := _ :: _)] at hread
    exact ⟨.text _, takes_scalar (Leaf.reads_text text) rfl, checkCode_text hread⟩

theorem takes_opcode {o : Opcode} {cs : List Char} (h : SpellsOpcode o cs) (hparse : Opcode.parse o.source = .ok o) :
    ∃ s, Reader.scalar.Takes 0 (ofChars cs) s ∧ checkOpcode s = .ok o := by
  cases h with
  | text text =>
    refine ⟨.text o.source, takes_scalar (Leaf.reads_text text) rfl, ?_⟩
    rw [checkOpcode, hparse]
    rfl
  | number value =>
    have hlt := value.toNat_lt
    refine ⟨.natural value.toNat, takes_scalar (Leaf.reads_decimal (by omega)) rfl, ?_⟩
    simp [checkOpcode, hlt]

/-! ### Records -/

theorem Register.takes {r : Description.Register} {cs : List Char} (h : r.Spells cs)
    (hname : checkName r.name = .ok r.name) :
    ∃ raw, reader.Takes 1 (ofChars cs) raw ∧ ∀ i, raw.check i = .ok r := by
  obtain ⟨known, hknown, htakes⟩ := takes_spelledObject (by simp) h
  obtain _ | ⟨⟨name⟩, _ | ⟨⟨code⟩, _ | _⟩⟩ := hknown
  obtain ⟨s, hs, hcode⟩ := takes_code code
  refine ⟨⟨r.name, s⟩, Takes.map (a := (r.name, s, ()))
    (htakes rfl (.cons (takes_spelled name) <| .cons hs .nil)) _, fun i => ?_⟩
  exact bind_eq_ok_iff.2 ⟨_, mapError_eq_ok_iff.2 hname, bind_eq_ok_iff.2 ⟨_, mapError_eq_ok_iff.2 hcode, rfl⟩⟩

theorem Variant.takes {v : Description.Variant} {cs : List Char} (h : v.Spells cs)
    (hparse : Opcode.parse v.opcode.source = .ok v.opcode) :
    ∃ raw, reader.Takes 1 (ofChars cs) raw ∧ ∀ p, raw.check p = .ok v := by
  obtain ⟨known, hknown, htakes⟩ := takes_spelledObject (by simp) h
  obtain _ | ⟨⟨type⟩, _ | ⟨⟨opcode⟩, _ | _⟩⟩ := hknown
  obtain ⟨s, hs, hopcode⟩ := takes_opcode opcode hparse
  refine ⟨⟨v.type, s⟩, Takes.map (a := (v.type, s, ()))
    (htakes rfl (.cons (takes_spelled type) <| .cons hs .nil)) _, fun p => ?_⟩
  exact bind_eq_ok_iff.2 ⟨_, mapError_eq_ok_iff.2 hopcode, rfl⟩

theorem Form.takes {f : Description.Form} {cs : List Char} (h : f.Spells cs)
    (hparse : ∀ o ∈ f.opcodes, Opcode.parse o.source = .ok o) :
    ∃ raw, reader.Takes 3 (ofChars cs) raw ∧ ∀ i name j, raw.check i name j = .ok f := by
  obtain ⟨known, hknown, htakes⟩ := takes_spelledObject (by simp) h
  obtain _ | ⟨⟨opcode⟩, _ | ⟨⟨flag⟩, _ | ⟨⟨params⟩, _ | ⟨⟨variants⟩, _ | _⟩⟩⟩⟩ := hknown
  obtain ⟨s, hs, hopcode⟩ := takes_opcode opcode (hparse _ List.mem_cons_self)
  obtain rfl := flag
  obtain ⟨ps, hps, hparams⟩ := takes_spelledList (Q := Eq) (fun t _ cs ht => ⟨t, takes_spelled ht, rfl⟩) params
  obtain rfl : ps = f.params := List.forall₂_eq_eq_eq ▸ hparams
  obtain ⟨vs, hvs, hvariants⟩ := takes_spelledList (Q := fun raw v => ∀ p, Variant.check p raw = .ok v)
    (fun v hv cs hcs => Variant.takes hcs (hparse _ (List.mem_cons_of_mem _ (List.mem_map_of_mem hv)))) variants
  refine ⟨⟨s, f.encodeType, f.params, vs⟩, Takes.map (a := (s, f.encodeType, f.params, vs, ()))
    (htakes rfl (.cons (hs.mono (by decide)) <| .cons ((takes_boolean _).mono (by decide)) <|
      .cons (hps.mono (by decide)) <| .cons hvs .nil)) _, fun i name j => ?_⟩
  have hchecks : Indexed.traverse (fun k v => v.check (.variantOpcode i name j k)) 0 vs = .ok f.variants :=
    Indexed.traverse_of_forall₂ (hvariants.imp fun _ _ h k => h _) 0
  exact bind_eq_ok_iff.2 ⟨_, mapError_eq_ok_iff.2 hopcode, bind_eq_ok_iff.2 ⟨_, hchecks, rfl⟩⟩

theorem Instruction.takes {x : Description.Instruction} {cs : List Char} (h : x.Spells cs)
    (hname : checkName x.name = .ok x.name)
    (hparse : ∀ f ∈ x.forms, ∀ o ∈ f.opcodes, Opcode.parse o.source = .ok o) :
    ∃ raw, reader.Takes 5 (ofChars cs) raw ∧ ∀ i, raw.check i = .ok x := by
  obtain ⟨known, hknown, htakes⟩ := takes_spelledObject (by simp) h
  obtain _ | ⟨⟨name⟩, _ | ⟨⟨forms⟩, _ | _⟩⟩ := hknown
  obtain ⟨fs, hfs, hforms⟩ := takes_spelledList (Q := fun raw f => ∀ i name j, Form.check i name j raw = .ok f)
    (fun f hf cs hcs => Form.takes hcs (hparse f hf)) forms
  refine ⟨⟨x.name, fs⟩, Takes.map (a := (x.name, fs, ()))
    (htakes rfl (.cons ((takes_spelled name).mono (by decide)) <| .cons hfs .nil)) _, fun i => ?_⟩
  have hchecks : Indexed.traverse (fun j f => f.check i x.name j) 0 fs = .ok x.forms :=
    Indexed.traverse_of_forall₂ (hforms.imp fun _ _ h j => h i x.name j) 0
  exact bind_eq_ok_iff.2 ⟨_, mapError_eq_ok_iff.2 hname, bind_eq_ok_iff.2 ⟨_, hchecks, rfl⟩⟩

end Document

/-! ### Descriptions -/

namespace Description

private theorem exists_spellsText (t : String) : ∃ cs, SpellsText t cs :=
  ⟨_, Json.spellsText_writtenText t⟩

private theorem exists_spellsOpcode (o : Opcode) : ∃ cs, SpellsOpcode o cs :=
  ⟨_, .text (Json.spellsText_writtenText o.source)⟩

/-- Every description can be written down. -/
theorem exists_spells (d : Description) : ∃ cs, d.Spells cs := by
  have hregister : ∀ r : Register, ∃ cs, r.Spells cs := fun r =>
    exists_spellsObject (by simpa using ⟨exists_spellsText r.name, _, SpellsCode.number⟩)
  have hvariant : ∀ v : Variant, ∃ cs, v.Spells cs := fun v =>
    exists_spellsObject (by simpa using ⟨exists_spellsText v.type, exists_spellsOpcode v.opcode⟩)
  have hform : ∀ f : Form, ∃ cs, f.Spells cs := fun f =>
    exists_spellsObject (by simpa using ⟨exists_spellsOpcode f.opcode, ⟨_, rfl⟩,
      exists_spellsList fun t _ => exists_spellsText t, exists_spellsList fun v _ => hvariant v⟩)
  have hinstruction : ∀ x : Instruction, ∃ cs, x.Spells cs := fun x =>
    exists_spellsObject (by simpa using ⟨exists_spellsText x.name, exists_spellsList fun f _ => hform f⟩)
  exact exists_spellsObject (by simpa using
    ⟨exists_spellsList fun r _ => hregister r, exists_spellsList fun x _ => hinstruction x⟩)

private theorem load_of_spells {d : Description} (hnames : ∀ name ∈ d.names, Document.checkName name = .ok name)
    (hopcodes : ∀ o ∈ d.opcodes, Opcode.parse o.source = .ok o) {text : String} (h : d.Spells text.toList) :
    load (Utf8.encode text) = .ok d := by
  obtain ⟨known, hknown, htakes⟩ := takes_spelledObject (by simp) h
  obtain _ | ⟨⟨registers⟩, _ | ⟨⟨instructions⟩, _ | _⟩⟩ := hknown
  obtain ⟨rs, hrs, hregisters⟩ := takes_spelledList (Q := fun raw r => ∀ i, Document.Register.check i raw = .ok r)
    (fun r hr cs hcs => Document.Register.takes hcs
      (hnames r.name (List.mem_append_left _ (List.mem_map_of_mem hr)))) registers
  obtain ⟨xs, hxs, hinstructions⟩ := takes_spelledList
    (Q := fun raw x => ∀ i, Document.Instruction.check i raw = .ok x)
    (fun x hx cs hcs => Document.Instruction.takes hcs
      (hnames x.name (List.mem_append_right _ (List.mem_map_of_mem hx)))
      fun f hf o ho => hopcodes o (List.mem_flatMap.2 ⟨x, hx, List.mem_flatMap.2 ⟨f, hf, ho⟩⟩)) instructions
  have hreader : Document.reader.Takes 7 (ofChars text.toList) ⟨rs, xs⟩ :=
    Takes.map (a := (rs, xs, ())) (htakes rfl (.cons (hrs.mono (by decide)) <| .cons hxs .nil)) _
  have hread : Document.read (Utf8.encode text) = .ok ⟨rs, xs⟩ := by
    have hall := hreader.readAll_eq_ok (by decide) Json.blank_nil
    rwa [List.append_nil, ofChars, ← Utf8.encode_eq_flatMap] at hall
  have hcheck : Document.check ⟨rs, xs⟩ = .ok d :=
    bind_eq_ok_iff.2 ⟨_, Indexed.traverse_of_forall₂ hregisters 0,
      bind_eq_ok_iff.2 ⟨_, Indexed.traverse_of_forall₂ hinstructions 0, rfl⟩⟩
  simp only [load, hread, hcheck, Except.mapError]

/-- A description with names that pass their check and opcodes that are parsed from their own sources can be written
down, and it is loaded from every compact JSON text that spells it. -/
theorem load_spelled {d : Description} (hnames : ∀ name ∈ d.names, Document.checkName name = .ok name)
    (hopcodes : ∀ o ∈ d.opcodes, Opcode.parse o.source = .ok o) :
    (∃ text : String, d.Spells text.toList) ∧
      ∀ text : String, d.Spells text.toList → load (Utf8.encode text) = .ok d := by
  obtain ⟨cs, hcs⟩ := d.exists_spells
  exact ⟨⟨String.ofList cs, by rwa [String.toList_ofList]⟩, fun text h => load_of_spells hnames hopcodes h⟩

/-- Members out of order, a key with an escape, a code in hexadecimal, an opcode as a number, and a member that means
nothing, with a number beyond all bounds in it. -/
theorem load_spelled_reordered :
    let d : Description :=
      { registers := [⟨"r0", 31⟩], instructions := [⟨"mov", [⟨.ofByte 7, true, ["é"], []⟩]⟩] }
    let text := "\x7b\"x\":[1e999,\x7b\"\":null\x7d],\"instructions\":[\x7b\"paramList\":[\x7b\"typeVariants\":[]," ++
      "\"params\":[\"\\u00e9\"],\"encodeType\":true,\"opcode\":7\x7d],\"name\":\"mov\"\x7d]," ++
      "\"\\u0072egisters\":[\x7b\"bytecode\":\"0x1F\",\"name\":\"r0\"\x7d]\x7d"
    (∀ name ∈ d.names, Document.checkName name = .ok name) ∧ (∀ o ∈ d.opcodes, Opcode.parse o.source = .ok o) ∧
      d.Spells text.toList ∧ load (Utf8.encode text) = .ok d := by
  intro d text
  have hnames : ∀ name ∈ d.names, Document.checkName name = .ok name := by
    decide
  have hopcodes : ∀ o ∈ d.opcodes, Opcode.parse o.source = .ok o := by
    decide
  have written : ∀ t : String, SpellsText t (writtenText t) := Json.spellsText_writtenText
  let list (parts : List (List Char)) : List Char := enclosed '[' ']' parts
  let object (members : List (String × List Char)) : List Char :=
    enclosed '\x7b' '\x7d' ((members.map Entry.written).map Entry.text)
  -- the members of each object stand in reverse order
  let register := object [("bytecode", writtenText "0x1F"), ("name", writtenText "r0")]
  have hregister : Register.Spells ⟨"r0", 31⟩ register :=
    spellsObject_written []
      (.cons ⟨written "r0"⟩ <| .cons ⟨.hex ['1', 'F'] (by decide) (by decide) (written "0x1F")⟩ .nil)
      (by simp) (List.reverse_perm [_, _])
  let param := ['"', '\\', 'u', '0', '0', 'e', '9', '"']
  have hparam : SpellsText "é" param :=
    ⟨[['\\', 'u', '0', '0', 'e', '9']],
      show List.Forall₂ Json.SpellsChar ['é'] _ from .cons (.unit (by decide)) .nil, rfl⟩
  let form := object [("typeVariants", list []), ("params", list [param]), ("encodeType", "true".toList),
    ("opcode", (Text.decimal 7).toList)]
  have hform : Form.Spells ⟨.ofByte 7, true, ["é"], []⟩ form :=
    spellsObject_written []
      (.cons ⟨.number 7⟩ <| .cons ⟨rfl⟩ <| .cons ⟨_, .cons hparam .nil, rfl⟩ <|
        .cons ⟨[], .nil, rfl⟩ .nil)
      (by simp) (List.reverse_perm [_, _, _, _])
  let instruction := object [("paramList", list [form]), ("name", writtenText "mov")]
  have hinstruction : Instruction.Spells ⟨"mov", [⟨.ofByte 7, true, ["é"], []⟩]⟩ instruction :=
    spellsObject_written [] (.cons ⟨written "mov"⟩ <| .cons ⟨_, .cons hform .nil, rfl⟩ .nil) (by simp)
      (List.reverse_perm [_, _])
  have hnumber : IsNumber ['1', 'e', '9', '9', '9'] :=
    ⟨[], ['1'], [], ['e', '9', '9', '9'], by simp, by simp [IsDigits], by simp, .inl rfl,
      .inr ⟨'e', [], ['9', '9', '9'], by simp, by simp, by simp [IsDigits], rfl⟩, rfl⟩
  have hmap : IsValue (object [("", ['n', 'u', 'l', 'l'])]) :=
    .map [(['"', '"'], ['n', 'u', 'l', 'l'])] (by simpa using ⟨[], by simp, rfl⟩) (by simpa using .null)
  have hextra : IsValue (list [['1', 'e', '9', '9', '9'], object [("", ['n', 'u', 'l', 'l'])]]) :=
    .list (by simpa using ⟨.number hnumber, hmap⟩)
  let key := ['"', '\\', 'u', '0', '0', '7', '2', 'e', 'g', 'i', 's', 't', 'e', 'r', 's', '"']
  let plain := ['e', 'g', 'i', 's', 't', 'e', 'r', 's']
  have hplain : ∀ c ∈ plain, c ≠ '"' ∧ c ≠ '\\' ∧ 0x20 ≤ c.toNat := by
    simp [plain]
  have hkey : SpellsText "registers" key :=
    ⟨['\\', 'u', '0', '0', '7', '2'] :: plain.map fun c => [c],
      .cons (.unit (by decide)) (List.forall₂_map_right_iff.2 (List.forall₂_same.2 fun c hc =>
        .plain (hplain c hc).1 (hplain c hc).2.1 (hplain c hc).2.2)), rfl⟩
  let extra := list [['1', 'e', '9', '9', '9'], object [("", ['n', 'u', 'l', 'l'])]]
  let entries : List Entry := [.written ("x", extra), .written ("instructions", list [instruction]),
    ⟨"registers", key, list [register]⟩]
  have hobject : d.Spells (enclosed '\x7b' '\x7d' (entries.map Entry.text)) :=
    ⟨entries, [("registers", list [register]), ("instructions", list [instruction])], [("x", extra)],
      .cons ⟨[register], .cons hregister .nil, rfl⟩ <| .cons ⟨[instruction], .cons hinstruction .nil, rfl⟩ .nil,
      by simpa using hextra, List.reverse_perm [_, _, _],
      by simpa [entries, Entry.written, written] using hkey, rfl⟩
  have htext : text.toList = enclosed '\x7b' '\x7d' (entries.map Entry.text) := by
    rw [String.toList_append, String.toList_append]
    decide +kernel
  have hspells : d.Spells text.toList := htext ▸ hobject
  exact ⟨hnames, hopcodes, hspells, (load_spelled hnames hopcodes).2 text hspells⟩

end Description

end OpcodeTables
