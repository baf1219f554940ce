import OpcodeTables.Proofs.Json.Members

/-!
# Compact lists and objects

The compact texts of a list (`SpellsList`) and of an object (`SpellsObject`), without blanks.  The members of an object
stand in any order, and members with other keys may stand between them.  A reader for lists or records takes them from
all these texts, if the readers of the parts do so (`takes_spelledList`, `takes_spelledObject`).
-/

namespace OpcodeTables.Json

open Utf8 (ofChars)

/-- The spellings of a list. -/
def SpellsList {α : Type} (P : α → List Char → Prop) (as : List α) (cs : List Char) : Prop :=
  ∃ elements, List.Forall₂ P as elements ∧ cs = enclosed '[' ']' elements

/-- A member of an object: its key, a spelling of the key and the text of its value. -/
structure Entry where
  key : String
  spelling : List Char
  value : List Char

namespace Entry

def text (e : Entry) : List Char :=
  e.spelling ++ ':' :: e.value

def pair (e : Entry) : String × List Char :=
  (e.key, e.value)

end Entry

/-- A key, and the texts that its value may have. -/
abbrev Field : Type :=
  String × (List Char → Prop)

inductive Field.Admits : Field → String × List Char → Prop
  | intro {key : String} {P : List Char → Prop} {value : List Char} (h : P value) : Admits (key, P) (key, value)

/-- The spellings of an object: a member for each field and any values under other keys, in any order. -/
def SpellsObject (fields : List Field) (cs : List Char) : Prop :=
  ∃ (entries : List Entry) (known extra : List (String × List Char)),
    List.Forall₂ Field.Admits fields known ∧
    (∀ m ∈ extra, m.1 ∉ fields.map (·.1) ∧ IsValue m.2) ∧
    (entries.map Entry.pair).Perm (known ++ extra) ∧
    (∀ e ∈ entries, SpellsText e.key e.spelling) ∧
    cs = enclosed '{' '}' (entries.map Entry.text)

/-- A list has a spelling if its elements have. -/
theorem exists_spellsList {α : Type} {P : α → List Char → Prop} {as : List α} (h : ∀ a ∈ as, ∃ cs, P a cs) :
    ∃ cs, SpellsList P as cs := by
  have helements : ∃ elements, List.Forall₂ P as elements := by
    induction as with
    | nil => exact ⟨[], .nil⟩
    | cons a as ih =>
      obtain ⟨cs, hcs⟩ := h a List.mem_cons_self
      obtain ⟨elements, helements⟩ := ih fun b hb => h b (List.mem_cons_of_mem a hb)
      exact ⟨cs :: elements, .cons hcs helements⟩
  obtain ⟨elements, helements⟩ := helements
  exact ⟨_, elements, helements, rfl⟩

/-- A member with its key written. -/
def Entry.written (m : String × List Char) : Entry :=
  ⟨m.1, writtenText m.1, m.2⟩

theorem spellsObject_written {fields : List Field} {known members : List (String × List Char)}
    (extra : List (String × List Char)) (hknown : List.Forall₂ Field.Admits fields known)
    (hextra : ∀ m ∈ extra, m.1 ∉ fields.map (·.1) ∧ IsValue m.2) (hperm : members.Perm (known ++ extra)) :
    SpellsObject fields (enclosed '{' '}' ((members.map Entry.written).map Entry.text)) := by
  have hpairs : (members.map Entry.written).map Entry.pair = members := by
    rw [List.map_map]
    exact List.map_id members
  refine ⟨members.map Entry.written, known, extra, hknown, hextra, by rwa [hpairs], fun e he => ?_, rfl⟩
  obtain ⟨m, -, rfl⟩ := List.mem_map.1 he
  exact spellsText_writtenText m.1

/-- An object has a spelling if its values have. -/
theorem exists_spellsObject {fields : List Field} (h : ∀ field ∈ fields, ∃ cs, field.2 cs) :
    ∃ cs, SpellsObject fields cs := by
  have hknown : ∃ known, List.Forall₂ Field.Admits fields known := by
    induction fields with
    | nil => exact ⟨[], .nil⟩
    | cons field fields ih =>
      obtain ⟨cs, hcs⟩ := h field List.mem_cons_self
      obtain ⟨known, hknown⟩ := ih fun f hf => h f (List.mem_cons_of_mem field hf)
      exact ⟨(field.1, cs) :: known, .cons ⟨hcs⟩ hknown⟩
  obtain ⟨known, hknown⟩ := hknown
  exact ⟨_, spellsObject_written [] hknown (by simp) (List.Perm.refl _)⟩

namespace Reader

/-- If the reader takes every spelling of an element as something that stands for it, the elements of a list are taken
as such. -/
theorem takes_spelledList {α β : Type} {r : Reader β} {depth : Nat} {P : α → List Char → Prop} {Q : β → α → Prop}
    {as : List α} {cs : List Char}
    (h : ∀ a ∈ as, ∀ cs, P a cs → ∃ b, r.Takes depth (ofChars cs) b ∧ Q b a) (hcs : SpellsList P as cs) :
    ∃ bs, (list r).Takes (depth + 1) (ofChars cs) bs ∧ List.Forall₂ Q bs as := by
  obtain ⟨elements, hspells, rfl⟩ := hcs
  have helements : ∃ bs, List.Forall₂ (r.Takes depth) (elements.map ofChars) bs ∧ List.Forall₂ Q bs as := by
    induction hspells with
    | nil => exact ⟨[], .nil, .nil⟩
    | @cons a cs as elements ha _ ih =>
      obtain ⟨b, htakes, hb⟩ := h a List.mem_cons_self cs ha
      obtain ⟨bs, hall, hbs⟩ := ih fun a' ha' => h a' (List.mem_cons_of_mem a ha')
      exact ⟨b :: bs, .cons htakes hall, .cons hb hbs⟩
  obtain ⟨bs, hall, hbs⟩ := helements
  rw [ofChars_enclosed (by decide) (by decide)]
  exact ⟨bs, takes_list hall blank_nil blank_nil, hbs⟩

/-- A record is taken from every spelling of an object with its names as the keys, if its members are taken. -/
theorem takes_spelledObject {fields : List Field} {cs : List Char} (hkeys : (fields.map (·.1)).Nodup)
    (hcs : SpellsObject fields cs) :
    ∃ known : List (String × List Char), List.Forall₂ Field.Admits fields known ∧
      ∀ {as : List Type} {title : String} {ms : Members as} {depth : Nat} {vs : Values as},
        fields.map (·.1) = ms.names → ms.Takes depth (known.map fun m => (m.1, ofChars m.2)) vs →
        (record title ms).Takes (depth + 1) (ofChars cs) vs := by
  obtain ⟨entries, known, extra, hknown, hextra, hperm, hspells, rfl⟩ := hcs
  refine ⟨known, hknown, fun {as title ms depth vs} hfields hvs => ?_⟩
  let member (e : Entry) : Member := ⟨e.key, e.spelling, ofChars e.value⟩
  have hbytes : (entries.map Entry.text).map ofChars = (entries.map member).map (Member.bytes []) := by
    rw [List.map_map, List.map_map]
    refine List.map_congr_left fun e _ => ?_
    simp only [Function.comp, Entry.text, Utf8.ofChars_append]
    rw [Utf8.ofChars_cons_ascii (by decide)]
    rfl
  have hpairs : ((entries.map member).map fun m => (m.key, m.value)).Perm
      (known.map (fun m => (m.1, ofChars m.2)) ++ extra.map fun m => (m.1, ofChars m.2)) := by
    have hmap := hperm.map fun m : String × List Char => (m.1, ofChars m.2)
    rw [List.map_append, List.map_map] at hmap
    rw [List.map_map]
    exact hmap
  rw [ofChars_enclosed (by decide) (by decide), hbytes]
  refine takes_object hvs (hfields ▸ hkeys) (fun m hm => ?_) hpairs (fun m hm => ?_) blank_nil blank_nil blank_nil
  · obtain ⟨x, hx, rfl⟩ := List.mem_map.1 hm
    obtain ⟨hkey, hvalue⟩ := hextra x hx
    exact ⟨hfields ▸ hkey, hvalue.skips⟩
  · obtain ⟨e, he, rfl⟩ := List.mem_map.1 hm
    exact hspells e he

end Reader

end OpcodeTables.Json
