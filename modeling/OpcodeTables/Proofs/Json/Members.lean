import OpcodeTables.Checks
import OpcodeTables.Json.Record
import OpcodeTables.Json.Variant
import OpcodeTables.Proofs.Json.Skipped

/-!
# What records and variants are taken from

A record is taken from a map with its members in any order and others between them that nobody reads (`takes_object`).
The slots hold the values of the members that have been read (`Members.filled`); each member fills its slot or leaves
all slots alone (`Fills`), and no slot is filled twice.  A variant is taken from its name, or from a map with its name
as the only key (`takes_bare`, `takes_content`).
-/

namespace OpcodeTables.Json

open Utf8 (ofChars)

/-- A member of a map: its key, a spelling of the key and the bytes of its value. -/
structure Member where
  key : String
  spelling : List Char
  value : List UInt8

/-- The bytes of a member, with the blanks `gap` after its colon. -/
def Member.bytes (gap : List UInt8) (m : Member) : List UInt8 :=
  ofChars m.spelling ++ colon :: (gap ++ m.value)

/-- A member of a map: its key, a colon, the blanks `gap` and the bytes of its value. -/
def memberBytes (gap : List UInt8) (m : String × List UInt8) : List UInt8 :=
  ofChars (writtenText m.1) ++ colon :: (gap ++ m.2)

/-- Where the key is spelled, it is read and its colon follows. -/
private theorem Member.bytes_eq {m : Member} (h : SpellsText m.key m.spelling) (gap : List UInt8) :
    ∃ bs, m.bytes gap = quoteMark :: bs ∧
      ∀ s, readText (bs ++ s) = .ok (m.key, colon :: (gap ++ (m.value ++ s))) := by
  obtain ⟨bs, hbs, hread⟩ := h.readText_eq
  refine ⟨bs ++ colon :: (gap ++ m.value), ?_, fun s => ?_⟩
  · rw [bytes, hbs, List.cons_append]
  · rw [List.append_assoc, hread]
    simp

private theorem takeColon_colon (s : List UInt8) : takeColon (colon :: s) = .ok s := by
  simp [takeColon, dropBlanks_cons_of_not (show isBlank colon = false by decide)]

/-! ### Slots -/

/-- The slots of a record that has been read. -/
def Slots.full : {as : List Type} → Values as → Slots as
  | [], _ => ()
  | _ :: _, (a, vs) => (some a, full vs)

namespace Members

theorem values_full {as : List Type} (ms : Members as) (vs : Values as) : ms.values (Slots.full vs) = .ok vs := by
  induction ms with
  | nil => rfl
  | cons name r rest ih =>
    obtain ⟨a, vs⟩ := vs
    simp only [values, Slots.full, ih]
    rfl

/-- The slots of a record when the members `read` have been read. -/
def filled {as : List Type} : Members as → Values as → (read : List String) → Slots as
  | nil, _, _ => ()
  | cons name _ rest, (a, vs), read => (if name ∈ read then some a else none, rest.filled vs read)

theorem filled_nil {as : List Type} (ms : Members as) (vs : Values as) : ms.filled vs [] = Slots.empty as := by
  induction ms with
  | nil => rfl
  | cons name r rest ih =>
    obtain ⟨a, vs⟩ := vs
    simp only [filled, Slots.empty, List.not_mem_nil, ↓reduceIte, ih]
    rfl

theorem filled_eq_full {as : List Type} {ms : Members as} {read : List String} (h : ∀ name ∈ ms.names, name ∈ read)
    (vs : Values as) : ms.filled vs read = Slots.full vs := by
  induction ms with
  | nil => rfl
  | cons name r rest ih =>
    obtain ⟨a, vs⟩ := vs
    have hname : name ∈ read := h name List.mem_cons_self
    simp only [filled, Slots.full, hname, ↓reduceIte, ih fun n hn => h n (List.mem_cons_of_mem name hn)]
    rfl

/-- A key that names no member fills no slot. -/
theorem filled_cons_of_not_mem {as : List Type} {ms : Members as} {key : String} (h : key ∉ ms.names) (vs : Values as)
    (read : List String) : ms.filled vs (key :: read) = ms.filled vs read := by
  induction ms with
  | nil => rfl
  | cons name r rest ih =>
    obtain ⟨a, vs⟩ := vs
    rw [names, List.mem_cons, not_or] at h
    simp only [filled, List.mem_cons, Ne.symm h.1, false_or, ih h.2]
    rfl

theorem slot?_of_not_mem {as : List Type} {ms : Members as} {key : String} (h : key ∉ ms.names) (xs : Slots as) :
    ms.slot? key xs = .ok none := by
  induction ms with
  | nil => rfl
  | cons name r rest ih =>
    obtain ⟨x, xs⟩ := xs
    rw [names, List.mem_cons, not_or] at h
    simp only [slot?, h.1, ↓reduceIte, ih h.2]
    rfl

/-- The members of a map, in the declared order, hold the values of a record. -/
inductive Takes (depth : Nat) : {as : List Type} → Members as → List (String × List UInt8) → Values as → Prop
  | nil : Takes depth .nil [] ()
  | cons {α : Type} {as : List Type} {name : String} {r : Reader α} {bs : List UInt8} {a : α} {rest : Members as}
    {mems : List (String × List UInt8)} {vs : Values as} (head : r.Takes depth bs a) (tail : Takes depth rest mems vs) :
    Takes depth (.cons name r rest) ((name, bs) :: mems) (a, vs)

theorem Takes.keys {depth : Nat} {as : List Type} {ms : Members as} {mems : List (String × List UInt8)}
    {vs : Values as} (h : ms.Takes depth mems vs) : mems.map (·.1) = ms.names := by
  induction h with
  | nil => rfl
  | cons head tail ih => simp [names, ih]

/-- A member that has not been read fills its slot. -/
theorem Takes.slot?_filled {depth : Nat} {as : List Type} {ms : Members as} {mems : List (String × List UInt8)}
    {vs : Values as} (h : ms.Takes depth mems vs) (hnames : ms.names.Nodup) {key : String} {bs : List UInt8}
    (hmem : (key, bs) ∈ mems) {read : List String} (hread : key ∉ read) :
    ∃ r, ms.slot? key (ms.filled vs read) = .ok (some r) ∧ r.Takes depth bs (ms.filled vs (key :: read)) := by
  induction h with
  | nil => simp at hmem
  | @cons α as name r bs' a rest mems vs head tail ih =>
    rw [names, List.nodup_cons] at hnames
    simp only [filled, slot?]
    rcases List.mem_cons.1 hmem with heq | hmem
    · obtain ⟨rfl, rfl⟩ := Prod.mk.inj heq
      simp only [hread, ↓reduceIte, List.mem_cons, true_or, filled_cons_of_not_mem hnames.1]
      exact ⟨_, rfl, head.map _⟩
    · have hkey : key ∈ rest.names := tail.keys ▸ List.mem_map_of_mem (f := (·.1)) hmem
      have hne : key ≠ name := by
        rintro rfl
        exact hnames.1 hkey
      obtain ⟨r', hslot, htakes⟩ := ih hnames.2 hmem
      simp only [hne, hne.symm, ↓reduceIte, hslot, List.mem_cons, false_or]
      exact ⟨_, rfl, htakes.map _⟩

/-- A member of a map turns some slots into others: its value is read into its slot, or skipped. -/
inductive Fill {as : List Type} (ms : Members as) (depth : Nat) (m : Member) : Slots as → Slots as → Prop
  | read {xs ys : Slots as} {r : Reader (Slots as)} (slot : ms.slot? m.key xs = .ok (some r))
    (value : r.Takes depth m.value ys) : Fill ms depth m xs ys
  | skip {xs : Slots as} (slot : ms.slot? m.key xs = .ok none) (value : Skips m.value) : Fill ms depth m xs xs

/-- The members of a map, one after the other, turn some slots into others. -/
inductive Fills {as : List Type} (ms : Members as) (depth : Nat) : Slots as → List Member → Slots as → Prop
  | nil {xs : Slots as} : Fills ms depth xs [] xs
  | cons {xs ys zs : Slots as} {m : Member} {mems : List Member} (key : SpellsText m.key m.spelling)
    (fill : ms.Fill depth m xs ys) (rest : Fills ms depth ys mems zs) : Fills ms depth xs (m :: mems) zs

/-- Members in any order fill all slots, if every name that is missing occurs once. -/
theorem Takes.fills {depth : Nat} {as : List Type} {ms : Members as} {known : List (String × List UInt8)}
    {vs : Values as} (h : ms.Takes depth known vs) (hnames : ms.names.Nodup) {mems : List Member}
    (hspells : ∀ m ∈ mems, SpellsText m.key m.spelling)
    (hmems : ∀ m ∈ mems, (m.key, m.value) ∈ known ∨ m.key ∉ ms.names ∧ Skips m.value) {read : List String}
    (hfresh : Fresh read ((mems.map (·.key)).filter (· ∈ ms.names)))
    (hall : ∀ name ∈ ms.names, name ∈ read ∨ name ∈ mems.map (·.key)) :
    Fills ms depth (ms.filled vs read) mems (Slots.full vs) := by
  induction mems generalizing read with
  | nil =>
    rw [filled_eq_full fun name hname => (hall name hname).resolve_right (by simp)]
    exact .nil
  | cons m mems ih =>
    have hkey := hspells m List.mem_cons_self
    have ih := @ih (fun m' hm' => hspells m' (List.mem_cons_of_mem m hm'))
      (fun m' hm' => hmems m' (List.mem_cons_of_mem m hm'))
    rcases hmems m List.mem_cons_self with hmem | ⟨hname, hskips⟩
    · have hname : m.key ∈ ms.names := h.keys ▸ List.mem_map_of_mem (f := (·.1)) hmem
      rw [List.map_cons, List.filter_cons_of_pos (by simpa using hname), fresh_cons] at hfresh
      obtain ⟨r, hslot, htakes⟩ := h.slot?_filled hnames hmem hfresh.1
      refine .cons hkey (.read hslot htakes) (ih hfresh.2 fun name hn => ?_)
      rcases hall name hn with hread | hrest
      · exact .inl (List.mem_cons_of_mem m.key hread)
      · rcases List.mem_cons.1 hrest with rfl | hrest
        · exact .inl List.mem_cons_self
        · exact .inr hrest
    · rw [List.map_cons, List.filter_cons_of_neg (by simpa using hname)] at hfresh
      refine .cons hkey (.skip (slot?_of_not_mem hname _) hskips) (ih hfresh fun name hn => ?_)
      refine (hall name hn).imp_right fun hrest => ?_
      rw [List.map_cons, List.mem_cons] at hrest
      refine hrest.resolve_left ?_
      rintro rfl
      exact hname hn

end Members

/-! ### Records -/

namespace Reader

private theorem members_closed {as : List Type} {ms : Members as} {room : Nat} {first : Bool} {xs : Slots as}
    {s rest : List UInt8} (hn : nextKey first s = .ok (.closed rest)) :
    members ms room first xs s = .ok (xs, rest) := by
  rw [members]
  split
  · rename_i he
    simp [hn] at he
  · rename_i he
    rw [hn] at he
    simp only [Except.ok.injEq, Next.closed.injEq] at he
    rw [he]
  · rename_i he
    simp [hn] at he

private theorem members_part {as : List Type} {ms : Members as} {room : Nat} {first : Bool} {xs ys : Slots as}
    {s t u v : List UInt8} {key : String} (hn : nextKey first s = .ok (.part t)) (hk : readText t = .ok (key, u))
    (hm : member ms room key xs u = .ok (ys, v)) : members ms room first xs s = members ms room false ys v := by
  rw [members]
  split
  · rename_i he
    simp [hn] at he
  · rename_i he
    simp [hn] at he
  · rename_i t' he
    rw [hn] at he
    simp only [Except.ok.injEq, Next.part.injEq] at he
    subst he
    split
    · rename_i hr
      simp [hk] at hr
    · rename_i hr
      rw [hk] at hr
      simp only [Except.ok.injEq, Prod.mk.injEq] at hr
      obtain ⟨rfl, rfl⟩ := hr
      split
      · rename_i hv
        simp [hm] at hv
      · rename_i hv
        rw [hm] at hv
        simp only [Except.ok.injEq, Prod.mk.injEq] at hv
        obtain ⟨rfl, rfl⟩ := hv
        rfl

private theorem nextKey_first {gap : List UInt8} (hgap : Blank gap) (s : List UInt8) :
    nextKey true (gap ++ quoteMark :: s) = .ok (.part s) := by
  rw [nextKey, dropBlanks_append hgap, dropBlanks_cons_of_not (by decide)]
  simp only [show quoteMark ≠ closeMap by decide, ↓reduceIte]

private theorem nextKey_later {gap : List UInt8} (hgap : Blank gap) (s : List UInt8) :
    nextKey false (comma :: gap ++ quoteMark :: s) = .ok (.part s) := by
  rw [List.cons_append, nextKey, dropBlanks_cons_of_not (by decide)]
  simp only [show comma ≠ closeMap by decide, ↓reduceIte, dropBlanks_append hgap, Bool.false_eq_true]
  rw [dropBlanks_cons_of_not (by decide)]
  simp only [show quoteMark ≠ closeMap by decide, ↓reduceIte]

private theorem member_eq {as : List Type} {ms : Members as} {depth room : Nat} {xs ys : Slots as} {m : Member}
    {sep s : List UInt8} (h : ms.Fill depth m xs ys) (hsep : Blank sep) (hd : depth ≤ room) (hs : Ends s) :
    member ms room m.key xs (colon :: (sep ++ (m.value ++ s))) = .ok (ys, s) := by
  cases h with
  | read slot value =>
    simp only [member, slot, takeColon_colon]
    exact value.run_eq hd hsep hs
  | skip slot value =>
    have hskip : skip (sep ++ (m.value ++ s)) = .ok s := by
      rw [skip, value.skipValue_eq hsep hs, skipRest]
    simp only [member, slot, takeColon_colon, hskip, Except.map]

/-- The next member of a map fills its slot; `lead` is what stands before its key. -/
private theorem members_bytes {as : List Type} {ms : Members as} {depth room : Nat} {first : Bool} {xs ys : Slots as}
    {m : Member} {lead sep s : List UInt8} (hkey : SpellsText m.key m.spelling) (h : ms.Fill depth m xs ys)
    (hlead : ∀ t, nextKey first (lead ++ quoteMark :: t) = .ok (.part t)) (hsep : Blank sep) (hd : depth ≤ room)
    (hs : Ends s) : members ms room first xs (lead ++ (m.bytes sep ++ s)) = members ms room false ys s := by
  obtain ⟨bs, hbs, hread⟩ := Member.bytes_eq hkey sep
  rw [hbs, List.cons_append]
  exact members_part (hlead _) (hread s) (member_eq h hsep hd hs)

private theorem members_tail {as : List Type} {ms : Members as} {depth room : Nat} {xs ys : Slots as}
    {mems : List Member} {gap sep last : List UInt8} (h : ms.Fills depth xs mems ys) (hgap : Blank gap)
    (hsep : Blank sep) (hlast : Blank last) (hd : depth ≤ room) (s : List UInt8) :
    members ms room false xs
      ((mems.map (Member.bytes sep)).flatMap (fun m => comma :: (gap ++ m)) ++ (last ++ closeMap :: s)) =
        .ok (ys, s) := by
  -- each member fills its slot before the next one is read
  induction h with
  | nil =>
    apply members_closed
    simp [nextKey, dropBlanks_append hlast, dropBlanks_cons_of_not (show isBlank closeMap = false by decide)]
  | @cons xs ys zs m mems key fill rest ih =>
    have hends := ends_flatMap (gap ++ ·) (mems.map (Member.bytes sep)) (ends_append hlast (ends_closeMap s))
    rw [List.map_cons, List.flatMap_cons, List.append_assoc, ← List.cons_append, List.append_assoc,
      members_bytes key fill (nextKey_later hgap) hsep hd hends, ih]

private theorem members_parts {as : List Type} {ms : Members as} {depth room : Nat} {xs ys : Slots as}
    {mems : List Member} {gap sep last : List UInt8} (h : ms.Fills depth xs mems ys) (hgap : Blank gap)
    (hsep : Blank sep) (hlast : Blank last) (hd : depth ≤ room) (s : List UInt8) :
    members ms room true xs (parts gap last (mems.map (Member.bytes sep)) ++ closeMap :: s) = .ok (ys, s) := by
  cases h with
  | nil =>
    apply members_closed
    simp [parts, nextKey, dropBlanks_cons_of_not (show isBlank closeMap = false by decide)]
  | @cons _ zs _ m mems key fill rest =>
    have hends := ends_flatMap (gap ++ ·) (mems.map (Member.bytes sep)) (ends_append hlast (ends_closeMap s))
    rw [List.map_cons, parts, List.append_assoc, List.append_assoc, List.append_assoc,
      members_bytes key fill (nextKey_first hgap) hsep hd hends, members_tail rest hgap hsep hlast hd]

/-- A record is taken from a map with its members in any order and members of other names that are skipped. -/
theorem takes_object {as : List Type} {title : String} {ms : Members as} {depth : Nat}
    {known extra : List (String × List UInt8)} {mems : List Member} {vs : Values as} {gap sep last : List UInt8}
    (h : ms.Takes depth known vs) (hnames : ms.names.Nodup)
    (hextra : ∀ m ∈ extra, m.1 ∉ ms.names ∧ Skips m.2)
    (hperm : (mems.map fun m => (m.key, m.value)).Perm (known ++ extra))
    (hspells : ∀ m ∈ mems, SpellsText m.key m.spelling) (hgap : Blank gap) (hsep : Blank sep) (hlast : Blank last) :
    Takes (record title ms) (depth + 1)
      (openMap :: (parts gap last (mems.map (Member.bytes sep)) ++ [closeMap])) vs := by
  refine ⟨⟨openMap, _, rfl, by decide, by decide⟩, fun {room ws s} hd hw _ => ?_⟩
  obtain ⟨room, rfl⟩ : ∃ k, room = k + 1 := ⟨room - 1, by omega⟩
  have hkeys : (mems.map (·.key)).Perm (ms.names ++ extra.map (·.1)) := by
    have hmap := hperm.map (·.1)
    rwa [List.map_append, h.keys, List.map_map] at hmap
  have hfilter : ((mems.map (·.key)).filter (· ∈ ms.names)).Perm ms.names := by
    have hknown : ms.names.filter (· ∈ ms.names) = ms.names := List.filter_eq_self.2 fun n hn => by simpa using hn
    have hothers : (extra.map (·.1)).filter (· ∈ ms.names) = [] := by
      refine List.filter_eq_nil_iff.2 fun n hn => ?_
      obtain ⟨m, hm, rfl⟩ := List.mem_map.1 hn
      simpa using (hextra m hm).1
    have hfiltered := hkeys.filter (· ∈ ms.names)
    rwa [List.filter_append, hknown, hothers, List.append_nil] at hfiltered
  have hmems : ∀ m ∈ mems, (m.key, m.value) ∈ known ∨ m.key ∉ ms.names ∧ Skips m.value := by
    intro m hm
    have hpair : (m.key, m.value) ∈ known ++ extra :=
      hperm.mem_iff.1 (List.mem_map_of_mem (f := fun m : Member => (m.key, m.value)) hm)
    exact (List.mem_append.1 hpair).imp_right (hextra (m.key, m.value))
  have hfills : ms.Fills depth (ms.filled vs []) mems (Slots.full vs) :=
    h.fills hnames hspells hmems (fresh_iff_nodup.2 (hfilter.nodup_iff.2 hnames))
      fun name hname => .inr (hkeys.mem_iff.2 (List.mem_append_left _ hname))
  rw [Members.filled_nil] at hfills
  rw [List.cons_append, List.append_assoc, List.singleton_append]
  simp only [record, dropBlanks_append hw, dropBlanks_cons_of_not (show isBlank openMap = false by decide), ↓reduceIte,
    members_parts hfills hgap hsep hlast (show depth ≤ room by omega), Members.values_full, Except.map]

/-- A record is taken from a map with its members in the declared order. -/
theorem takes_record {as : List Type} {title : String} {ms : Members as} {depth : Nat}
    {mems : List (String × List UInt8)} {vs : Values as} {gap sep last : List UInt8} (h : ms.Takes depth mems vs)
    (hnames : ms.names.Nodup) (hgap : Blank gap) (hsep : Blank sep) (hlast : Blank last) :
    Takes (record title ms) (depth + 1)
      (openMap :: (parts gap last (mems.map (memberBytes sep)) ++ [closeMap])) vs := by
  let written (m : String × List UInt8) : Member := ⟨m.1, writtenText m.1, m.2⟩
  have hbytes : mems.map (memberBytes sep) = (mems.map written).map (Member.bytes sep) := by
    rw [List.map_map]
    rfl
  have hpairs : ((mems.map written).map fun m => (m.key, m.value)).Perm (mems ++ []) := by
    rw [List.map_map, List.append_nil]
    exact .of_eq (List.map_id mems)
  rw [hbytes]
  refine takes_object h hnames (by simp) hpairs (fun m hm => ?_) hgap hsep hlast
  obtain ⟨p, -, rfl⟩ := List.mem_map.1 hm
  exact spellsText_writtenText p.1

/-! ### Variants -/

theorem takes_bare {α : Type} {cases : List (Case α)} {name : String} {a : α}
    (h : payloadOf cases name = .ok (.bare a)) : Takes (variant cases) 0 (ofChars (writtenText name)) a := by
  obtain ⟨bs, hbs, hread⟩ := (spellsText_writtenText name).readText_eq
  rw [hbs]
  refine ⟨⟨quoteMark, bs, rfl, by decide, by decide⟩, fun {room ws s} _ hw _ => ?_⟩
  rw [List.cons_append]
  simp only [variant, dropBlanks_append hw, dropBlanks_cons_of_not (show isBlank quoteMark = false by decide),
    show quoteMark ≠ openMap by decide, ↓reduceIte, hread, bareCase, h, Except.map]

theorem takes_content {α : Type} {cases : List (Case α)} {name : String} {p : Payload α} {depth : Nat}
    {bs gap sep last : List UInt8} {a : α} (h : payloadOf cases name = .ok p) (hp : (payloadReader p).Takes depth bs a)
    (hgap : Blank gap) (hsep : Blank sep) (hlast : Blank last) :
    Takes (variant cases) (depth + 1)
      (openMap :: (parts gap last [memberBytes sep (name, bs)] ++ [closeMap])) a := by
  refine ⟨⟨openMap, _, rfl, by decide, by decide⟩, fun {room ws s} hd hw _ => ?_⟩
  obtain ⟨room, rfl⟩ : ∃ k, room = k + 1 := ⟨room - 1, by omega⟩
  have hends : Ends (last ++ closeMap :: s) := ends_append hlast (ends_closeMap s)
  have hrun : (payloadReader p).run room (sep ++ (bs ++ (last ++ closeMap :: s))) = .ok (a, last ++ closeMap :: s) :=
    hp.run_eq (by omega) hsep hends
  have hkey : onlyKey (gap ++ (memberBytes sep (name, bs) ++ (last ++ closeMap :: s))) =
      .ok (name, colon :: (sep ++ (bs ++ (last ++ closeMap :: s)))) := by
    obtain ⟨ks, hks, hread⟩ := Member.bytes_eq (m := ⟨name, writtenText name, bs⟩) (spellsText_writtenText name) sep
    rw [show memberBytes sep (name, bs) = quoteMark :: ks from hks, List.cons_append, onlyKey, dropBlanks_append hgap,
      dropBlanks_cons_of_not (by decide)]
    simp only [↓reduceIte, hread]
  have hclose : closingMap (last ++ closeMap :: s) = .ok s := by
    simp [closingMap, dropBlanks_append hlast, dropBlanks_cons_of_not (show isBlank closeMap = false by decide)]
  simp only [parts, List.flatMap_nil, List.append_nil, List.append_assoc, List.cons_append, List.nil_append, variant,
    dropBlanks_append hw, dropBlanks_cons_of_not (show isBlank openMap = false by decide), ↓reduceIte, onlyMember, hkey,
    h, takeColon_colon, hrun, hclose, bind, Except.bind, pure, Except.pure]

end Reader

end OpcodeTables.Json
