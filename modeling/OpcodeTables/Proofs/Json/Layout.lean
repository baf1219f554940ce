import OpcodeTables.Proofs.Json.Members

/-!
# What a layout prints

A layout prints a value for a reader if the reader takes the value from it at every depth of indentation (`Prints`).
Layouts of lists, records and variants print what their parts print.
-/

namespace OpcodeTables.Json

open Reader (intercalate_cons parts)
open Utf8 (ofChars)

/-! ### Bytes of layouts -/

private theorem ofChars_block {opening closing : Char} (ho : opening.toNat < 0x80) (hc : closing.toNat < 0x80)
    (ps : List Layout) (d : Nat) :
    ofChars (Layout.block opening closing ps d) =
      .ofNat opening.toNat :: (parts (ofChars (Layout.newline (d + 1))) (ofChars (Layout.newline d))
        (ps.map fun p => ofChars (p (d + 1))) ++ [.ofNat closing.toNat]) := by
  have hclose : ofChars [closing] = [.ofNat closing.toNat] := Utf8.ofChars_cons_ascii hc []
  have hcomma : ∀ cs, ofChars (',' :: cs) = comma :: ofChars cs := fun cs => Utf8.ofChars_cons_ascii (by decide) cs
  cases ps with
  | nil => simp [Layout.block, parts, Utf8.ofChars_cons_ascii ho, hclose]
  | cons p ps =>
    have htail : ∀ qs : List Layout,
        ofChars ((qs.map fun q => Layout.newline (d + 1) ++ q (d + 1)).flatMap (',' :: ·)) =
          (qs.map fun q => ofChars (q (d + 1))).flatMap
            fun q => comma :: (ofChars (Layout.newline (d + 1)) ++ q) := by
      intro qs
      induction qs with
      | nil => rfl
      | cons q qs ih => simp [hcomma, ih]
    simp only [Layout.block, List.isEmpty_cons, Bool.false_eq_true, ↓reduceIte, List.map_cons, intercalate_cons, parts]
    rw [List.cons_append, List.cons_append, Utf8.ofChars_cons_ascii ho]
    simp only [Utf8.ofChars_append, htail, hclose, List.append_assoc]

private theorem ofChars_map (mems : List (String × Layout)) (d : Nat) :
    ofChars (Layout.map mems d) =
      openMap :: (parts (ofChars (Layout.newline (d + 1))) (ofChars (Layout.newline d))
        ((mems.map fun m => (m.1, ofChars (m.2 (d + 1)))).map (memberBytes [0x20])) ++ [closeMap]) := by
  have hcolon : ofChars [':', ' '] = [colon, 0x20] := rfl
  have hmember : ∀ m : String × Layout, ofChars (writtenText m.1 ++ [':', ' '] ++ m.2 (d + 1)) =
      memberBytes [0x20] (m.1, ofChars (m.2 (d + 1))) := by
    intro m
    rw [Utf8.ofChars_append, Utf8.ofChars_append, hcolon, memberBytes]
    simp
  have hparts : ∀ mems : List (String × Layout),
      List.map (fun p : Layout => ofChars (p (d + 1)))
        (mems.map fun m depth => writtenText m.1 ++ [':', ' '] ++ m.2 depth) =
      (mems.map fun m => (m.1, ofChars (m.2 (d + 1)))).map (memberBytes [0x20]) := by
    intro mems
    induction mems with
    | nil => rfl
    | cons m mems ih => exact congrArg₂ List.cons (hmember m) ih
  rw [Layout.map, ofChars_block (by decide) (by decide), hparts]
  rfl

namespace Reader

/-- The layout prints the value for the reader, which needs to open `depth` lists and maps for it. -/
def Prints {α : Type} (r : Reader α) (depth : Nat) (l : Layout) (a : α) : Prop :=
  ∀ d, r.Takes depth (ofChars (l d)) a

variable {α β : Type} {r : Reader α} {depth : Nat}

theorem Prints.mono {l : Layout} {a : α} (h : Prints r depth l a) {depth' : Nat} (hd : depth ≤ depth') :
    Prints r depth' l a :=
  fun d => (h d).mono hd

theorem Prints.map {l : Layout} {a : α} (h : Prints r depth l a) (f : α → β) : Prints (r.map f) depth l (f a) :=
  fun d => (h d).map f

theorem Prints.tryMap {l : Layout} {a : α} (h : Prints r depth l a) {f : α → Except Fault β} {b : β}
    (hf : f a = .ok b) : Prints (r.tryMap f) depth l b :=
  fun d => (h d).tryMap hf

theorem prints_text (t : String) : Prints text 0 (.text t) t :=
  fun _ => takes_text t

theorem prints_byte (b : UInt8) : Prints byte 0 (.natural b.toNat) b :=
  fun _ => takes_byte b

theorem Prints.list {l : α → Layout} {as : List α} (h : ∀ a ∈ as, Prints r depth (l a) a) :
    Prints (Reader.list r) (depth + 1) (.list (as.map l)) as := by
  intro d
  rw [Layout.list, ofChars_block (by decide) (by decide), List.map_map]
  refine takes_list ?_ (blank_newline _) (blank_newline _)
  rw [List.forall₂_map_left_iff]
  exact List.forall₂_same.2 fun a ha => h a ha (d + 1)

theorem blank_space : Blank [0x20] := by
  simp [Blank, isBlank]

/-- The members of a layout, in the declared order, print the values of a record. -/
inductive PrintsMembers (depth : Nat) :
    {as : List Type} → Members as → List (String × Layout) → Values as → Prop
  | nil : PrintsMembers depth .nil [] ()
  | cons {α : Type} {as : List Type} {name : String} {r : Reader α} {l : Layout} {a : α} {rest : Members as}
    {mems : List (String × Layout)} {vs : Values as} (head : r.Prints depth l a)
    (tail : PrintsMembers depth rest mems vs) :
    PrintsMembers depth (.cons name r rest) ((name, l) :: mems) (a, vs)

private theorem PrintsMembers.takes {as : List Type} {ms : Members as} {mems : List (String × Layout)}
    {vs : Values as} (h : PrintsMembers depth ms mems vs) (d : Nat) :
    ms.Takes depth (mems.map fun m => (m.1, ofChars (m.2 d))) vs := by
  induction h with
  | nil => exact .nil
  | cons head tail ih => exact .cons (head d) ih

theorem prints_record {as : List Type} {title : String} {ms : Members as} {mems : List (String × Layout)}
    {vs : Values as} (h : PrintsMembers depth ms mems vs) (hnames : ms.names.Nodup) :
    Prints (record title ms) (depth + 1) (.map mems) vs := by
  intro d
  rw [ofChars_map]
  exact takes_record (h.takes (d + 1)) hnames (blank_newline _) blank_space (blank_newline _)

theorem prints_bare {cases : List (Case α)} {name : String} {a : α} (h : payloadOf cases name = .ok (.bare a)) :
    Prints (variant cases) 0 (.text name) a :=
  fun _ => takes_bare h

theorem prints_content {cases : List (Case α)} {name : String} {p : Payload α} {l : Layout} {a : α}
    (h : payloadOf cases name = .ok p) (hp : Prints (payloadReader p) depth l a) :
    Prints (variant cases) (depth + 1) (.map [(name, l)]) a := by
  intro d
  rw [ofChars_map]
  exact takes_content h (hp (d + 1)) (blank_newline _) blank_space (blank_newline _)

/-- A document is read back, with nothing but blanks behind it. -/
theorem Prints.readAll {l : Layout} {a : α} (h : Prints r depth l a) (hd : depth ≤ maxRoom) (s : List UInt8) :
    (Blank s → r.readAll (ofChars l.document ++ s) = .ok a) ∧
    (¬ Blank s → r.readAll (ofChars l.document ++ s) = .error .trailingCharacters) := by
  have hline : ofChars l.document ++ s = ofChars (l 0) ++ (0xA :: s) := by
    have hnl : ofChars ['\n'] = [0xA] := rfl
    rw [Layout.document, Utf8.ofChars_append, hnl, List.append_assoc, List.singleton_append]
  have hblank : Blank (0xA :: s) ↔ Blank s := by
    simp [Blank, isBlank]
  have hends : Ends (0xA :: s) := ends_cons (by decide) s
  rw [hline]
  exact ⟨fun hs => (h 0).readAll_eq_ok hd (hblank.2 hs),
    fun hs => (h 0).readAll_eq_error hd hends (mt hblank.1 hs)⟩

end Reader

end OpcodeTables.Json
