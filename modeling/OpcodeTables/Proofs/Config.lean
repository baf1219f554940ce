import OpcodeTables.Config
import OpcodeTables.Proofs.FileSystem.Volume

/-!
# Valid configurations

The validation looks at a volume and changes nothing: it compares the places to which the paths of a configuration lead
(`run_isSamePlace`), and asks for nothing else (`only_fault?`). A configuration without faults is `Valid`
(`run_fault?_eq_none_iff`). If its input is there, then its output is at another place (`Valid.place_ne`). The
description, the tables and the output of a conversion come one from the other (`Conversion.run_eq_ok_iff`).
-/

namespace OpcodeTables

theorem Conversion.run_eq_ok_iff {c : Conversion} {s bytes : List UInt8} :
    c.run s = .ok bytes ↔
      ∃ d t, Description.load s = .ok d ∧ d.build c.policy = .ok t ∧ t.emit c.target c.namespaceName = .ok bytes := by
  constructor
  · intro h
    obtain ⟨d, hd, h⟩ := bind_eq_ok_iff.1 h
    obtain ⟨t, ht, h⟩ := bind_eq_ok_iff.1 h
    exact ⟨d, t, mapError_eq_ok_iff.1 hd, mapError_eq_ok_iff.1 ht, mapError_eq_ok_iff.1 h⟩
  · rintro ⟨d, t, hd, ht, hbytes⟩
    exact bind_eq_ok_iff.2 ⟨d, mapError_eq_ok_iff.2 hd, bind_eq_ok_iff.2 ⟨t, mapError_eq_ok_iff.2 ht,
      mapError_eq_ok_iff.2 hbytes⟩⟩

namespace Config

open Volume

variable {F : Places}

/-- Whether two paths are equal up to their spelling, or lead to one place where something is. -/
def IsSame (F : Places) (e : Entries) (p q : String) : Prop :=
  Path.components p = Path.components q ∨
    (e (F.place p)).isSome ∧ (e (F.place q)).isSome ∧ F.place p = F.place q

instance (e : Entries) (p q : String) : Decidable (IsSame F e p q) :=
  inferInstanceAs (Decidable (_ ∨ _))

theorem run_isSamePlace (p q : String) (v : Volume) :
    (isSamePlace p q).run F.machine v = (decide (IsSame F v.entries p q), v) := by
  unfold isSamePlace IsSame
  split
  · simp [Script.run, *]
  · by_cases hp : (v.entries (F.place p)).isSome <;> by_cases hq : (v.entries (F.place q)).isSome <;>
      simp [Script.run, Places.machine, *]

/-- What validation asks of a configuration over a volume with the given entries. -/
structure Valid (F : Places) (e : Entries) (c : Config) : Prop where
  isSymbol : Symbol.isSymbol c.namespaceName = true
  isNamed : ∃ n, Path.fileName? c.output = some n
  apart : ¬IsSame F e c.input c.output

theorem run_fault?_eq_none_iff {c : Config} {v : Volume} :
    (c.fault?.run F.machine v).1 = none ↔ Valid F v.entries c := by
  constructor
  · intro h
    unfold fault? at h
    split at h
    · cases h
    · rename_i hsymbol
      split at h
      · cases h
      · rename_i hname
        rw [Script.run_map, run_isSamePlace] at h
        exact ⟨by simpa using hsymbol, Option.ne_none_iff_exists'.1 hname, by simpa using h⟩
  · rintro ⟨hsymbol, ⟨n, hn⟩, hsame⟩
    simp [fault?, hsymbol, hn, Script.run_map, run_isSamePlace, hsame]

theorem snd_run_fault? (c : Config) (v : Volume) : (c.fault?.run F.machine v).2 = v := by
  unfold fault?
  split
  · rfl
  · split
    · rfl
    · rw [Script.run_map, run_isSamePlace]

theorem snd_run_validate (c : Config) (v : Volume) : (c.validate.run F.machine v).2 = v := by
  rw [validate, Script.run_map]
  exact c.snd_run_fault? v

/-- An input that is there is not where the output is or will be. -/
theorem Valid.place_ne {e : Entries} {c : Config} (h : Valid F e c) {x : Entry}
    (hx : e (F.place c.input) = some x) : F.place c.output ≠ F.place c.input := by
  intro heq
  exact h.apart (.inr ⟨by simp [hx], by simp [heq, hx], heq.symm⟩)

/-- A valid configuration whose paths lead to two places stays valid whatever happens to the volume. -/
theorem Valid.of_place_ne {e e' : Entries} {c : Config} (h : Valid F e c)
    (hne : F.place c.output ≠ F.place c.input) : Valid F e' c where
  isSymbol := h.isSymbol
  isNamed := h.isNamed
  apart hsame := hsame.elim (fun hc => h.apart (.inl hc)) fun hp => hne hp.2.2.symm

theorem run_validate_eq_ok_iff {σ : Type} {m : Machine σ} {c c' : Config} {s : σ} :
    (c.validate.run m s).1 = .ok c' ↔ c' = c ∧ (c.fault?.run m s).1 = none := by
  rw [validate, Script.run_map]
  cases (c.fault?.run m s).1 <;> simp [eq_comm]

theorem snd_run_ofPaths (input output : String) (target : Option Target) (v : Volume) :
    ((ofPaths input output target).run F.machine v).2 = v := by
  unfold ofPaths
  split
  · rfl
  · exact snd_run_validate _ v

theorem run_ofPaths_eq_ok_iff {input output : String} {target : Option Target} {c : Config} {v : Volume} :
    ((ofPaths input output target).run F.machine v).1 = .ok c ↔
      ∃ t, target.or (Target.ofPath? output) = some t ∧ c = { target := t, input, output } ∧ c.Valid F v.entries := by
  unfold ofPaths
  cases htarget : target.or (Target.ofPath? output) with
  | none => simp [Script.run]
  | some t =>
    rw [run_validate_eq_ok_iff, run_fault?_eq_none_iff]
    constructor
    · rintro ⟨rfl, hvalid⟩
      exact ⟨t, rfl, rfl, hvalid⟩
    · rintro ⟨t', ⟨⟩, rfl, hvalid⟩
      exact ⟨rfl, hvalid⟩

/-- Validation compares the two paths, and looks for nothing else. -/
theorem only_fault? (c : Config) : c.fault?.Only fun r => r = .realPath c.input ∨ r = .realPath c.output := by
  unfold fault? isSamePlace
  split
  · exact trivial
  · split
    · exact trivial
    · refine .map ?_ _
      split
      · exact trivial
      · refine ⟨.inl rfl, fun x => ?_⟩
        cases x with
        | error e => exact trivial
        | ok p =>
          refine ⟨.inr rfl, fun y => ?_⟩
          cases y with
          | error e => exact trivial
          | ok q => exact trivial

end Config

end OpcodeTables
