import Mathlib.Data.List.Basic
import OpcodeTables.Path
import OpcodeTables.Proofs.FileSystem.Requests

/-!
# Volumes

A volume is a map from places to files and directories together with a pattern of failures: whenever something is read,
created, written, synced or renamed, the next entry of the pattern says whether that fails. Paths lead to places, and
several paths may lead to the same place.

A change is made, or it fails and leaves at most a part of what was to be written (`machine_change_cases`). So a run
leaves every place alone that it does not ask to change (`entries_run_of_forall`) and makes no directories
(`directory_of_run`). Changes that all succeed are made one after the other (`entries_run_changes`).
-/

namespace OpcodeTables

namespace Volume

/-- What is at a place. -/
inductive Entry where
  | file (bytes : List UInt8)
  | directory
deriving DecidableEq

abbrev Entries : Type :=
  String → Option Entry

/-- A failure, and how many bytes are written before a write fails with it. -/
structure Failure where
  errno : Errno
  written : Nat := 0

end Volume

structure Volume where
  entries : Volume.Entries
  failures : Nat → Option Volume.Failure

namespace Volume

/-- The volume for what comes after the next entry of the pattern. -/
def next (v : Volume) : Volume :=
  { v with failures := fun n => v.failures (n + 1) }

/-- How the pattern makes a change fail. Removals do not fail by it. -/
def failure? (v : Volume) : Change → Option Failure
  | .remove _ => none
  | _ => v.failures 0

/-- Whether nothing fails but by what is at the places. -/
def IsReliable (v : Volume) : Prop :=
  ∀ n, v.failures n = none

theorem IsReliable.eq_of_entries {v v' : Volume} (h : v.IsReliable) (h' : v'.IsReliable)
    (heq : v'.entries = v.entries) : v' = v := by
  obtain ⟨entries, failures⟩ := v
  obtain ⟨entries', failures'⟩ := v'
  exact congrArg₂ mk heq (funext fun n => (h' n).trans (h n).symm)

end Volume

/-- Where paths lead. A path that ends with a name leads to a place of that name, so that no file is a link to
another. -/
structure Places where
  place : String → String
  /-- Whether the directory of a place is there. -/
  hasDirectory : String → Bool
  fileName?_place : ∀ {p n : String}, Path.fileName? p = some n → Path.fileName? (place p) = some n

/-- The paths of what a change may change. -/
def Change.paths : Change → List String
  | .create p | .write p _ | .remove p => [p]
  | .sync _ => []
  | .rename source target => [source, target]

namespace Places

open Volume Function

variable (F : Places)

/-- Why there is no file at a path. -/
def absence? (e : Entries) (p : String) : Option Errno :=
  match e (F.place p) with
  | none => some .noEntry
  | some .directory => some .isDirectory
  | some (.file _) => none

/-- Why a change cannot be made. -/
def obstacle? (e : Entries) : Change → Option Errno
  | .create p =>
    if e (F.place p) = some .directory then some .isDirectory
    else if e (F.place p) = none ∧ F.hasDirectory (F.place p) = false then some .noEntry
    else none
  | .write p _ | .sync p | .remove p => F.absence? e p
  | .rename source target =>
    (F.absence? e source).or (if e (F.place target) = some .directory then some .isDirectory else none)

/-- The entries after a change that can be made. -/
def effect (e : Entries) : Change → Entries
  | .create p => update e (F.place p) (some (.file []))
  | .write p bytes => update e (F.place p) (some (.file bytes))
  | .sync _ => e
  | .rename source target => update (update e (F.place source) none) (F.place target) (e (F.place source))
  | .remove p => update e (F.place p) none

def attempt (v : Volume) (c : Change) : Except Errno Unit × Volume :=
  match F.obstacle? v.entries c with
  | some x => (.error x, v)
  | none => (.ok (), { v with entries := F.effect v.entries c })

/-- What a change leaves that fails by the pattern: a write has put some bytes into its file, and nothing else has
changed. -/
def leftover (f : Failure) (e : Entries) : Change → Entries
  | .write p bytes => if F.absence? e p = none then F.effect e (.write p (bytes.take f.written)) else e
  | _ => e

/-- Volumes as a machine. The pattern says nothing about real paths. -/
def machine : Machine Volume
  | .realPath p, v => (if (v.entries (F.place p)).isSome then .ok (F.place p) else .error .noEntry, v)
  | .read p, v =>
    match v.failures 0, v.entries (F.place p) with
    | some f, _ => (.error f.errno, v.next)
    | none, some (.file s) => (.ok s, v.next)
    | none, some .directory => (.error .isDirectory, v.next)
    | none, none => (.error .noEntry, v.next)
  | .change c, v =>
    match v.failure? c with
    | some f => (.error f.errno, { v.next with entries := F.leftover f v.entries c })
    | none => F.attempt v.next c

/-! ### One request -/

variable {F}

theorem absence?_eq_none_iff {e : Entries} {p : String} :
    F.absence? e p = none ↔ ∃ s, e (F.place p) = some (.file s) := by
  unfold absence?
  split <;> simp [*]

/-- A change leaves the places alone to which none of its paths leads. -/
theorem effect_frame {e : Entries} {c : Change} {q : String} (hq : ∀ p ∈ c.paths, F.place p ≠ q) :
    F.effect e c q = e q := by
  cases c <;> simp_all [effect, Change.paths, update_of_ne, Ne.symm]

private theorem directory_of_update {e : Entries} {p q : String} {x : Option Entry} (hx : x ≠ some .directory)
    (h : update e p x q = some .directory) : e q = some .directory := by
  rcases eq_or_ne q p with rfl | hne
  · exact absurd (by simpa using h) hx
  · rwa [update_of_ne hne] at h

/-- A change that can be made makes no directory. -/
theorem directory_of_effect {e : Entries} {c : Change} {q : String} (hc : F.obstacle? e c = none)
    (hq : F.effect e c q = some .directory) : e q = some .directory := by
  cases c with
  | create p => exact directory_of_update (by simp) hq
  | write p bytes => exact directory_of_update (by simp) hq
  | sync p => exact hq
  | rename source target =>
    -- what is renamed is a file
    obtain ⟨s, hs⟩ := absence?_eq_none_iff.1 (Option.or_eq_none_iff.1 hc).1
    exact directory_of_update (by simp) (directory_of_update (by simp [hs]) hq)
  | remove p => exact directory_of_update (by simp) hq

theorem attempt_cases (v : Volume) (c : Change) :
    (F.obstacle? v.entries c = none ∧ F.attempt v c = (.ok (), { v with entries := F.effect v.entries c })) ∨
      ∃ x, F.obstacle? v.entries c = some x ∧ F.attempt v c = (.error x, v) := by
  unfold attempt
  split
  · rename_i x hx
    exact .inr ⟨x, hx, rfl⟩
  · rename_i hx
    exact .inl ⟨hx, rfl⟩

theorem leftover_cases (f : Failure) (e : Entries) (c : Change) :
    F.leftover f e c = e ∨
      ∃ p bytes, c = .write p bytes ∧ F.obstacle? e (.write p (bytes.take f.written)) = none ∧
        F.leftover f e c = F.effect e (.write p (bytes.take f.written)) := by
  cases c with
  | write p bytes =>
    by_cases h : F.absence? e p = none
    · exact .inr ⟨p, bytes, rfl, h, if_pos h⟩
    · exact .inl (if_neg h)
  | _ => exact .inl rfl

/-- A change is made, or it fails and leaves at most a part of what was to be written. -/
theorem machine_change_cases (c : Change) (v : Volume) :
    ((F.machine (.change c) v).1 = .ok () ∧ F.obstacle? v.entries c = none ∧
      (F.machine (.change c) v).2.entries = F.effect v.entries c) ∨
    (∃ x, (F.machine (.change c) v).1 = .error x) ∧
      ((F.machine (.change c) v).2.entries = v.entries ∨
        ∃ p bytes n, c = .write p bytes ∧ F.obstacle? v.entries (.write p (bytes.take n)) = none ∧
          (F.machine (.change c) v).2.entries = F.effect v.entries (.write p (bytes.take n))) := by
  cases hf : v.failure? c with
  | some f =>
    have hm : F.machine (.change c) v = (.error f.errno, { v.next with entries := F.leftover f v.entries c }) := by
      simp [machine, hf]
    rw [hm]
    rcases leftover_cases (F := F) f v.entries c with h | ⟨p, bytes, hc, hp, h⟩
    · exact .inr ⟨⟨_, rfl⟩, .inl h⟩
    · exact .inr ⟨⟨_, rfl⟩, .inr ⟨p, bytes, f.written, hc, hp, h⟩⟩
  | none =>
    have hm : F.machine (.change c) v = F.attempt v.next c := by simp [machine, hf]
    rw [hm]
    rcases attempt_cases (F := F) v.next c with ⟨hc, h⟩ | ⟨x, -, h⟩
    · exact .inl (by rw [h]; exact ⟨rfl, hc, rfl⟩)
    · exact .inr (by rw [h]; exact ⟨⟨x, rfl⟩, .inl rfl⟩)

theorem snd_machine_read (p : String) (v : Volume) : (F.machine (.read p) v).2 = v.next := by
  simp only [machine]
  split <;> rfl

theorem entries_of_machine_read {p : String} {v : Volume} {s : List UInt8} (h : (F.machine (.read p) v).1 = .ok s) :
    v.entries (F.place p) = some (.file s) := by
  simp only [machine] at h
  split at h
  all_goals cases h
  assumption

theorem machine_read_of_isReliable {p : String} {v : Volume} {s : List UInt8} (hv : v.IsReliable)
    (h : v.entries (F.place p) = some (.file s)) : F.machine (.read p) v = (.ok s, v.next) := by
  simp only [machine, hv 0, h]

/-- A file is removed. -/
theorem entries_machine_remove {p : String} {v : Volume} (h : v.entries (F.place p) ≠ some .directory) :
    (F.machine (.change (.remove p)) v).2.entries = update v.entries (F.place p) none := by
  rcases attempt_cases (F := F) v.next (.remove p) with ⟨-, ha⟩ | ⟨x, hx, ha⟩
  · exact congrArg (·.2.entries) ha
  · -- what cannot be removed is not there
    have hnone : v.entries (F.place p) = none := by
      cases he : v.entries (F.place p) with
      | none => rfl
      | some y =>
        cases y with
        | directory => exact absurd he h
        | file s => cases hx.symm.trans (absence?_eq_none_iff.2 ⟨s, he⟩)
    rw [← hnone, update_eq_self]
    exact congrArg (·.2.entries) ha

/-! ### Runs -/

/-- A request leaves the places alone that it does not ask to change. -/
theorem entries_machine_of_forall {r : Request} {v : Volume} {q : String}
    (h : ∀ c, r = .change c → ∀ p ∈ c.paths, F.place p ≠ q) : (F.machine r v).2.entries q = v.entries q := by
  cases r with
  | realPath p => rfl
  | read p => rw [snd_machine_read]; rfl
  | change c =>
    have hc := h c rfl
    rcases machine_change_cases (F := F) c v with ⟨-, -, he⟩ | ⟨-, he | ⟨p, bytes, n, rfl, -, he⟩⟩
    · exact (congrFun he q).trans (effect_frame hc)
    · rw [he]
    · exact (congrFun he q).trans (effect_frame (c := .write p (bytes.take n)) hc)

theorem entries_run_of_forall {α : Type} (t : Script α) {v : Volume} {q : String}
    (h : ∀ c, .change c ∈ t.requests F.machine v → ∀ p ∈ c.paths, F.place p ≠ q) :
    (t.run F.machine v).2.entries q = v.entries q := by
  induction t generalizing v with
  | done a => rfl
  | ask r next ih =>
    have hr : (F.machine r v).2.entries q = v.entries q :=
      entries_machine_of_forall fun c hc => h c (hc ▸ List.mem_cons_self)
    have hnext := ih (F.machine r v).1 (v := (F.machine r v).2) fun c hc => h c (List.mem_cons_of_mem r hc)
    exact hnext.trans hr

/-- A run without changes leaves everything as it is. -/
theorem entries_run_of_not_mem {α : Type} {t : Script α} {v : Volume}
    (h : ∀ c, .change c ∉ t.requests F.machine v) : (t.run F.machine v).2.entries = v.entries :=
  funext fun _ => entries_run_of_forall t fun c hc => absurd hc (h c)

theorem directory_of_machine {r : Request} {v : Volume} {q : String}
    (h : (F.machine r v).2.entries q = some .directory) : v.entries q = some .directory := by
  cases r with
  | realPath p => exact h
  | read p => rwa [snd_machine_read] at h
  | change c =>
    rcases machine_change_cases (F := F) c v with ⟨-, hc, he⟩ | ⟨-, he | ⟨p, bytes, n, -, hc, he⟩⟩
    · exact directory_of_effect hc (he ▸ h)
    · rwa [he] at h
    · exact directory_of_effect hc (he ▸ h)

/-- What is a directory after a run was one before. -/
theorem directory_of_run {α : Type} (t : Script α) {v : Volume} {q : String}
    (h : (t.run F.machine v).2.entries q = some .directory) : v.entries q = some .directory := by
  induction t generalizing v with
  | done a => exact h
  | ask r next ih => exact directory_of_machine (ih _ h)

theorem isReliable_machine {v : Volume} (h : v.IsReliable) (r : Request) : (F.machine r v).2.IsReliable := by
  cases r with
  | realPath p => exact h
  | read p =>
    rw [snd_machine_read]
    exact fun n => h (n + 1)
  | change c =>
    have hf : v.failure? c = none := by cases c <;> simp [failure?, h 0]
    simp only [machine, hf, attempt]
    split <;> exact fun n => h (n + 1)

theorem isReliable_run {α : Type} (t : Script α) {v : Volume} (h : v.IsReliable) :
    (t.run F.machine v).2.IsReliable := by
  induction t generalizing v with
  | done a => exact h
  | ask r next ih => exact ih _ (isReliable_machine h r)

/-- Changes that all succeed are made one after the other. -/
theorem entries_run_changes {cs : List Change} {v : Volume}
    (h : ((Script.changes cs).run F.machine v).1 = .ok ()) :
    ((Script.changes cs).run F.machine v).2.entries = cs.foldl F.effect v.entries := by
  induction cs generalizing v with
  | nil => rfl
  | cons c cs ih =>
    simp only [Script.changes, Script.run] at h ⊢
    rcases machine_change_cases (F := F) c v with ⟨hok, -, he⟩ | ⟨⟨x, hx⟩, -⟩
    · simp only [hok] at h ⊢
      rw [ih h, he, List.foldl_cons]
    · simp [hx, Script.run] at h

/-- If changes fail of which the last is no write, then that one has changed nothing. -/
theorem entries_run_changes_of_error {cs : List Change} {c : Change} {v : Volume} {e : Errno}
    (hc : ∀ p bytes, c ≠ .write p bytes) (h : ((Script.changes (cs ++ [c])).run F.machine v).1 = .error e) :
    ((Script.changes (cs ++ [c])).run F.machine v).2.entries = ((Script.changes cs).run F.machine v).2.entries := by
  rw [Script.changes_append, Script.run_bind] at h ⊢
  cases hcs : ((Script.changes cs).run F.machine v).1 with
  | error x => rfl
  | ok u =>
    rw [hcs] at h
    simp only [Script.changes, Script.run] at h ⊢
    rcases machine_change_cases (F := F) c ((Script.changes cs).run F.machine v).2 with
      ⟨hok, -⟩ | ⟨⟨x, hx⟩, he | ⟨p, bytes, n, hw, -⟩⟩
    · rw [hok] at h
      cases h
    · rw [hx]
      exact he
    · exact absurd hw (hc p bytes)

end Places

end OpcodeTables
