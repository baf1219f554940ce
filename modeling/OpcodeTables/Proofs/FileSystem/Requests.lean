import OpcodeTables.FileSystem.Script

/-!
# The requests of a run

A run makes the requests of its parts, one part after the other (`requests_bind`). A list of changes is made up to the
first one that fails, also where the list is split (`changes_append`). What all requests of a script have in common can
be told from the script, whatever is answered (`Only`).
-/

namespace OpcodeTables

/-- The paths that a request names. -/
def Request.paths : Request → List String
  | .realPath p | .read p | .change (.create p) | .change (.write p _) | .change (.sync p) | .change (.remove p) => [p]
  | .change (.rename source target) => [source, target]

namespace Script

variable {σ α β γ : Type}

/-- The requests that a script makes over a machine, in their order. -/
def requests (m : Machine σ) : Script α → σ → List Request
  | .done _, _ => []
  | .ask r next, s => r :: (next (m r s).1).requests m (m r s).2

theorem bind_assoc (t : Script α) (f : α → Script β) (g : β → Script γ) :
    (t.bind f).bind g = t.bind fun a => (f a).bind g := by
  induction t with
  | done a => rfl
  | ask r next ih => exact congrArg (ask r) (funext fun x => ih x)

theorem map_bind (t : Script α) (f : α → β) (g : β → Script γ) : (t.map f).bind g = t.bind fun a => g (f a) :=
  bind_assoc t _ g

theorem run_map (m : Machine σ) (t : Script α) (f : α → β) (s : σ) :
    (t.map f).run m s = (f (t.run m s).1, (t.run m s).2) :=
  run_bind m t _ s

theorem requests_bind (m : Machine σ) (t : Script α) (f : α → Script β) (s : σ) :
    (t.bind f).requests m s = t.requests m s ++ (f (t.run m s).1).requests m (t.run m s).2 := by
  induction t generalizing s with
  | done a => rfl
  | ask r next ih => exact congrArg (r :: ·) (ih _ _)

theorem requests_map (m : Machine σ) (t : Script α) (f : α → β) (s : σ) :
    (t.map f).requests m s = t.requests m s := by
  rw [map, requests_bind]
  exact List.append_nil _

theorem changes_append (cs ds : List Change) :
    changes (cs ++ ds) = (changes cs).bind fun
      | .error e => .done (.error e)
      | .ok () => changes ds := by
  induction cs with
  | nil => rfl
  | cons c cs ih =>
    refine congrArg (ask (.change c)) (funext fun x => ?_)
    cases x with
    | error e => rfl
    | ok u => exact ih

/-! ### What scripts can ask for -/

/-- Whether all requests that a script can make have a property. -/
def Only (P : Request → Prop) : Script α → Prop
  | .done _ => True
  | .ask r next => P r ∧ ∀ x, (next x).Only P

variable {P Q : Request → Prop} {t : Script α}

theorem Only.mono (h : t.Only P) (hPQ : ∀ r, P r → Q r) : t.Only Q := by
  induction t with
  | done a => exact trivial
  | ask r next ih => exact ⟨hPQ r h.1, fun x => ih x (h.2 x)⟩

theorem Only.bind {f : α → Script β} (h : t.Only P) (hf : ∀ a, (f a).Only P) : (t.bind f).Only P := by
  induction t with
  | done a => exact hf a
  | ask r next ih => exact ⟨h.1, fun x => ih x (h.2 x)⟩

theorem Only.map (h : t.Only P) (f : α → β) : (t.map f).Only P :=
  h.bind fun _ => trivial

theorem only_changes {cs : List Change} (h : ∀ c ∈ cs, P (.change c)) : (changes cs).Only P := by
  induction cs with
  | nil => exact trivial
  | cons c cs ih =>
    obtain ⟨hc, hcs⟩ := List.forall_mem_cons.1 h
    refine ⟨hc, fun x => ?_⟩
    cases x with
    | error e => exact trivial
    | ok u => exact ih hcs

theorem Only.of_mem_requests (h : t.Only P) {m : Machine σ} {s : σ} {r : Request} (hr : r ∈ t.requests m s) : P r := by
  induction t generalizing s with
  | done a => cases hr
  | ask r' next ih =>
    rcases List.mem_cons.1 hr with rfl | hr
    · exact h.1
    · exact ih _ (h.2 _) hr

theorem exists_of_mem_requests_changes {m : Machine σ} {cs : List Change} {s : σ} {r : Request}
    (h : r ∈ (changes cs).requests m s) : ∃ c ∈ cs, r = .change c :=
  (only_changes (P := fun r => ∃ c ∈ cs, r = .change c) fun c hc => ⟨c, hc, rfl⟩).of_mem_requests h

end Script

end OpcodeTables
