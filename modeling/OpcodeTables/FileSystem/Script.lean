import OpcodeTables.FileSystem.Errno

/-!
# Scripts over a file system

A script asks a file system for one thing after the other and may look at each answer before it goes on. It is a tree of
requests, so that it can be run over any machine that answers requests.
-/

namespace OpcodeTables

/-- A change of files. -/
inductive Change where
  | create (path : String)
  | write (path : String) (bytes : List UInt8)
  | sync (path : String)
  | rename (source target : String)
  | remove (path : String)
deriving DecidableEq

inductive Request where
  /-- The path without links and dots that leads to the same place. -/
  | realPath (path : String)
  | read (path : String)
  | change (c : Change)
deriving DecidableEq

/-- What a request asks for. -/
abbrev Request.Answer : Request → Type
  | .realPath _ => String
  | .read _ => List UInt8
  | .change _ => Unit

/-- Something that answers requests or fails, and keeps a state. -/
def Machine (σ : Type) : Type :=
  (r : Request) → σ → Except Errno r.Answer × σ

inductive Script (α : Type) where
  | done (a : α)
  | ask (r : Request) (next : Except Errno r.Answer → Script α)

namespace Script

def bind {α β : Type} (t : Script α) (f : α → Script β) : Script β :=
  match t with
  | .done a => f a
  | .ask r next => .ask r fun x => (next x).bind f

def map {α β : Type} (f : α → β) (t : Script α) : Script β :=
  t.bind fun a => .done (f a)

/-- The changes one after the other, up to the first one that fails. -/
def changes : List Change → Script (Except Errno Unit)
  | [] => .done (.ok ())
  | c :: cs => .ask (.change c) fun
    | .error e => .done (.error e)
    | .ok _ => changes cs

/-- The result of a script over a machine, and the machine's state afterwards. -/
def run {σ α : Type} (m : Machine σ) : Script α → σ → α × σ
  | .done a, s => (a, s)
  | .ask r next, s =>
    let x := m r s
    (next x.1).run m x.2

theorem run_bind {σ α β : Type} (m : Machine σ) (t : Script α) (f : α → Script β) (s : σ) :
    (t.bind f).run m s = (f (t.run m s).1).run m (t.run m s).2 := by
  induction t generalizing s with
  | done a => rfl
  | ask r next ih => exact ih _ _

end Script

end OpcodeTables
