/-!
# Lists with positions

Checking the elements of a list from the front, each with its position, up to the first fault.
-/

namespace OpcodeTables.Indexed

/-- The results of `f` on the elements, the first one being number `i`. -/
def traverse {α β ε : Type} (f : Nat → α → Except ε β) : (i : Nat) → List α → Except ε (List β)
  | _, [] => .ok []
  | i, a :: as =>
    match f i a with
    | .error e => .error e
    | .ok b => (traverse f (i + 1) as).map (b :: ·)

end OpcodeTables.Indexed
