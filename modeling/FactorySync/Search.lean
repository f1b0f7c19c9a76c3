/-!
# Search

Looking for an answer in a graph. `steps` tells where a place leads: to answers and to other places,
best first. `firstAnswer` goes through them depth first and enters no place twice.
-/

namespace FactorySync

/-- Where a place leads. -/
inductive Step (α β : Type) where
  | answer (b : β)
  | goTo (a : α)
  deriving Repr, DecidableEq

namespace Search

variable {α β : Type} [DecidableEq α]

/-- The first answer met on the way through `todo`, if at most `allowance` places are entered beside
those in `entered`. -/
def run (steps : α → List (Step α β)) (allowance : Nat) (entered : List α) :
    List (Step α β) → Option β
  | [] => none
  | .answer b :: _ => some b
  | .goTo a :: todo =>
    if a ∈ entered then run steps allowance entered todo
    else
      match allowance with
      | 0 => none
      | allowance + 1 => run steps allowance (a :: entered) (steps a ++ todo)
termination_by todo => (allowance, todo.length)

/-- The first answer that a place leads to. The allowance has to be at least the number of places
that can be reached. -/
def firstAnswer (steps : α → List (Step α β)) (allowance : Nat) (start : α) : Option β :=
  run steps allowance [] [.goTo start]

end Search
end FactorySync
