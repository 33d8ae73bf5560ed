namespace PointsTo

variable {α : Type} [DecidableEq α]

-- Enters the vertices of `stack` from the left, and the successors of a vertex right after it.
-- Every step uses up one unit of `fuel`.
def preorderFrom (next : α → List α) : (fuel : Nat) → (stack seen : List α) → List α
  | 0, _, _ => []
  | _ + 1, [], _ => []
  | fuel + 1, a :: stack, seen =>
    if a ∈ seen then preorderFrom next fuel stack seen
    else a :: preorderFrom next fuel (next a ++ stack) (a :: seen)

-- All vertices with successors are among `vertices`, each of them once, so that no more steps are
-- needed than there are roots and edges.
def preorder (next : α → List α) (vertices roots : List α) : List α :=
  preorderFrom next (roots.length + (vertices.flatMap next).length) roots []

end PointsTo
