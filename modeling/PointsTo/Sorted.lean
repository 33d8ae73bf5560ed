namespace PointsTo

def sortedDistinct {α : Type} [DecidableEq α] (le : α → α → Bool) (l : List α) : List α :=
  l.eraseDups.mergeSort le

def sortedStrings (l : List String) : List String :=
  sortedDistinct (fun a b => a ≤ b) l

end PointsTo
