namespace PointsTo.Analysis

-- Only whole bodies are ever added, so it is enough to know what is left of the current pass over
-- the body and how many passes are to follow.
structure Worklist (α : Type) where
  rest : List α
  passes : Nat := 0
deriving DecidableEq

namespace Worklist

variable {α : Type}

def toList (body : List α) (w : Worklist α) : List α :=
  w.rest ++ (List.replicate w.passes body).flatten

def push (w : Worklist α) : Worklist α :=
  { w with passes := w.passes + 1 }

def pop? (body : List α) (w : Worklist α) : Option (α × Worklist α) :=
  match w.rest, w.passes, body with
  | a :: rest, passes, _ => some (a, ⟨rest, passes⟩)
  | [], passes + 1, a :: rest => some (a, ⟨rest, passes⟩)
  | [], _, _ => none

@[simp] theorem toList_push (body : List α) (w : Worklist α) :
    w.push.toList body = w.toList body ++ body := by
  simp [toList, push, List.replicate_succ']

theorem pop?_eq_some {body : List α} {w rest : Worklist α} {a : α}
    (h : w.pop? body = some (a, rest)) : w.toList body = a :: rest.toList body := by
  obtain ⟨l, passes⟩ := w
  unfold pop? at h
  grind [toList]

theorem pop?_eq_none_iff {body : List α} {w : Worklist α} :
    w.pop? body = none ↔ w.toList body = [] := by
  obtain ⟨l, passes⟩ := w
  cases l <;> cases passes <;> cases body <;> simp [pop?, toList, List.replicate_succ]

end Worklist
end PointsTo.Analysis
