namespace PointsTo

structure Queue (α : Type) where
  toList : List α := []

namespace Queue

inductive Error where
  | empty
deriving DecidableEq

def Error.message : Error → String
  | .empty => "Queue is empty"

variable {α : Type}

def push (q : Queue α) (a : α) : Queue α :=
  ⟨q.toList ++ [a]⟩

def pushAll (q : Queue α) (as : List α) : Queue α :=
  ⟨q.toList ++ as⟩

def size (q : Queue α) : Nat :=
  q.toList.length

def isEmpty (q : Queue α) : Bool :=
  q.toList.isEmpty

def pop (q : Queue α) : Except Error (α × Queue α) :=
  match q.toList with
  | [] => .error .empty
  | a :: rest => .ok (a, ⟨rest⟩)

@[simp] theorem toList_push (q : Queue α) (a : α) : (q.push a).toList = q.toList ++ [a] :=
  rfl

@[simp] theorem toList_pushAll (q : Queue α) (as : List α) :
    (q.pushAll as).toList = q.toList ++ as :=
  rfl

theorem pop_eq_ok_iff {q rest : Queue α} {a : α} :
    q.pop = .ok (a, rest) ↔ q.toList = a :: rest.toList := by
  obtain ⟨l⟩ := q
  obtain ⟨r⟩ := rest
  cases l <;> simp [pop]

theorem pop_eq_error_iff {q : Queue α} {e : Error} : q.pop = .error e ↔ q.isEmpty := by
  obtain ⟨l⟩ := q
  cases l <;> cases e <;> simp [pop, isEmpty]

end Queue
end PointsTo
