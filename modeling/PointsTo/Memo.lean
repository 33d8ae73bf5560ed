namespace PointsTo

structure Memo.Entry {α β : Type} (f : α → β) where
  arg : α
  value : Thunk β
  value_eq : value.get = f arg

-- Values are computed when they are first asked for. A memo never changes what the function gives.
structure Memo {α β : Type} (f : α → β) where
  entries : List (Memo.Entry f) := []

namespace Memo

variable {α β : Type} {f : α → β}

def of (f : α → β) (args : List α) : Memo f where
  entries := args.map fun a => ⟨a, .mk fun _ => f a, rfl⟩

variable [DecidableEq α]

def apply (m : Memo f) (a : α) : β :=
  match m.entries.find? (·.arg = a) with
  | some e => e.value.get
  | none => f a

@[simp] theorem apply_eq (m : Memo f) (a : α) : m.apply a = f a := by
  unfold apply
  split
  case h_1 e he =>
    have : e.arg = a := by simpa using List.find?_some he
    rw [e.value_eq, this]
  case h_2 => rfl

end Memo
end PointsTo
