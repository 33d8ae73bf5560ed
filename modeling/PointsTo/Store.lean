import PointsTo.ObjectSet
import PointsTo.Table

namespace PointsTo

-- A key that nothing was added to maps to the empty set and has no entry.
structure Store (κ : Type) [Coded κ] [DecidableEq κ] where
  table : Table κ ObjectSet := ∅
  nonempty : ∀ k, table.get? k ≠ some ∅ := by simp

namespace Store

variable {κ : Type} [Coded κ] [DecidableEq κ]

instance : EmptyCollection (Store κ) := ⟨{}⟩

instance : Inhabited (Store κ) := ⟨∅⟩

def entries (s : Store κ) : List (κ × ObjectSet) :=
  s.table.entries

def keys (s : Store κ) : List κ :=
  s.table.keys

def size (s : Store κ) : Nat :=
  s.entries.length

def get (s : Store κ) (k : κ) : ObjectSet :=
  match s.table.get? k with
  | some set => set
  | none => ∅

def addAll (s : Store κ) (k : κ) (ids : ObjectSet) : Store κ :=
  if h : ids = ∅ then s
  else
    { table := s.table.set k ((s.get k).union ids)
      nonempty := by
        intro k'
        rw [Table.get?_set]
        split
        case isTrue =>
          intro he
          refine h (ObjectSet.ext_mem fun a => ?_)
          have := ObjectSet.mem_union (x := a) (s := s.get k) (t := ids)
          simp_all
        case isFalse => exact s.nonempty k' }

def grows (s : Store κ) (k : κ) (ids : ObjectSet) : Bool :=
  !ids.subset (s.get k)

def add (s : Store κ) (k : κ) (id : Int) : Store κ :=
  s.addAll k (.ofList [id])

@[simp] theorem get_empty (k : κ) : (∅ : Store κ).get k = ∅ := by
  show (match (∅ : Table κ ObjectSet).get? k with
    | some set => set
    | none => ∅) = ∅
  rw [Table.get?_empty]

theorem get_addAll (s : Store κ) (k k' : κ) (ids : ObjectSet) :
    (s.addAll k ids).get k' = if k' = k then (s.get k).union ids else s.get k' := by
  unfold addAll
  split
  case isTrue h =>
    subst h
    split
    case isTrue h => subst h; exact ObjectSet.ext_mem (by simp)
    case isFalse => rfl
  case isFalse =>
    have found : (s.table.set k ((s.get k).union ids)).get? k' =
        if k' = k then some ((s.get k).union ids) else s.table.get? k' :=
      Table.get?_set ..
    by_cases hk : k' = k
    · simp only [hk, if_true] at found ⊢
      rw [get, found]
    · simp only [hk, if_false] at found ⊢
      rw [get, found, get]

theorem mem_get_addAll {s : Store κ} {k k' : κ} {ids : ObjectSet} {a : Int} :
    a ∈ (s.addAll k ids).get k' ↔ a ∈ s.get k' ∨ (k' = k ∧ a ∈ ids) := by
  rw [get_addAll]
  split
  case isTrue h => subst h; simp
  case isFalse h => simp [h]

theorem grows_iff {s : Store κ} {k : κ} {ids : ObjectSet} :
    s.grows k ids ↔ ∃ a ∈ ids, a ∉ s.get k := by
  simp [grows, ← Bool.not_eq_true, ObjectSet.subset_iff]

theorem mem_entries {s : Store κ} {k : κ} {ids : ObjectSet} :
    (k, ids) ∈ s.entries ↔ s.get k = ids ∧ ids ≠ ∅ := by
  have := s.nonempty k
  rw [entries, Table.mem_entries, get]
  grind

theorem mem_keys {s : Store κ} {k : κ} : k ∈ s.keys ↔ s.get k ≠ ∅ := by
  have := s.nonempty k
  rw [keys, Table.mem_keys, get]
  grind

end Store
end PointsTo
