import PointsTo.Store

namespace PointsTo

inductive FieldKey where
  | field (name : String)
  | index (i : Int)
  -- Some element, it is not known which.
  | anyIndex
deriving DecidableEq

instance : Coded FieldKey where
  code
    | .field name => 2 * name.utf8ByteSize
    | .index i => 2 * i.natAbs + 3
    | .anyIndex => 1

namespace FieldKey

def isArray : FieldKey → Bool
  | field _ => false
  | _ => true

def text : FieldKey → String
  | field name => name
  | index i => "[" ++ toString i ++ "]"
  | anyIndex => "[]"

end FieldKey

structure Slot where
  object : Int
  key : FieldKey
deriving DecidableEq

namespace Slot

-- Each byte is mixed in by an exclusive or, followed by a multiplication with a prime (FNV-1a).
def hash32 (s : String) : UInt32 :=
  s.toUTF8.toList.foldl (fun h b => (h ^^^ b.toUInt32) * 16777619) 2166136261

-- The static fields of a class belong to an object of their own, whose number lies far below those
-- of the allocated objects. Two classes share it if their hashes agree in 30 bits.
def staticOwner (className : String) : Int :=
  -1000000 - ((hash32 className &&& 0x3fffffff).toNat : Int)

end Slot

structure Fields where
  parts : Std.TreeMap Int (Store FieldKey) := ∅

namespace Fields

instance : EmptyCollection Fields := ⟨{}⟩

instance : Inhabited Fields := ⟨∅⟩

def partsOf (s : Fields) (object : Int) : Store FieldKey :=
  s.parts.getD object ∅

def get (s : Fields) (slot : Slot) : ObjectSet :=
  (s.partsOf slot.object).get slot.key

def addAll (s : Fields) (slot : Slot) (ids : ObjectSet) : Fields :=
  if ids = ∅ then s
  else { parts := s.parts.insert slot.object ((s.partsOf slot.object).addAll slot.key ids) }

def grows (s : Fields) (slot : Slot) (ids : ObjectSet) : Bool :=
  !ids.subset (s.get slot)

@[simp] theorem get_empty (slot : Slot) : (∅ : Fields).get slot = ∅ := by
  show ((∅ : Std.TreeMap Int (Store FieldKey)).getD slot.object ∅).get slot.key = ∅
  rw [Std.TreeMap.getD_emptyc, Store.get_empty]

theorem get_addAll (s : Fields) (slot slot' : Slot) (ids : ObjectSet) :
    (s.addAll slot ids).get slot' = if slot' = slot then (s.get slot).union ids else s.get slot' := by
  unfold addAll
  split
  case isTrue h =>
    subst h
    split
    case isTrue h => subst h; exact ObjectSet.ext_mem (by simp)
    case isFalse => rfl
  case isFalse =>
    obtain ⟨o, k⟩ := slot
    obtain ⟨o', k'⟩ := slot'
    simp only [get, partsOf, Std.TreeMap.getD_insert, Std.LawfulEqCmp.compare_eq_iff_eq,
      Slot.mk.injEq]
    by_cases ho : o = o'
    · subst ho
      simp [Store.get_addAll]
    · simp [ho, Ne.symm ho]

theorem mem_get_addAll {s : Fields} {slot slot' : Slot} {ids : ObjectSet} {a : Int} :
    a ∈ (s.addAll slot ids).get slot' ↔ a ∈ s.get slot' ∨ (slot' = slot ∧ a ∈ ids) := by
  rw [get_addAll]
  split
  case isTrue h => subst h; simp
  case isFalse h => simp [h]

theorem grows_iff {s : Fields} {slot : Slot} {ids : ObjectSet} :
    s.grows slot ids ↔ ∃ a ∈ ids, a ∉ s.get slot := by
  simp [grows, ← Bool.not_eq_true, ObjectSet.subset_iff]

def elements (s : Fields) (object : Int) : ObjectSet :=
  .unionAll ((s.partsOf object).entries.filterMap fun (key, ids) =>
    if key.isArray then some ids else none)

def objects (s : Fields) : List Int :=
  s.parts.keys.filter fun o => (s.partsOf o).size ≠ 0

def keysOf (s : Fields) (object : Int) : List FieldKey :=
  (s.partsOf object).keys.mergeSort fun a b => a.text ≤ b.text

end Fields
end PointsTo
