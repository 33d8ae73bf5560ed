import Mathlib.Data.Set.Lattice
import PointsTo.Analysis.Facts

namespace PointsTo

namespace ObjectSet

theorem mem_foldl_union {sets : List ObjectSet} {s : ObjectSet} {x : Int} :
    x ∈ sets.foldl union s ↔ x ∈ s ∨ ∃ t ∈ sets, x ∈ t := by
  induction sets generalizing s
  case nil => simp
  case cons t rest hi => simp [hi, or_assoc]

theorem mem_unionAll {sets : List ObjectSet} {x : Int} :
    x ∈ unionAll sets ↔ ∃ t ∈ sets, x ∈ t := by
  simp [unionAll, mem_foldl_union]

end ObjectSet

-- An access with a key reads the slot with that key, and the wildcard reads every element.
def FieldKey.Reads (key k : FieldKey) : Prop :=
  k = key ∨ key = .anyIndex ∧ k.isArray

theorem Fields.mem_elements {s : Fields} {o x : Int} :
    x ∈ s.elements o ↔ ∃ k : FieldKey, k.isArray ∧ x ∈ s.get ⟨o, k⟩ := by
  simp only [elements, ObjectSet.mem_unionAll, List.mem_filterMap, get]
  constructor
  case mp =>
    rintro ⟨ids, ⟨⟨k, ids'⟩, he, hk⟩, hx⟩
    obtain ⟨hg, _⟩ := Store.mem_entries.mp he
    simp only [Option.ite_none_right_eq_some, Option.some.injEq] at hk
    exact ⟨k, hk.left, by rw [hg, hk.right]; exact hx⟩
  case mpr =>
    rintro ⟨k, hk, hx⟩
    have hne : (s.partsOf o).get k ≠ ∅ := by
      intro he
      simp [he] at hx
    exact ⟨_, ⟨⟨k, _⟩, Store.mem_entries.mpr ⟨rfl, hne⟩, by simp [hk]⟩, hx⟩

namespace Analysis

inductive Fact
  | points (v : Var) (o : Int)
  | holds (slot : Slot) (o : Int)
deriving DecidableEq

def Fact.object : Fact → Int
  | points _ o | holds _ o => o

-- What a variable points to, and what a slot holds, according to a set of facts.
def pointees (F : Set Fact) (v : Var) : Set Int :=
  { o | .points v o ∈ F }

def contents (F : Set Fact) (slot : Slot) : Set Int :=
  { o | .holds slot o ∈ F }

-- The objects whose field a statement accesses, as in `Facts.owners`.
def owners (F : Set Fact) (base : Option Var) (field : FieldRef) : Set Int :=
  match base with
  | some v => pointees F v
  | none => {Slot.staticOwner field.owner}

variable {F G : Set Fact} {f : Facts}

@[simp]
theorem mem_pointees {v : Var} {o : Int} : o ∈ pointees F v ↔ .points v o ∈ F :=
  Iff.rfl

@[simp]
theorem mem_contents {slot : Slot} {o : Int} : o ∈ contents F slot ↔ .holds slot o ∈ F :=
  Iff.rfl

theorem pointees_mono (h : F ⊆ G) (v : Var) : pointees F v ⊆ pointees G v :=
  fun _ ho => h ho

theorem contents_mono (h : F ⊆ G) (slot : Slot) : contents F slot ⊆ contents G slot :=
  fun _ ho => h ho

theorem owners_mono (h : F ⊆ G) (base : Option Var) (field : FieldRef) :
    owners F base field ⊆ owners G base field := by
  cases base
  case none   => exact subset_rfl
  case some v => exact pointees_mono h v

namespace Facts

def toSet (f : Facts) : Set Fact
  | .points v o => o ∈ f.points.get v
  | .holds slot o => o ∈ f.fields.get slot

@[simp]
theorem points_mem_toSet {v : Var} {o : Int} : .points v o ∈ f.toSet ↔ o ∈ f.points.get v :=
  Iff.rfl

@[simp]
theorem holds_mem_toSet {slot : Slot} {o : Int} : .holds slot o ∈ f.toSet ↔ o ∈ f.fields.get slot :=
  Iff.rfl

@[simp]
theorem not_mem_toSet_empty (x : Fact) : x ∉ (∅ : Facts).toSet := by
  cases x
  case points v o   =>
    show o ∉ (∅ : Store Var).get v
    simp
  case holds slot o =>
    show o ∉ (∅ : Fields).get slot
    simp

theorem mem_owners {base : Option Var} {field : FieldRef} {o : Int} :
    o ∈ f.owners base field ↔ o ∈ Analysis.owners f.toSet base field := by
  cases base
  case none   => simp [owners, Analysis.owners]
  case some v => simp [owners, Analysis.owners, ObjectSet.mem_toList]

theorem mem_load {os : List Int} {key : FieldKey} {x : Int} :
    x ∈ f.load os key ↔ ∃ o ∈ os, .holds ⟨o, key⟩ x ∈ f.toSet := by
  simp [load, ObjectSet.mem_unionAll]

theorem mem_loadElement {os : List Int} {key : FieldKey} {x : Int} :
    x ∈ f.loadElement os key ↔ ∃ o ∈ os, ∃ k, key.Reads k ∧ .holds ⟨o, k⟩ x ∈ f.toSet := by
  unfold loadElement FieldKey.Reads
  split
  case isTrue h =>
    subst h
    simp only [ObjectSet.mem_unionAll, List.mem_map, exists_exists_and_eq_and, Fields.mem_elements,
      true_and, holds_mem_toSet]
    have array : FieldKey.isArray .anyIndex = true := rfl
    grind
  case isFalse h => simp [mem_load, h]

end Facts
end Analysis
end PointsTo
