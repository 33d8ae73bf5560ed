namespace PointsTo

namespace ObjectSet

def insertSorted (a : Int) : List Int → List Int
  | [] => [a]
  | b :: rest =>
    if a < b then a :: b :: rest
    else if a = b then b :: rest
    else b :: insertSorted a rest

theorem mem_insertSorted {a x : Int} {l : List Int} :
    x ∈ insertSorted a l ↔ x = a ∨ x ∈ l := by
  induction l with
  | nil => simp [insertSorted]
  | cons b rest ih =>
    unfold insertSorted
    split
    · simp
    · split
      case isTrue h => subst h; simp
      case isFalse => simp only [List.mem_cons, ih]; grind

theorem insertSorted_sorted {a : Int} {l : List Int} (h : l.Pairwise (· < ·)) :
    (insertSorted a l).Pairwise (· < ·) := by
  induction l with
  | nil => simp [insertSorted]
  | cons b rest ih =>
    obtain ⟨hb, hrest⟩ := List.pairwise_cons.mp h
    unfold insertSorted
    split
    case isTrue hab =>
      refine List.pairwise_cons.mpr ⟨fun x hx => ?_, h⟩
      rcases List.mem_cons.mp hx with rfl | hx
      · exact hab
      · exact Int.lt_trans hab (hb x hx)
    case isFalse hab =>
      split
      case isTrue => exact h
      case isFalse hne =>
        refine List.pairwise_cons.mpr ⟨fun x hx => ?_, ih hrest⟩
        rcases mem_insertSorted.mp hx with rfl | hx
        · omega
        · exact hb x hx

def mergeSorted : List Int → List Int → List Int
  | [], l => l
  | a :: rest, l => l.takeWhile (· < a) ++ a :: mergeSorted rest (l.dropWhile (· ≤ a))

def subsetSorted : List Int → List Int → Bool
  | [], _ => true
  | a :: rest, l => match l.dropWhile (· < a) with
    | b :: rest' => a = b && subsetSorted rest rest'
    | [] => false

theorem mem_dropWhile_le {a x : Int} {l : List Int} (h : l.Pairwise (· < ·)) :
    x ∈ l.dropWhile (· ≤ a) ↔ x ∈ l ∧ a < x := by
  induction l with
  | nil => simp
  | cons b rest ih => grind [List.dropWhile_cons, List.pairwise_cons]

theorem mem_dropWhile_lt {a x : Int} {l : List Int} (h : l.Pairwise (· < ·)) :
    x ∈ l.dropWhile (· < a) ↔ x ∈ l ∧ a ≤ x := by
  induction l with
  | nil => simp
  | cons b rest ih => grind [List.dropWhile_cons, List.pairwise_cons]

theorem mem_takeWhile_lt {a x : Int} {l : List Int} (h : l.Pairwise (· < ·)) :
    x ∈ l.takeWhile (· < a) ↔ x ∈ l ∧ x < a := by
  induction l with
  | nil => simp
  | cons b rest ih => grind [List.takeWhile_cons, List.pairwise_cons]

theorem mem_mergeSorted {x : Int} {l₁ l₂ : List Int} (h : l₂.Pairwise (· < ·)) :
    x ∈ mergeSorted l₁ l₂ ↔ x ∈ l₁ ∨ x ∈ l₂ := by
  induction l₁ generalizing l₂ with
  | nil => simp [mergeSorted]
  | cons a rest ih =>
    have hdrop := h.sublist (List.dropWhile_sublist (· ≤ a))
    simp only [mergeSorted, List.mem_append, List.mem_cons, ih hdrop, mem_takeWhile_lt h,
      mem_dropWhile_le h]
    grind

theorem mergeSorted_sorted {l₁ l₂ : List Int} (h₁ : l₁.Pairwise (· < ·))
    (h₂ : l₂.Pairwise (· < ·)) : (mergeSorted l₁ l₂).Pairwise (· < ·) := by
  induction l₁ generalizing l₂ with
  | nil => exact h₂
  | cons a rest ih =>
    obtain ⟨ha, hrest⟩ := List.pairwise_cons.mp h₁
    have hdrop := h₂.sublist (List.dropWhile_sublist (· ≤ a))
    have above : ∀ x ∈ mergeSorted rest (l₂.dropWhile (· ≤ a)), a < x := by
      intro x hx
      rcases (mem_mergeSorted hdrop).mp hx with hx | hx
      · exact ha x hx
      · exact ((mem_dropWhile_le h₂).mp hx).2
    refine List.pairwise_append.mpr
      ⟨h₂.sublist (List.takeWhile_sublist _), List.pairwise_cons.mpr ⟨above, ih hrest hdrop⟩, ?_⟩
    intro x hx y hy
    have hxa := ((mem_takeWhile_lt h₂).mp hx).2
    rcases List.mem_cons.mp hy with rfl | hy
    · exact hxa
    · exact Int.lt_trans hxa (above y hy)

theorem subsetSorted_iff {l₁ l₂ : List Int} (h₁ : l₁.Pairwise (· < ·)) (h₂ : l₂.Pairwise (· < ·)) :
    subsetSorted l₁ l₂ ↔ ∀ x ∈ l₁, x ∈ l₂ := by
  induction l₁ generalizing l₂ with
  | nil => simp [subsetSorted]
  | cons a rest ih =>
    obtain ⟨ha, hrest⟩ := List.pairwise_cons.mp h₁
    have hdrop := h₂.sublist (List.dropWhile_sublist (· < a))
    have mem (x : Int) := mem_dropWhile_lt (a := a) (x := x) h₂
    unfold subsetSorted
    split
    case h_1 b rest' he =>
      rw [he] at mem hdrop
      obtain ⟨hb, hrest'⟩ := List.pairwise_cons.mp hdrop
      simp only [Bool.and_eq_true, decide_eq_true_eq, ih hrest hrest']
      constructor
      · rintro ⟨rfl, hsub⟩ x hx
        rcases List.mem_cons.mp hx with rfl | hx
        · exact ((mem x).mp List.mem_cons_self).1
        · exact ((mem x).mp (List.mem_cons_of_mem _ (hsub x hx))).1
      · intro hsub
        have hab : a = b := by
          have hba := ((mem b).mp List.mem_cons_self).2
          rcases List.mem_cons.mp ((mem a).mpr ⟨hsub a List.mem_cons_self, Int.le_refl a⟩)
            with e | hm
          · exact e
          · have := hb a hm; omega
        refine ⟨hab, fun x hx => ?_⟩
        have hax := ha x hx
        rcases List.mem_cons.mp
          ((mem x).mpr ⟨hsub x (List.mem_cons_of_mem _ hx), Int.le_of_lt hax⟩) with e | hm
        · omega
        · exact hm
    case h_2 he =>
      rw [he] at mem
      have := mem a
      grind

end ObjectSet

-- The strictly ascending list of the elements, so that two sets with the same elements are equal.
@[ext]
structure ObjectSet where
  toList : List Int
  sorted : toList.Pairwise (· < ·)
deriving DecidableEq

namespace ObjectSet

instance : EmptyCollection ObjectSet := ⟨⟨[], .nil⟩⟩

instance : Inhabited ObjectSet := ⟨∅⟩

instance : Membership Int ObjectSet := ⟨fun s a => a ∈ s.toList⟩

instance (a : Int) (s : ObjectSet) : Decidable (a ∈ s) :=
  inferInstanceAs (Decidable (a ∈ s.toList))

theorem mem_toList {a : Int} {s : ObjectSet} : a ∈ s.toList ↔ a ∈ s :=
  Iff.rfl

@[simp] theorem not_mem_empty {a : Int} : a ∉ (∅ : ObjectSet) :=
  List.not_mem_nil

def insert (s : ObjectSet) (a : Int) : ObjectSet :=
  ⟨insertSorted a s.toList, insertSorted_sorted s.sorted⟩

@[simp] theorem mem_insert {a x : Int} {s : ObjectSet} : x ∈ s.insert a ↔ x = a ∨ x ∈ s :=
  mem_insertSorted

def insertAll (s : ObjectSet) (l : List Int) : ObjectSet :=
  l.foldl insert s

@[simp] theorem mem_insertAll {x : Int} {s : ObjectSet} {l : List Int} :
    x ∈ s.insertAll l ↔ x ∈ s ∨ x ∈ l := by
  induction l generalizing s with
  | nil => simp [insertAll]
  | cons a rest ih =>
    have step : s.insertAll (a :: rest) = (s.insert a).insertAll rest := rfl
    rw [step, ih, mem_insert, List.mem_cons]
    grind

def ofList (l : List Int) : ObjectSet :=
  insertAll ∅ l

@[simp] theorem mem_ofList {x : Int} {l : List Int} : x ∈ ofList l ↔ x ∈ l := by
  simp [ofList]

def subset (s t : ObjectSet) : Bool :=
  withPtrEq s t (fun _ => subsetSorted s.toList t.toList) fun h =>
    (subsetSorted_iff s.sorted t.sorted).mpr fun _ => h ▸ id

theorem subset_iff {s t : ObjectSet} : s.subset t ↔ ∀ a ∈ s, a ∈ t :=
  subsetSorted_iff s.sorted t.sorted

-- If one of the sets has all elements, it is that set.
def union (s t : ObjectSet) : ObjectSet :=
  if t.subset s then s
  else if s.subset t then t
  else ⟨mergeSorted s.toList t.toList, mergeSorted_sorted s.sorted t.sorted⟩

@[simp] theorem mem_union {x : Int} {s t : ObjectSet} : x ∈ s.union t ↔ x ∈ s ∨ x ∈ t := by
  unfold union
  split
  case isTrue h => have := subset_iff.mp h x; grind
  case isFalse =>
    split
    case isTrue h => have := subset_iff.mp h x; grind
    case isFalse => exact mem_mergeSorted t.sorted

def add (s : ObjectSet) (a : Int) : ObjectSet × Bool :=
  (s.insert a, a ∉ s)

def addAll (s t : ObjectSet) : ObjectSet × Bool :=
  (s.union t, !t.subset s)

def unionAll (sets : List ObjectSet) : ObjectSet :=
  sets.foldl union ∅

def size (s : ObjectSet) : Nat :=
  s.toList.length

def isEmpty (s : ObjectSet) : Bool :=
  s.toList.isEmpty

theorem isEmpty_iff {s : ObjectSet} : s.isEmpty ↔ s = ∅ := by
  rw [isEmpty, List.isEmpty_iff]
  exact ⟨fun h => ObjectSet.ext h, fun h => h ▸ rfl⟩

-- Objects with a label are positive; all others, and the owners of static fields, are negative.
def observable (s : ObjectSet) : List Int :=
  s.toList.filter (0 < ·)

theorem mem_observable {a : Int} {s : ObjectSet} : a ∈ s.observable ↔ a ∈ s ∧ 0 < a := by
  simp [observable, mem_toList]

theorem eq_of_sorted {l₁ l₂ : List Int} (h₁ : l₁.Pairwise (· < ·)) (h₂ : l₂.Pairwise (· < ·))
    (h : ∀ x, x ∈ l₁ ↔ x ∈ l₂) : l₁ = l₂ := by
  induction l₁ generalizing l₂ with
  | nil =>
    cases l₂ with
    | nil => rfl
    | cons b _ => exact absurd ((h b).mpr List.mem_cons_self) List.not_mem_nil
  | cons a r₁ ih =>
    cases l₂ with
    | nil => exact absurd ((h a).mp List.mem_cons_self) List.not_mem_nil
    | cons b r₂ =>
      obtain ⟨ha, hr₁⟩ := List.pairwise_cons.mp h₁
      obtain ⟨hb, hr₂⟩ := List.pairwise_cons.mp h₂
      have hab : a = b := by
        rcases List.mem_cons.mp ((h a).mp List.mem_cons_self) with e | hm
        · exact e
        rcases List.mem_cons.mp ((h b).mpr List.mem_cons_self) with e | hm'
        · exact e.symm
        have := hb a hm
        have := ha b hm'
        omega
      subst hab
      congr 1
      refine ih hr₁ hr₂ fun x => ⟨fun hx => ?_, fun hx => ?_⟩
      · rcases List.mem_cons.mp ((h x).mp (List.mem_cons_of_mem _ hx)) with e | hm
        · have := ha x hx; omega
        · exact hm
      · rcases List.mem_cons.mp ((h x).mpr (List.mem_cons_of_mem _ hx)) with e | hm
        · have := hb x hx; omega
        · exact hm

theorem ext_mem {s t : ObjectSet} (h : ∀ a, a ∈ s ↔ a ∈ t) : s = t :=
  ObjectSet.ext (eq_of_sorted s.sorted t.sorted h)

def joinIds (ids : List Int) : String :=
  " ".intercalate (ids.map fun id => toString id)

def text (s : ObjectSet) : String :=
  "\x7b" ++ joinIds s.toList ++ "\x7d"

end ObjectSet
end PointsTo
