import Mathlib.Data.List.Basic
import Mathlib.Data.List.Flatten
import Mathlib.Logic.Relation
import PointsTo.Preorder

namespace PointsTo

variable {α : Type} {next : α → List α} {seen stack entered : List α} {a b : α}

-- The vertices that are entered from `stack`, in order. Those of `seen` are passed over. Whatever
-- is entered below a vertex is seen by the time the search comes to its neighbours.
inductive Explores (next : α → List α) : (seen stack entered : List α) → Prop
  | nil {seen : List α} : Explores next seen [] []
  | skip {seen rest entered : List α} {a : α} : a ∈ seen → Explores next seen rest entered →
    Explores next seen (a :: rest) entered
  | enter {seen rest below entered : List α} {a : α} : a ∉ seen →
    Explores next (a :: seen) (next a) below →
    Explores next (below.reverse ++ a :: seen) rest entered →
    Explores next seen (a :: rest) (a :: below ++ entered)

namespace Explores

-- A search of two stacks on top of each other is a search of the upper one and then of the lower
-- one.
theorem split {upper lower : List α} (h : Explores next seen (upper ++ lower) entered) :
    ∃ above below, entered = above ++ below ∧ Explores next seen upper above ∧
      Explores next (above.reverse ++ seen) lower below := by
  induction upper generalizing seen entered
  case nil => exact ⟨[], entered, rfl, .nil, h⟩
  case cons a upper hi =>
    cases h
    case skip ha h =>
      have ⟨above, below, he, hu, hl⟩ := hi h
      exact ⟨above, below, he, .skip ha hu, hl⟩
    case enter under entered ha hn h =>
      have ⟨above, below, he, hu, hl⟩ := hi h
      refine ⟨a :: under ++ above, below, by simp [he], .enter ha hn hu, ?_⟩
      simpa using hl

-- Everything on the stack is entered, unless it has been seen before.
theorem mem_of_stack (h : Explores next seen stack entered) (ha : a ∈ stack) :
    a ∈ seen ∨ a ∈ entered := by
  induction h
  case nil => contradiction
  case skip => grind
  case enter => grind

theorem mem_of_next (h : Explores next seen stack entered) (ha : a ∈ entered) (hb : b ∈ next a) :
    b ∈ seen ∨ b ∈ entered := by
  induction h
  case nil => contradiction
  case skip hi => exact hi ha
  case enter hn _ hi hi' =>
    have := hn.mem_of_stack (a := b)
    grind

theorem reachable (h : Explores next seen stack entered) (ha : a ∈ entered) :
    ∃ r ∈ stack, Relation.ReflTransGen (fun a b => b ∈ next a) r a := by
  induction h
  case nil => contradiction
  case skip hi =>
    have ⟨r, hr, path⟩ := hi ha
    exact ⟨r, List.mem_cons_of_mem _ hr, path⟩
  case enter v _ _ _ hi hi' =>
    rcases List.mem_append.mp ha with ha | ha
    · rcases List.mem_cons.mp ha with rfl | ha
      · exact ⟨_, List.mem_cons_self, .refl⟩
      · have ⟨r, hr, path⟩ := hi ha
        exact ⟨v, List.mem_cons_self, path.head hr⟩
    · have ⟨r, hr, path⟩ := hi' ha
      exact ⟨r, List.mem_cons_of_mem _ hr, path⟩

-- To pass over a vertex that was entered before hides nothing, even while the search below that
-- vertex is still going on.
theorem mem_iff (h : Explores next [] stack entered) :
    a ∈ entered ↔ ∃ r ∈ stack, Relation.ReflTransGen (fun a b => b ∈ next a) r a := by
  refine ⟨h.reachable, ?_⟩
  rintro ⟨r, hr, path⟩
  induction path
  case refl => exact (h.mem_of_stack hr).resolve_left List.not_mem_nil
  case tail step entered => exact (h.mem_of_next entered step).resolve_left List.not_mem_nil

end Explores

variable [DecidableEq α] {vertices roots : List α}

-- The number of edges that leave vertices which have not been seen.
def openEdges (next : α → List α) (vertices seen : List α) : Nat :=
  ((vertices.filter (· ∉ seen)).flatMap next).length

theorem openEdges_cons_le : openEdges next vertices (a :: seen) ≤ openEdges next vertices seen := by
  have fewer : (vertices.filter (· ∉ a :: seen)).Sublist (vertices.filter (· ∉ seen)) :=
    List.monotone_filter_right vertices (by grind)
  exact (fewer.flatMap next).length_le

-- Entering a vertex puts its successors on the stack, and takes as many edges away.
theorem openEdges_enter (ha : a ∉ seen) (hv : a ∈ vertices) :
    (next a).length + openEdges next vertices (a :: seen) ≤ openEdges next vertices seen := by
  unfold openEdges
  induction vertices
  case nil => contradiction
  case cons v rest hi =>
    by_cases hva : v = a
    case pos =>
      have fewer : openEdges next rest (a :: seen) ≤ openEdges next rest seen := openEdges_cons_le
      subst hva
      simpa [openEdges, ha] using fewer
    case neg =>
      have hi := hi ((List.mem_cons.mp hv).resolve_left (Ne.symm hva))
      by_cases hs : v ∈ seen
      case pos => simpa [hs] using hi
      case neg =>
        simp only [hs, hva, List.filter_cons, List.flatMap_cons, List.length_append, List.mem_cons,
          false_or, not_false_eq_true, decide_true, if_true] at hi ⊢
        omega

theorem explores_preorderFrom (hv : ∀ a ∉ vertices, next a = []) {fuel : Nat}
    (enough : stack.length + openEdges next vertices seen ≤ fuel) :
    Explores next seen stack (preorderFrom next fuel stack seen) := by
  induction fuel generalizing stack seen
  case zero =>
    have : stack = [] := List.eq_nil_of_length_eq_zero (by omega)
    subst this
    exact .nil
  case succ fuel hi =>
    cases stack
    case nil => exact .nil
    case cons a rest =>
      simp only [List.length_cons] at enough
      unfold preorderFrom
      split
      case isTrue ha => exact .skip ha (hi (by omega))
      case isFalse ha =>
        have fewer : (next a).length + openEdges next vertices (a :: seen) ≤
            openEdges next vertices seen := by
          by_cases hm : a ∈ vertices
          case pos => exact openEdges_enter ha hm
          case neg => simpa [hv a hm] using openEdges_cons_le
        have enough : (next a ++ rest).length + openEdges next vertices (a :: seen) ≤ fuel := by
          simp only [List.length_append]
          omega
        have ⟨above, below, he, hu, hl⟩ := (hi enough).split
        rw [he]
        exact .enter ha hu hl

-- The fuel is never used up, whatever cycles there are.
theorem explores_preorder (hv : ∀ a ∉ vertices, next a = []) :
    Explores next [] roots (preorder next vertices roots) :=
  explores_preorderFrom hv (by simp [openEdges, List.filter_eq_self.mpr])

end PointsTo
