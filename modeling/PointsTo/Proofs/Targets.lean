import Mathlib.Data.Set.Lattice
import PointsTo.Targets

namespace PointsTo

namespace Program

variable {p : Program} {name : String} {c : Class} {m : Method}

theorem mem_classes_of_class? (h : p.class? name = some c) : c ∈ p.classes :=
  List.mem_of_find?_eq_some h

theorem mem_methods_of_class (hc : c ∈ p.classes) {sub : String} (h : c.method? sub = some m) :
    m ∈ p.methods :=
  List.mem_flatMap.mpr ⟨c, hc, List.mem_of_find?_eq_some h⟩

end Program

namespace Hierarchy

variable {h : Hierarchy} {c k : Class} {m : Method} {sub : String}

theorem mem_classes_of_mem_chainFrom {fuel : Nat} (hc : c ∈ h.program.classes)
    (hk : k ∈ h.chainFrom fuel c) : k ∈ h.program.classes := by
  induction fuel generalizing c
  case zero => simp [chainFrom] at hk
  case succ fuel hi =>
    unfold chainFrom at hk
    cases List.mem_cons.mp hk
    case inl hk => exact hk ▸ hc
    case inr hk =>
      split at hk
      case h_1 super hs =>
        have ⟨name, _, hn⟩ := Option.bind_eq_some_iff.mp hs
        exact hi (Program.mem_classes_of_class? hn) hk
      case h_2 => simp at hk

theorem mem_classes_of_mem_chain (hc : c ∈ h.program.classes) (hk : k ∈ h.chain c) :
    k ∈ h.program.classes :=
  mem_classes_of_mem_chainFrom hc hk

theorem mem_classes_of_class? {name : String} (hc : h.class? name = some c) :
    c ∈ h.program.classes := by
  unfold class? at hc
  split at hc
  case isTrue  => exact Program.mem_classes_of_class? hc
  case isFalse => contradiction

theorem resolve_of_class? {ref : MethodRef} (hc : h.class? ref.owner = some c) : h.resolve ref =
    ((h.chain c).findSome? (·.method? ref.subsignature)).or
      ((h.superinterfaces c).findSome? (·.method? ref.subsignature)) := by
  simp [resolve, hc, List.findSome?_append]

theorem mem_methods_of_resolve {ref : MethodRef} (hr : h.resolve ref = some m) :
    m ∈ h.program.methods := by
  have ⟨c, hc, hm⟩ := Option.bind_eq_some_iff.mp hr
  have ⟨k, hk, hm⟩ := List.exists_of_findSome?_eq_some hm
  refine Program.mem_methods_of_class ?_ hm
  cases List.mem_append.mp hk
  case inl hk => exact mem_classes_of_mem_chain (mem_classes_of_class? hc) hk
  case inr hk =>
    have ⟨_, _, hk⟩ := List.mem_filterMap.mp hk
    exact Program.mem_classes_of_class? hk

theorem mem_methods_of_dispatch (hc : c ∈ h.program.classes) (hd : h.dispatch c sub = some m) :
    m ∈ h.program.methods := by
  have ⟨k, hk, hm⟩ := List.exists_of_findSome?_eq_some hd
  have ⟨hm, _⟩ := Option.filter_eq_some_iff.mp hm
  exact Program.mem_methods_of_class (mem_classes_of_mem_chain hc hk) hm

theorem isAbstract_of_dispatch (hd : h.dispatch c sub = some m) : m.isAbstract = false := by
  have ⟨k, _, hm⟩ := List.exists_of_findSome?_eq_some hd
  simpa using (Option.filter_eq_some_iff.mp hm).right

-- A class without superclass and interfaces looks for a method among its own ones only.
theorem resolve_of_root {ref : MethodRef} (hc : h.class? ref.owner = some c) (hs : c.super = none)
    (hi : c.interfaces = []) : h.resolve ref = c.method? ref.subsignature := by
  have chain : h.chain c = [c] := by
    have ⟨n, hn⟩ := Nat.exists_eq_succ_of_ne_zero
      (List.length_pos_of_mem (mem_classes_of_class? hc)).ne'
    simp [Hierarchy.chain, hn, chainFrom, hs]
  have none : h.superinterfaces c = [] := by
    have empty (fuel : Nat) : preorderFrom h.interfaces fuel [] [] = [] := by
      cases fuel <;> rfl
    simp [superinterfaces, chain, hi, preorder, empty]
  simp [resolve, hc, chain, none]

end Hierarchy

namespace Scene

variable {c : Scene} {call : Invoke} {m : Method} {sub : String} {id : Int}

theorem receiverTarget?_eq_some_iff :
    c.receiverTarget? sub id = some m ↔
      ∃ type k, c.objects.type? id = some type ∧ c.hierarchy.class? type = some k ∧
        c.hierarchy.dispatch k sub = some m ∧ m.isNative = false := by
  simp only [receiverTarget?, class?, classTarget?, Option.bind_eq_bind, Option.bind_eq_some_iff,
    Option.filter_eq_some_iff, Bool.not_eq_true']
  grind

theorem mem_methods_of_receiverTarget? (h : c.receiverTarget? sub id = some m) :
    m ∈ c.hierarchy.program.methods := by
  have ⟨_, _, _, hk, hd, _⟩ := receiverTarget?_eq_some_iff.mp h
  exact Hierarchy.mem_methods_of_dispatch (Hierarchy.mem_classes_of_class? hk) hd

theorem mem_receiverTargets {ids : List Int} :
    m ∈ c.receiverTargets sub ids ↔ ∃ id ∈ ids, c.receiverTarget? sub id = some m := by
  simp [receiverTargets, List.mem_eraseDups]

def runs (c : Scene) (call : Invoke) (receivers : Set Int) : Set Method :=
  { m | ∃ declared, c.hierarchy.resolve call.method = some declared ∧ declared.isNative = false ∧
    if call.kind.isDirect then declared.isAbstract = false ∧ m = declared
    else ∃ id ∈ receivers, c.receiverTarget? declared.subsignature id = some m }

theorem runs_mono {R R' : Set Int} (h : R ⊆ R') : c.runs call R ⊆ c.runs call R' := by
  intro m ⟨declared, hd, hn, hm⟩
  refine ⟨declared, hd, hn, ?_⟩
  split at hm
  case isTrue hk => simpa [hk] using hm
  case isFalse hk =>
    have ⟨id, hid, ht⟩ := hm
    simp only [hk]
    exact ⟨id, h hid, ht⟩

-- The declared method stands in for receivers without an answer, if it can be run.
theorem mem_targets_iff {R : ObjectSet} :
    m ∈ c.targets call R ↔ m ∈ c.runs call { id | id ∈ R } ∨
      c.hierarchy.resolve call.method = some m ∧ m.isNative = false ∧ m.isAbstract = false ∧
        call.kind.isDirect = false ∧ c.receiverTargets m.subsignature R.toList = [] := by
  unfold targets
  split
  case h_1 hd => simp [runs, hd]
  case h_2 declared hd =>
    simp only [runs, hd, Set.mem_ofPred_eq, Option.some.injEq, exists_eq_left']
    by_cases hn : declared.isNative
    case pos => grind
    case neg =>
      by_cases hk : call.kind.isDirect
      case pos => grind
      case neg =>
        simp only [hn, hk, Bool.false_eq_true, if_false]
        split
        case h_1 he =>
          have none : ∀ m, ¬ ∃ id, id ∈ R ∧ c.receiverTarget? declared.subsignature id = some m := by
            intro m hm
            have := mem_receiverTargets.mpr hm
            simp [he] at this
          grind
        case h_2 found hne =>
          have found_iff : m ∈ c.receiverTargets declared.subsignature R.toList ↔
              ∃ id ∈ R.toList, c.receiverTarget? declared.subsignature id = some m :=
            mem_receiverTargets
          simp only [ObjectSet.mem_toList] at found_iff
          grind

theorem runs_subset_targets {R : ObjectSet} (h : m ∈ c.runs call { id | id ∈ R }) :
    m ∈ c.targets call R :=
  mem_targets_iff.mpr (.inl h)

section Abstract

variable {declared : Method} {R R' : ObjectSet}

-- An abstract method is not what a receiver runs, and it does not stand in for receivers either.
theorem not_mem_targets_of_isAbstract (hd : c.hierarchy.resolve call.method = some declared)
    (abstract : declared.isAbstract) : declared ∉ c.targets call R := by
  intro hm
  cases mem_targets_iff.mp hm
  case inr fallback => simp [abstract] at fallback
  case inl runs =>
    have ⟨declared', hd', _, hm⟩ := runs
    obtain rfl : declared = declared' := Option.some.inj (hd.symm.trans hd')
    split at hm
    case isTrue  => simp [abstract] at hm
    case isFalse =>
      have ⟨_, _, target⟩ := hm
      have ⟨_, _, _, _, dispatched, _⟩ := receiverTarget?_eq_some_iff.mp target
      simp [Hierarchy.isAbstract_of_dispatch dispatched] at abstract

-- A call of an abstract method runs more when there are more receivers.
theorem targets_mono_of_isAbstract
    (abstract : ∀ declared, c.hierarchy.resolve call.method = some declared → declared.isAbstract)
    (hR : ∀ id ∈ R, id ∈ R') (hm : m ∈ c.targets call R) : m ∈ c.targets call R' := by
  cases mem_targets_iff.mp hm
  case inl runs => exact runs_subset_targets (runs_mono hR runs)
  case inr fallback =>
    have := abstract m fallback.left
    simp [fallback.right.right.left] at this

end Abstract

theorem mem_methods_of_mem_runs {R : Set Int} (h : m ∈ c.runs call R) :
    m ∈ c.hierarchy.program.methods := by
  have ⟨declared, hd, _, hm⟩ := h
  split at hm
  case isTrue  => exact hm.right ▸ Hierarchy.mem_methods_of_resolve hd
  case isFalse =>
    have ⟨_, _, ht⟩ := hm
    exact mem_methods_of_receiverTarget? ht

theorem mem_methods_of_mem_targets {R : ObjectSet} (h : m ∈ c.targets call R) :
    m ∈ c.hierarchy.program.methods := by
  cases mem_targets_iff.mp h
  case inl h => exact mem_methods_of_mem_runs h
  case inr h => exact Hierarchy.mem_methods_of_resolve h.left

end Scene
end PointsTo
