import Mathlib.Data.List.Find
import Mathlib.Data.List.Nodup
import Mathlib.Data.List.Perm.Subperm
import PointsTo.Program.Hierarchy

namespace PointsTo

theorem find?_eq_some_iff_of_nodup {α β : Type} [DecidableEq β] {f : α → β} {l : List α} {a : α}
    {b : β} (nodup : (l.map f).Nodup) : l.find? (f · = b) = some a ↔ a ∈ l ∧ f a = b := by
  induction l
  case nil => simp
  case cons x rest hi =>
    have ⟨fresh, nodup⟩ := List.nodup_cons.mp nodup
    by_cases hx : f x = b
    case pos =>
      have other : ∀ y ∈ rest, f y ≠ b := fun y hy e => fresh (hx ▸ e ▸ List.mem_map_of_mem hy)
      simp only [List.find?_cons_of_pos (p := (f · = b)) (by simpa using hx), Option.some.injEq]
      grind
    case neg =>
      rw [List.find?_cons_of_neg (by simpa using hx), hi nodup]
      grind

namespace Program

variable {p : Program} {c : Class} {m m' : Method} {name owner sub : String} {id : Nat}

theorem mem_methods : m ∈ p.methods ↔ ∃ c ∈ p.classes, m ∈ c.methods :=
  List.mem_flatMap

theorem name_of_class? (h : p.class? name = some c) : c.name = name := by
  simpa using List.find?_some h

theorem class?_isSome_iff : (p.class? name).isSome ↔ ∃ c ∈ p.classes, c.name = name := by
  simp [class?]

def withClass (p : Program) (c : Class) : Program :=
  { p with classes := p.classes ++ [c] }

theorem addClass_eq_ok (fresh : p.class? c.name = none) : p.addClass c = .ok (p.withClass c) := by
  simp [addClass, fresh, withClass]

theorem class?_withClass (h : p.class? name = some c') :
    (p.withClass c).class? name = some c' := by
  unfold class? at h
  simp [class?, withClass, List.find?_append, h]

theorem class?_withClass_self (fresh : p.class? c.name = none) :
    (p.withClass c).class? c.name = some c := by
  unfold class? at fresh
  simp [class?, withClass, List.find?_append, fresh]

theorem class?_withClass_of_ne (h : name ≠ c.name) :
    (p.withClass c).class? name = p.class? name := by
  simp [class?, withClass, List.find?_append, Ne.symm h]

theorem methods_withClass (empty : c.methods = []) : (p.withClass c).methods = p.methods := by
  simp [methods, withClass, empty]

theorem class?_insertMethod : (p.insertMethod owner m).class? name =
    (p.class? name).map fun c =>
      if c.name = owner then { c with methods := c.methods ++ [m] } else c := by
  unfold class? insertMethod modifyClass
  rw [List.find?_map]
  congr 2
  funext c
  simp only [Function.comp_apply]
  split <;> rfl

theorem class?_insertMethod_of_ne (h : name ≠ owner) :
    (p.insertMethod owner m).class? name = p.class? name := by
  rw [class?_insertMethod]
  cases hc : p.class? name
  case none => rfl
  case some c =>
    have other : c.name ≠ owner := name_of_class? hc ▸ h
    simp [other]

theorem class?_modifyMethod {f : Method → Method} : (p.modifyMethod id f).class? name =
    (p.class? name).map fun c =>
      { c with methods := c.methods.map fun m => if m.id = id then f m else m } := by
  unfold class? modifyMethod
  rw [List.find?_map]
  rfl

theorem names_insertMethod :
    (p.insertMethod owner m).classes.map Class.name = p.classes.map Class.name := by
  unfold insertMethod modifyClass
  rw [List.map_map]
  refine List.map_congr_left fun c _ => ?_
  simp only [Function.comp_apply]
  split <;> rfl

theorem names_modifyMethod {f : Method → Method} :
    (p.modifyMethod id f).classes.map Class.name = p.classes.map Class.name := by
  unfold modifyMethod
  rw [List.map_map]
  rfl

theorem methods_modifyMethod {f : Method → Method} :
    (p.modifyMethod id f).methods = p.methods.map fun m => if m.id = id then f m else m := by
  simp [methods, modifyMethod, List.map_flatMap, List.flatMap_map]

-- Exactly one class has the name `owner`, so that the method is inserted once.
theorem methods_insertMethod_perm (names : (p.classes.map Class.name).Nodup)
    (h : (p.class? owner).isSome) : (p.insertMethod owner m).methods.Perm (m :: p.methods) := by
  have ⟨c, hc, hn⟩ := class?_isSome_iff.mp h
  unfold methods insertMethod modifyClass
  generalize p.classes = classes at names hc
  induction classes
  case nil => contradiction
  case cons k rest hi =>
    have ⟨fresh, names⟩ := List.nodup_cons.mp names
    simp only [List.map_cons, List.flatMap_cons]
    by_cases hk : k.name = owner
    case pos =>
      have other : ∀ k' ∈ rest, k'.name ≠ owner :=
        fun k' hk' e => fresh (hk ▸ e ▸ List.mem_map_of_mem hk')
      rw [if_pos hk, List.map_congr_left fun k' hk' => if_neg (other k' hk'), List.map_id',
        List.append_assoc]
      exact List.perm_middle
    case neg =>
      have hc : c ∈ rest := (List.mem_cons.mp hc).resolve_left fun e => hk (e ▸ hn)
      rw [if_neg hk]
      exact ((hi names hc).append_left _).trans List.perm_middle

-- The numbers of methods are never given twice, and neither are the names of classes.
structure Numbered (p : Program) : Prop where
  names  : (p.classes.map Class.name).Nodup
  ids    : (p.methods.map Method.id).Nodup
  below  : ∀ m ∈ p.methods, m.id < p.methods.length
  owners : ∀ c ∈ p.classes, ∀ m ∈ c.methods, m.owner = c.name

namespace Numbered

theorem empty : Numbered {} where
  names  := .nil
  ids    := .nil
  below  := by simp [Program.methods]
  owners := by simp

theorem method?_eq_some_iff (h : p.Numbered) : p.method? id = some m ↔ m ∈ p.methods ∧ m.id = id :=
  find?_eq_some_iff_of_nodup h.ids

-- The numbers of methods are all those below their count.
theorem perm_range (h : p.Numbered) :
    (p.methods.map Method.id).Perm (List.range p.methods.length) := by
  have sub : p.methods.map Method.id ⊆ List.range p.methods.length := by
    intro id hid
    have ⟨m, hm, e⟩ := List.mem_map.mp hid
    exact List.mem_range.mpr (e ▸ h.below m hm)
  exact (h.ids.subperm sub).perm_of_length_le (by simp)

theorem method?_id (h : p.Numbered) (hm : m ∈ p.methods) : p.method? m.id = some m :=
  h.method?_eq_some_iff.mpr ⟨hm, rfl⟩

theorem eq_of_id (h : p.Numbered) (hm : m ∈ p.methods) (hm' : m' ∈ p.methods) (e : m.id = m'.id) :
    m = m' :=
  List.inj_on_of_nodup_map h.ids hm hm' e

theorem mem_methods_insertMethod (h : p.Numbered) (hc : (p.class? owner).isSome) :
    m' ∈ (p.insertMethod owner m).methods ↔ m' = m ∨ m' ∈ p.methods := by
  rw [(methods_insertMethod_perm h.names hc).mem_iff, List.mem_cons]

theorem withClass (h : p.Numbered) (fresh : p.class? c.name = none) (empty : c.methods = []) :
    (p.withClass c).Numbered where
  names := by
    have fresh : ∀ k ∈ p.classes, k.name ≠ c.name := by simpa [class?] using fresh
    simpa [Program.withClass, List.nodup_append, h.names] using fresh
  ids := by simpa [methods_withClass empty] using h.ids
  below := by simpa [methods_withClass empty] using h.below
  owners := by
    intro k hk m hm
    cases List.mem_append.mp hk
    case inl hk => exact h.owners k hk m hm
    case inr hk => simp_all

theorem insertMethod (h : p.Numbered) (hc : (p.class? owner).isSome)
    (hid : m.id = p.methods.length) (ho : m.owner = owner) :
    (p.insertMethod owner m).Numbered := by
  have perm := methods_insertMethod_perm (m := m) h.names hc
  refine ⟨by simpa only [names_insertMethod] using h.names, ?ids, ?below, ?owners⟩
  case ids =>
    refine (perm.map Method.id).nodup_iff.mpr (List.nodup_cons.mpr ⟨?_, h.ids⟩)
    intro hm
    have ⟨m', hm', e⟩ := List.mem_map.mp hm
    have := h.below m' hm'
    omega
  case below =>
    intro m' hm'
    rw [perm.length_eq, List.length_cons]
    cases (h.mem_methods_insertMethod hc).mp hm'
    case inl e => simp [e, hid]
    case inr hm' => exact Nat.lt_succ_of_lt (h.below m' hm')
  case owners =>
    intro c' hc' m' hm'
    have ⟨c, hc, e⟩ := List.mem_map.mp hc'
    subst e
    split at hm'
    case isTrue hn =>
      rw [if_pos hn]
      cases List.mem_append.mp hm'
      case inl hm' => exact h.owners c hc m' hm'
      case inr hm' => rw [List.mem_singleton.mp hm', ho, hn]
    case isFalse hn =>
      rw [if_neg hn]
      exact h.owners c hc m' hm'

-- A method may be replaced by another one with its number in its class.
theorem modifyMethod (h : p.Numbered) {f : Method → Method}
    (hf : ∀ m ∈ p.methods, m.id = id → (f m).id = id ∧ (f m).owner = m.owner) :
    (p.modifyMethod id f).Numbered := by
  have same : (p.modifyMethod id f).methods.map Method.id = p.methods.map Method.id := by
    rw [methods_modifyMethod, List.map_map]
    refine List.map_congr_left fun m hm => ?_
    simp only [Function.comp_apply]
    split
    case isTrue e  => rw [(hf m hm e).left, e]
    case isFalse e => rfl
  refine ⟨by simpa only [names_modifyMethod] using h.names, same ▸ h.ids, ?below, ?owners⟩
  case below =>
    intro m' hm'
    have hid : m'.id ∈ p.methods.map Method.id := same ▸ List.mem_map_of_mem hm'
    have ⟨m, hm, e⟩ := List.mem_map.mp hid
    rw [methods_modifyMethod, List.length_map, ← e]
    exact h.below m hm
  case owners =>
    intro c' hc' m' hm'
    have ⟨c, hc, e⟩ := List.mem_map.mp hc'
    subst e
    have ⟨m, hm, e⟩ := List.mem_map.mp hm'
    subst e
    split
    case isTrue e  => rw [(hf m (mem_methods.mpr ⟨c, hc, hm⟩) e).right, h.owners c hc m hm]
    case isFalse e => exact h.owners c hc m hm

end Numbered

theorem declared?_eq_some_iff : p.declared? owner sub = some m ↔
    ∃ c, p.class? owner = some c ∧ c.method? sub = some m :=
  Option.bind_eq_some_iff

theorem declared?_withClass (h : p.declared? owner sub = some m) :
    (p.withClass c).declared? owner sub = some m := by
  have ⟨k, hk, hm⟩ := declared?_eq_some_iff.mp h
  exact declared?_eq_some_iff.mpr ⟨k, class?_withClass hk, hm⟩

theorem declared?_insertMethod {n : String} (h : p.declared? n sub = some m') :
    (p.insertMethod owner m).declared? n sub = some m' := by
  have ⟨c, hc, hm⟩ := declared?_eq_some_iff.mp h
  simp only [declared?, class?_insertMethod, hc, Option.map_some, Option.bind_some]
  split
  case isTrue =>
    unfold Class.method? at hm ⊢
    rw [List.find?_append, hm]
    rfl
  case isFalse => exact hm

theorem declared?_insertMethod_self (hc : (p.class? owner).isSome)
    (fresh : p.declared? owner m.subsignature = none) :
    (p.insertMethod owner m).declared? owner m.subsignature = some m := by
  have ⟨c, hc⟩ := Option.isSome_iff_exists.mp hc
  have none : c.methods.find? (·.subsignature = m.subsignature) = none := by
    simpa [declared?, hc, Class.method?] using fresh
  simp only [declared?, class?_insertMethod, hc, Option.map_some, Option.bind_some,
    if_pos (name_of_class? hc)]
  unfold Class.method?
  rw [List.find?_append, none]
  simp

theorem declared?_modifyMethod {f : Method → Method} (h : p.declared? owner sub = some m)
    (hf : ∀ m ∈ p.methods, m.id = id → (f m).subsignature = m.subsignature) :
    (p.modifyMethod id f).declared? owner sub = some (if m.id = id then f m else m) := by
  have ⟨c, hc, hm⟩ := declared?_eq_some_iff.mp h
  simp only [declared?, class?_modifyMethod, hc, Option.map_some, Option.bind_some]
  unfold Class.method? at hm ⊢
  rw [List.find?_map, ← Option.map_some (f := fun m : Method => if m.id = id then f m else m), ← hm]
  congr 1
  refine List.find?_congr fun m hm => ?_
  have hm : m ∈ p.methods := mem_methods.mpr ⟨c, List.mem_of_find?_eq_some hc, hm⟩
  simp only [Function.comp_apply]
  split
  case isTrue e  => rw [hf m hm e]
  case isFalse e => rfl

-- Whatever the superclasses are, a class looks for a method among its own ones first.
theorem resolve_of_declared {h : Hierarchy} (hv : h.visible owner)
    (hd : h.program.declared? owner sub = some m) : h.resolve ⟨owner, sub⟩ = some m := by
  have ⟨c, hc, hm⟩ := declared?_eq_some_iff.mp hd
  have chain : ∃ rest, h.chain c = c :: rest := by
    unfold Hierarchy.chain
    have pos : h.program.classes.length ≠ 0 := by
      intro e
      simp [class?, List.length_eq_zero_iff.mp e] at hc
    have ⟨n, hn⟩ := Nat.exists_eq_succ_of_ne_zero pos
    rw [hn]
    exact ⟨_, rfl⟩
  have ⟨rest, hr⟩ := chain
  simp [Hierarchy.resolve, Hierarchy.class?, hv, hc, hr, hm]

end Program
end PointsTo
