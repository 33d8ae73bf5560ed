import Mathlib.Data.List.Perm.Basic
import PointsTo.Proofs.Targets

namespace PointsTo

-- The method `f m` stands for `m`, and the class `g c` for `c`. The order of classes may differ.
structure Hierarchy.Corresponds (f : Method → Method) (g : Class → Class) (h h' : Hierarchy) :
    Prop where
  names        : (h'.program.classes.map Class.name).Perm (h.program.classes.map Class.name)
  lookup       : ∀ name, h'.program.class? name = (h.program.class? name).map g
  visible      : h'.visible = h.visible
  super        : ∀ c, (g c).super = c.super
  interfaces   : ∀ c, (g c).interfaces = c.interfaces
  method?      : ∀ c sub, (g c).method? sub = (c.method? sub).map f
  modifiers    : ∀ m, (f m).modifiers = m.modifiers
  subsignature : ∀ m, (f m).subsignature = m.subsignature

namespace Hierarchy.Corresponds

variable {f : Method → Method} {g : Class → Class} {h h' : Hierarchy}

theorem isAbstract_eq (r : Corresponds f g h h') (m : Method) : (f m).isAbstract = m.isAbstract :=
  congrArg Modifiers.isAbstract (r.modifiers m)

theorem isNative_eq (r : Corresponds f g h h') (m : Method) : (f m).isNative = m.isNative :=
  congrArg Modifiers.isNative (r.modifiers m)

theorem class?_eq (r : Corresponds f g h h') (name : String) :
    h'.class? name = (h.class? name).map g := by
  unfold class?
  rw [r.visible, r.lookup]
  split <;> rfl

theorem chainFrom_eq (r : Corresponds f g h h') (fuel : Nat) (c : Class) :
    h'.chainFrom fuel (g c) = (h.chainFrom fuel c).map g := by
  induction fuel generalizing c
  case zero => rfl
  case succ fuel hi =>
    -- Superclasses are found by name, so they correspond, too.
    have super : (g c).super.bind h'.program.class? = (c.super.bind h.program.class?).map g := by
      rw [r.super]
      cases c.super
      case none      => rfl
      case some name => exact r.lookup name
    unfold chainFrom
    rw [super]
    cases c.super.bind h.program.class?
    case none   => rfl
    case some k => simp [hi k]

theorem chain_eq (r : Corresponds f g h h') (c : Class) : h'.chain (g c) = (h.chain c).map g := by
  have length : h'.program.classes.length = h.program.classes.length := by
    simpa using r.names.length_eq
  unfold chain
  rw [length]
  exact r.chainFrom_eq ..

theorem interfaces_eq (r : Corresponds f g h h') : h'.interfaces = h.interfaces := by
  funext name
  unfold Hierarchy.interfaces
  rw [r.lookup]
  cases h.program.class? name
  case none   => rfl
  case some c => exact r.interfaces c

-- The names of the classes only matter for how many edges there are.
theorem superinterfaces_eq (r : Corresponds f g h h') (c : Class) :
    h'.superinterfaces (g c) = (h.superinterfaces c).map g := by
  have edges := (r.names.flatMap_right h.interfaces).length_eq
  have roots : (h'.chain (g c)).flatMap Class.interfaces =
      (h.chain c).flatMap Class.interfaces := by
    rw [r.chain_eq, List.flatMap_map]
    exact List.flatMap_congr fun k _ => r.interfaces k
  unfold superinterfaces preorder
  simp only [roots, r.interfaces_eq, edges, List.map_filterMap]
  exact List.filterMap_congr fun name _ => r.lookup name

theorem resolve_eq (r : Corresponds f g h h') (ref : MethodRef) :
    h'.resolve ref = (h.resolve ref).map f := by
  unfold resolve
  rw [r.class?_eq]
  cases h.class? ref.owner
  case none => rfl
  case some c =>
    simp only [Option.map_some, Option.bind_eq_bind, Option.bind_some, r.chain_eq,
      r.superinterfaces_eq, ← List.map_append, List.findSome?_map, List.map_findSome?]
    congr 1
    funext k
    exact r.method? k ref.subsignature

theorem dispatch_eq (r : Corresponds f g h h') (c : Class) (sub : String) :
    h'.dispatch (g c) sub = (h.dispatch c sub).map f := by
  unfold dispatch
  rw [r.chain_eq, List.findSome?_map, List.map_findSome?]
  congr 1
  funext k
  simp only [Function.comp_def, r.method?, Option.filter_map, r.isAbstract_eq]

end Hierarchy.Corresponds

namespace Scene

variable {f : Method → Method} {g : Class → Class} {c c' : Scene}

theorem receiverTarget?_corresponds (r : c.hierarchy.Corresponds f g c'.hierarchy) {id : Int}
    (ht : c'.objects.type? id = c.objects.type? id) (sub : String) :
    c'.receiverTarget? sub id = (c.receiverTarget? sub id).map f := by
  unfold receiverTarget? class?
  rw [ht]
  cases c.objects.type? id
  case none => rfl
  case some type =>
    simp only [Option.bind_eq_bind, Option.bind_some, r.class?_eq]
    cases c.hierarchy.class? type
    case none => rfl
    case some k =>
      simp [classTarget?, r.dispatch_eq, Option.filter_map, Function.comp_def, r.isNative_eq]

-- The objects need to have the same types only as far as they are receivers.
theorem runs_corresponds (r : c.hierarchy.Corresponds f g c'.hierarchy) {R : Set Int}
    (ht : ∀ id ∈ R, c'.objects.type? id = c.objects.type? id) (call : Invoke) :
    c'.runs call R = f '' c.runs call R := by
  ext m'
  simp only [runs, r.resolve_eq, Set.mem_ofPred_eq, Set.mem_image, Option.map_eq_some_iff]
  constructor
  case mp =>
    rintro ⟨_, ⟨declared, hd, he⟩, hn, hm⟩
    subst he
    rw [r.isNative_eq] at hn
    rw [r.isAbstract_eq, r.subsignature] at hm
    split at hm
    case isTrue hk =>
      exact ⟨declared, ⟨declared, hd, hn, by simpa [hk] using hm.left⟩, hm.right.symm⟩
    case isFalse hk =>
      obtain ⟨id, hid, htarget⟩ := hm
      rw [receiverTarget?_corresponds r (ht id hid)] at htarget
      obtain ⟨m, hm, he⟩ := Option.map_eq_some_iff.mp htarget
      exact ⟨m, ⟨declared, hd, hn, by simp only [hk]; exact ⟨id, hid, hm⟩⟩, he⟩
  case mpr =>
    rintro ⟨m, ⟨declared, hd, hn, hm⟩, he⟩
    refine ⟨f declared, ⟨declared, hd, rfl⟩, by rw [r.isNative_eq, hn], ?_⟩
    rw [r.isAbstract_eq, r.subsignature]
    split at hm
    case isTrue hk => simpa [hk, ← he, hm.right] using hm.left
    case isFalse hk =>
      obtain ⟨id, hid, htarget⟩ := hm
      simp only [hk]
      refine ⟨id, hid, ?_⟩
      rw [receiverTarget?_corresponds r (ht id hid), htarget, ← he]
      rfl

end Scene
end PointsTo
