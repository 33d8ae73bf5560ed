import PointsTo.Proofs.Built
import PointsTo.Proofs.Preorder
import PointsTo.Proofs.Targets

namespace PointsTo

-- The answer of the first of `l` that has one.
def Nearest {α β : Type} (answers : α → β → Prop) (l : List α) (x : β) : Prop :=
  ∃ before a after, l = before ++ a :: after ∧ answers a x ∧ ∀ b ∈ before, ∀ y, ¬ answers b y

theorem nearest_iff {α β : Type} {f : α → Option β} {l : List α} {x : β} :
    Nearest (fun a x => f a = some x) l x ↔ l.findSome? f = some x := by
  simp [Nearest, List.findSome?_eq_some_iff, Option.eq_none_iff_forall_ne_some]

-- A class and its superclasses, nearest first.
inductive Program.Supers (p : Program) : Class → List Class → Prop
  | root {c : Class} : c.super = none → Supers p c [c]
  | inherit {c k : Class} {name : String} {chain : List Class} : c.super = some name →
    p.class? name = some k → Supers p k chain → Supers p c (c :: chain)

namespace Program

variable {p : Program} {c : Class} {chain chain' before after : List Class}

theorem Layered.exists_super (layered : p.Layered) (e : p.classes = before ++ c :: after)
    {super : String} (hs : c.super = some super) :
    ∃ k before' after', p.class? super = some k ∧ before = before' ++ k :: after' := by
  have earlier : super ∈ (before.map fun c => (c.name, c.super)).map Prod.fst := by
    refine layered _ c.name super (after.map fun c => (c.name, c.super)) ?_
    simp [skeleton, e, hs]
  obtain ⟨k, hk⟩ : ∃ k, before.find? (·.name = super) = some k := by
    simpa [← Option.isSome_iff_exists] using earlier
  obtain ⟨before', after', split⟩ := List.append_of_mem (List.mem_of_find?_eq_some hk)
  exact ⟨k, before', after', by simp [class?, e, List.find?_append, hk], split⟩

theorem Supers.unique (h : p.Supers c chain) (h' : p.Supers c chain') : chain = chain' := by
  induction h generalizing chain'
  case root none =>
    cases h'
    case root           => rfl
    case inherit some => simp [none] at some
  case inherit some found _ hi =>
    cases h'
    case root none => simp [none] at some
    case inherit found' above some' =>
      obtain rfl := Option.some.inj (some.symm.trans some')
      obtain rfl := Option.some.inj (found.symm.trans found')
      rw [hi above]

-- From its root on, a chain goes through the classes in the order in which they stand.
theorem Supers.sublist (h : p.Supers c chain) (layered : p.Layered)
    (e : p.classes = before ++ c :: after) : chain.reverse.Sublist (before ++ [c]) := by
  induction h generalizing before after
  case root c _ => exact List.sublist_append_right ..
  case inherit some found _ hi =>
    obtain ⟨k, before', after', found', rfl⟩ := layered.exists_super e some
    obtain rfl := Option.some.inj (found'.symm.trans found)
    rw [List.reverse_cons]
    rw [List.append_assoc, List.cons_append] at e
    exact ((hi e).trans (by simp)).append_right _

theorem Supers.nodup (h : p.Supers c chain) (layered : p.Layered)
    (names : (p.classes.map Class.name).Nodup) (hc : c ∈ p.classes) :
    (chain.map Class.name).Nodup := by
  obtain ⟨before, after, e⟩ := List.append_of_mem hc
  have sub : (before ++ [c]).Sublist p.classes := by
    rw [e]
    simp
  have := ((h.sublist layered e).trans sub).map Class.name
  simpa using names.sublist this

end Program

namespace Hierarchy

variable {h : Hierarchy} {c k : Class} {m : Method} {sub : String}

-- Every class of the chain stands further in front, so that there are enough classes for all of
-- them.
theorem supers_chainFrom (layered : h.program.Layered) {fuel : Nat} {before after : List Class}
    (e : h.program.classes = before ++ c :: after) (enough : before.length < fuel) :
    h.program.Supers c (h.chainFrom fuel c) := by
  induction fuel generalizing before c after
  case zero => contradiction
  case succ fuel hi =>
    unfold chainFrom
    cases hs : c.super
    case none => exact .root hs
    case some super =>
      obtain ⟨k, before', after', found, rfl⟩ := layered.exists_super e hs
      have split : h.program.classes = before' ++ k :: (after' ++ c :: after) := by simp [e]
      have enough : before'.length < fuel := by
        simp only [List.length_append, List.length_cons] at enough
        omega
      simp only [Option.bind_some, found]
      exact .inherit hs found (hi split enough)

theorem supers_chain (layered : h.program.Layered) (hc : c ∈ h.program.classes) :
    h.program.Supers c (h.chain c) := by
  have ⟨before, after, e⟩ := List.append_of_mem hc
  exact supers_chainFrom layered e (by simp [e])

-- The names of the interfaces that the chain of `c` leads to, in the order of the search.
def interfaceOrder (h : Hierarchy) (c : Class) : List String :=
  preorder h.interfaces (h.program.classes.map Class.name) ((h.chain c).flatMap Class.interfaces)

theorem explores_interfaceOrder :
    Explores h.interfaces [] ((h.chain c).flatMap Class.interfaces) (h.interfaceOrder c) := by
  refine explores_preorder fun name hn => ?_
  have : h.program.class? name = none := by simpa [Program.class?] using hn
  simp [interfaces, this]

theorem findSome?_superinterfaces : (h.superinterfaces c).findSome? (·.method? sub) =
    (h.interfaceOrder c).findSome? (h.program.declared? · sub) := by
  show ((h.interfaceOrder c).filterMap h.program.class?).findSome? (·.method? sub) = _
  generalize h.interfaceOrder c = order
  induction order
  case nil => rfl
  case cons name rest hi =>
    have here : h.program.declared? name sub = (h.program.class? name).bind (·.method? sub) := rfl
    rw [List.findSome?_cons, here, ← hi]
    cases hn : h.program.class? name
    case none   => simp [hn]
    case some c => simp [hn, List.findSome?_cons]

section Resolve

variable {ref : MethodRef} (hc : h.class? ref.owner = some c)
include hc

theorem resolve_eq_some_iff : h.resolve ref = some m ↔
    Nearest (fun k m => k.method? ref.subsignature = some m) (h.chain c) m ∨
      (∀ k ∈ h.chain c, k.method? ref.subsignature = none) ∧
        Nearest (fun i m => h.program.declared? i ref.subsignature = some m) (h.interfaceOrder c) m := by
  rw [nearest_iff, nearest_iff, ← List.findSome?_eq_none_iff, ← findSome?_superinterfaces,
    resolve_of_class? hc, Option.or_eq_some_iff]

theorem resolve_eq_none_iff (numbered : h.program.Numbered) : h.resolve ref = none ↔
    ∀ k ∈ h.chain c, k.method? ref.subsignature = none ∧
      ∀ i, Relation.TransGen (fun a b => b ∈ h.interfaces a) k.name i →
        h.program.declared? i ref.subsignature = none := by
  have classes : ∀ k ∈ h.chain c, h.interfaces k.name = k.interfaces := by
    intro k hk
    have mem := mem_classes_of_mem_chain (mem_classes_of_class? hc) hk
    have found : h.program.class? k.name = some k :=
      (find?_eq_some_iff_of_nodup numbered.names).mpr ⟨mem, rfl⟩
    simp [interfaces, found]
  rw [resolve_of_class? hc, Option.or_eq_none_iff, findSome?_superinterfaces,
    List.findSome?_eq_none_iff, List.findSome?_eq_none_iff]
  simp only [explores_interfaceOrder.mem_iff, Relation.TransGen.head'_iff]
  grind

end Resolve

theorem dispatch_eq_some_iff : h.dispatch c sub = some m ↔
    Nearest (fun k m => k.method? sub = some m ∧ m.isAbstract = false) (h.chain c) m := by
  have concrete : (fun (k : Class) m => k.method? sub = some m ∧ m.isAbstract = false) =
      fun k m => (k.method? sub).filter (!·.isAbstract) = some m := by
    funext k m
    simp [Option.filter_eq_some_iff]
  rw [concrete, nearest_iff]
  rfl

-- A reference denotes the nearest declaration on the chain, and failing that the first one that the
-- search through the interfaces comes upon. It denotes nothing only if there is none at all.
theorem resolve_complete (built : h.program.Built) :
    (∀ ref, h.class? ref.owner = none → h.resolve ref = none) ∧
    ∀ c ∈ h.program.classes, ∃ chain order, h.program.Supers c chain ∧
      Explores h.interfaces [] (chain.flatMap Class.interfaces) order ∧
      (∀ ref, h.class? ref.owner = some c →
        (h.resolve ref = none ↔ ∀ k ∈ chain, k.method? ref.subsignature = none ∧
          ∀ i, Relation.TransGen (fun a b => b ∈ h.interfaces a) k.name i →
            h.program.declared? i ref.subsignature = none) ∧
        ∀ m, h.resolve ref = some m ↔
          Nearest (fun k m => k.method? ref.subsignature = some m) chain m ∨
          (∀ k ∈ chain, k.method? ref.subsignature = none) ∧
            Nearest (fun i m => h.program.declared? i ref.subsignature = some m) order m) ∧
      ∀ sub m, h.dispatch c sub = some m ↔
        Nearest (fun k m => k.method? sub = some m ∧ m.isAbstract = false) chain m := by
  refine ⟨fun ref unknown => by simp [resolve, unknown], fun c hc => ?_⟩
  refine ⟨h.chain c, h.interfaceOrder c, supers_chain built.layered hc, explores_interfaceOrder, ?_,
    fun _ _ => dispatch_eq_some_iff⟩
  intro ref known
  exact ⟨resolve_eq_none_iff known built.numbered, fun m => resolve_eq_some_iff known⟩

end Hierarchy

-- Two interfaces that lead to each other, and a class whose superclass implements the one that does
-- not declare the method.
namespace Hierarchy.Sample.Solids

def shape : Class where
  name        := "Shape"
  interfaces  := ["Solid"]
  isInterface := true

def volume : Method :=
  .declare 0 "Solid" "volume" { isAbstract := true } []

def solid : Class where
  name        := "Solid"
  interfaces  := ["Shape"]
  isInterface := true
  methods     := [volume]

def body : Class where
  name       := "Body"
  interfaces := ["Shape"]

def cube : Class where
  name  := "Cube"
  super := some "Body"

def program : Program where
  classes := [shape, solid, body, cube]

theorem built : program.Built := by
  have shapes : Program.Built ⟨[{ shape with interfaces := [] }]⟩ :=
    .addClass (c := { shape with interfaces := [] }) .empty rfl (by simp [shape]) (by simp) rfl
  have solids : Program.Built ⟨[{ shape with interfaces := [] }, { solid with methods := [] }]⟩ :=
    .addClass (c := { solid with methods := [] }) shapes rfl (by simp [solid]) (by decide +kernel) rfl
  have cyclic : Program.Built ⟨[shape, { solid with methods := [] }]⟩ :=
    @Program.Built.link _ "Shape" "Solid" solids (by decide +kernel)
  have bodies : Program.Built ⟨[shape, { solid with methods := [] }, body]⟩ :=
    .addClass (c := body) cyclic rfl (by simp [body]) (by decide +kernel) rfl
  have cubes : Program.Built ⟨[shape, { solid with methods := [] }, body, cube]⟩ :=
    .addClass (c := cube) bodies rfl (by simp [cube]; decide +kernel) (by simp [cube]) rfl
  exact @Program.Built.addMethod _ "Solid" "volume" { isAbstract := true } [] cubes (by decide +kernel)

-- The only chain of `Cube`, and nothing on it declares a method.
theorem supers_cube {chain : List Class} (h : program.Supers cube chain) : chain = [cube, body] := by
  cases h
  case root e => cases e
  case inherit k name chain found above e =>
    cases e
    cases (rfl : program.class? "Body" = some body).symm.trans found
    cases above
    case root      => rfl
    case inherit e => cases e

theorem volume_found :
    program.hierarchy.resolve ⟨"Cube", "volume()"⟩ = some volume ∧
    ∃ order, Explores program.hierarchy.interfaces [] ["Shape"] order ∧
      Nearest (fun i m => program.declared? i "volume()" = some m) order volume := by
  obtain ⟨_, complete⟩ := resolve_complete (h := program.hierarchy) built
  obtain ⟨chain, order, supers, explores, resolves, _⟩ := complete cube (by decide +kernel)
  cases supers_cube supers
  have found : program.hierarchy.resolve ⟨"Cube", "volume()"⟩ = some volume := by decide +kernel
  obtain ⟨_, found_iff⟩ := resolves ⟨"Cube", "volume()"⟩ rfl
  refine ⟨found, order, explores, ?_⟩
  cases (found_iff volume).mp found
  case inl onChain  => exact absurd (nearest_iff.mp onChain) (by decide)
  case inr searched => exact searched.right

end Hierarchy.Sample.Solids
end PointsTo
