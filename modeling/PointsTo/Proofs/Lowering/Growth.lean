import Mathlib.Data.Finset.Card
import Mathlib.Data.List.Nodup
import Mathlib.Logic.Relation
import PointsTo.Lowering.Basic
import PointsTo.Proofs.Lowering.Numbered

namespace PointsTo

def Ssa.Program.isInterface (p : Ssa.Program) (t : Nat) : Bool :=
  match p.underlyingKind t with
  | .interface _ => true
  | _ => false

theorem Ssa.Program.isInterface_iff {p : Ssa.Program} {t : Nat} :
    p.isInterface t ↔ ∃ methods, p.underlyingKind t = .interface methods := by
  unfold isInterface
  split
  case h_1 h => simp [h]
  case h_2 h => simpa using h

namespace Lowering

variable {src : Source} {st st' : State} {fn : Nat} {m : Method}

-- The names of methods without a body: the markers, and what interfaces ask for.
def Source.IsBare (src : Source) (name : String) : Prop :=
  name = src.markers.alloc ∨ name = src.markers.test ∨
    ∃ t methods, src.ssa.underlyingKind t = .interface methods ∧ name ∈ methods

inductive Grow (src : Source) : State → State → Prop
  | newClass {st : State} {c : Class} : st.program.class? c.name = none → c.methods = [] →
    Grow src st { st with program := st.program.withClass c }
  | bare {st : State} {owner name : String} {modifiers : Modifiers} :
    (st.program.class? owner).isSome → src.IsBare name →
    modifiers.isAbstract ∨ modifiers.isNative → Grow src st (st.addMethod owner name modifiers)
  | function {st : State} {fn : Nat} : (st.program.class? (src.owner fn)).isSome →
    st.methodId? fn = none → Grow src st (declareFunction src fn st)

abbrev Grows (src : Source) : State → State → Prop :=
  Relation.ReflTransGen (Grow src)

-- What every declaration leaves as it is. Variables and globals are the business of bodies.
structure Keeps (st st' : State) : Prop where
  classes : ∀ name, (st.program.class? name).isSome → (st'.program.class? name).isSome
  ids     : ∀ fn id, st.methodId? fn = some id → st'.methodId? fn = some id
  vars    : st'.vars = st.vars
  globals : st'.globals = st.globals

theorem Keeps.trans {st₁ st₂ st₃ : State} (h₁ : Keeps st₁ st₂) (h₂ : Keeps st₂ st₃) :
    Keeps st₁ st₃ where
  classes name h := h₂.classes name (h₁.classes name h)
  ids fn id h := h₂.ids fn id (h₁.ids fn id h)
  vars := h₂.vars.trans h₁.vars
  globals := h₂.globals.trans h₁.globals

theorem Grow.keeps (h : Grow src st st') : Keeps st st' := by
  cases h
  case newClass c fresh _ =>
    refine ⟨?_, fun _ _ h => h, rfl, rfl⟩
    intro name h
    have ⟨c, hc⟩ := Option.isSome_iff_exists.mp h
    exact Option.isSome_of_eq_some (Program.class?_withClass hc)
  case bare =>
    refine ⟨?_, fun _ _ h => h, rfl, rfl⟩
    simp [State.addMethod, State.insertMethod, Program.class?_insertMethod]
  case function new _ fresh =>
    refine ⟨?classes, ?methods, rfl, rfl⟩
    case classes => simp [declareFunction, State.insertMethod, Program.class?_insertMethod]
    case methods =>
      intro fn id h
      have ne : fn ≠ new := by
        rintro rfl
        simp [fresh] at h
      simpa [declareFunction, State.methodId?, List.lookup_cons, beq_false_of_ne ne] using h

theorem Grows.keeps (h : Grows src st st') : Keeps st st' := by
  induction h
  case refl => exact ⟨fun _ h => h, fun _ _ h => h, rfl, rfl⟩
  case tail step hi => exact hi.trans step.keeps

theorem Grows.isSome_class? (h : Grows src st st') {name : String}
    (hc : (st.program.class? name).isSome) : (st'.program.class? name).isSome :=
  h.keeps.classes name hc

theorem Grows.isSome_methodId? (h : Grows src st st') (hf : (st.methodId? fn).isSome) :
    (st'.methodId? fn).isSome := by
  have ⟨id, hid⟩ := Option.isSome_iff_exists.mp hf
  exact Option.isSome_of_eq_some (h.keeps.ids fn id hid)

theorem Grow.addMethods {owner : String} (modifiers : Modifiers) {names : List String}
    (hc : (st.program.class? owner).isSome) (hn : ∀ name ∈ names, src.IsBare name)
    (hm : modifiers.isAbstract ∨ modifiers.isNative) :
    Grows src st (names.foldl (fun st name => st.addMethod owner name modifiers) st) := by
  induction names generalizing st
  case nil => exact .refl
  case cons name rest hi =>
    have step : Grow src st (st.addMethod owner name modifiers) :=
      .bare hc (hn name List.mem_cons_self) hm
    have grows := hi (step.keeps.classes owner hc) fun n h => hn n (List.mem_cons_of_mem _ h)
    exact .head step grows

-- The names of classes that are not there for an interface.
def Source.NamesClass (src : Source) (name : String) : Prop :=
  name = src.markers.owner ∨ name = sharedClass ∨ (∃ pkg, name = (src.ssa.package pkg).path) ∨
    ∃ t, name = src.ssa.typeText t ∧ src.ssa.isInterface t = false

def State.withClass (st : State) (c : Class) : State :=
  { st with program := st.program.withClass c }

def State.withInterface (st : State) (name : String) (methods : List String) : State :=
  methods.foldl (fun st m => st.addMethod name m { isAbstract := true })
    (st.withClass { name, isInterface := true })

-- One declaration, where an interface comes with all of its methods.
inductive Declaration (src : Source) : State → State → Prop
  | newClass {st : State} {name : String} : st.program.class? name = none → src.NamesClass name →
    Declaration src st (st.withClass { name })
  | newInterface {st : State} {t : Nat} {methods : List String} :
    st.program.class? (src.ssa.typeText t) = none →
    src.ssa.underlyingKind t = .interface methods →
    Declaration src st (st.withInterface (src.ssa.typeText t) methods)
  | marker {st : State} {name : String} : (st.program.class? src.markers.owner).isSome →
    name = src.markers.alloc ∨ name = src.markers.test →
    Declaration src st (st.addMethod src.markers.owner name { isStatic := true, isNative := true })
  | function {st : State} {fn : Nat} : (st.program.class? (src.owner fn)).isSome →
    st.methodId? fn = none → Declaration src st (declareFunction src fn st)

abbrev Declarations (src : Source) : State → State → Prop :=
  Relation.ReflTransGen (Declaration src)

theorem isSome_class?_withClass {c : Class} (fresh : st.program.class? c.name = none) :
    ((st.withClass c).program.class? c.name).isSome :=
  Option.isSome_of_eq_some (Program.class?_withClass_self fresh)

theorem isSome_class?_withInterface {name : String} {methods : List String}
    (fresh : st.program.class? name = none) :
    ((st.withInterface name methods).program.class? name).isSome := by
  have declared := isSome_class?_withClass (c := { name, isInterface := true }) fresh
  unfold State.withInterface
  generalize st.withClass { name, isInterface := true } = st at declared
  induction methods generalizing st
  case nil => exact declared
  case cons m rest hi =>
    have kept : ((st.addMethod name m { isAbstract := true }).program.class? name).isSome := by
      simpa [State.addMethod, State.insertMethod, Program.class?_insertMethod] using declared
    exact hi _ kept

theorem Declaration.grows (h : Declaration src st st') : Grows src st st' := by
  cases h
  case newClass fresh _ => exact .single (.newClass fresh rfl)
  case newInterface t methods fresh hk =>
    have bare : ∀ name ∈ methods, src.IsBare name :=
      fun name hn => .inr (.inr ⟨t, methods, hk, hn⟩)
    exact .head (.newClass fresh rfl)
      (Grow.addMethods { isAbstract := true } (isSome_class?_withClass fresh) bare (.inl rfl))
  case marker name hc hn =>
    exact .single (.bare hc (hn.imp_right .inl) (.inr rfl))
  case function hc fresh => exact .single (.function hc fresh)

theorem Declarations.grows (h : Declarations src st st') : Grows src st st' := by
  induction h
  case refl         => exact .refl
  case tail step hi => exact hi.trans step.grows

section Totality

def undeclared (src : Source) (st : State) : Finset String :=
  (insert "" (src.ssa.types.map Ssa.Ty.text).toFinset).filter fun name =>
    (st.program.class? name).isNone

theorem typeText_mem (ssa : Ssa.Program) (t : Nat) :
    ssa.typeText t ∈ insert "" (ssa.types.map Ssa.Ty.text).toFinset := by
  unfold Ssa.Program.typeText Ssa.Program.type
  by_cases ht : t < ssa.types.length
  case pos =>
    have hm := List.mem_map_of_mem (f := Ssa.Ty.text) (List.getElem_mem ht)
    simp [List.getD_eq_getElem?_getD, ht] at hm ⊢
    exact .inr hm
  case neg => simp [List.getD_eq_getElem?_getD, Nat.le_of_not_lt ht]

theorem card_undeclared_le (src : Source) (st : State) :
    (undeclared src st).card ≤ src.ssa.types.length + 1 := by
  calc (undeclared src st).card
    _ ≤ (insert "" (src.ssa.types.map Ssa.Ty.text).toFinset).card := Finset.card_filter_le ..
    _ ≤ (src.ssa.types.map Ssa.Ty.text).toFinset.card + 1 := Finset.card_insert_le ..
    _ ≤ src.ssa.types.length + 1 := by
      have := List.toFinset_card_le (src.ssa.types.map Ssa.Ty.text)
      simpa using this

theorem undeclared_subset (h : Grows src st st') : undeclared src st' ⊆ undeclared src st := by
  intro name hn
  have ⟨hm, hn⟩ := Finset.mem_filter.mp hn
  refine Finset.mem_filter.mpr ⟨hm, ?_⟩
  rw [Option.isNone_iff_eq_none] at hn ⊢
  cases hc : st.program.class? name
  case none => rfl
  case some c =>
    have := h.keeps.classes name (Option.isSome_of_eq_some hc)
    simp [hn] at this

theorem card_undeclared_mono (h : Grows src st st') :
    (undeclared src st').card ≤ (undeclared src st).card :=
  Finset.card_le_card (undeclared_subset h)

theorem card_undeclared_lt {t : Nat} (h : Grows src st st')
    (before : st.program.class? (src.ssa.typeText t) = none)
    (after : (st'.program.class? (src.ssa.typeText t)).isSome) :
    (undeclared src st').card < (undeclared src st).card := by
  refine Finset.card_lt_card ((Finset.ssubset_iff_of_subset (undeclared_subset h)).mpr ?_)
  refine ⟨src.ssa.typeText t, ?undeclared, ?declared⟩
  case undeclared => exact Finset.mem_filter.mpr ⟨typeText_mem src.ssa t, by simp [before]⟩
  case declared =>
    intro hm
    have hn := (Finset.mem_filter.mp hm).right
    simp [Option.isNone_iff_eq_none.mp hn] at after

theorem addClass_eq {c : Class} (fresh : st.program.class? c.name = none) :
    st.addClass c = .ok (st.withClass c) := by
  unfold State.addClass
  rw [Program.addClass_eq_ok fresh]
  rfl

theorem ensureClass_grows (src : Source) (st : State) {name : String} (hn : src.NamesClass name) :
    ∃ st', st.ensureClass name = .ok st' ∧ Declarations src st st' ∧
      (st'.program.class? name).isSome := by
  unfold State.ensureClass
  split
  case isTrue h => exact ⟨st, rfl, .refl, h⟩
  case isFalse h =>
    have fresh : st.program.class? name = none := by simpa using h
    exact ⟨_, addClass_eq (c := { name }) fresh, .single (.newClass fresh hn),
      isSome_class?_withClass (c := { name }) fresh⟩

-- A list of declarations. `P` is what each of them needs, `Q` what it achieves; declarations take
-- neither away.
theorem foldlM_grows (st : State) {α : Type} {f : State → α → Except Error State} {P : State → Prop}
    {Q : α → State → Prop} {l : List α}
    (hf : ∀ a ∈ l, ∀ st, P st → ∃ st', f st a = .ok st' ∧ Declarations src st st' ∧ Q a st')
    (hP : ∀ st st', Grows src st st' → P st → P st')
    (hQ : ∀ a st st', Grows src st st' → Q a st → Q a st') (h : P st) :
    ∃ st', l.foldlM f st = .ok st' ∧ Declarations src st st' ∧ ∀ a ∈ l, Q a st' := by
  induction l generalizing st
  case nil => exact ⟨st, rfl, .refl, by simp⟩
  case cons a rest hi =>
    have ⟨st₁, h₁, g₁, q₁⟩ := hf a List.mem_cons_self st h
    have ⟨st₂, h₂, g₂, q₂⟩ := hi st₁ (fun a ha => hf a (List.mem_cons_of_mem _ ha))
      (hP st st₁ g₁.grows h)
    refine ⟨st₂, ?run, g₁.trans g₂, ?established⟩
    case run => rw [List.foldlM_cons, h₁]; exact h₂
    case established =>
      intro b hb
      cases List.mem_cons.mp hb
      case inl e  => exact e ▸ hQ a st₁ st₂ g₂.grows q₁
      case inr hb => exact q₂ b hb

-- Enough fuel for a class is two units for each name that is left, and one more.
def ClassesGrow (src : Source) (fuel : Nat) : Prop :=
  ∀ t st, 2 * (undeclared src st).card + 1 ≤ fuel →
    ∃ st', declareClass src fuel t st = .ok st' ∧ Declarations src st st' ∧
      (st'.program.class? (src.ssa.typeText t)).isSome

-- Enough fuel for a method is what its class needs, and one more.
def MethodsGrow (src : Source) (fuel : Nat) : Prop :=
  ∀ fn st, 2 * (undeclared src st).card + 2 ≤ fuel →
    ∃ st', declareMethod src fuel fn st = .ok st' ∧ Declarations src st st' ∧
      (st'.methodId? fn).isSome

theorem classesGrow_succ {fuel : Nat} (h : MethodsGrow src fuel) : ClassesGrow src (fuel + 1) := by
  intro t st enough
  unfold declareClass
  simp only
  split
  case isTrue hc => exact ⟨st, rfl, .refl, hc⟩
  case isFalse hc =>
    have fresh : st.program.class? (src.ssa.typeText t) = none := by simpa using hc
    split
    case h_1 methods hk =>
      refine ⟨_, ?_, .single (.newInterface fresh hk), isSome_class?_withInterface fresh⟩
      rw [addClass_eq (c := { name := src.ssa.typeText t, isInterface := true }) fresh]
      rfl
    case h_2 hk =>
      have plain : src.ssa.isInterface t = false := by
        simpa [← Bool.not_eq_true, Ssa.Program.isInterface_iff] using hk
      have g₁ : Declarations src st (st.withClass { name := src.ssa.typeText t }) :=
        .single (.newClass fresh (.inr (.inr (.inr ⟨t, rfl, plain⟩))))
      have c₁ := isSome_class?_withClass (c := { name := src.ssa.typeText t }) fresh
      -- The new class has used up one of the names.
      have fewer := card_undeclared_lt g₁.grows fresh c₁
      have enough : 2 * (undeclared src (st.withClass { name := src.ssa.typeText t })).card + 2 ≤
        fuel := by omega
      have ⟨st₂, h₂, g₂, _⟩ := foldlM_grows _ (l := src.methodSet t)
        (P := fun st => 2 * (undeclared src st).card + 2 ≤ fuel)
        (Q := fun fn st => (st.methodId? fn).isSome) (fun fn _ st hs => h fn st hs)
        (fun st st' g hs => by have := card_undeclared_mono g; omega)
        (fun fn st st' g hq => g.isSome_methodId? hq) enough
      refine ⟨st₂, ?_, g₁.trans g₂, g₂.grows.isSome_class? c₁⟩
      rw [addClass_eq (c := { name := src.ssa.typeText t }) fresh]
      exact h₂

theorem owner_grows {fuel : Nat} (h : ClassesGrow src fuel) (fn : Nat)
    (enough : 2 * (undeclared src st).card + 1 ≤ fuel) :
    ∃ st', (match (src.ssa.function fn).recv with
        | some recv => declareClass src fuel (src.ssa.deref recv) st
        | none => st.ensureClass (src.owner fn)) = .ok st' ∧ Declarations src st st' ∧
      (st'.program.class? (src.owner fn)).isSome := by
  split
  case h_1 recv hr =>
    have ⟨st', hs, g, hc⟩ := h (src.ssa.deref recv) st enough
    exact ⟨st', hs, g, by simpa [Source.owner, hr] using hc⟩
  case h_2 hr =>
    refine ensureClass_grows src st ?_
    simp only [Source.owner, hr]
    split
    case h_1 => contradiction
    case h_2 => exact .inr (.inr (.inl ⟨_, rfl⟩))
    case h_3 => exact .inr (.inl rfl)

theorem methodsGrow_succ {fuel : Nat} (h : ClassesGrow src fuel) : MethodsGrow src (fuel + 1) := by
  intro fn st enough
  unfold declareMethod
  split
  case isTrue hf => exact ⟨st, rfl, .refl, hf⟩
  case isFalse =>
    have ⟨st₁, h₁, g₁, c₁⟩ := owner_grows h fn (by omega : 2 * (undeclared src st).card + 1 ≤ fuel)
    refine ⟨_, congrArg (Except.map (declareOnce src fn)) h₁, ?_⟩
    unfold declareOnce
    split
    case isTrue hf  => exact ⟨g₁, hf⟩
    case isFalse hf =>
      have step : Declaration src st₁ (declareFunction src fn st₁) :=
        .function c₁ (by simpa using hf)
      exact ⟨g₁.tail step, by simp [declareFunction, State.methodId?]⟩

theorem declarations_grow (src : Source) (fuel : Nat) :
    ClassesGrow src fuel ∧ MethodsGrow src fuel := by
  induction fuel
  case zero => exact ⟨fun t st h => by omega, fun fn st h => by omega⟩
  case succ fuel hi => exact ⟨classesGrow_succ hi.right, methodsGrow_succ hi.left⟩

theorem useClass_grows (src : Source) (t : Nat) (st : State) :
    ∃ st', useClass src t st = .ok st' ∧ Declarations src st st' ∧
      (st'.program.class? (src.ssa.typeText t)).isSome := by
  have := card_undeclared_le src st
  exact (declarations_grow src src.depth).left t st (by unfold Source.depth; omega)

theorem useMethod_grows (src : Source) (fn : Nat) (st : State) :
    ∃ st', useMethod src fn st = .ok st' ∧ Declarations src st st' ∧
      (st'.methodId? fn).isSome := by
  have := card_undeclared_le src st
  exact (declarations_grow src src.depth).right fn st (by unfold Source.depth; omega)

theorem declareMember_grows (src : Source) (member : Ssa.Member) (st : State) :
    ∃ st', declareMember src st member = .ok st' ∧ Declarations src st st' ∧
      ∀ name fn, member = .function name fn → (st'.methodId? fn).isSome := by
  cases member
  case function name fn =>
    have ⟨st', hs, grows, hf⟩ := useMethod_grows src fn st
    exact ⟨st', hs, grows, fun _ _ e => by cases e; exact hf⟩
  case type name t =>
    simp only [declareMember]
    split
    case isTrue =>
      have ⟨st', hs, grows, _⟩ := useClass_grows src t st
      exact ⟨st', hs, grows, nofun⟩
    case isFalse => exact ⟨st, rfl, .refl, nofun⟩
  case other name => exact ⟨st, rfl, .refl, nofun⟩

def HasFunctions (src : Source) (pkg : Nat) (st : State) : Prop :=
  ∀ name fn, .function name fn ∈ (src.ssa.package pkg).members → (st.methodId? fn).isSome

theorem HasFunctions.grows {pkg : Nat} (h : HasFunctions src pkg st) (grows : Grows src st st') :
    HasFunctions src pkg st' :=
  fun name fn hm => grows.isSome_methodId? (h name fn hm)

theorem declarePackage_grows (src : Source) (pkg : Nat) (st : State) :
    ∃ st', declarePackage src st pkg = .ok st' ∧ Declarations src st st' ∧
      HasFunctions src pkg st' := by
  have ⟨st₁, h₁, g₁, _⟩ := ensureClass_grows src st (.inr (.inr (.inl ⟨pkg, rfl⟩)))
  have ⟨st₂, h₂, g₂, q₂⟩ := foldlM_grows st₁ (l := (src.ssa.package pkg).members)
    (P := fun _ => True) (fun member _ st _ => declareMember_grows src member st)
    (fun _ _ _ _ => trivial)
    (fun member st st' g hq name fn e => g.isSome_methodId? (hq name fn e)) trivial
  refine ⟨st₂, ?_, g₁.trans g₂, fun name fn hm => q₂ _ hm name fn rfl⟩
  simp only [declarePackage, h₁]
  exact h₂

theorem withMarkers_grows (src : Source) :
    ∃ st', withMarkers src.markers {} = .ok st' ∧ Declarations src {} st' := by
  have fresh : (State.program {}).class? src.markers.owner = none := rfl
  have c₁ := isSome_class?_withClass (c := { name := src.markers.owner }) fresh
  have first : Declaration src {} (State.withClass {} { name := src.markers.owner }) :=
    .newClass fresh (.inl rfl)
  have alloc : Declaration src _ _ := .marker c₁ (.inl rfl)
  have test : Declaration src _ _ := .marker (alloc.grows.isSome_class? c₁) (.inr rfl)
  refine ⟨_, ?_, .tail (.tail (.single first) alloc) test⟩
  unfold withMarkers
  rw [addClass_eq (c := { name := src.markers.owner }) fresh]
  rfl

theorem mem_byPath {ssa : Ssa.Program} {pkgs : List Nat} {pkg : Nat} :
    pkg ∈ byPath ssa pkgs ↔ pkg ∈ pkgs :=
  List.mem_mergeSort

theorem declareAll_grows (src : Source) :
    ∃ st', declareAll src = .ok st' ∧ Declarations src {} st' ∧
      ∀ pkg ∈ src.ssa.roots, HasFunctions src pkg st' := by
  have ⟨st₁, h₁, g₁⟩ := withMarkers_grows src
  have ⟨st₂, h₂, g₂, q₂⟩ := foldlM_grows st₁ (l := byPath src.ssa src.ssa.roots)
    (P := fun _ => True) (fun pkg _ st _ => declarePackage_grows src pkg st)
    (fun _ _ _ _ => trivial) (fun pkg st st' g hq => hq.grows g) trivial
  refine ⟨st₂, ?_, g₁.trans g₂, fun pkg hp => q₂ pkg (mem_byPath.mpr hp)⟩
  unfold declareAll
  rw [h₁]
  exact h₂

end Totality
end Lowering
end PointsTo
