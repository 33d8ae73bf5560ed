import PointsTo.Proofs.Lowering.Found
import PointsTo.Proofs.Targets

namespace PointsTo.Lowering

variable {src : Source} {st st' : State} {fn : Nat} {m : Method}

def Source.NamesInterface (src : Source) (name : String) : Prop :=
  ∃ t, src.ssa.isInterface t ∧ src.ssa.typeText t = name

-- No other class has the name of an interface, be it that of the markers, of a package or of
-- another type. (`sharedClass` is no name of a type.)
def InterfacesApart (src : Source) : Prop :=
  ∀ name, src.NamesInterface name → ¬ src.NamesClass name

-- What type checking guarantees: methods with a body do not belong to interfaces, a method that is
-- called on an interface is one of its methods, and methods have names.
structure WellTyped (src : Source) : Prop where
  receivers : ∀ fn recv, (src.ssa.function fn).recv = some recv →
    src.ssa.isInterface (src.ssa.deref recv) = false
  calls     : ∀ fn v c name, .call v c ∈ (src.ssa.function fn).blocks.flatten →
    c.method = some name → ∃ methods,
      src.ssa.underlyingKind (src.ssa.typeOf c.value) = .interface methods ∧ name ∈ methods
  names     : ∀ t methods, src.ssa.underlyingKind t = .interface methods → "" ∉ methods

-- The class stands for the interface `t`: it has its methods and nothing else.
structure DeclaresInterface (src : Source) (c : Class) (t : Nat) (methods : List String) :
    Prop where
  type        : src.ssa.underlyingKind t = .interface methods
  name        : c.name = src.ssa.typeText t
  isInterface : c.isInterface
  super       : c.super = none
  interfaces  : c.interfaces = []
  methods     : c.methods.map Method.givenSubsignature = methods
  abstract    : ∀ m ∈ c.methods, m.isAbstract

-- Each class with the name of an interface stands for an interface with that name.
def InterfaceClasses (src : Source) (p : Program) : Prop :=
  ∀ name c, src.NamesInterface name → p.class? name = some c →
    ∃ t methods, DeclaresInterface src c t methods

theorem namesClass_owner (typed : WellTyped src) (fn : Nat) : src.NamesClass (src.owner fn) := by
  unfold Source.owner
  dsimp only
  split
  case h_1 recv hr => exact .inr (.inr (.inr ⟨_, rfl, typed.receivers fn recv hr⟩))
  case h_2 pkg _ _ => exact .inr (.inr (.inl ⟨pkg, rfl⟩))
  case h_3         => exact .inr (.inl rfl)

section Classes

variable {p p' : Program} {owner name : String} {names : List String} {modifiers : Modifiers}

theorem class?_addMethods_of_ne (h : name ≠ owner) :
    (names.foldl (fun st m => st.addMethod owner m modifiers) st).program.class? name =
      st.program.class? name := by
  induction names generalizing st
  case nil            => rfl
  case cons m rest hi => exact hi.trans (Program.class?_insertMethod_of_ne h)

theorem class?_addMethods (names : List String) (modifiers : Modifiers) {c : Class}
    (h : st.program.class? owner = some c) :
    ∃ ms, (names.foldl (fun st m => st.addMethod owner m modifiers) st).program.class? owner =
        some { c with methods := c.methods ++ ms } ∧
      ms.map Method.givenSubsignature = names ∧ ∀ m ∈ ms, m.modifiers = modifiers := by
  induction names generalizing st c
  case nil => exact ⟨[], by simpa using h, rfl, by simp⟩
  case cons name rest hi =>
    have ⟨r, _, _, _, he⟩ := nextMethod_eq st owner name modifiers name
    have first : (st.addMethod owner name modifiers).program.class? owner =
        some { c with methods := c.methods ++ [st.nextMethod owner name modifiers name] } := by
      simp [State.addMethod, State.insertMethod, Program.class?_insertMethod, h,
        Program.name_of_class? h]
    obtain ⟨ms, hc, hn, hm⟩ := hi first
    refine ⟨st.nextMethod owner name modifiers name :: ms, by simpa using hc, by simp [hn, he], ?_⟩
    intro m hm'
    cases List.mem_cons.mp hm'
    case inl e   => rw [e, he]
    case inr hm' => exact hm m hm'

namespace InterfaceClasses

theorem frame (h : InterfaceClasses src p)
    (same : ∀ name, src.NamesInterface name → p'.class? name = p.class? name) :
    InterfaceClasses src p' :=
  fun name c hn hc => h name c hn (same name hn ▸ hc)

theorem withInterface (h : InterfaceClasses src st.program) {t : Nat} {methods : List String}
    (fresh : st.program.class? (src.ssa.typeText t) = none)
    (hk : src.ssa.underlyingKind t = .interface methods) :
    InterfaceClasses src (st.withInterface (src.ssa.typeText t) methods).program := by
  intro name c hn hc
  unfold State.withInterface at hc
  by_cases he : name = src.ssa.typeText t
  case neg =>
    rw [class?_addMethods_of_ne he] at hc
    exact h name c hn ((Program.class?_withClass_of_ne he).symm.trans hc)
  case pos =>
    subst he
    let first : Class := { name := src.ssa.typeText t, isInterface := true }
    have new : (st.withClass first).program.class? (src.ssa.typeText t) = some first :=
      Program.class?_withClass_self (c := first) fresh
    have ⟨ms, hms, names, modifiers⟩ := class?_addMethods methods { isAbstract := true } new
    obtain rfl := Option.some.inj (hms.symm.trans hc)
    refine ⟨t, methods, hk, rfl, rfl, rfl, rfl, names, fun m hm => ?_⟩
    simp [Method.isAbstract, modifiers m hm]

theorem declaration (h : InterfaceClasses src st.program) (apart : InterfacesApart src)
    (typed : WellTyped src) (d : Declaration src st st') : InterfaceClasses src st'.program := by
  have other {name name' : String} (hn : src.NamesInterface name) (hc : src.NamesClass name') :
      name ≠ name' :=
    fun e => apart name hn (e ▸ hc)
  cases d
  case newClass hc =>
    exact h.frame fun name hn => Program.class?_withClass_of_ne (other hn hc)
  case newInterface fresh hk => exact h.withInterface fresh hk
  case marker =>
    exact h.frame fun name hn => Program.class?_insertMethod_of_ne (other hn (.inl rfl))
  case function fn _ _ =>
    exact h.frame fun name hn =>
      Program.class?_insertMethod_of_ne (other hn (namesClass_owner typed fn))

-- Methods keep their names and modifiers when they get their statements.
theorem fill (h : InterfaceClasses src st.program) (orderly : Orderly src st) {m' : Method}
    (hm : st.method? fn = some m) (precedes : Precedes m m') :
    InterfaceClasses src (st.fill m m').program := by
  have mem := (orderly.method?_eq_some_iff.mp hm).right
  have same : m'.givenSubsignature = m.givenSubsignature ∧ m'.isAbstract = m.isAbstract := by
    have ⟨_, _, _, e⟩ := precedes
    rw [e]
    exact ⟨rfl, rfl⟩
  intro name c hn hc
  simp only [State.fill, Program.class?_modifyMethod, Option.map_eq_some_iff] at hc
  obtain ⟨k, hk, rfl⟩ := hc
  obtain ⟨t, methods, declares⟩ := h name k hn hk
  have kept : ∀ k' ∈ k.methods, (if k'.id = m.id then m' else k').givenSubsignature =
      k'.givenSubsignature ∧ (if k'.id = m.id then m' else k').isAbstract = k'.isAbstract := by
    intro k' hk'
    split
    case isFalse => exact ⟨rfl, rfl⟩
    case isTrue e =>
      have inProgram := Program.mem_methods.mpr ⟨k, Program.mem_classes_of_class? hk, hk'⟩
      rw [orderly.numbered.eq_of_id inProgram mem e]
      exact same
  refine ⟨t, methods, { declares with methods := ?methods, abstract := ?abstract }⟩
  case methods =>
    rw [← declares.methods, List.map_map]
    exact List.map_congr_left fun k' hk' => (kept k' hk').left
  case abstract =>
    intro k'' hk''
    obtain ⟨k', hk', e⟩ := List.mem_map.mp hk''
    rw [← e, (kept k' hk').right]
    exact declares.abstract k' hk'

end InterfaceClasses
end Classes

section Calls

variable {mine : Nat → Prop} {b b' : Body}

theorem Refers.mono {s : Stmt} (h : Refers st s)
    (sub : ∀ name, (st.program.class? name).isSome → (st'.program.class? name).isSome) :
    Refers st' s :=
  fun call e hk => sub _ (h call e hk)

theorem Act.refers (h : Act src mine b b') (hr : ∀ s ∈ b.method.body, Refers b.shared s) :
    ∀ s ∈ b'.method.body, Refers b'.shared s := by
  have kept (s : Stmt) (hs : s ∈ b.method.body) : Refers b'.shared s :=
    (hr s hs).mono fun _ => Acts.isSome_class? (.single h)
  intro s hs
  cases h
  case declare | temp | hold | record => exact kept s hs
  case load =>
    cases List.mem_append.mp hs
    case inl hs => exact kept s hs
    case inr hs =>
      rintro call rfl
      simp at hs
  case emit s' _ refers _ =>
    cases List.mem_append.mp hs
    case inl hs => exact kept s hs
    case inr hs => exact List.mem_singleton.mp hs ▸ refers

theorem Acts.refers (h : Acts src mine b b') (hr : ∀ s ∈ b.method.body, Refers b.shared s) :
    ∀ s ∈ b'.method.body, Refers b'.shared s := by
  induction h
  case refl         => exact hr
  case tail step hi => exact step.refers hi

-- What is declared has no statements yet.
theorem Orderly.mem_methods_of_grow (h : Orderly src st) (g : Grow src st st')
    (hm : m ∈ st'.program.methods) : m ∈ st.program.methods ∨ m.body = [] := by
  cases g
  case newClass empty => exact .inl (Program.methods_withClass empty ▸ hm)
  case bare owner name modifiers hc _ _ =>
    have ⟨_, _, _, _, he⟩ := nextMethod_eq st owner name modifiers name
    exact ((h.numbered.mem_methods_insertMethod hc).mp hm).symm.imp_right fun e => by rw [e, he]
  case function fn hc _ =>
    have ⟨_, _, _, _, _, _, he⟩ := functionMethod_eq src fn st
    exact ((h.numbered.mem_methods_insertMethod hc).mp hm).symm.imp_right fun e => by rw [e, he]

end Calls

-- The classes of interfaces are complete, and interface calls refer to classes that are there.
structure Interfaces (src : Source) (st : State) : Prop where
  classes : InterfaceClasses src st.program
  calls   : ∀ m ∈ st.program.methods, ∀ s ∈ m.body, Refers st s

namespace Interfaces

theorem empty (src : Source) : Interfaces src {} where
  classes := by simp [InterfaceClasses, Program.class?]
  calls   := by simp [Program.methods]

theorem calls_grows (orderly : Orderly src st) (g : Grows src st st')
    (h : ∀ m ∈ st.program.methods, ∀ s ∈ m.body, Refers st s) :
    ∀ m ∈ st'.program.methods, ∀ s ∈ m.body, Refers st' s := by
  induction g
  case refl => exact h
  case tail g step hi =>
    intro m hm s hs
    cases (orderly.grows g).mem_methods_of_grow step hm
    case inl old   => exact (hi m old s hs).mono step.keeps.classes
    case inr blank => simp [blank] at hs

theorem declarations (h : Interfaces src st) (apart : InterfacesApart src) (typed : WellTyped src)
    (orderly : Orderly src st) (declared : Declarations src st st') : Interfaces src st' := by
  refine ⟨?_, calls_grows orderly declared.grows h.calls⟩
  induction declared
  case refl         => exact h.classes
  case tail step hi => exact hi.declaration apart typed step

theorem fill (h : Interfaces src st) (orderly : Orderly src st) {m' : Method}
    (hm : st.method? fn = some m) (precedes : Precedes m m')
    (refers : ∀ s ∈ m'.body, Refers st s) : Interfaces src (st.fill m m') := by
  refine ⟨h.classes.fill orderly hm precedes, fun k hk s hs => ?_⟩
  have kept (name : String) (hc : (st.program.class? name).isSome) :
      ((st.fill m m').program.class? name).isSome := by
    simpa [State.fill, Program.class?_modifyMethod] using hc
  cases (mem_methods_fill orderly hm).mp hk
  case inl e   => exact (refers s (e ▸ hs)).mono kept
  case inr old => exact (h.calls k old.left s hs).mono kept

theorem finish (h : Interfaces src st) (apart : InterfacesApart src) (typed : WellTyped src)
    (orderly : Orderly src st) (f : Finish src st st') : Interfaces src st' := by
  cases f
  case intro fn rest m b _ built =>
    have start : Interfaces src (Body.start src fn m { st with queue := rest }).shared :=
      ⟨h.classes, h.calls⟩
    have shared : Interfaces src b.shared := by
      have ⟨s, declared, he⟩ := built.acts.declarations
      have interfaces := start.declarations apart typed (orderly.start fn m rest) declared
      rw [he]
      exact ⟨interfaces.classes, interfaces.calls⟩
    have mem := (orderly.method?_eq_some_iff.mp built.method).right
    exact shared.fill (built.shared orderly) (built.kept orderly built.method) built.precedes
      (built.acts.refers (start.calls m mem))

theorem finishes (h : Interfaces src st) (apart : InterfacesApart src) (typed : WellTyped src)
    (orderly : Orderly src st) (f : Relation.ReflTransGen (Finish src) st st') :
    Interfaces src st' ∧ Orderly src st' := by
  induction f
  case refl => exact ⟨h, orderly⟩
  case tail step hi =>
    have ⟨interfaces, orderly⟩ := hi
    exact ⟨interfaces.finish apart typed orderly step, step.orderly orderly⟩

end Interfaces

section Origin

variable {r : Result} {st₀ fin : State} {done : List Nat} {call : Invoke}

theorem Run.interfaces (h : Run src r st₀ st fin done) (apart : InterfacesApart src)
    (typed : WellTyped src) : Interfaces src st := by
  have orderly := Orderly.empty src
  have declared := (Interfaces.empty src).declarations apart typed orderly h.declared
  exact (declared.finishes apart typed (orderly.grows h.declared.grows) h.finishes).left

theorem isDirect_directCall (w : Naming) (x : Option Var) (fn : Nat) (args : List Nat) :
    (directCall src w x fn args).kind.isDirect := by
  unfold directCall
  split
  case isTrue  => rfl
  case isFalse => split <;> rfl

theorem invoke_not_mem_builtin {w : Naming} {fresh : Fresh} {lhs : Option Var} {name : String}
    {args : List Nat} : .invoke call ∉ builtinStatements src w fresh lhs name args := by
  unfold builtinStatements
  split
  case h_1 x rest =>
    cases rest
    case nil  => simp [appendStatements]
    case cons => simp only [appendStatements, elementStatements]; split <;> simp
  case h_2 => simp [elementStatements]
  case h_3 => simp
  case h_4 => simp

-- Where a call that depends on its receivers comes from.
theorem exists_call_of_mem_statements {body : List Ssa.Instr} {w : Naming} {fresh : Fresh}
    {i : Ssa.Instr} (h : .invoke call ∈ statements src body w fresh i)
    (hk : call.kind.isDirect = false) :
    ∃ v c name, i = .call v c ∧ c.method = some name ∧ call.kind = .interface ∧
      call.method = ⟨src.ssa.typeText (src.ssa.typeOf c.value), name⟩ := by
  cases i
  case call v c =>
    simp only [statements, callStatements] at h
    split at h
    case h_1 _ _ name hm =>
      obtain rfl := Stmt.invoke.inj (List.mem_singleton.mp h)
      exact ⟨v, c, name, rfl, hm, rfl, rfl⟩
    case h_2 => exact absurd h invoke_not_mem_builtin
    case h_3 =>
      obtain rfl := Stmt.invoke.inj (List.mem_singleton.mp h)
      simp [isDirect_directCall] at hk
    case h_4 => simp at h
  case ret results => cases results <;> simp [statements] at h
  all_goals
    simp only [statements, allocStatements, loadStatements, storeStatements] at h
    grind

def Source.Asks (src : Source) (ref : MethodRef) : Prop :=
  ∃ t methods, src.ssa.underlyingKind t = .interface methods ∧
    ref.owner = src.ssa.typeText t ∧ ref.subsignature ∈ methods

theorem Run.asks (h : Run src r st₀ st fin done) (typed : WellTyped src)
    (hm : m ∈ r.program.methods) (hc : .invoke call ∈ m.body) (hk : call.kind.isDirect = false) :
    call.kind = .interface ∧ src.Asks call.method := by
  obtain ⟨fn, hf⟩ | ⟨_, ⟨blank, _⟩ | initializes⟩ := h.origin hm
  case inr.inl => simp [blank] at hc
  case inr.inr => exact absurd hc (initializes.calls call)
  case inl =>
    have hb : src.hasBody fn := by
      by_contra hn
      simp [h.blank hf hn] at hc
    have ⟨locals, translation⟩ := h.translation hf hb
    have ⟨i, hi, fresh, hs⟩ := translation.statements.exists_instr hc rfl
    obtain ⟨v, c, name, rfl, hname, kind, method⟩ := exists_call_of_mem_statements hs hk
    have ⟨methods, ht, hn⟩ := typed.calls fn v c name hi hname
    exact ⟨kind, src.ssa.typeOf c.value, methods, ht, by rw [method], by rw [method]; exact hn⟩

theorem Run.refers (h : Run src r st₀ st fin done) (interfaces : Interfaces src st)
    (hm : m ∈ r.program.methods) (hc : .invoke call ∈ m.body) : Refers st (.invoke call) := by
  rw [h.result] at hm
  cases h.completed.new m hm
  case inl old         => exact interfaces.calls m old _ hc
  case inr initializes => exact absurd hc (initializes.calls call)

end Origin

section Main

-- What a call of an interface method amounts to: `c` is the class that it refers to, and `methods`
-- are all methods of that class.
structure CallsInterface (src : Source) (p : Program) (call : Invoke) (c : Class)
    (methods : List String) : Prop where
  kind     : call.kind = .interface
  asks     : src.Asks call.method
  owner    : p.class? call.method.owner = some c
  declares : ∃ t, DeclaresInterface src c t methods
  resolves : (p.hierarchy.resolve call.method).isSome ↔ call.method.subsignature ∈ methods
  abstract : ∀ d, p.hierarchy.resolve call.method = some d → d ∈ c.methods ∧ d.isAbstract

-- Interfaces with the same name have the same methods.
def InterfacesAgree (src : Source) : Prop :=
  ∀ t t' methods methods', src.ssa.underlyingKind t = .interface methods →
    src.ssa.underlyingKind t' = .interface methods' → src.ssa.typeText t = src.ssa.typeText t' →
    methods = methods'

variable {c : Class} {methods : List String} {call : Invoke} {p : Program}

namespace DeclaresInterface

variable {t : Nat}

theorem isSome_method?_iff (h : DeclaresInterface src c t methods) (typed : WellTyped src)
    {sub : String} : (c.method? sub).isSome ↔ sub ∈ methods := by
  have named : ∀ m ∈ c.methods, m.subsignature = m.givenSubsignature := by
    intro m hm
    have listed : m.givenSubsignature ∈ methods := h.methods ▸ List.mem_map_of_mem hm
    refine subsignature_eq rfl fun e => ?_
    exact typed.names t methods h.type (e ▸ listed)
  rw [Class.method?, List.find?_isSome, ← h.methods, List.mem_map]
  refine exists_congr fun m => and_congr_right fun hm => ?_
  simp [named m hm]

theorem isAbstract_of_method? (h : DeclaresInterface src c t methods) {sub : String}
    (hm : c.method? sub = some m) : m ∈ c.methods ∧ m.isAbstract := by
  have mem := List.mem_of_find?_eq_some hm
  exact ⟨mem, h.abstract m mem⟩

-- Nothing is above an interface that it could get a method from.
theorem resolve_eq {h : Hierarchy} (declares : DeclaresInterface src c t methods) {ref : MethodRef}
    (hc : h.class? ref.owner = some c) : h.resolve ref = c.method? ref.subsignature :=
  Hierarchy.resolve_of_root hc declares.super declares.interfaces

end DeclaresInterface

theorem Run.callsInterface {r : Result} {st₀ fin : State} {done : List Nat}
    (h : Run src r st₀ st fin done) (apart : InterfacesApart src) (typed : WellTyped src)
    (hm : m ∈ r.program.methods) (hc : .invoke call ∈ m.body) (hk : call.kind.isDirect = false) :
    ∃ c methods, CallsInterface src r.program call c methods := by
  have interfaces := h.interfaces apart typed
  have ⟨kind, asks⟩ := h.asks typed hm hc hk
  have named : src.NamesInterface call.method.owner := by
    have ⟨t, methods, ht, ho, _⟩ := asks
    exact ⟨t, Ssa.Program.isInterface_iff.mpr ⟨methods, ht⟩, ho.symm⟩
  have ⟨c, found⟩ := Option.isSome_iff_exists.mp (h.refers interfaces hm hc call rfl kind)
  have ⟨t, methods, declares⟩ := interfaces.classes _ c named found
  -- Initializers belong to packages, and no package has the name of the interface.
  have owner : r.program.class? call.method.owner = some c := by
    rw [h.result, h.completed.classes _ fun pkg e => ?_, found]
    exact apart _ named (.inr (.inr (.inl ⟨pkg, e⟩)))
  have resolve : r.program.hierarchy.resolve call.method = c.method? call.method.subsignature :=
    declares.resolve_eq owner
  exact ⟨c, methods, kind, asks, owner, ⟨t, declares⟩,
    resolve ▸ declares.isSome_method?_iff typed, fun d hd =>
    declares.isAbstract_of_method? (resolve ▸ hd)⟩

namespace CallsInterface

theorem exists_of_agree (h : CallsInterface src p call c methods) (agree : InterfacesAgree src) :
    ∃ d ∈ c.methods, p.hierarchy.resolve call.method = some d ∧ d.isAbstract := by
  have ⟨t, declares⟩ := h.declares
  have ⟨t', asked, ht', owner, mem⟩ := h.asks
  have same : src.ssa.typeText t' = src.ssa.typeText t := by
    rw [← owner, ← declares.name, Program.name_of_class? h.owner]
  have mem : call.method.subsignature ∈ methods :=
    agree t' t asked methods ht' declares.type same ▸ mem
  have ⟨d, hd⟩ := Option.isSome_iff_exists.mp (h.resolves.mpr mem)
  exact ⟨d, (h.abstract d hd).left, hd, (h.abstract d hd).right⟩

-- It does not matter which classes are visible.
theorem isAbstract_of_resolve {h : Hierarchy} (calls : CallsInterface src h.program call c methods)
    {d : Method} (hd : h.resolve call.method = some d) : d.isAbstract := by
  have ⟨t, declares⟩ := calls.declares
  have visible : h.class? call.method.owner = some c := by
    have ⟨k, hk, _⟩ := Option.bind_eq_some_iff.mp hd
    unfold Hierarchy.class? at hk ⊢
    split at hk
    case isTrue hv => rw [if_pos hv, calls.owner]
    case isFalse   => contradiction
  rw [declares.resolve_eq visible] at hd
  exact (declares.isAbstract_of_method? hd).right

end CallsInterface

-- A call that depends on its receivers refers to the class of an interface. It denotes one of the
-- methods of that class, all of which are abstract, provided that the class has the method at all.
-- So no analysis runs the declared method in place of what receivers run.
theorem interface_calls_open {ssa : Ssa.Program} {markers : Markers} {r : Result}
    (lowered : lower ssa markers = .ok r) (apart : InterfacesApart (source ssa markers))
    (typed : WellTyped (source ssa markers)) (hm : m ∈ r.program.methods)
    (hc : .invoke call ∈ m.body) (hk : call.kind.isDirect = false) :
    ∃ c methods, CallsInterface (source ssa markers) r.program call c methods ∧
      (InterfacesAgree (source ssa markers) →
        ∃ d ∈ c.methods, r.program.hierarchy.resolve call.method = some d ∧ d.isAbstract) ∧
      ∀ scene : Scene, scene.hierarchy.program = r.program →
        (∀ R d, scene.hierarchy.resolve call.method = some d → d ∉ scene.targets call R) ∧
        ∀ R R', (∀ id ∈ R, id ∈ R') → scene.targets call R ⊆ scene.targets call R' := by
  have ⟨st₀, st, fin, done, run⟩ := run_of_lower lowered
  have ⟨c, methods, calls⟩ := run.callsInterface apart typed hm hc hk
  refine ⟨c, methods, calls, calls.exists_of_agree, fun scene program => ?_⟩
  rw [← program] at calls
  constructor
  case left =>
    exact fun R d hd => Scene.not_mem_targets_of_isAbstract hd (calls.isAbstract_of_resolve hd)
  case right =>
    exact fun R R' sub m hm =>
      Scene.targets_mono_of_isAbstract (fun d hd => calls.isAbstract_of_resolve hd) sub hm

-- Two interfaces, each of them declared in a block of its own. The first one is called `I` and has
-- a method `M`, the second one is called `J`, or `I` as well, and has a method `N`. Both are
-- implemented by the type `A`.
namespace Sample.Interfaces

def main : Ssa.Function where
  name        := "main"
  text        := "main.main"
  pkg         := some 0
  isSynthetic := false
  isNested    := false
  hasBlocks   := true
  recv        := none
  signature   := []
  blocks      := [[.alloc 0,
    .makeInterface 1 0, .call (some 2) ⟨some "M", 1, [], "invoke t1.M()"⟩,
    .makeInterface 3 0, .call (some 4) ⟨some "N", 3, [], "invoke t3.N()"⟩, .ret []]]

-- A method of `A` that returns its receiver.
def method (name : String) (receiver : Nat) : Ssa.Function where
  name        := name
  text        := "(*main.A)." ++ name
  pkg         := some 0
  isSynthetic := false
  isNested    := false
  hasBlocks   := true
  recv        := some 2
  signature   := []
  params      := [receiver]
  blocks      := [[.ret [receiver]]]

def ssa (second : String) : Ssa.Program where
  roots     := [0]
  packages  := [⟨"main", "main", [.type "A" 0, .function "main" 0]⟩]
  types     := [⟨"main.A", .named 0 0 [1, 2], 1⟩, ⟨"struct{}", .struct [], 1⟩,
    ⟨"*main.A", .pointer 0, 2⟩, ⟨"main.I", .named 0 0 [], 4⟩,
    ⟨"interface{M() *main.A}", .interface ["M"], 4⟩, ⟨second, .named 0 0 [], 6⟩,
    ⟨"interface{N() *main.A}", .interface ["N"], 6⟩]
  functions := [main, method "M" 5, method "N" 6]
  values    := [⟨"t0", 2, .reg⟩, ⟨"t1", 3, .reg⟩, ⟨"t2", 2, .reg⟩, ⟨"t3", 5, .reg⟩,
    ⟨"t4", 2, .reg⟩, ⟨"a", 2, .param⟩, ⟨"a", 2, .param⟩]

def lowered (second : String) : Result :=
  match lower (ssa second) {} with
  | .ok r => r
  | .error _ => ⟨{}, [], [], []⟩

variable {second : String}

theorem lower_ssa (second : String) : lower (ssa second) {} = .ok (lowered second) := by
  have main : mains (ssa second) ≠ [] := List.cons_ne_nil 0 []
  have ⟨r, _, _, _, _, h, _⟩ := lower_run (ssa second) {} main
  unfold lowered
  rw [h]

theorem type_eq {t : Nat} (h : 7 ≤ t) : (ssa second).type t = ⟨"", .other, t⟩ := by
  simp [Ssa.Program.type, List.getD_eq_getElem?_getD, ssa, h]

theorem function_eq (h : 3 ≤ fn) :
    (ssa second).function fn = ⟨"", "", none, false, false, false, none, [], [], []⟩ := by
  simp [Ssa.Program.function, List.getD_eq_getElem?_getD, ssa, h]

theorem lt_of_underlyingKind {t : Nat} {methods : List String}
    (h : (ssa second).underlyingKind t = .interface methods) : t < 7 := by
  by_contra hn
  simp [Ssa.Program.underlyingKind, type_eq (Nat.le_of_not_lt hn)] at h

theorem apart (hs : second ∈ ["main.I", "main.J"]) : InterfacesApart (source (ssa second) {}) := by
  have interfaces : ∀ second ∈ ["main.I", "main.J"], ∀ t < 7, (ssa second).isInterface t →
      ((ssa second).typeText t ≠ "Benchmark" ∧ (ssa second).typeText t ≠ sharedClass ∧
        (ssa second).typeText t ≠ "main" ∧ (ssa second).typeText t ≠ "") ∧
      ∀ t' < 7, (ssa second).isInterface t' = false →
        (ssa second).typeText t ≠ (ssa second).typeText t' := by decide
  rintro _ ⟨t, ht, rfl⟩ others
  have ⟨methods, hk⟩ := Ssa.Program.isInterface_iff.mp ht
  have ⟨⟨marker, shared, package, unnamed⟩, types⟩ :=
    interfaces second hs t (lt_of_underlyingKind hk) ht
  obtain e | e | ⟨pkg, e⟩ | ⟨t', e, plain⟩ := others
  case inl     => exact marker e
  case inr.inl => exact shared e
  case inr.inr.inl =>
    cases pkg
    case zero => exact package e
    case succ => exact unnamed e
  case inr.inr.inr =>
    by_cases lt : t' < 7
    case pos => exact types t' lt plain e
    case neg =>
      have text : (ssa second).typeText t' = "" := by
        rw [Ssa.Program.typeText, type_eq (Nat.le_of_not_lt lt)]
      exact unnamed (e.trans text)

-- The method that is called, and the value that it is called on.
def interfaceCall? : Ssa.Instr → Option (String × Nat)
  | .call _ c => c.method.map (·, c.value)
  | _ => none

theorem wellTyped (hs : second ∈ ["main.I", "main.J"]) : WellTyped (source (ssa second) {}) := by
  have receivers : ∀ second ∈ ["main.I", "main.J"], ∀ fn < 3,
      ∀ recv ∈ ((ssa second).function fn).recv.toList,
        (ssa second).isInterface ((ssa second).deref recv) = false := by decide
  have names : ∀ second ∈ ["main.I", "main.J"], ∀ t < 7,
      (ssa second).underlyingKind t ∈
        [.struct [], .pointer 0, .interface ["M"], .interface ["N"]] := by decide
  have calls : ∀ second ∈ ["main.I", "main.J"], ∀ fn < 3,
      ∀ e ∈ ((ssa second).function fn).blocks.flatten.filterMap interfaceCall?,
        (ssa second).underlyingKind ((ssa second).typeOf e.2) = .interface [e.1] := by decide
  constructor
  case receivers =>
    intro fn recv hr
    by_cases lt : fn < 3
    case pos => exact receivers second hs fn lt recv (Option.mem_toList.mpr hr)
    case neg => simp [source, function_eq (Nat.le_of_not_lt lt)] at hr
  case calls =>
    intro fn v c name hi hc
    by_cases lt : fn < 3
    case pos =>
      have called : (name, c.value) ∈
          ((ssa second).function fn).blocks.flatten.filterMap interfaceCall? :=
        List.mem_filterMap.mpr ⟨_, hi, by simp [interfaceCall?, hc]⟩
      have kind : (ssa second).underlyingKind ((ssa second).typeOf c.value) = .interface [name] :=
        calls second hs fn lt (name, c.value) called
      exact ⟨[name], kind, List.mem_singleton_self name⟩
    case neg => simp [source, function_eq (Nat.le_of_not_lt lt)] at hi
  case names =>
    intro t methods ht
    have ht : (ssa second).underlyingKind t = .interface methods := ht
    have := names second hs t (lt_of_underlyingKind ht)
    grind

theorem agree : InterfacesAgree (source (ssa "main.J") {}) := by
  have kinds : ∀ t < 7, ∀ t' < 7, (ssa "main.J").typeText t = (ssa "main.J").typeText t' →
      (ssa "main.J").underlyingKind t = (ssa "main.J").underlyingKind t' := by decide
  intro t t' methods methods' ht ht' same
  have := kinds t (lt_of_underlyingKind ht) t' (lt_of_underlyingKind ht') same
  exact Ssa.TypeKind.interface.inj (ht.symm.trans (this.trans ht'))

def callsMethod (ref : MethodRef) : Stmt → Bool
  | .invoke call => call.kind = .interface && call.method = ref
  | _ => false

theorem exists_call (p : Program) (ref : MethodRef)
    (h : p.methods.any (·.body.any (callsMethod ref))) :
    ∃ m ∈ p.methods, ∃ call, .invoke call ∈ m.body ∧ call.kind = .interface ∧
      call.method = ref := by
  simp only [List.any_eq_true] at h
  have ⟨m, hm, s, hs, called⟩ := h
  unfold callsMethod at called
  split at called
  case h_1 call => exact ⟨m, hm, call, hs, by simpa using called⟩
  case h_2      => contradiction

-- With different names, the second call finds its method.
theorem second_call_resolves :
    ∃ m ∈ (lowered "main.J").program.methods, ∃ call, .invoke call ∈ m.body ∧
      call.method = ⟨"main.J", "N"⟩ ∧ ∃ c methods,
        CallsInterface (source (ssa "main.J") {}) (lowered "main.J").program call c methods ∧
        ∃ d ∈ c.methods, (lowered "main.J").program.hierarchy.resolve call.method = some d ∧
          d.isAbstract := by
  have ⟨m, hm, call, hc, kind, method⟩ :=
    exists_call (lowered "main.J").program ⟨"main.J", "N"⟩ (by decide +kernel)
  have ⟨c, methods, calls, resolved, _⟩ := interface_calls_open (lower_ssa "main.J")
    (apart (by decide)) (wellTyped (by decide)) hm hc (by rw [kind]; rfl)
  exact ⟨m, hm, call, hc, method, c, methods, calls, resolved agree⟩

end Sample.Interfaces

-- With the same name, it finds the class of the first interface, which does not have the method.
theorem not_interface_calls_resolve :
    ¬ ∀ (ssa : Ssa.Program) (markers : Markers) (r : Result) (m : Method) (call : Invoke),
      lower ssa markers = .ok r → InterfacesApart (source ssa markers) →
      WellTyped (source ssa markers) → m ∈ r.program.methods → .invoke call ∈ m.body →
      call.kind.isDirect = false →
      ∃ d, r.program.hierarchy.resolve call.method = some d ∧ d.isAbstract := by
  intro all
  have ⟨m, hm, call, hc, kind, method⟩ := Sample.Interfaces.exists_call
    (Sample.Interfaces.lowered "main.I").program ⟨"main.I", "N"⟩ (by decide +kernel)
  have ⟨d, resolved, _⟩ := all _ {} _ m call (Sample.Interfaces.lower_ssa "main.I")
    (Sample.Interfaces.apart (by decide)) (Sample.Interfaces.wellTyped (by decide)) hm hc
    (by rw [kind]; rfl)
  have unresolved : (Sample.Interfaces.lowered "main.I").program.hierarchy.resolve
      ⟨"main.I", "N"⟩ = none := by decide +kernel
  rw [method, unresolved] at resolved
  contradiction

end Main
end PointsTo.Lowering
