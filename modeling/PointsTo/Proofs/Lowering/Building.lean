import PointsTo.Proofs.Lowering.Declared
import PointsTo.Proofs.PossibleFacts

namespace PointsTo

-- Only globals are loaded without a base.
def Stmt.isGlobalLoad : Stmt → Bool
  | .loadField _ none _ => true
  | _ => false

-- Whether values of the kind belong to one function, and have a variable that is recorded.
def Ssa.ValueKind.isOwn : Ssa.ValueKind → Bool
  | .param | .freevar | .reg => true
  | .const _ | .global _ | .function _ | .builtin => false

-- Values of the kind are not stored anywhere, and their variables stand for a literal, if for
-- anything.
inductive Ssa.ValueKind.Fixes : Ssa.ValueKind → Option Literal → Prop
  | const (c : Option Literal) : Fixes (.const c) c
  | function (fn : Nat) : Fixes (.function fn) none
  | builtin : Fixes .builtin none

def Ssa.ValueKind.literal? : Ssa.ValueKind → Option Literal
  | .const c => c
  | _ => none

theorem Ssa.ValueKind.Fixes.eq_literal? {kind : Ssa.ValueKind} {const : Option Literal}
    (h : kind.Fixes const) : const = kind.literal? := by
  cases h <;> rfl

theorem Ssa.ValueKind.Fixes.isOwn {kind : Ssa.ValueKind} {const : Option Literal}
    (h : kind.Fixes const) : kind.isOwn = false := by
  cases h <;> rfl

namespace Lowering

def Body.hold (b : Body) (v : Nat) (name type : String) (const : Option Literal := none) : Body :=
  { b with
    method := b.method.addVar name type const
    locals := (v, b.method.nextVar name type const) :: b.locals }

def Body.record (b : Body) (v : Nat) (name type : String) : Body :=
  { b.hold v name type with
    shared := { b.shared with vars := (v, b.method.nextVar name type) :: b.shared.vars } }

def Body.load (src : Source) (b : Body) (g : Nat) (name type : String) : Body :=
  { b.hold g name type with
    shared := b.shared.useGlobal g
    method := (b.method.addVar name type).emit
      (.loadField (b.method.nextVar name type) none (Build.globalField src g)) }

structure Fits (m : Method) (s : Stmt) : Prop where
  vars     : ∀ x ∈ s.vars, x ∈ m.vars
  receiver : ∀ call, s = .invoke call → call.isStatic = call.base.isNone
  site     : ∀ site lhs type, s = .alloc site lhs type → site = m.nextSite

-- The class that an interface call asks for is declared.
def Refers (st : State) (s : Stmt) : Prop :=
  ∀ call, s = .invoke call → call.kind = .interface →
    (st.program.class? call.method.owner).isSome

-- One step of building the body of a function. The values of the function itself are `mine`.
inductive Act (src : Source) (mine : Nat → Prop) : Body → Body → Prop
  | declare {b : Body} {st : State} : Declaration src b.shared st →
    Act src mine b { b with shared := st }
  | temp {b : Body} (name type : String) :
    Act src mine b { b with method := b.method.addVar name type }
  | hold {b : Body} {v : Nat} (name type : String) (const : Option Literal) :
    b.locals.lookup v = none → (src.ssa.value v).kind.Fixes const →
    Act src mine b (b.hold v name type const)
  | record {b : Body} {v : Nat} (name type : String) : mine v →
    b.locals.lookup v = none → (src.ssa.value v).kind.isOwn → Act src mine b (b.record v name type)
  | load {b : Body} {g pkg : Nat} (name type : String) :
    b.locals.lookup g = none → (src.ssa.value g).kind = .global pkg →
    Act src mine b (b.load src g name type)
  | emit {b : Body} {s : Stmt} : Fits b.method s → Refers b.shared s → s.isGlobalLoad = false →
    Act src mine b { b with method := b.method.emit s }

abbrev Acts (src : Source) (mine : Nat → Prop) : Body → Body → Prop :=
  Relation.ReflTransGen (Act src mine)

-- What is needed of a body so that more can be added to it.
structure Sound (src : Source) (b : Body) : Prop where
  shared : Orderly src b.shared
  locals : ∀ v x, b.locals.lookup v = some x → x ∈ b.method.vars

def Precedes (m m' : Method) : Prop :=
  ∃ (xs : List Var) (chunk : List Stmt), Consecutive m.id m.vars.length xs ∧
    m' = { m with vars := m.vars ++ xs, body := m.body ++ chunk }

-- What a body keeps: variables and statements are only added, and values stay where they are.
structure Advances (b b' : Body) : Prop where
  method : Precedes b.method b'.method
  locals : ∀ v x, b.locals.lookup v = some x → b'.locals.lookup v = some x

variable {src : Source} {mine : Nat → Prop} {b b' b'' : Body}

namespace Advances

theorem refl (b : Body) : Advances b b where
  method := ⟨[], [], .nil, by simp⟩
  locals := fun _ _ h => h

theorem trans (h : Advances b b') (h' : Advances b' b'') : Advances b b'' := by
  have ⟨xs, chunk, hx, hm⟩ := h.method
  have ⟨xs', chunk', hx', hm'⟩ := h'.method
  refine ⟨⟨xs ++ xs', chunk ++ chunk', ?vars, ?body⟩, fun v x hv => h'.locals v x (h.locals v x hv)⟩
  case vars => exact hx.append (by simpa [hm] using hx')
  case body => simp [hm', hm]

theorem vars (h : Advances b b') : b.method.vars ⊆ b'.method.vars := by
  have ⟨xs, chunk, _, hm⟩ := h.method
  simp [hm]

end Advances

theorem lookup_cons_of_none {v v' : Nat} {x y : Var} {l : List (Nat × Var)}
    (fresh : l.lookup v = none) (h : l.lookup v' = some y) :
    ((v, x) :: l).lookup v' = some y := by
  have ne : v' ≠ v := by
    rintro rfl
    simp [fresh] at h
  rw [List.lookup_cons, beq_false_of_ne ne]
  exact h

theorem Act.advances (h : Act src mine b b') : Advances b b' := by
  cases h
  case declare => exact ⟨⟨[], [], .nil, by simp⟩, fun _ _ h => h⟩
  case temp name type =>
    exact ⟨⟨[b.method.nextVar name type], [], .nextVar .., by simp [Method.addVar]⟩,
      fun _ _ h => h⟩
  case hold v name type const fresh _ =>
    exact ⟨⟨[b.method.nextVar name type const], [], .nextVar ..,
      by simp [Body.hold, Method.addVar]⟩, fun _ _ h => lookup_cons_of_none fresh h⟩
  case record v name type _ fresh _ =>
    exact ⟨⟨[b.method.nextVar name type], [], .nextVar ..,
      by simp [Body.record, Body.hold, Method.addVar]⟩, fun _ _ h => lookup_cons_of_none fresh h⟩
  case load g pkg name type fresh _ =>
    refine ⟨⟨[b.method.nextVar name type],
      [.loadField (b.method.nextVar name type) none (Build.globalField src g)], .nextVar .., ?_⟩,
      fun _ _ h => lookup_cons_of_none fresh h⟩
    simp [Body.load, Method.addVar, Method.emit]
  case emit s _ _ _ => exact ⟨⟨[], [s], .nil, by simp [Method.emit]⟩, fun _ _ h => h⟩

theorem Acts.advances (h : Acts src mine b b') : Advances b b' := by
  induction h
  case refl         => exact .refl b
  case tail step hi => exact hi.trans step.advances

-- Variables and globals do not matter to what is declared.
def State.withVars (st : State) (vars : List (Nat × Var)) (globals : List Nat) : State :=
  { st with vars, globals }

theorem Orderly.withVars {st : State} (h : Orderly src st) (vars : List (Nat × Var))
    (globals : List Nat) : Orderly src (st.withVars vars globals) :=
  ⟨h.numbered, h.keys, h.ids, h.declared, h.bare⟩

theorem withInterface_withVars (st : State) (vars : List (Nat × Var)) (globals : List Nat)
    (name : String) (methods : List String) :
    (st.withVars vars globals).withInterface name methods =
      (st.withInterface name methods).withVars vars globals := by
  have start : (st.withVars vars globals).withClass { name, isInterface := true } =
      (st.withClass { name, isInterface := true }).withVars vars globals := rfl
  unfold State.withInterface
  rw [start]
  generalize st.withClass { name, isInterface := true } = st
  induction methods generalizing st
  case nil => rfl
  case cons m rest hi => exact hi (st.addMethod name m { isAbstract := true })

theorem Declaration.of_withVars {st st' : State} {vars : List (Nat × Var)} {globals : List Nat}
    (h : Declaration src (st.withVars vars globals) st') :
    ∃ st'', Declaration src st st'' ∧ st' = st''.withVars vars globals := by
  cases h
  case newClass fresh hn     => exact ⟨_, .newClass fresh hn, rfl⟩
  case newInterface fresh hk => exact ⟨_, .newInterface fresh hk, withInterface_withVars ..⟩
  case marker hc hn          => exact ⟨_, .marker hc hn, rfl⟩
  case function hc fresh     => exact ⟨_, .function hc fresh, rfl⟩

theorem useGlobal_eq (st : State) (g : Nat) :
    st.useGlobal g = st.withVars st.vars (st.useGlobal g).globals := by
  unfold State.useGlobal
  split
  case isTrue  => rfl
  case isFalse => rfl

-- What is declared while a body is built.
theorem Acts.declarations (h : Acts src mine b b') : ∃ st, Declarations src b.shared st ∧
    b'.shared = st.withVars b'.shared.vars b'.shared.globals := by
  induction h
  case refl => exact ⟨_, .refl, rfl⟩
  case tail step hi =>
    have ⟨st, declared, he⟩ := hi
    cases step
    case declare st' step =>
      rw [he] at step
      have ⟨st'', step, he'⟩ := step.of_withVars
      exact ⟨st'', declared.tail step, by simp only [he']; rfl⟩
    case record => exact ⟨st, declared, by simp only [Body.record]; rw [he]; rfl⟩
    case load =>
      refine ⟨st, declared, ?_⟩
      simp only [Body.load]
      rw [useGlobal_eq, he]
      rfl
    case temp | hold | emit => exact ⟨st, declared, he⟩

theorem Acts.shared (h : Acts src mine b b') : ∃ st, Grows src b.shared st ∧
    b'.shared = st.withVars b'.shared.vars b'.shared.globals := by
  have ⟨st, declared, he⟩ := h.declarations
  exact ⟨st, declared.grows, he⟩

theorem Acts.isSome_class? (h : Acts src mine b b') {name : String}
    (hc : (b.shared.program.class? name).isSome) : (b'.shared.program.class? name).isSome := by
  have ⟨st, grows, he⟩ := h.shared
  rw [he]
  exact grows.isSome_class? hc

theorem Acts.orderly (h : Acts src mine b b') (hs : Orderly src b.shared) :
    Orderly src b'.shared := by
  have ⟨st, grows, he⟩ := h.shared
  rw [he]
  exact (hs.grows grows).withVars ..

theorem Acts.method? (h : Acts src mine b b') (hs : Orderly src b.shared) {fn : Nat} {m : Method}
    (hm : b.shared.method? fn = some m) : b'.shared.method? fn = some m := by
  have ⟨st, grows, he⟩ := h.shared
  have kept : st.method? fn = some m := hs.method?_grows grows hm
  rw [he]
  exact kept

theorem mem_vars_hold {v : Nat} {name type : String} {const : Option Literal}
    (hl : ∀ v x, b.locals.lookup v = some x → x ∈ b.method.vars) {v' : Nat} {x : Var}
    (h : (b.hold v name type const).locals.lookup v' = some x) :
    x ∈ (b.method.addVar name type const).vars := by
  simp only [Body.hold, List.lookup_cons] at h
  simp only [Method.addVar, List.mem_append, List.mem_singleton]
  split at h
  case h_1 => exact .inr (Option.some.inj h).symm
  case h_2 => exact .inl (hl v' x h)

theorem Act.locals (h : Act src mine b b')
    (hl : ∀ v x, b.locals.lookup v = some x → x ∈ b.method.vars) :
    ∀ v x, b'.locals.lookup v = some x → x ∈ b'.method.vars := by
  intro v x hv
  cases h
  case declare | emit       => exact hl v x hv
  case temp                 => exact List.mem_append_left _ (hl v x hv)
  case hold | record | load => exact mem_vars_hold hl hv

theorem Acts.sound (h : Acts src mine b b') (hs : Sound src b) : Sound src b' := by
  refine ⟨h.orderly hs.shared, ?_⟩
  induction h
  case refl         => exact hs.locals
  case tail step hi => exact step.locals hi

structure Naming where
  var : Nat → Var
  ref : Nat → MethodRef

-- The naming knows the variables of values and the methods of functions, as far as there are any.
structure Naming.Knows (w : Naming) (locals : List (Nat × Var)) (method? : Nat → Option Method) :
    Prop where
  var : ∀ v x, locals.lookup v = some x → w.var v = x
  ref : ∀ fn m, method? fn = some m → w.ref fn = m.ref

-- The naming knows all that the body has named so far.
abbrev Naming.Agrees (w : Naming) (b : Body) : Prop :=
  w.Knows b.locals b.shared.method?

theorem Naming.Knows.of_acts {w : Naming} (h : w.Agrees b') (acts : Acts src mine b b')
    (hs : Sound src b) : w.Agrees b where
  var v x hv := h.var v x (acts.advances.locals v x hv)
  ref fn m hm := h.ref fn m (acts.method? hs.shared hm)

abbrev proper (chunk : List Stmt) : List Stmt :=
  chunk.filter (!·.isGlobalLoad)

-- A part of building a body. It can rely on the variables `K`, it never fails, and its result is
-- made up of variables of the method, too. `T` relates the result and the statements that are added
-- to every naming that knows all that is named in the end.
def Yields (src : Source) (mine : Nat → Prop) {α : Type} (K : List Var) (x : Build α)
    (known : α → List Var) (T : Naming → α → List Stmt → Prop) : Prop :=
  ∀ b, Sound src b → K ⊆ b.method.vars → ∃ a b' chunk, x b = .ok (a, b') ∧ Acts src mine b b' ∧
    b'.method.body = b.method.body ++ chunk ∧ known a ⊆ b'.method.vars ∧
    ∀ w : Naming, w.Agrees b' → T w a (proper chunk)

-- What comes after a part that does not fail.
theorem bind_eq {α β : Type} {x : Build α} {f : α → Build β} {a : α} (h : x b = .ok (a, b')) :
    (x >>= f) b = f a b' := by
  simp [Bind.bind, StateT.bind, Except.bind, h]

namespace Yields

variable {α β : Type} {K : List Var} {x : Build α} {known : α → List Var}
  {T T' : Naming → α → List Stmt → Prop}

theorem mono (h : Yields src mine K x known T) (ht : ∀ w a c, T w a c → T' w a c) :
    Yields src mine K x known T' := by
  intro b hs hK
  have ⟨a, b', chunk, hx, acts, hb, hk, hT⟩ := h b hs hK
  exact ⟨a, b', chunk, hx, acts, hb, hk, fun w hw => ht _ _ _ (hT w hw)⟩

theorem pure (a : α) (hk : known a ⊆ K) :
    Yields src mine K (pure a) known fun _ a' c => a' = a ∧ c = [] :=
  fun b _ hK => ⟨a, b, [], rfl, .refl, by simp, fun _ hx => hK (hk hx), fun _ _ => ⟨rfl, rfl⟩⟩

theorem bind {f : α → Build β} {known' : β → List Var} {U : α → Naming → β → List Stmt → Prop}
    (hx : Yields src mine K x known T)
    (hf : ∀ a, Yields src mine (known a ++ K) (f a) known' (U a)) :
    Yields src mine K (x >>= f) known' fun w y c =>
      ∃ a c₁ c₂, T w a c₁ ∧ U a w y c₂ ∧ c = c₁ ++ c₂ := by
  intro b hs hK
  have ⟨a, b₁, c₁, h₁, acts₁, hb₁, hk₁, hT⟩ := hx b hs hK
  have known : known a ++ K ⊆ b₁.method.vars :=
    List.append_subset.mpr ⟨hk₁, fun _ hy => acts₁.advances.vars (hK hy)⟩
  have ⟨y, b₂, c₂, h₂, acts₂, hb₂, hk₂, hU⟩ := hf a b₁ (acts₁.sound hs) known
  refine ⟨y, b₂, c₁ ++ c₂, ?run, acts₁.trans acts₂, by simp [hb₂, hb₁], hk₂, ?yields⟩
  case run => rw [bind_eq h₁, h₂]
  case yields =>
    intro w hw
    exact ⟨a, proper c₁, proper c₂, hT w (hw.of_acts acts₂ (acts₁.sound hs)), hU w hw,
      List.filter_append ..⟩

end Yields

section Parts

variable {K : List Var} {v fn : Nat} {s : Stmt}

open Build

-- Most statements neither allocate nor call nor load a global.
def IsPlain : Stmt → Prop
  | .alloc .. | .invoke _ | .loadField _ none _ => False
  | _ => True

theorem fits_of_isPlain {m : Method} (hs : IsPlain s) (hv : s.vars ⊆ m.vars) : Fits m s := by
  refine ⟨fun x hx => hv hx, ?invokes, ?allocs⟩
  case invokes => rintro call rfl; exact hs.elim
  case allocs => rintro site lhs type rfl; exact hs.elim

theorem fits_alloc {m : Method} {lhs : Var} {type : String} (hv : lhs ∈ m.vars) :
    Fits m (.alloc m.nextSite lhs type) := by
  refine ⟨by simpa [Stmt.vars] using hv, ?invokes, ?allocs⟩
  case invokes => rintro call ⟨⟩
  case allocs => rintro site lhs' type' ⟨⟩; rfl

theorem isGlobalLoad_of_isPlain (hs : IsPlain s) : s.isGlobalLoad = false := by
  unfold Stmt.isGlobalLoad
  split
  case h_1 => exact hs.elim
  case h_2 => rfl

theorem refers_of_isPlain {st : State} (hs : IsPlain s) : Refers st s := by
  rintro call rfl
  exact hs.elim

theorem yields_emitted {x : Build Unit} {f : Method → Stmt}
    (hx : ∀ b, x b = .ok ((), { b with method := b.method.emit (f b.method) }))
    (hl : ∀ m, (f m).isGlobalLoad = false) (hr : ∀ m st, Refers st (f m))
    (hf : ∀ m : Method, K ⊆ m.vars → Fits m (f m)) :
    Yields src mine K x (fun _ => []) fun _ _ c => ∃ m, c = [f m] := by
  intro b _ hK
  refine ⟨(), _, [f b.method], hx b, .single (.emit (hf b.method hK) (hr _ _) (hl b.method)), rfl,
    by simp, fun _ _ => ⟨b.method, ?_⟩⟩
  simp [hl]

theorem yields_emit (hs : IsPlain s) (hv : s.vars ⊆ K) :
    Yields src mine K (emit s) (fun _ => []) fun _ _ c => c = [s] :=
  (yields_emitted (f := fun _ => s) (fun _ => rfl) (fun _ => isGlobalLoad_of_isPlain hs)
    (fun _ _ => refers_of_isPlain hs) fun _ hK => fits_of_isPlain hs fun _ hx => hK (hv hx)).mono
    fun _ _ _ ⟨_, h⟩ => h

theorem fits_invoke {m : Method} {call : Invoke} (hr : call.isStatic = call.base.isNone)
    (hv : (Stmt.invoke call).vars ⊆ m.vars) : Fits m (.invoke call) := by
  refine ⟨fun x hx => hv hx, ?invokes, ?allocs⟩
  case invokes => rintro call' ⟨⟩; exact hr
  case allocs => rintro site lhs type ⟨⟩

theorem invoke_eq {call : Invoke} (hr : call.isStatic = call.base.isNone) (b : Body) :
    invoke call b = .ok ((), { b with method := b.method.emit (.invoke call) }) := by
  simp [invoke, Method.emitInvoke, hr]

theorem yields_invoke {call : Invoke} (hr : call.isStatic = call.base.isNone)
    (direct : call.kind ≠ .interface) (hv : (Stmt.invoke call).vars ⊆ K) :
    Yields src mine K (invoke call) (fun _ => []) fun _ _ c => c = [.invoke call] := by
  refine (yields_emitted (f := fun _ => .invoke call) (invoke_eq hr) (fun _ => rfl) ?_
    fun m hK => fits_invoke hr fun x hx => hK (hv hx)).mono fun _ _ _ ⟨_, h⟩ => h
  rintro _ _ _ ⟨⟩ interface
  exact absurd interface direct

theorem yields_emitAlloc {lhs : Var} {type : String} (hv : lhs ∈ K) :
    Yields src mine K
      (modify fun b => { b with method := b.method.emitAlloc lhs type } : Build Unit)
      (fun _ => []) fun _ _ c => ∃ site, c = [.alloc site lhs type] :=
  (yields_emitted (f := fun m => .alloc m.nextSite lhs type) (fun _ => rfl) (fun _ => rfl)
    (fun _ _ _ e => by cases e) fun _ hK => fits_alloc (hK hv)).mono
    fun _ _ _ ⟨m, h⟩ => ⟨m.nextSite, h⟩

theorem Declarations.acts {st : State} (h : Declarations src b.shared st) :
    Acts src mine b { b with shared := st } := by
  induction h
  case refl         => exact .refl
  case tail step hi => exact hi.tail (.declare step)

theorem declare_eq {f : State → Except Error State} {st : State} (h : f b.shared = .ok st) :
    declare f b = .ok ((), { b with shared := st }) := by
  simp [declare, h, Bind.bind, Except.bind, Pure.pure, Except.pure]

theorem yields_declare {f : State → Except Error State} {Q : State → Prop}
    (hf : ∀ st, ∃ st', f st = .ok st' ∧ Declarations src st st' ∧ Q st') :
    Yields src mine K (declare f) (fun _ => []) fun _ _ c => c = [] := by
  intro b _ _
  have ⟨st', hs, declared, _⟩ := hf b.shared
  exact ⟨(), { b with shared := st' }, [], declare_eq hs, declared.acts, by simp, by simp,
    fun _ _ => rfl⟩

theorem yields_newVar (name type : String) :
    Yields src mine K (newVar name type) (fun x => [x]) fun _ x c => x.const = none ∧ c = [] := by
  intro b _ _
  refine ⟨_, _, [], rfl, .single (.temp name type), by simp [Method.addVar], ?_,
    fun _ _ => ⟨rfl, rfl⟩⟩
  simp [Method.addVar]

theorem freshValue_acts (src : Source) (hv : mine v) {b : Body} (hl : b.locals.lookup v = none) :
    ∃ x b' chunk, freshValue src v b = .ok (x, b') ∧ Act src mine b b' ∧
      b'.method.body = b.method.body ++ chunk ∧ b'.locals.lookup v = some x ∧
      proper chunk = [] := by
  unfold freshValue
  cases hk : (src.ssa.value v).kind
  case const c =>
    exact ⟨_, _, [], rfl, .hold _ _ c hl (hk ▸ .const c), (List.append_nil _).symm,
      List.lookup_cons_self, rfl⟩
  case global pkg =>
    exact ⟨_, _, [_], rfl, .load _ _ hl hk, rfl, List.lookup_cons_self, rfl⟩
  case function fn =>
    exact ⟨_, _, [], rfl, .hold _ _ none hl (hk ▸ .function fn), (List.append_nil _).symm,
      List.lookup_cons_self, rfl⟩
  case builtin =>
    exact ⟨_, _, [], rfl, .hold _ _ none hl (hk ▸ .builtin), (List.append_nil _).symm,
      List.lookup_cons_self, rfl⟩
  case param | freevar | reg =>
    exact ⟨_, _, [], rfl, .record _ _ hv hl (by simp [hk, Ssa.ValueKind.isOwn]),
      (List.append_nil _).symm, List.lookup_cons_self, rfl⟩

theorem value_eq (src : Source) (v : Nat) (b : Body) :
    value src v b = match b.locals.lookup v with
      | some x => .ok (x, b)
      | none => freshValue src v b := by
  change (match b.locals.lookup v with
    | some x => (pure x : Build Var)
    | none => freshValue src v) b = _
  cases b.locals.lookup v <;> rfl

theorem yields_value (hv : mine v) :
    Yields src mine K (value src v) (fun x => [x]) fun w x c => x = w.var v ∧ c = [] := by
  intro b hs _
  rw [value_eq]
  cases hl : b.locals.lookup v
  case some x =>
    refine ⟨x, b, [], rfl, .refl, by simp, by simpa using hs.locals v x hl, fun w hw => ?_⟩
    exact ⟨(hw.var v x hl).symm, rfl⟩
  case none =>
    have ⟨x, b', chunk, hf, act, hb, hl', hc⟩ := freshValue_acts src hv hl
    refine ⟨x, b', chunk, hf, .single act, hb, ?_, fun w hw => ⟨(hw.var v x hl').symm, hc⟩⟩
    simpa using act.locals hs.locals v x hl'

-- What comes after a value may take its variable for granted.
theorem yields_value_bind {β : Type} {f : Var → Build β} {known : β → List Var}
    {U : Naming → Var → β → List Stmt → Prop} (hv : mine v)
    (hf : ∀ x, Yields src mine (x :: K) (f x) known fun w => U w x) :
    Yields src mine K (value src v >>= f) known fun w => U w (w.var v) := by
  refine ((yields_value hv).bind hf).mono fun w a c h => ?_
  obtain ⟨x, _, c₂, ⟨rfl, rfl⟩, hU, rfl⟩ := h
  exact hU

theorem yields_values {vs : List Nat} (hv : ∀ v ∈ vs, mine v) :
    Yields src mine K (values src vs) id fun w xs c => xs = vs.map w.var ∧ c = [] := by
  unfold values
  induction vs generalizing K
  case nil => exact .pure [] (List.nil_subset _)
  case cons v rest hi =>
    rw [List.mapM_cons]
    refine yields_value_bind (U := fun w x xs c => xs = x :: rest.map w.var ∧ c = [])
      (hv v List.mem_cons_self) fun x => ?_
    have tail : ∀ xs : List Var, Yields src mine (xs ++ x :: K) (pure (x :: xs)) id
        fun _ ys c => ys = x :: xs ∧ c = [] := fun xs => .pure (x :: xs) (by simp)
    refine ((hi fun v h => hv v (List.mem_cons_of_mem _ h)).bind tail).mono ?_
    rintro w _ _ ⟨xs, _, _, ⟨rfl, rfl⟩, ⟨rfl, rfl⟩, rfl⟩
    exact ⟨rfl, rfl⟩

theorem yields_methodRef (src : Source) (fn : Nat) :
    Yields src mine K (methodRef src fn) (fun _ => []) fun w r c => r = w.ref fn ∧ c = [] := by
  intro b hs _
  have ⟨st, hu, declared, hf⟩ := useMethod_grows src fn b.shared
  have ⟨m, hm⟩ := (hs.shared.grows declared.grows).exists_method? hf
  refine ⟨m.ref, { b with shared := st }, [], ?run, declared.acts, by simp, by simp,
    fun w hw => ?named⟩
  case run =>
    have found : State.method? ({ b with shared := st } : Body).shared fn = some m := hm
    unfold methodRef
    rw [bind_eq (declare_eq hu), bind_eq (x := get) rfl, found]
    rfl
  case named => exact ⟨(hw.ref fn m hm).symm, rfl⟩

-- A call of a method of an interface, whose class is declared first. The class is still there when
-- the call is added.
theorem yields_interfaceCall {result : Option Var} {t : Nat} {name : String} {args : List Nat}
    (hr : result.toList ⊆ K) (hv : mine v) (ha : ∀ x ∈ args, mine x) :
    Yields src mine K (do
      declare (useClass src t)
      let base ← value src v
      let args ← values src args
      invoke ⟨result, .interface, ⟨src.ssa.typeText t, name⟩, some base, args⟩) (fun _ => [])
      fun w _ c => c = [.invoke
        ⟨result, .interface, ⟨src.ssa.typeText t, name⟩, some (w.var v), args.map w.var⟩] := by
  intro b hs hK
  have ⟨st, hu, declared, hc⟩ := useClass_grows src t b.shared
  have acts₁ : Acts src mine b { b with shared := st } := declared.acts
  have ⟨base, b₂, c₂, h₂, acts₂, hb₂, hk₂, hT₂⟩ := yields_value hv _ (acts₁.sound hs) hK
  have sound₂ := acts₂.sound (acts₁.sound hs)
  have ⟨xs, b₃, c₃, h₃, acts₃, hb₃, hk₃, hT₃⟩ := yields_values ha b₂ sound₂ hk₂
  let call : Invoke := ⟨result, .interface, ⟨src.ssa.typeText t, name⟩, some base, xs⟩
  have known : (Stmt.invoke call).vars ⊆ b₃.method.vars := by
    have hr : result.toList ⊆ b₃.method.vars := fun _ hx =>
      acts₃.advances.vars (acts₂.advances.vars (hK (hr hx)))
    have hb : base ∈ b₃.method.vars := acts₃.advances.vars (hk₂ List.mem_cons_self)
    have hx : xs ⊆ b₃.method.vars := hk₃
    simpa [call, Stmt.vars, List.append_subset] using ⟨hr, hb, hx⟩
  have refers : Refers b₃.shared (.invoke call) := by
    rintro _ ⟨⟩ _
    exact Acts.isSome_class? (acts₂.trans acts₃) hc
  have emitted : Act src mine b₃ { b₃ with method := b₃.method.emit (.invoke call) } :=
    .emit (fits_invoke rfl known) refers rfl
  refine ⟨(), _, c₂ ++ c₃ ++ [.invoke call], ?run, ((acts₁.trans acts₂).trans acts₃).tail emitted,
    by simp [Method.emit, hb₂, hb₃], by simp, ?_⟩
  case run => rw [bind_eq (declare_eq hu), bind_eq h₂, bind_eq h₃, invoke_eq rfl]
  intro w hw
  have hw₃ : w.Agrees b₃ := hw
  obtain ⟨hbase, e₂⟩ := hT₂ w (hw₃.of_acts acts₃ sound₂)
  obtain ⟨hxs, e₃⟩ := hT₃ w hw₃
  simp only [proper, List.filter_append] at e₂ e₃ ⊢
  rw [e₂, e₃, ← hbase, ← hxs]
  rfl

theorem forM_run {α : Type} {f : α → Build Unit} {T : α → Naming → Unit → List Stmt → Prop}
    {l : List α} (hf : ∀ a ∈ l, Yields src mine K (f a) (fun _ => []) (T a)) {b : Body}
    (hs : Sound src b) (hK : K ⊆ b.method.vars) :
    ∃ b' chunks, l.forM f b = .ok ((), b') ∧ Acts src mine b b' ∧
      b'.method.body = b.method.body ++ chunks.flatten ∧
      List.Forall₂ (fun a chunk => ∀ w : Naming, w.Agrees b' → T a w () (proper chunk))
        l chunks := by
  induction l generalizing b
  case nil => exact ⟨b, [], rfl, .refl, by simp, .nil⟩
  case cons a rest hi =>
    have ⟨_, b₁, c₁, h₁, acts₁, hb₁, _, hT₁⟩ := hf a List.mem_cons_self b hs hK
    have ⟨b₂, chunks, h₂, acts₂, hb₂, hT₂⟩ := hi (fun a h => hf a (List.mem_cons_of_mem _ h))
      (acts₁.sound hs) fun _ hx => acts₁.advances.vars (hK hx)
    refine ⟨b₂, c₁ :: chunks, ?run, acts₁.trans acts₂, by simp [hb₂, hb₁],
      .cons (fun w hw => ?yields) hT₂⟩
    case run => exact (bind_eq h₁).trans h₂
    case yields => exact hT₁ w (hw.of_acts acts₂ (acts₁.sound hs))

theorem yields_forM {α : Type} {f : α → Build Unit} {g : Naming → α → List Stmt} {l : List α}
    (hf : ∀ a ∈ l, Yields src mine K (f a) (fun _ => []) fun w _ c => c = g w a) :
    Yields src mine K (l.forM f) (fun _ => []) fun w _ c => c = l.flatMap (g w) := by
  intro b hs hK
  have ⟨b', chunks, hx, acts, hb, hT⟩ := forM_run hf hs hK
  refine ⟨(), b', chunks.flatten, hx, acts, hb, by simp, fun w hw => ?_⟩
  clear hf hb hx
  induction hT
  case nil => rfl
  case cons e _ hi =>
    have e := e w hw
    simp_all

end Parts
end Lowering
end PointsTo
