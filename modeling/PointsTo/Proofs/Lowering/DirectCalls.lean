import PointsTo.Proofs.FixedPoint
import PointsTo.Proofs.Lowering.Found

namespace PointsTo

open Analysis

theorem eq_ok_of_toOption {ε α : Type} {e : Except ε α} {a : α} (h : e.toOption = some a) :
    e = .ok a := by
  cases e
  case error => contradiction
  case ok    => exact congrArg Except.ok (Option.some.inj h)

-- What is passed to a method, the receiver first.
def Invoke.operands (call : Invoke) : List Var :=
  call.base.toList ++ call.args

theorem Analysis.Passes.formal {F : Set Fact} {call : Invoke} {callee : Method} {k : Nat}
    {x y : Var} (h : Passes F call callee) (aligned : call.base.isSome = callee.receiver.isSome)
    (hx : call.operands[k]? = some x) (hy : callee.formals[k]? = some y) :
    pointees F x ⊆ pointees F y := by
  have param {k : Nat} (hx : call.args[k]? = some x) (hy : callee.params[k]? = some y) :
      pointees F x ⊆ pointees F y := by
    have zipped : (callee.params.zip call.args)[k]? = some (y, x) :=
      List.getElem?_zip_eq_some.mpr ⟨hy, hx⟩
    exact h.params _ (List.mem_of_getElem? zipped)
  unfold Invoke.operands at hx
  unfold Method.formals at hy
  cases hb : call.base
  case none =>
    have hr : callee.receiver = none := by simpa [hb] using aligned.symm
    exact param (by simpa [hb] using hx) (by simpa [hr] using hy)
  case some base =>
    have ⟨receiver, hr⟩ := Option.isSome_iff_exists.mp (aligned ▸ Option.isSome_of_eq_some hb)
    rw [hb] at hx
    rw [hr] at hy
    cases k
    case zero =>
      obtain rfl : base = x := by simpa using hx
      obtain rfl : receiver = y := by simpa using hy
      exact h.receiver receiver base hr hb
    case succ k => exact param (by simpa using hx) (by simpa using hy)

namespace Lowering

variable {src : Source} {fn caller callee : Nat} {m target : Method} {r : Result}
  {locals : List (Nat × Var)} {result : Option Nat} {args : List Nat}

-- A call of a function itself, which is no marker. `go` and `defer` are calls without a result.
def Source.Calls (src : Source) (caller callee : Nat) (result : Option Nat) (args : List Nat) :
    Prop :=
  src.isMarker callee = false ∧ ∃ call : Ssa.Call,
    .call result call ∈ (src.ssa.function caller).blocks.flatten ∧ call.method = none ∧
      (src.ssa.value call.value).kind = .function callee ∧ call.args = args

-- Functions have the parameters of their signatures, after the receiver, and no function refers to
-- the values of another one.
structure WellScoped (src : Source) : Prop where
  length : ∀ fn, src.hasBody fn → (src.ssa.function fn).params.length =
    (src.ssa.function fn).recv.toList.length + (src.ssa.function fn).signature.length
  nodup  : ∀ fn, src.hasBody fn → (src.ssa.function fn).params.Nodup
  kinds  : ∀ fn, src.hasBody fn → ∀ v ∈ (src.ssa.function fn).params,
    (src.ssa.value v).kind = .param
  own    : ∀ fn fn' v, src.hasBody fn → src.hasBody fn' → (src.ssa.value v).kind.isOwn →
    src.Mentions fn v → src.Mentions fn' v → fn = fn'

section Statements

variable {w : Naming}

theorem directCall_spec (w : Naming) (x : Option Var) (args : List Nat)
    (hm : src.isMarker fn = false) :
    (directCall src w x fn args).result = x ∧ (directCall src w x fn args).kind.isDirect ∧
      (directCall src w x fn args).method = w.ref fn ∧
      (directCall src w x fn args).operands = args.map w.var ∧
      (args ≠ [] →
        (directCall src w x fn args).base.isSome = (src.ssa.function fn).recv.isSome) := by
  unfold directCall
  rw [if_neg (by simp [hm])]
  split
  case h_1 hr => simp [Invoke.operands, CallKind.isDirect, hr]
  case h_2 other =>
    refine ⟨rfl, rfl, rfl, rfl, fun hne => ?_⟩
    cases hr : (src.ssa.function fn).recv
    case none => rfl
    case some recv =>
      have ⟨receiver, rest, e⟩ := List.exists_cons_of_ne_nil hne
      exact (other recv receiver rest hr e).elim

theorem Translates.exists_chunk {method? : Nat → Option Method} {stmts : List Stmt} {i : Ssa.Instr}
    (h : Translates src locals method? fn stmts) (hi : i ∈ (src.ssa.function fn).blocks.flatten) :
    ∃ chunk ⊆ stmts, ∀ w : Naming, w.Knows locals method? → ∃ fresh,
      chunk = statements src (src.ssa.function fn).blocks.flatten w fresh i := by
  have ⟨chunks, hs, hT⟩ := h
  have ⟨chunk, hc, translated⟩ := exists_of_forall₂ hT hi
  refine ⟨proper chunk, fun s hs' => ?_, translated⟩
  rw [hs]
  exact List.mem_flatten.mpr ⟨chunk, hc, List.mem_of_mem_filter hs'⟩

theorem Translates.exists_call {method? : Nat → Option Method} {stmts : List Stmt}
    (h : Translates src locals method? caller stmts) (calls : src.Calls caller callee result args) :
    ∃ call, .invoke call ∈ stmts ∧ ∀ w : Naming, w.Knows locals method? →
      call = directCall src w (result.map w.var) callee args := by
  have ⟨_, c, hi, hm, hk, ha⟩ := calls
  have ⟨chunk, sub, translated⟩ := h.exists_chunk hi
  have eq (w : Naming) (hw : w.Knows locals method?) :
      chunk = [.invoke (directCall src w (result.map w.var) callee args)] := by
    have ⟨fresh, e⟩ := translated w hw
    simpa only [statements, callStatements, hm, hk, ha] using e
  have known := knows_naming locals method?
  refine ⟨_, sub (by rw [eq _ known]; exact List.mem_singleton_self _), fun w hw => ?_⟩
  simpa using (eq _ known).symm.trans (eq w hw)

-- A function without a method may be named anything: renaming it shows that a call to it would
-- translate in two ways.
def Naming.withRef (w : Naming) (fn : Nat) (ref : MethodRef) : Naming :=
  { w with ref := Function.update w.ref fn ref }

theorem Naming.Knows.withRef {method? : Nat → Option Method} (h : w.Knows locals method?)
    (none : method? fn = none) (ref : MethodRef) : (w.withRef fn ref).Knows locals method? := by
  refine ⟨h.var, fun fn' m hm => ?_⟩
  have ne : fn' ≠ fn := by
    rintro rfl
    simp [hm] at none
  exact (Function.update_of_ne ne ..).trans (h.ref fn' m hm)

-- If the function had no method, then the reference to it could be any.
theorem Translates.exists_method? {method? : Nat → Option Method} {stmts : List Stmt}
    (h : Translates src locals method? caller stmts) (calls : src.Calls caller callee result args) :
    ∃ target, method? callee = some target := by
  have ⟨call, _, eq⟩ := h.exists_call calls
  cases none : method? callee
  case some target => exact ⟨target, rfl⟩
  case none =>
    have any (ref : MethodRef) : call.method = ref := by
      have ⟨_, _, method, _⟩ := directCall_spec ((naming locals method?).withRef callee ref)
        (result.map (naming locals method?).var) args calls.left
      rw [eq _ ((knows_naming locals method?).withRef none ref)]
      exact method.trans (Function.update_self ..)
    have := (any ⟨"", ""⟩).symm.trans (any ⟨"<", ""⟩)
    contradiction

theorem Translates.ret_mem {method? : Nat → Option Method} {stmts : List Stmt} {results : List Nat}
    {o : Nat} (h : Translates src locals method? fn stmts) (hw : w.Knows locals method?)
    (hi : .ret results ∈ (src.ssa.function fn).blocks.flatten) (ho : o ∈ results) :
    .ret (some (w.var o)) ∈ stmts := by
  have ⟨chunk, sub, translated⟩ := h.exists_chunk hi
  have ⟨fresh, e⟩ := translated w hw
  refine sub ?_
  rw [e]
  cases results
  case nil  => contradiction
  case cons => exact List.mem_map_of_mem ho

end Statements

section Variables

-- Only variables that belong to the method are used in it.
theorem Declares.lookup_of_mem {v : Nat} (h : Declares src fn m)
    (hv : (naming locals r.method?).var v ∈ m.vars) :
    locals.lookup v = some ((naming locals r.method?).var v) := by
  cases hl : locals.lookup v
  case some x => simp [naming, hl]
  case none =>
    have := h.own.owner _ hv
    simp [naming, hl, Var.absent] at this

theorem paramPairs_eq_zip (m : Method) (params : List Nat) :
    Build.paramPairs m params = params.zip m.formals := by
  unfold Build.paramPairs Method.formals
  cases hr : m.receiver
  case none => rfl
  case some receiver => cases params <;> rfl

theorem Declares.length_formals (h : Declares src fn m) : m.formals.length =
    (src.ssa.function fn).recv.toList.length + (src.ssa.function fn).signature.length := by
  have receiver := h.receiver
  rw [Method.formals, List.length_append, h.params]
  cases hr : m.receiver <;> cases hf : (src.ssa.function fn).recv <;> simp_all

-- The parameters of a function are the variables of its method in the same positions.
theorem Translation.var?_param {k p : Nat} (h : Translation src r fn m locals)
    (declares : Declares src fn m) (scope : WellScoped src) (hb : src.hasBody fn)
    (hp : (src.ssa.function fn).params[k]? = some p) :
    ∃ y, m.formals[k]? = some y ∧ r.var? p = some y := by
  have length := (scope.length fn hb).trans declares.length_formals.symm
  have ⟨hk, _⟩ := List.getElem?_eq_some_iff.mp hp
  have ⟨y, hy⟩ : ∃ y, m.formals[k]? = some y := ⟨_, List.getElem?_eq_getElem (length ▸ hk)⟩
  refine ⟨y, hy, ?_⟩
  have pair : (p, y) ∈ Build.paramPairs m (src.ssa.function fn).params := by
    rw [paramPairs_eq_zip]
    exact List.mem_of_getElem? (List.getElem?_zip_eq_some.mpr ⟨hp, hy⟩)
  have keys : ((Build.paramPairs m (src.ssa.function fn).params).reverse.map Prod.fst).Nodup := by
    rw [paramPairs_eq_zip, List.map_reverse, List.map_fst_zip (Nat.le_of_eq length),
      List.nodup_reverse]
    exact scope.nodup fn hb
  have mem : p ∈ (src.ssa.function fn).params := List.mem_of_getElem? hp
  have own : (src.ssa.value p).kind.isOwn := by
    rw [scope.kinds fn hb p mem]
    rfl
  refine h.recorded p y own (h.params p y ?found) fun fn' hb' hv => ?only
  case found => exact (lookup_eq_some_iff_of_nodup keys).mpr (List.mem_reverse.mpr pair)
  case only => exact scope.own fn' fn p hb' hb own hv (.inl mem)

end Variables

-- What a set of facts says about a call: the arguments are in the parameters of the function, and
-- what it returns is in the result of the call. `outer` and `inner` are the variables of values
-- where the call stands and in the function.
structure Delivers (src : Source) (r : Result) (F : Set Fact) (outer inner : List (Nat × Var))
    (callee : Nat) (result : Option Nat) (args : List Nat) : Prop where
  arguments : ∀ (k a p : Nat), args[k]? = some a →
    (src.ssa.function callee).params[k]? = some p →
    ∃ x y, outer.lookup a = some x ∧ r.var? p = some y ∧ pointees F x ⊆ pointees F y
  results   : ∀ v, result = some v → ∀ returned,
    .ret returned ∈ (src.ssa.function callee).blocks.flatten → ∀ o ∈ returned,
    ∃ x y, inner.lookup o = some x ∧ outer.lookup v = some y ∧ pointees F x ⊆ pointees F y

-- Whatever satisfies the constraint of the call delivers.
theorem delivers_of_passes {F : Set Fact} {inner : List (Nat × Var)} (scope : WellScoped src)
    (hc : Declares src caller m) (body : Translation src r caller m locals)
    (ht : Declares src callee target) (hb : src.hasBody callee)
    (inside : Translation src r callee target inner) (calls : src.Calls caller callee result args)
    (passes : ∀ call, .invoke call ∈ m.body → call.method = (naming locals r.method?).ref callee →
      call.kind.isDirect → Passes F call target) :
    Delivers src r F locals inner callee result args := by
  have known := knows_naming locals r.method?
  have ⟨call, hm, eq⟩ := body.statements.exists_call calls
  have ⟨hres, hdir, hmeth, hops, hbase⟩ := directCall_spec (naming locals r.method?)
    (result.map (naming locals r.method?).var) args calls.left
  rw [← eq _ known] at hres hdir hmeth hops hbase
  have passes := passes call hm hmeth hdir
  have vars := body.written.vars _ hm
  constructor
  case arguments =>
    intro k a p ha hp
    have ⟨y, hy, hv⟩ := inside.var?_param ht scope hb hp
    have hx : call.operands[k]? = some ((naming locals r.method?).var a) := by simp [hops, ha]
    have mem : (naming locals r.method?).var a ∈ m.vars := by
      refine vars _ ?_
      have := List.mem_of_getElem? hx
      simp only [Invoke.operands, List.mem_append] at this
      simp only [Stmt.vars, List.mem_append]
      tauto
    have aligned : call.base.isSome = target.receiver.isSome := by
      rw [hbase (List.ne_nil_of_mem (List.mem_of_getElem? ha)), ht.receiver]
    exact ⟨_, y, hc.lookup_of_mem mem, hv, passes.formal aligned hx hy⟩
  case results =>
    intro v hv returned hr o ho
    have ret := inside.statements.ret_mem (knows_naming inner r.method?) hr ho
    have hres : call.result = some ((naming locals r.method?).var v) := by simp [hres, hv]
    have mem : (naming locals r.method?).var v ∈ m.vars := vars _ (by simp [Stmt.vars, hres])
    have mem' : (naming inner r.method?).var o ∈ target.vars :=
      inside.written.vars _ ret _ (by simp [Stmt.vars])
    refine ⟨_, _, ht.lookup_of_mem mem', hc.lookup_of_mem mem, ?_⟩
    exact passes.result _ hres _ (List.mem_filterMap.mpr ⟨_, ret, rfl⟩)

-- What a reachable method passes to the method that a direct call denotes.
theorem passes_of_converged {s : Settings} {result : Analysis.Result} {call : Invoke}
    (program : s.program = some r.program) (done : analyze s = .ok result)
    (converged : result.converged) (reached : m ∈ result.reachable) (hm : m.hasBody)
    (hc : .invoke call ∈ m.body) (direct : call.kind.isDirect)
    (resolved : Hierarchy.resolve { program := r.program, visible := s.visible } call.method =
      some target) (ht : target.hasBody) :
    Passes result.facts.toSet call target := by
  cases hp : s.problem
  case error e => simp [analyze, hp, Except.map] at done
  case ok p =>
    have hr := run_eq_of_analyze hp done
    subst hr
    obtain ⟨prog, objects, hprog, _, e⟩ := Settings.problem_eq hp
    obtain rfl : r.program = prog := Option.some.inj (program.symm.trans hprog)
    have hierarchy : p.scene.hierarchy = { program := r.program, visible := s.visible } := by
      rw [e]
    have fixed := fixedPoint_run (Settings.coherent hp) converged
    obtain ⟨pre, post, hs⟩ := List.append_of_mem hc
    obtain ⟨runnable, _⟩ := Bool.and_eq_true_iff.mp ht
    obtain ⟨concrete, own⟩ := Bool.and_eq_true_iff.mp runnable
    refine fixed.satisfied m reached hm pre _ post hs target ?_ ht
    refine Scene.runs_subset_targets ⟨target, hierarchy ▸ resolved, by simpa using own, ?_⟩
    rw [if_pos direct]
    exact ⟨by simpa using concrete, rfl⟩

-- What becomes of the functions of a program and of their calls. `locals` are the variables of the
-- values of each function.
structure Linked (src : Source) (r : Result) (locals : Nat → List (Nat × Var)) : Prop where
  found  : ∀ fn m, r.method? fn = some m → r.program.hierarchy.resolve m.ref = some m
  bodies : ∀ fn m, r.method? fn = some m → src.hasBody fn → Translation src r fn m (locals fn)
  own    : ∀ fn m v x, r.method? fn = some m → src.hasBody fn → src.Mentions fn v →
    (src.ssa.value v).kind.isOwn → (locals fn).lookup v = some x → r.var? v = some x
  calls  : ∀ caller m callee result args, r.method? caller = some m → src.hasBody caller →
    src.Calls caller callee result args → ∃ target call, r.method? callee = some target ∧
      .invoke call ∈ m.body ∧ call.kind.isDirect ∧
      (∀ w : Naming, w.Knows (locals caller) r.method? →
        call = directCall src w (result.map w.var) callee args) ∧
      r.program.hierarchy.resolve call.method = some target
  flows  : ∀ caller m callee target result args, r.method? caller = some m → src.hasBody caller →
    src.Calls caller callee result args → r.method? callee = some target → target.hasBody →
    ∀ (s : Settings) (analysis : Analysis.Result), s.program = some r.program →
      s.visible target.owner → analyze s = .ok analysis → analysis.converged →
      m ∈ analysis.reachable →
      Delivers src r analysis.facts.toSet (locals caller) (locals callee) callee result args

namespace Run

variable {st₀ st fin : State} {done : List Nat}

theorem declares (h : Run src r st₀ st fin done) (hm : r.method? fn = some m) :
    Declares src fn m :=
  h.progress.orderly.declares (h.method?_eq fn ▸ hm)

theorem resolve (h : Run src r st₀ st fin done)
    (named : WellNamed src fun fn => (r.method? fn).isSome) (hm : r.method? fn = some m)
    {visible : String → Bool} (hv : visible m.owner) :
    Hierarchy.resolve { program := r.program, visible } m.ref = some m :=
  Program.resolve_of_declared hv (h.declared? named hm)

theorem exists_call {locals : Nat → List (Nat × Var)} (h : Run src r st₀ st fin done)
    (named : WellNamed src fun fn => (r.method? fn).isSome)
    (body : Translation src r caller m (locals caller))
    (calls : src.Calls caller callee result args) :
    ∃ target call, r.method? callee = some target ∧ .invoke call ∈ m.body ∧ call.kind.isDirect ∧
      (∀ w : Naming, w.Knows (locals caller) r.method? →
        call = directCall src w (result.map w.var) callee args) ∧
      r.program.hierarchy.resolve call.method = some target := by
  have ⟨target, ht⟩ := body.statements.exists_method? calls
  have ⟨call, hc, eq⟩ := body.statements.exists_call calls
  have known := knows_naming (locals caller) r.method?
  have ⟨_, direct, method, _⟩ := directCall_spec (naming (locals caller) r.method?)
    (result.map (naming (locals caller) r.method?).var) args calls.left
  rw [← eq _ known] at direct method
  refine ⟨target, call, ht, hc, direct, eq, ?_⟩
  rw [method, known.ref callee target ht]
  exact h.resolve named ht rfl

theorem delivers {locals : Nat → List (Nat × Var)} (h : Run src r st₀ st fin done)
    (named : WellNamed src fun fn => (r.method? fn).isSome) (scope : WellScoped src)
    (bodies : ∀ fn m, r.method? fn = some m → src.hasBody fn → Translation src r fn m (locals fn))
    (hm : r.method? caller = some m) (hb : src.hasBody caller)
    (calls : src.Calls caller callee result args) (ht : r.method? callee = some target)
    (hasBody : target.hasBody) {s : Settings} {analysis : Analysis.Result}
    (program : s.program = some r.program) (visible : s.visible target.owner)
    (analyzed : analyze s = .ok analysis) (converged : analysis.converged)
    (reached : m ∈ analysis.reachable) :
    Delivers src r analysis.facts.toSet (locals caller) (locals callee) callee result args := by
  have body := bodies caller m hm hb
  have hb' : src.hasBody callee := by
    by_contra hn
    simp [Method.hasBody, h.blank ht hn] at hasBody
  refine delivers_of_passes scope (h.declares hm) body (h.declares ht) hb'
    (bodies callee target ht hb') calls fun call hc method direct => ?_
  have resolved := h.resolve named ht visible
  rw [← (knows_naming (locals caller) r.method?).ref callee target ht, ← method] at resolved
  exact passes_of_converged program analyzed converged reached ((h.declares hm).hasBody hc) hc direct
    resolved hasBody

end Run

-- Every method is found under its own reference, every direct call denotes the method of its
-- function, and a converged analysis passes arguments and results from one to the other.
theorem direct_calls_arrive {ssa : Ssa.Program} {markers : Markers}
    (lowered : lower ssa markers = .ok r)
    (named : WellNamed (source ssa markers) fun fn => (r.method? fn).isSome)
    (scope : WellScoped (source ssa markers)) : ∃ locals, Linked (source ssa markers) r locals := by
  have ⟨st₀, st, fin, done, run⟩ := run_of_lower lowered
  have translations : ∀ fn, ∃ locals, ∀ m, r.method? fn = some m →
      (source ssa markers).hasBody fn → Translation (source ssa markers) r fn m locals := by
    intro fn
    by_cases hf : (r.method? fn).isSome ∧ (source ssa markers).hasBody fn
    case pos =>
      have ⟨m, hm⟩ := Option.isSome_iff_exists.mp hf.left
      have ⟨locals, translation⟩ := run.translation hm hf.right
      exact ⟨locals, fun m' hm' _ => Option.some.inj (hm.symm.trans hm') ▸ translation⟩
    case neg => exact ⟨[], fun m hm hb => absurd ⟨Option.isSome_of_eq_some hm, hb⟩ hf⟩
  choose locals bodies using translations
  refine ⟨locals, ?found, bodies, ?own, ?calls, ?flows⟩
  case found => exact fun fn m hm => run.resolve named hm rfl
  case own =>
    intro fn m v x hm hb hv own hx
    exact (bodies fn m hm hb).recorded v x own hx fun fn' hb' hv' =>
      scope.own fn' fn v hb' hb own hv' hv
  case calls =>
    intro caller m callee result args hm hb calls
    exact run.exists_call named (bodies caller m hm hb) calls
  case flows =>
    intro caller m callee target result args hm hb calls ht hasBody s analysis program visible
      analyzed converged reached
    exact run.delivers named scope bodies hm hb calls ht hasBody program visible analyzed converged
      reached

namespace Sample

theorem lt_of_method? (h : (lowered.method? fn).isSome) : fn < 3 := by
  have ⟨m, hm⟩ := Option.isSome_iff_exists.mp h
  have ⟨id, hid, _⟩ := Option.bind_eq_some_iff.mp hm
  have mem := mem_of_lookup hid
  rw [methods_lowered] at mem
  grind

theorem mem_of_isBare {name : String} (h : (source ssa {}).IsBare name) :
    name ∈ ["alloc", "test"] := by
  obtain rfl | rfl | ⟨t, methods, ht, _⟩ := h
  case inl     => decide
  case inr.inl => decide
  case inr.inr =>
    have declared : ∀ t < 3, ssa.underlyingKind t ∈ [.struct [], .pointer 0] := by decide
    have ht : ssa.underlyingKind t = .interface methods := ht
    by_cases lt : t < 3
    case pos =>
      have := declared t lt
      simp [ht] at this
    case neg =>
      have : ssa.type t = ⟨"", .other, t⟩ := by
        simp [Ssa.Program.type, List.getD_eq_getElem?_getD, ssa, Nat.le_of_not_lt lt]
      simp [Ssa.Program.underlyingKind, this] at ht

theorem wellNamed : WellNamed (source ssa {}) fun fn => (lowered.method? fn).isSome := by
  have named : ∀ fn < 3, (ssa.function fn).name ≠ "" ∧ (ssa.function fn).text ≠ "" ∧
      ∀ name ∈ ["alloc", "test"], (ssa.function fn).text ≠ name := by decide
  have distinct : ∀ fn < 3, ∀ fn' < 3,
      ((ssa.function fn).text = (ssa.function fn').text → fn = fn') ∧
        (ssa.function fn).text ≠ (ssa.function fn').name := by decide
  constructor
  case names     => exact fun fn hf => (named fn (lt_of_method? hf)).1
  case texts     => exact fun fn hf => (named fn (lt_of_method? hf)).2.1
  case distinct =>
    exact fun fn fn' hf hf' => (distinct fn (lt_of_method? hf) fn' (lt_of_method? hf')).1
  case functions =>
    exact fun fn fn' hf hf' => (distinct fn (lt_of_method? hf) fn' (lt_of_method? hf')).2
  case bare =>
    exact fun fn name hf hb => (named fn (lt_of_method? hf)).2.2 name (mem_of_isBare hb)
  case bareNames =>
    have nonempty : ∀ name ∈ ["alloc", "test"], name ≠ "" := by decide
    exact fun name hb => nonempty name (mem_of_isBare hb)

-- The function that a local value belongs to.
def home (v : Nat) : Option Nat :=
  [some 0, some 0, some 1, none, some 2, some 2].getD v none

theorem home_of_mentions {v : Nat} (hb : (source ssa {}).hasBody fn)
    (own : ((source ssa {}).ssa.value v).kind.isOwn) (h : (source ssa {}).Mentions fn v) :
    home v = some fn := by
  have params : ∀ fn < 3, ∀ v ∈ (ssa.function fn).params, home v = some fn := by decide
  have instrs : ∀ fn < 3, ∀ i ∈ (ssa.function fn).blocks.flatten,
      ∀ v ∈ i.operands ++ i.result?.toList, (ssa.value v).kind.isOwn → home v = some fn := by decide
  have lt : fn < 3 := lt_of_hasBody hb
  obtain hv | ⟨i, hi, hv⟩ := h
  case inl => exact params fn lt v hv
  case inr => exact instrs fn lt i hi v (by simpa using hv) own

theorem wellScoped : WellScoped (source ssa {}) := by
  have params : ∀ fn < 3, (ssa.function fn).params.length =
      (ssa.function fn).recv.toList.length + (ssa.function fn).signature.length ∧
      (ssa.function fn).params.Nodup ∧
      ∀ v ∈ (ssa.function fn).params, (ssa.value v).kind = .param := by decide
  constructor
  case length => exact fun fn hb => (params fn (lt_of_hasBody hb)).1
  case nodup  => exact fun fn hb => (params fn (lt_of_hasBody hb)).2.1
  case kinds  => exact fun fn hb => (params fn (lt_of_hasBody hb)).2.2
  case own =>
    intro fn fn' v hb hb' own hv hv'
    exact Option.some.inj ((home_of_mentions hb own hv).symm.trans (home_of_mentions hb' own hv'))

theorem analyze_settings : ∃ analysis m target x, analyze settings = .ok analysis ∧
    analysis.converged ∧ lowered.method? 0 = some m ∧ m ∈ analysis.reachable ∧
    lowered.method? 2 = some target ∧ target.hasBody ∧ lowered.var? 1 = some x ∧
    1 ∈ analysis.facts.points.get x := by
  have checked : (analyze settings).toOption.any fun analysis => analysis.converged &&
      (lowered.method? 0).any (· ∈ analysis.reachable) && (lowered.method? 2).any Method.hasBody &&
      (lowered.var? 1).any (1 ∈ analysis.facts.points.get ·) := by decide +kernel
  simp only [Option.any_eq_true, Bool.and_eq_true, decide_eq_true_eq] at checked
  obtain ⟨analysis, ok, ⟨⟨converged, m, hm, reached⟩, target, ht, hasBody⟩, x, hx, points⟩ := checked
  exact ⟨analysis, m, target, x, eq_ok_of_toOption ok, converged, hm, reached, ht, hasBody, hx, points⟩

theorem call_of_wrapper : (source ssa {}).Calls 0 2 (some 1) [0] :=
  ⟨by decide, ⟨none, 6, [0], "t0.get()"⟩, by decide, rfl, by decide, rfl⟩

-- What `main` gets from the wrapper is the object that it has allocated.
theorem wrapper_arrives :
    ∃ locals, Linked (source ssa {}) lowered locals ∧
      (lowered.method? 2).map Method.ref = some ⟨"main.T", "(main.T).get"⟩ ∧
      ∃ analysis x, analyze settings = .ok analysis ∧ analysis.converged ∧
        Delivers (source ssa {}) lowered analysis.facts.toSet (locals 0) (locals 2) 2 (some 1) [0] ∧
        lowered.var? 1 = some x ∧ 1 ∈ pointees analysis.facts.toSet x := by
  have ⟨locals, linked⟩ := direct_calls_arrive lower_ssa wellNamed wellScoped
  have ⟨analysis, m, target, x, analyzed, converged, hm, reached, ht, hasBody, hx, points⟩ :=
    analyze_settings
  refine ⟨locals, linked, by decide +kernel, analysis, x, analyzed, converged, ?_, hx, points⟩
  exact linked.flows 0 m 2 target (some 1) [0] hm (by decide) call_of_wrapper ht hasBody settings
    analysis rfl rfl analyzed converged reached

end Sample
end Lowering
end PointsTo
