import PointsTo.Proofs.Lowering.DirectCalls
import PointsTo.Proofs.Numbering

namespace PointsTo

theorem Markers.IsQuery.mem_vars {mk : Markers} {s : Stmt} {k : Int} {v : Var}
    (h : mk.IsQuery s k v) : v ∈ s.vars := by
  obtain ⟨arg, rest, ⟨call, rfl, _, _, _, args⟩, _⟩ := h
  simp [Stmt.vars, args]

-- A query stands in the body of some method.
theorem Program.exists_isQuery {p : Program} {markers : Markers} {q : Int × Var}
    (h : q ∈ (p.objects markers).queries) :
    ∃ m ∈ p.methods, ∃ s ∈ m.body, markers.orStandard.IsQuery s q.1 q.2 := by
  rw [Program.queries_objects] at h
  obtain ⟨mark, hm, hq⟩ := List.mem_filterMap.mp h
  obtain ⟨s, hs, rfl⟩ := List.mem_map.mp hm
  obtain ⟨m, hm, hs⟩ := List.mem_flatMap.mp hs
  refine ⟨m, List.mem_of_mem_filter hm, s, hs, Markers.mark_eq_query_iff.mp ?_⟩
  split at hq
  case h_1 hk => exact hk.trans (by cases hq; rfl)
  case h_2    => contradiction

namespace Lowering

variable {src : Source} {st st' fin : State} {fn : Nat} {m m' : Method} {r : Result}
  {done : List Nat}

section Methods

theorem Precedes.tidy (h : Precedes m m') (hm : m.Tidy) : m'.Tidy := by
  have own := h.consecutive hm.own
  obtain ⟨xs, _, _, rfl⟩ := h
  exact ⟨hm.receiver, hm.formals.trans (List.sublist_append_left ..), own⟩

def State.Tidy (st : State) : Prop :=
  ∀ m ∈ st.program.methods, m.Tidy

namespace State.Tidy

theorem insertMethod (h : st.Tidy) (numbered : st.program.Numbered) {owner : String}
    (hc : (st.program.class? owner).isSome) (hm : m.Tidy) : (st.insertMethod owner m).Tidy := by
  intro k hk
  cases (numbered.mem_methods_insertMethod hc).mp hk
  case inl e  => exact e ▸ hm
  case inr hk => exact h k hk

theorem grow (h : st.Tidy) (orderly : Orderly src st) (g : Grow src st st') : st'.Tidy := by
  cases g
  case newClass empty => exact fun m hm => h m (Program.methods_withClass empty ▸ hm)
  case bare hc _ _    => exact h.insertMethod orderly.numbered hc (tidy_nextMethod ..)
  case function hc _  => exact h.insertMethod orderly.numbered hc (tidy_functionMethod ..)

theorem grows (h : st.Tidy) (orderly : Orderly src st) (g : Grows src st st') : st'.Tidy := by
  induction g
  case refl           => exact h
  case tail g step hi => exact hi.grow (orderly.grows g) step

theorem finish (h : st.Tidy) (orderly : Orderly src st) (f : Finish src st st') : st'.Tidy := by
  cases f
  case intro fn rest m b stmts built =>
    have start : (Body.start src fn m { st with queue := rest }).shared.Tidy := h
    have declared : b.shared.Tidy := by
      have ⟨s, grown, he⟩ := built.acts.shared
      have : s.Tidy := start.grows (orderly.start fn m rest) grown
      rw [he]
      exact this
    intro k hk
    cases (mem_methods_fill (built.shared orderly) (built.kept orderly built.method)).mp hk
    case inr hk => exact declared k hk.left
    case inl e =>
      have ⟨_, hm⟩ := orderly.method?_eq_some_iff.mp built.method
      exact e ▸ built.precedes.tidy (h m hm)

end State.Tidy

end Methods

section Values

variable {mine : Nat → Prop} {b b' : Body} {locals : List (Nat × Var)}

def Apart (locals : List (Nat × Var)) : Prop :=
  ∀ v v' x, locals.lookup v = some x → locals.lookup v' = some x → v = v'

theorem Apart.cons {v : Nat} {x : Var} (h : Apart locals)
    (new : ∀ v' y, locals.lookup v' = some y → y ≠ x) : Apart ((v, x) :: locals) := by
  intro v₁ v₂ y h₁ h₂
  rw [List.lookup_cons] at h₁ h₂
  cases e₁ : v₁ == v <;> cases e₂ : v₂ == v <;> simp only [e₁, e₂] at h₁ h₂
  case false.false => exact h v₁ v₂ y h₁ h₂
  case false.true  => exact absurd (Option.some.inj h₂).symm (new v₁ y h₁)
  case true.false  => exact absurd (Option.some.inj h₁).symm (new v₂ y h₂)
  case true.true   => exact (eq_of_beq e₁).trans (eq_of_beq e₂).symm

theorem Act.apart (h : Act src mine b b') (own : Consecutive b.method.id 0 b.method.vars)
    (bound : ∀ v x, b.locals.lookup v = some x → x ∈ b.method.vars) (ha : Apart b.locals) :
    Apart b'.locals := by
  have held (v : Nat) (name type : String) (const : Option Literal) :
      Apart ((v, b.method.nextVar name type const) :: b.locals) :=
    ha.cons fun v' y hy e => own.nextVar_not_mem name type const (e ▸ bound v' y hy)
  cases h
  case declare | temp | emit => exact ha
  case hold | record | load  => exact held _ _ _ _

theorem Acts.apart (h : Acts src mine b b') (own : Consecutive b.method.id 0 b.method.vars)
    (hs : Sound src b) (ha : Apart b.locals) : Apart b'.locals := by
  induction h
  case refl => exact ha
  case tail acts step hi =>
    have acts : Acts src mine b _ := acts
    exact step.apart (acts.advances.method.consecutive own) (acts.sound hs).locals hi

-- What has been recorded since the start is held.
theorem Acts.lookup_vars_cases {v : Nat} {x : Var} (h : Acts src mine b b')
    (own : (src.ssa.value v).kind.isOwn) (hx : b'.shared.vars.lookup v = some x) :
    b.shared.vars.lookup v = some x ∨ b'.locals.lookup v = some x := by
  induction h
  case refl => exact .inl hx
  case tail step hi =>
    obtain ⟨hl, hv⟩ | ⟨_, y, hl, hv⟩ := step.own_cases own
    case inl => exact (hi (hv ▸ hx)).imp_right hl.trans
    case inr => exact .inr (hl.trans (hv.symm.trans hx))

-- Parameters are held by different variables.
theorem apart_paramPairs (nodup : m.formals.Nodup) (params : List Nat) :
    Apart (Build.paramPairs m params).reverse := by
  intro v v' x hv hv'
  have at_index {v : Nat} (hv : (Build.paramPairs m params).reverse.lookup v = some x) :
      ∃ i : Nat, params[i]? = some v ∧ m.formals[i]? = some x := by
    have mem := List.mem_reverse.mp (mem_of_lookup hv)
    rw [paramPairs_eq_zip] at mem
    have ⟨i, hi⟩ := List.mem_iff_getElem?.mp mem
    exact ⟨i, (List.getElem?_zip_eq_some (z := (v, x))).mp hi⟩
  have ⟨i, hi, hx⟩ := at_index hv
  have ⟨j, hj, hx'⟩ := at_index hv'
  have ⟨lt, _⟩ := List.getElem?_eq_some_iff.mp hx
  obtain rfl : i = j := (List.getElem?_inj lt nodup).mp (hx.trans hx'.symm)
  exact Option.some.inj (hi.symm.trans hj)

-- The variables of functions whose bodies are done. What is recorded for a value is the variable
-- that holds it there.
structure Housed (src : Source) (done : List Nat) (st : State)
    (locals : Nat → List (Nat × Var)) : Prop where
  bound    : ∀ fn ∈ done, ∀ m, st.method? fn = some m → ∀ v x, (locals fn).lookup v = some x →
    x ∈ m.vars
  apart    : ∀ fn ∈ done, Apart (locals fn)
  recorded : ∀ v x, (src.ssa.value v).kind.isOwn → st.vars.lookup v = some x →
    ∃ fn ∈ done, src.Names fn v ∧ (locals fn).lookup v = some x

theorem Housed.of_grows (grows : Grows src {} st) : Housed src [] st fun _ => [] := by
  have none : st.vars = [] := grows.keeps.vars
  exact ⟨by simp, by simp, by simp [none]⟩

variable {rest : List Nat} {stmts : List Stmt}

theorem Built.apart (h : Built src st fn rest m b stmts) (orderly : Orderly src st)
    (tidy : m.Tidy) : Apart b.locals :=
  h.acts.apart tidy.own (sound_start orderly (orderly.declares h.method) rest)
    (apart_paramPairs tidy.nodup_formals _)

theorem Built.lookup_vars_cases {v : Nat} {x : Var} (h : Built src st fn rest m b stmts)
    (own : (src.ssa.value v).kind.isOwn)
    (hx : (b.shared.fill m b.method).vars.lookup v = some x) :
    st.vars.lookup v = some x ∨ b.locals.lookup v = some x := by
  obtain hx | held := h.acts.lookup_vars_cases own hx
  case inr => exact .inr held
  case inl =>
    have hx : ((Build.paramPairs m (src.ssa.function fn).params).reverse ++ st.vars).lookup v =
        some x := hx
    rw [List.lookup_append, Option.or_eq_some_iff] at hx
    obtain given | ⟨_, hx⟩ := hx
    case inl => exact .inr (h.acts.advances.locals v x given)
    case inr => exact .inl hx

theorem Housed.built {locals : Nat → List (Nat × Var)} (h : Housed src done st locals)
    (progress : Progress src done st) (tidy : st.Tidy) (built : Built src st fn rest m b stmts) :
    Housed src (done ++ [fn]) (b.shared.fill m b.method)
      (Function.update locals fn b.locals) := by
  have orderly := progress.orderly
  have new := built.not_mem_done progress.scheduled
  have lowered := built.lowered orderly (progress.filled.blank fn m built.method new)
  have old {fn' : Nat} (hf : fn' ∈ done) : fn' ≠ fn ∧ Function.update locals fn b.locals fn' =
      locals fn' := by
    have ne : fn' ≠ fn := fun e => new (e ▸ hf)
    exact ⟨ne, Function.update_of_ne ne ..⟩
  refine ⟨fun fn' hf => ?bound, fun fn' hf => ?apart, fun v x own hx => ?recorded⟩
  case bound =>
    intro k hk v x hv
    cases List.mem_append.mp hf
    case inl hf =>
      have ⟨ne, same⟩ := old hf
      exact h.bound fn' hf k (built.method?_of_done progress ne hf hk) v x (same ▸ hv)
    case inr hf =>
      obtain rfl := List.mem_singleton.mp hf
      rw [built.method?_eq orderly, if_pos rfl] at hk
      rw [Function.update_self] at hv
      exact Option.some.inj hk ▸ lowered.bound v x hv
  case apart =>
    cases List.mem_append.mp hf
    case inl hf => exact (old hf).right ▸ h.apart fn' hf
    case inr hf =>
      have ⟨_, hm⟩ := orderly.method?_eq_some_iff.mp built.method
      rw [List.mem_singleton.mp hf, Function.update_self]
      exact built.apart orderly (tidy m hm)
  case recorded =>
    obtain hx | held := built.lookup_vars_cases own hx
    case inl =>
      have ⟨fn', hf, names, hv⟩ := h.recorded v x own hx
      exact ⟨fn', List.mem_append_left _ hf, names, (old hf).right ▸ hv⟩
    case inr =>
      refine ⟨fn, by simp, lowered.named v x own held, ?_⟩
      rw [Function.update_self]
      exact held

end Values

section Main

theorem exists_housed {st₀ : State} (declared : Declarations src {} st₀)
    (f : Relation.ReflTransGen (Finish src) st₀ st) :
    st.Tidy ∧ ∃ done locals, Progress src done st ∧ Housed src done st locals := by
  induction f
  case refl =>
    have none : State.Tidy {} := by simp [State.Tidy, Program.methods]
    exact ⟨none.grows (.empty src) declared.grows, [], _, progress_of_grows declared.grows,
      .of_grows declared.grows⟩
  case tail step hi =>
    obtain ⟨tidy, done, locals, progress, housed⟩ := hi
    refine ⟨tidy.finish progress.orderly step, ?_⟩
    cases step
    case intro built => exact ⟨_, _, built.progress progress, housed.built progress tidy built⟩

-- The statements of a method and the queries in it are about its own variables, which belong to no
-- other method. What is recorded for the value of a function is a variable of its method, and of no
-- other value.
structure Confined (src : Source) (r : Result) : Prop where
  operands : ∀ m ∈ r.program.methods, ∀ s ∈ m.body, ∀ x ∈ s.vars, x ∈ m.vars
  queries  : ∀ markers : Markers, ∀ q ∈ (r.program.objects markers).queries,
    ∃ m ∈ r.program.methods, q.2 ∈ m.vars ∧
      ∃ s ∈ m.body, markers.orStandard.IsQuery s q.1 q.2
  tidy     : ∀ m ∈ r.program.methods, m.Tidy
  apart    : ∀ m ∈ r.program.methods, ∀ m' ∈ r.program.methods, ∀ x ∈ m.vars, x ∈ m'.vars → m = m'
  values   : ∀ v x, (src.ssa.value v).kind.isOwn → r.var? v = some x → ∃ fn m,
    src.hasBody fn ∧ src.Mentions fn v ∧ r.method? fn = some m ∧ x ∈ m.vars
  distinct : ∀ v v' x, (src.ssa.value v).kind.isOwn → (src.ssa.value v').kind.isOwn →
    r.var? v = some x → r.var? v' = some x → v = v'

-- Where each value belongs to one function: what is recorded for the values of a function is in its
-- method, and for a parameter it is the variable that receives it.
structure Assigned (src : Source) (r : Result) : Prop where
  own    : ∀ fn v x, src.hasBody fn → src.Mentions fn v → (src.ssa.value v).kind.isOwn →
    r.var? v = some x → ∃ m, r.method? fn = some m ∧ x ∈ m.vars
  params : ∀ (fn k p : Nat) m, src.hasBody fn → r.method? fn = some m →
    (src.ssa.function fn).params[k]? = some p →
    ∃ x, m.formals[k]? = some x ∧ r.var? p = some x

namespace Run

variable {st₀ : State}

theorem mem_methods (h : Run src r st₀ st fin done) (hm : r.method? fn = some m) :
    m ∈ r.program.methods := by
  rw [h.method?_eq] at hm
  rw [h.result]
  exact h.completed.kept m (h.progress.orderly.method?_eq_some_iff.mp hm).right

theorem tidy (h : Run src r st₀ st fin done) (hm : m ∈ r.program.methods) : m.Tidy := by
  rw [h.result] at hm
  cases h.completed.new m hm
  case inl old => exact (exists_housed h.declared h.finishes).left m old
  case inr new => exact new.tidy

theorem eq_of_mem_vars (h : Run src r st₀ st fin done) (hm : m ∈ r.program.methods)
    (hm' : m' ∈ r.program.methods) {x : Var} (hx : x ∈ m.vars) (hx' : x ∈ m'.vars) : m = m' := by
  have same : m.id = m'.id :=
    Option.some.inj (((h.tidy hm).own.owner x hx).symm.trans ((h.tidy hm').own.owner x hx'))
  rw [h.result] at hm hm'
  exact h.completed.numbered.eq_of_id hm hm' same

-- What is recorded for a value is the variable that holds it in the method of a function.
theorem exists_locals (h : Run src r st₀ st fin done) : ∃ locals : Nat → List (Nat × Var),
    ∀ v x, (src.ssa.value v).kind.isOwn → r.var? v = some x → ∃ fn m,
      (src.hasBody fn ∧ src.Mentions fn v ∧ r.method? fn = some m ∧ x ∈ m.vars) ∧
      (locals fn).lookup v = some x ∧ Apart (locals fn) := by
  obtain ⟨_, done, locals, progress, housed⟩ := exists_housed h.declared h.finishes
  refine ⟨locals, fun v x own hx => ?_⟩
  have hx : st.vars.lookup v = some x := by
    rw [Result.var?, h.result, h.completed.vars] at hx
    exact hx
  obtain ⟨fn, hf, names, hv⟩ := housed.recorded v x own hx
  obtain ⟨hasBody, hid⟩ := (progress.scheduled.queued fn).mp (List.mem_append_left _ hf)
  obtain ⟨m, hm⟩ := progress.orderly.exists_method? hid
  have hm' : r.method? fn = some m := (h.method?_eq fn).trans hm
  exact ⟨fn, m, ⟨hasBody, names.mentions, hm', housed.bound fn hf m hm v x hv⟩, hv,
    housed.apart fn hf⟩

theorem confined (h : Run src r st₀ st fin done) : Confined src r := by
  have operands : ∀ m ∈ r.program.methods, ∀ s ∈ m.body, ∀ x ∈ s.vars, x ∈ m.vars :=
    fun m hm => (h.written hm).vars
  have ⟨locals, held⟩ := h.exists_locals
  refine ⟨operands, fun markers q hq => ?queries, fun m hm => h.tidy hm,
    fun m hm m' hm' x hx hx' => h.eq_of_mem_vars hm hm' hx hx', fun v x own hx => ?values,
    fun v v' x own own' hx hx' => ?distinct⟩
  case queries =>
    have ⟨m, hm, s, hs, asks⟩ := Program.exists_isQuery hq
    exact ⟨m, hm, operands m hm s hs _ asks.mem_vars, s, hs, asks⟩
  case values =>
    have ⟨fn, m, home, _⟩ := held v x own hx
    exact ⟨fn, m, home⟩
  case distinct =>
    -- A shared variable makes the methods equal, and so the functions.
    have ⟨fn, m, ⟨_, _, hm, mem⟩, hv, apart⟩ := held v x own hx
    have ⟨fn', m', ⟨_, _, hm', mem'⟩, hv', _⟩ := held v' x own' hx'
    obtain rfl : m = m' := h.eq_of_mem_vars (h.mem_methods hm) (h.mem_methods hm') mem mem'
    rw [h.method?_eq] at hm hm'
    obtain rfl : fn = fn' := h.progress.orderly.eq_of_method? hm hm'
    exact apart v v' x hv hv'

theorem assigned (h : Run src r st₀ st fin done) (scope : WellScoped src) : Assigned src r where
  own fn v x hb hv isOwn hx := by
    have ⟨fn', m, hb', hv', hm, mem⟩ := h.confined.values v x isOwn hx
    exact ⟨m, scope.own fn' fn v hb' hb isOwn hv' hv ▸ hm, mem⟩
  params fn k p m hb hm hp := by
    have ⟨_, translation⟩ := h.translation hm hb
    exact translation.var?_param (h.declares hm) scope hb hp

end Run

-- Whatever is lowered stays within its methods, and if values belong to one function each, then
-- they stay within the methods of their functions.
theorem variables_confined {ssa : Ssa.Program} {markers : Markers}
    (lowered : lower ssa markers = .ok r) :
    Confined (source ssa markers) r ∧
      (WellScoped (source ssa markers) → Assigned (source ssa markers) r) := by
  have ⟨_, _, _, _, run⟩ := run_of_lower lowered
  exact ⟨run.confined, run.assigned⟩

namespace Sample

-- The wrapper and `main` have each a value of their own in the second variable. In the wrapper, the
-- first one is the receiver.
theorem wrapper_confined :
    Confined (source ssa {}) lowered ∧ Assigned (source ssa {}) lowered ∧
      (lowered.var? 4).isSome ∧ lowered.var? 4 = (lowered.method? 2).bind Method.receiver ∧
      (lowered.var? 5).map Var.index = some 1 ∧ (lowered.var? 1).map Var.index = some 1 := by
  have ⟨confined, assigned⟩ := variables_confined lower_ssa
  exact ⟨confined, assigned wellScoped, by decide +kernel⟩

end Sample

end Main
end Lowering
end PointsTo
