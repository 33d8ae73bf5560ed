import PointsTo.Proofs.Lowering.Memory

namespace PointsTo.Lowering

open Build

variable {src : Source} {r : Result} {fn a : Nat} {m : Method} {locals : List (Nat × Var)}
  {part : Part}

-- No function refers to the values of another one.
def Source.Scoped (src : Source) : Prop :=
  ∀ fn fn' v, src.hasBody fn → src.hasBody fn' → (src.ssa.value v).kind.isOwn →
    src.Mentions fn v → src.Mentions fn' v → fn = fn'

-- All values that a function refers to.
def Source.mentioned (src : Source) (fn : Nat) : List Nat :=
  (src.ssa.function fn).params ++ (src.instrs fn).flatMap fun i => i.operands ++ i.result?.toList

theorem Source.mem_mentioned {v : Nat} : v ∈ src.mentioned fn ↔ src.Mentions fn v := by
  simp [Source.mentioned, Source.Mentions, Lowering.Mentions]

theorem Source.Scoped.of_forall (h : ∀ fn < src.ssa.functions.length,
    ∀ fn' < src.ssa.functions.length, ∀ v ∈ src.mentioned fn, (src.ssa.value v).kind.isOwn →
      v ∈ src.mentioned fn' → fn = fn') : src.Scoped := by
  intro fn fn' v hb hb' own hv hv'
  exact h fn (lt_of_hasBody hb) fn' (lt_of_hasBody hb') v (mem_mentioned.mpr hv) own
    (mem_mentioned.mpr hv')

-- What the instructions about the address of a part become: the one that makes it, the loads and
-- the stores.
structure Handles (src : Source) (w : Naming) (fn a : Nat) (part : Part) (i : Ssa.Instr)
    (stmts : List Stmt) : Prop where
  address : i.result? = some a → stmts =
    if isFused src (src.instrs fn) a then [] else [.copy (w.var a) (w.var (partBase part))]
  load    : ∀ t, i = .load t a → stmts = [
    if isFused src (src.instrs fn) a then loadPart w t part
    else if src.ssa.isAggregate (src.ssa.typeOf t) then .copy (w.var t) (w.var a)
    else .loadField (w.var t) (w.var a) (pointee src a)]
  store   : ∀ v, i = .store a v → stmts = [
    if isFused src (src.instrs fn) a then storePart w v part
    else if src.ssa.isAggregate (src.ssa.typeOf v) then .copy (w.var a) (w.var v)
    else .storeField (w.var a) (pointee src a) (w.var v)]

-- Where the addresses of a function went. `locals` are the variables of its values.
structure Addresses (src : Source) (r : Result) (fn : Nat) (m : Method)
    (locals : List (Nat × Var)) : Prop where
  absent  : ∀ a part, src.Selects fn a part → isFused src (src.instrs fn) a →
    locals.lookup a = none ∧ r.var? a = none
  -- Any variable would do for it, because no statement is about it.
  unused  : ∀ a part, src.Selects fn a part → isFused src (src.instrs fn) a →
    ∀ x, Translates src ((a, x) :: locals) r.method? fn m.body
  present : ∀ a part, src.Selects fn a part → isFused src (src.instrs fn) a = false →
    ∃ x, locals.lookup a = some x ∧ r.var? a = some x
  handled : ∃ chunks, m.body = chunks.flatten ∧ List.Forall₂ (fun i chunk =>
    ∀ w : Naming, w.Knows locals r.method? → ∀ a part, src.Selects fn a part →
      Handles src w fn a part i (proper chunk)) (src.instrs fn) chunks

theorem Source.Selects.exists_instr (h : src.Selects fn a part) :
    ∃ i ∈ src.instrs fn, i.result? = some a ∧ ∀ (w : Naming) (fresh : Fresh),
      statements src (src.instrs fn) w fresh i =
        if isFused src (src.instrs fn) a then [] else [.copy (w.var a) (w.var (partBase part))] := by
  cases h
  case field hi | element hi => exact ⟨_, hi, rfl, fun w fresh => rfl⟩

-- An address belongs to the function that makes it.
theorem SingleAssignment.own_of_selects (form : SingleAssignment src) (hb : src.hasBody fn)
    (selects : src.Selects fn a part) :
    (src.ssa.value a).kind = .reg ∧ (src.ssa.value a).kind.isOwn ∧ src.Mentions fn a := by
  have ⟨i, hi, result, _⟩ := selects.exists_instr
  have reg := form.results fn hb i hi a result
  exact ⟨reg, reg ▸ rfl, .inr ⟨i, hi, .inr result⟩⟩

section Names

theorem isAccess_of_isFused {body : List Ssa.Instr} {i : Ssa.Instr} (fused : isFused src body a)
    (hi : i ∈ body) (ha : a ∈ i.operands) : isAccess a i := by
  simp only [isFused, Bool.and_eq_true, List.all_filter, List.all_eq_true] at fused
  have := fused.right i hi
  simpa [ha] using this

-- A fused address is not what another access is about.
theorem SingleAssignment.not_mem_accessValues (form : SingleAssignment src) (hb : src.hasBody fn)
    (selects : src.Selects fn a part) (fused : isFused src (src.instrs fn) a) (addr : Nat) :
    a ∉ accessValues src (src.instrs fn) addr := by
  intro ha
  unfold accessValues at ha
  split at ha
  case h_1 hp =>
    have ⟨i, hi, other, values⟩ := exists_of_fusedPart? hp
    have := isAccess_of_isFused fused hi (values ▸ ha)
    simp [other] at this
  case h_2 hp =>
    have fusedPart := form.fusedPart?_eq hb selects
    rw [if_pos fused, List.mem_singleton.mp ha, hp] at fusedPart
    contradiction

theorem SingleAssignment.not_mem_names (form : SingleAssignment src) (hb : src.hasBody fn)
    (selects : src.Selects fn a part) (fused : isFused src (src.instrs fn) a) {i : Ssa.Instr}
    (hi : i ∈ src.instrs fn) : a ∉ names src (src.instrs fn) i := by
  intro ha
  have access := form.not_mem_accessValues hb selects fused
  have operand (h : a ∈ i.operands) : isAccess a i := isAccess_of_isFused fused hi h
  -- No other instruction defines the address.
  have result (h : i.result? = some a) :
      (∃ x f, i = .fieldAddr a x f) ∨ ∃ x index, i = .indexAddr a x index := by
    cases selects
    case field hd   => exact .inl ⟨_, _, form.single fn hb i hi _ hd a h rfl⟩
    case element hd => exact .inr ⟨_, _, form.single fn hb i hi _ hd a h rfl⟩
  cases i
  case load t addr =>
    cases List.mem_cons.mp ha
    case inl e  => simpa using result (e ▸ rfl)
    case inr ha => exact access addr ha
  case store addr x =>
    cases List.mem_cons.mp ha
    case inl e  => simpa [isAccess, e] using operand (by simp [Ssa.Instr.operands, e])
    case inr ha => exact access addr ha
  case fieldAddr v x _ | indexAddr v x _ =>
    simp only [names] at ha
    split at ha
    case isTrue => contradiction
    case isFalse unfused =>
      cases List.mem_cons.mp ha
      case inl e  => exact unfused (e ▸ fused)
      case inr ha =>
        have := operand (List.mem_singleton.mp ha ▸ by simp [Ssa.Instr.operands])
        simp [isAccess] at this
  case debugRef => contradiction
  all_goals
    cases List.mem_append.mp ha
    case inl ha => simpa using result (Option.mem_toList.mp ha)
    case inr ha => simpa [isAccess] using operand ha

theorem SingleAssignment.not_names (form : SingleAssignment src) (hb : src.hasBody fn)
    (selects : src.Selects fn a part) (fused : isFused src (src.instrs fn) a) :
    ¬ src.Names fn a := by
  rintro (param | ⟨i, hi, ha⟩)
  case inl =>
    have ⟨reg, _⟩ := form.own_of_selects hb selects
    rw [form.params fn hb a param] at reg
    contradiction
  case inr => exact form.not_mem_names hb selects fused hi ha

end Names

-- Statements are about the variables that are known.
theorem Translates.cons {method? : Nat → Option Method} {stmts : List Stmt}
    (h : Translates src locals method? fn stmts) (none : locals.lookup a = none) (x : Var) :
    Translates src ((a, x) :: locals) method? fn stmts := by
  have ⟨chunks, hs, hT⟩ := h
  refine ⟨chunks, hs, hT.imp fun i chunk translated w hw => translated w ⟨fun v y hy => ?_, hw.ref⟩⟩
  exact hw.var v y (lookup_cons_of_none none hy)

theorem SingleAssignment.handles (form : SingleAssignment src) (hb : src.hasBody fn)
    (selects : src.Selects fn a part) {i : Ssa.Instr} (hi : i ∈ src.instrs fn) (w : Naming)
    (fresh : Fresh) : Handles src w fn a part i (statements src (src.instrs fn) w fresh i) := by
  have fusedPart := form.fusedPart?_eq hb selects
  constructor
  case address =>
    intro result
    have ⟨d, hd, result', made⟩ := selects.exists_instr
    rw [form.single fn hb i hi d hd a result result', made]
  case load =>
    rintro t rfl
    rw [statements, loadStatements, fusedPart]
    cases isFused src (src.instrs fn) a
    case true  => cases part <;> rfl
    case false => cases src.ssa.isAggregate (src.ssa.typeOf t) <;> rfl
  case store =>
    rintro v rfl
    rw [statements, storeStatements, fusedPart]
    cases isFused src (src.instrs fn) a
    case true  => cases part <;> rfl
    case false => cases src.ssa.isAggregate (src.ssa.typeOf v) <;> rfl

section Variables

variable {st₀ st fin : State} {done : List Nat}

theorem Finished.lookup_fused (h : Finished src r fn m locals) (form : SingleAssignment src)
    (selects : src.Selects fn a part) (fused : isFused src (src.instrs fn) a) :
    locals.lookup a = none := by
  have ⟨_, own, _⟩ := form.own_of_selects h.hasBody selects
  cases hx : locals.lookup a
  case none   => rfl
  case some x => exact absurd (h.named a x own hx) (form.not_names h.hasBody selects fused)

theorem Run.var?_fused (run : Run src r st₀ st fin done) (form : SingleAssignment src)
    (owned : src.Scoped) (hb : src.hasBody fn) (selects : src.Selects fn a part)
    (fused : isFused src (src.instrs fn) a) : r.var? a = none := by
  have ⟨_, own, mentions⟩ := form.own_of_selects hb selects
  cases hx : r.var? a
  case none => rfl
  case some x =>
    have ⟨fn', hb', named⟩ := run.names_of_var? hx
    obtain rfl := owned fn fn' a hb hb' own mentions named.mentions
    exact absurd named (form.not_names hb selects fused)

theorem Finished.exists_var (h : Finished src r fn m locals) (form : SingleAssignment src)
    (owned : src.Scoped) (selects : src.Selects fn a part)
    (unfused : isFused src (src.instrs fn) a = false) :
    ∃ x, locals.lookup a = some x ∧ r.var? a = some x := by
  have ⟨_, own, mentions⟩ := form.own_of_selects h.hasBody selects
  have hx : locals.lookup a = some ((naming locals r.method?).var a) :=
    h.lookup_of_mem (h.copy_mem selects unfused) (by simp [Stmt.vars])
  exact ⟨_, hx, h.body.recorded a _ own hx fun fn' hb' mentions' =>
    owned fn' fn a hb' h.hasBody own mentions' mentions⟩

end Variables

end PointsTo.Lowering
