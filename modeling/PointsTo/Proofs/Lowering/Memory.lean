import PointsTo.Proofs.IndexKeys
import PointsTo.Proofs.Lowering.Globals
import PointsTo.Proofs.Slots

namespace PointsTo

open Analysis

theorem Analysis.FixedPoint.satisfied_of_mem {p : Problem} {r : Analysis.Result} {m : Method}
    {s : Stmt} (h : FixedPoint p r) (reached : m ∈ r.reachable) (hb : m.hasBody) (hs : s ∈ m.body) :
    ∃ cs : Constants, cs.From m.body ∧ Satisfies p r.facts.toSet cs (p.targets r.facts) s := by
  have ⟨pre, post, body⟩ := List.append_of_mem hs
  exact ⟨.ofStmts pre, from_of_append body, h.satisfied m reached hb pre s post body⟩

-- An index with a literal of its own selects the element of that literal wherever it is used.
theorem Method.LiteralsFixed.key_eq {m : Method} {cs : Constants} {x : Var} (h : m.LiteralsFixed)
    (hc : cs.From m.body) (hx : x.const.isSome) : cs.key (some x) = .ofLiteral x.int64? := by
  have unassigned {s : Stmt} (hs : s ∈ m.body) : s.target? ≠ some x := by
    intro target
    simp [h s hs x target] at hx
  refine (Constants.key_of_unassigned (fun i hi => ?_) hc).trans (Constants.key_empty _)
  obtain rfl := Option.some.inj hi
  exact ⟨fun value hs => unassigned hs rfl, fun rhs hs => unassigned hs rfl⟩

namespace Lowering

open Build

variable {src : Source} {r : Result} {fn a v : Nat} {m : Method} {locals : List (Nat × Var)}

abbrev Source.instrs (src : Source) (fn : Nat) : List Ssa.Instr :=
  (src.ssa.function fn).blocks.flatten

def Source.leadsToAggregate (src : Source) (addr : Nat) : Bool :=
  src.ssa.isAggregate (src.ssa.deref (src.ssa.typeOf addr))

-- Loads and stores are about values of the type that the address points to, and literals are no
-- addresses.
def Source.isTypedAccess (src : Source) : Ssa.Instr → Bool
  | .load v addr => src.ssa.isAggregate (src.ssa.typeOf v) = src.leadsToAggregate addr
  | .store addr x => src.ssa.isAggregate (src.ssa.typeOf x) = src.leadsToAggregate addr &&
    (src.ssa.value addr).kind.literal?.isNone
  | _ => true

-- What single assignment form guarantees: the results of instructions are values of their own, each
-- with one definition.
structure SingleAssignment (src : Source) : Prop where
  results  : ∀ fn, src.hasBody fn → ∀ i ∈ src.instrs fn, ∀ v, i.result? = some v →
    (src.ssa.value v).kind = .reg
  single   : ∀ fn, src.hasBody fn → ∀ i ∈ src.instrs fn, ∀ j ∈ src.instrs fn, ∀ v,
    i.result? = some v → j.result? = some v → i = j
  params   : ∀ fn, src.hasBody fn → ∀ v ∈ (src.ssa.function fn).params,
    (src.ssa.value v).kind = .param
  accesses : ∀ fn, src.hasBody fn → ∀ i ∈ src.instrs fn, src.isTypedAccess i

theorem SingleAssignment.of_forall
    (instrs : ∀ fn < src.ssa.functions.length, ∀ i ∈ src.instrs fn, src.isTypedAccess i ∧
      ∀ v ∈ i.result?, (src.ssa.value v).kind = .reg ∧
        ∀ j ∈ src.instrs fn, j.result? = some v → i = j)
    (params : ∀ fn < src.ssa.functions.length, ∀ v ∈ (src.ssa.function fn).params,
      (src.ssa.value v).kind = .param) : SingleAssignment src where
  results fn hb i hi v hv := ((instrs fn (lt_of_hasBody hb) i hi).right v hv).left
  single fn hb i hi j hj v hv hv' :=
    ((instrs fn (lt_of_hasBody hb) i hi).right v hv).right j hj hv'
  params fn hb := params fn (lt_of_hasBody hb)
  accesses fn hb i hi := (instrs fn (lt_of_hasBody hb) i hi).left

theorem SingleAssignment.load_typed {t : Nat} (form : SingleAssignment src) (hb : src.hasBody fn)
    (hi : .load t a ∈ src.instrs fn) :
    src.ssa.isAggregate (src.ssa.typeOf t) = src.leadsToAggregate a := by
  simpa [Source.isTypedAccess] using form.accesses fn hb _ hi

theorem SingleAssignment.store_typed (form : SingleAssignment src) (hb : src.hasBody fn)
    (hi : .store a v ∈ src.instrs fn) :
    src.ssa.isAggregate (src.ssa.typeOf v) = src.leadsToAggregate a ∧
      (src.ssa.value a).kind.literal? = none := by
  simpa [Source.isTypedAccess] using form.accesses fn hb _ hi

section Targets

theorem target_of_mem_builtin {w : Naming} {fresh : Fresh} {lhs : Option Var} {name : String}
    {args : List Nat} {s : Stmt} {x : Var} (hs : s ∈ builtinStatements src w fresh lhs name args)
    (target : s.target? = some x) : x.const = none ∨ lhs = some x := by
  have ⟨ht, he⟩ := fresh.plain
  unfold builtinStatements at hs
  split at hs
  case h_1 y rest =>
    have ends : (lhs.getD fresh.target).const = none ∨ lhs = some (lhs.getD fresh.target) := by
      cases lhs
      case none   => exact .inl ht
      case some x => exact .inr rfl
    cases rest
    case nil  => grind [appendStatements, Stmt.target?]
    case cons => grind [appendStatements, elementStatements, Stmt.target?]
  case h_2 => grind [elementStatements, Stmt.target?]
  case h_3 => cases lhs <;> grind [Stmt.target?]
  case h_4 => simp at hs

theorem result_directCall (w : Naming) (x : Option Var) (callee : Nat) (args : List Nat) :
    (directCall src w x callee args).result = x := by
  unfold directCall
  split
  case isTrue  => rfl
  case isFalse => split <;> rfl

-- Statements assign to results of instructions and to what the instructions make up. A struct is
-- also stored to an address by an assignment.
theorem target_of_mem_statements {body : List Ssa.Instr} {w : Naming} {fresh : Fresh}
    {i : Ssa.Instr} {s : Stmt} {x : Var} (hs : s ∈ statements src body w fresh i)
    (target : s.target? = some x) :
    x.const = none ∨ ∃ v, x = w.var v ∧ (i.result? = some v ∨ ∃ y, i = .store v y) := by
  cases i
  case call v c =>
    have assigned : x.const = none ∨ v.map w.var = some x := by
      simp only [statements, callStatements] at hs
      split at hs
      case h_2 => exact target_of_mem_builtin hs target
      case h_1 =>
        obtain rfl := List.mem_singleton.mp hs
        exact .inr target
      case h_3 =>
        obtain rfl := List.mem_singleton.mp hs
        exact .inr ((result_directCall ..).symm.trans target)
      case h_4 =>
        obtain rfl := List.mem_singleton.mp hs
        contradiction
    refine assigned.imp_right fun hx => ?_
    obtain ⟨v', hv, e⟩ := Option.map_eq_some_iff.mp hx
    exact ⟨v', e.symm, .inl hv⟩
  case ret results => cases results <;> grind [statements, Stmt.target?]
  all_goals
    simp only [statements, allocStatements, loadStatements, storeStatements] at hs
    grind [Stmt.target?, Ssa.Instr.result?]

end Targets

namespace Finished

theorem const_eq (h : Finished src r fn m locals) (form : SingleAssignment src) {x : Var}
    (hx : locals.lookup v = some x) : x.const = (src.ssa.value v).kind.literal? := by
  cases hg : (paramPairs m (src.ssa.function fn).params).reverse.lookup v
  case none => exact h.holds.consts v x hg hx
  case some y =>
    obtain rfl : y = x := Option.some.inj ((h.body.params v y hg).symm.trans hx)
    have ⟨param, formal⟩ := mem_paramPairs (List.mem_reverse.mp (mem_of_lookup hg))
    rw [form.params fn h.hasBody v param]
    exact h.declares.plain y formal

theorem const_var (h : Finished src r fn m locals) (form : SingleAssignment src)
    (hv : (src.ssa.value v).kind.literal? = none) :
    ((naming locals r.method?).var v).const = none := by
  cases hx : locals.lookup v
  case none => simp [naming, hx, Var.absent]
  case some x =>
    have := h.const_eq form hx
    simp [naming, hx, this, hv]

-- Variables that stand for literals are not assigned anything.
theorem literalsFixed (h : Finished src r fn m locals) (form : SingleAssignment src) :
    m.LiteralsFixed := by
  intro s hs x target
  cases hl : s.isGlobalLoad
  case true =>
    have ⟨globals, _, loads⟩ := h.body.loads
    have ⟨g, _, pkg, y, hk, hy, e⟩ := exists_of_forall₂ loads.flip (List.mem_filter.mpr ⟨hs, hl⟩)
    subst e
    obtain rfl := Option.some.inj target
    rw [h.const_eq form hy, hk]
    rfl
  case false =>
    have ⟨i, hi, fresh, hs⟩ := h.body.statements.exists_instr hs hl
    obtain plain | ⟨v, rfl, result | ⟨y, rfl⟩⟩ := target_of_mem_statements hs target
    case inl => exact plain
    case inr.inl =>
      refine h.const_var form ?_
      rw [form.results fn h.hasBody i hi v result]
      rfl
    case inr.inr => exact h.const_var form (form.store_typed h.hasBody hi).right

end Finished

-- Everything that one value points to, the other one points to as well.
def FlowsTo (F : Set Fact) (locals locals' : List (Nat × Var)) (v t : Nat) : Prop :=
  ∃ x y, locals.lookup v = some x ∧ locals'.lookup t = some y ∧ pointees F x ⊆ pointees F y

section Parts

variable {part : Part}

def partBase : Part → Nat
  | .field x _ | .element x _ => x

-- The slot of an object that holds the part. What is said about elements is about constant indices.
def Source.partKey (src : Source) : Part → FieldKey
  | .field _ ref => .field ref.name
  | .element _ index => .ofLiteral ((src.ssa.value index).kind.literal?.bind Literal.int64?)

def Source.HasConstantIndex (src : Source) : Part → Prop
  | .field .. => True
  | .element _ index => (src.ssa.value index).kind.literal?.isSome

def loadPart (w : Naming) (t : Nat) : Part → Stmt
  | .field x ref => .loadField (w.var t) (w.var x) ref
  | .element x index => .loadArray (w.var t) (w.var x) (w.var index)

def storePart (w : Naming) (v : Nat) : Part → Stmt
  | .field x ref => .storeField (w.var x) ref (w.var v)
  | .element x index => .storeArray (w.var x) (w.var index) (w.var v)

-- The value is the address of the part.
inductive Source.Selects (src : Source) (fn a : Nat) : Part → Prop
  | field {x f : Nat} : .fieldAddr a x f ∈ src.instrs fn →
    Selects src fn a (.field x (structField src (src.ssa.deref (src.ssa.typeOf x)) f))
  | element {x index : Nat} : .indexAddr a x index ∈ src.instrs fn →
    Selects src fn a (.element x index)

-- What is accessed through the address of a part: the part itself if the address is fused, and else
-- what the address points to, as if it was any pointer.
def Source.accessed (src : Source) (fn a : Nat) (part : Part) : Part :=
  if isFused src (src.instrs fn) a then part else .field a (pointee src a)

theorem SingleAssignment.definition?_eq (form : SingleAssignment src) (hb : src.hasBody fn)
    {i : Ssa.Instr} (hi : i ∈ src.instrs fn) (result : i.result? = some a) :
    definition? (src.instrs fn) a = some i := by
  unfold definition?
  cases hd : (src.instrs fn).find? (·.result? = some a)
  case none =>
    have := List.find?_eq_none.mp hd i hi
    simp [result] at this
  case some j =>
    have result' : j.result? = some a := by simpa using List.find?_some hd
    exact congrArg some (form.single fn hb j (List.mem_of_find?_eq_some hd) i hi a result' result)

theorem SingleAssignment.fusedPart?_eq (form : SingleAssignment src) (hb : src.hasBody fn)
    (selects : src.Selects fn a part) : fusedPart? src (src.instrs fn) a =
      if isFused src (src.instrs fn) a then some part else none := by
  unfold fusedPart?
  cases selects
  case field hi   => rw [form.definition?_eq hb hi rfl]
  case element hi => rw [form.definition?_eq hb hi rfl]

namespace Finished

variable {p : Problem} {analysis : Analysis.Result}

theorem loadPart_mem {t : Nat} (h : Finished src r fn m locals) (form : SingleAssignment src)
    (selects : src.Selects fn a part) (scalar : src.leadsToAggregate a = false)
    (hi : .load t a ∈ src.instrs fn) :
    loadPart (naming locals r.method?) t (src.accessed fn a part) ∈ m.body := by
  have ⟨fresh, sub⟩ := h.exists_statements hi
  have typed := (form.load_typed h.hasBody hi).trans scalar
  refine sub ?_
  rw [statements, loadStatements, form.fusedPart?_eq h.hasBody selects, Source.accessed]
  cases isFused src (src.instrs fn) a
  case true  => cases part <;> exact List.mem_singleton_self _
  case false => simp [typed, loadPart]

theorem storePart_mem (h : Finished src r fn m locals) (form : SingleAssignment src)
    (selects : src.Selects fn a part) (scalar : src.leadsToAggregate a = false)
    (hi : .store a v ∈ src.instrs fn) :
    storePart (naming locals r.method?) v (src.accessed fn a part) ∈ m.body := by
  have ⟨fresh, sub⟩ := h.exists_statements hi
  have typed := (form.store_typed h.hasBody hi).left.trans scalar
  refine sub ?_
  rw [statements, storeStatements, form.fusedPart?_eq h.hasBody selects, Source.accessed]
  cases isFused src (src.instrs fn) a
  case true  => cases part <;> exact List.mem_singleton_self _
  case false => simp [typed, storePart]

-- An address that is not fused is a copy of its base.
theorem copy_mem (h : Finished src r fn m locals) (selects : src.Selects fn a part)
    (fused : isFused src (src.instrs fn) a = false) :
    .copy ((naming locals r.method?).var a) ((naming locals r.method?).var (partBase part)) ∈
      m.body := by
  cases selects
  case field hi | element hi =>
    obtain ⟨fresh, sub⟩ := h.exists_statements hi
    exact sub (by simp [statements, fused, partBase])

theorem lookup_base (h : Finished src r fn m locals) (form : SingleAssignment src)
    (selects : src.Selects fn a part) (scalar : src.leadsToAggregate a = false)
    (hi : .store a v ∈ src.instrs fn) :
    locals.lookup (partBase part) = some ((naming locals r.method?).var (partBase part)) := by
  cases fused : isFused src (src.instrs fn) a
  case true =>
    refine h.lookup_of_mem (h.storePart_mem form selects scalar hi) ?_
    rw [Source.accessed, if_pos fused]
    cases part <;> simp [storePart, partBase, Stmt.vars]
  case false => exact h.lookup_of_mem (h.copy_mem selects fused) (by simp [Stmt.vars])

theorem pointees_base_subset (h : Finished src r fn m locals) (selects : src.Selects fn a part)
    (fixed : FixedPoint p analysis) (reached : m ∈ analysis.reachable) :
    pointees analysis.facts.toSet ((naming locals r.method?).var (partBase part)) ⊆
      pointees analysis.facts.toSet
        ((naming locals r.method?).var (partBase (src.accessed fn a part))) := by
  unfold Source.accessed
  cases fused : isFused src (src.instrs fn) a
  case true => exact fun _ ho => ho
  case false =>
    have mem := h.copy_mem selects fused
    have ⟨_, _, satisfied⟩ := fixed.satisfied_of_mem reached (h.declares.hasBody mem) mem
    exact satisfied

theorem key_eq (h : Finished src r fn m locals) (form : SingleAssignment src) {index : Nat}
    (hv : locals.lookup index = some ((naming locals r.method?).var index))
    (literal : (src.ssa.value index).kind.literal?.isSome) {cs : Constants} (hc : cs.From m.body) :
    cs.key (some ((naming locals r.method?).var index)) =
      .ofLiteral ((src.ssa.value index).kind.literal?.bind Literal.int64?) := by
  have const := h.const_eq form hv
  rw [(h.literalsFixed form).key_eq hc (const ▸ literal), Var.int64?, const]

theorem contents_subset_of_load {t : Nat} (h : Finished src r fn m locals)
    (form : SingleAssignment src) (constant : src.HasConstantIndex part)
    (mem : loadPart (naming locals r.method?) t part ∈ m.body) (fixed : FixedPoint p analysis)
    (reached : m ∈ analysis.reachable) {o : Int}
    (ho : o ∈ pointees analysis.facts.toSet ((naming locals r.method?).var (partBase part))) :
    contents analysis.facts.toSet ⟨o, src.partKey part⟩ ⊆
      pointees analysis.facts.toSet ((naming locals r.method?).var t) := by
  have ⟨cs, hc, satisfied⟩ := fixed.satisfied_of_mem reached (h.declares.hasBody mem) mem
  cases part
  case field => exact satisfied o ho
  case element x index =>
    have key := h.key_eq form (h.lookup_of_mem mem (by simp [loadPart, Stmt.vars])) constant hc
    exact satisfied o ho _ (.inl key.symm)

theorem subset_contents_of_store (h : Finished src r fn m locals)
    (form : SingleAssignment src) (constant : src.HasConstantIndex part)
    (mem : storePart (naming locals r.method?) v part ∈ m.body) (fixed : FixedPoint p analysis)
    (reached : m ∈ analysis.reachable) {o : Int}
    (ho : o ∈ pointees analysis.facts.toSet ((naming locals r.method?).var (partBase part))) :
    pointees analysis.facts.toSet ((naming locals r.method?).var v) ⊆
      contents analysis.facts.toSet ⟨o, src.partKey part⟩ := by
  have ⟨cs, hc, satisfied⟩ := fixed.satisfied_of_mem reached (h.declares.hasBody mem) mem
  cases part
  case field => exact satisfied o ho
  case element x index =>
    have key := h.key_eq form (h.lookup_of_mem mem (by simp [storePart, Stmt.vars])) constant hc
    have satisfied := satisfied o ho
    rw [key] at satisfied
    exact satisfied

end Finished

-- Both values are addresses of one field, or of one element with a constant index.
inductive Source.SamePart (src : Source) (fn base a a' : Nat) : Prop
  | field {f : Nat} : .fieldAddr a base f ∈ src.instrs fn →
    .fieldAddr a' base f ∈ src.instrs fn → SamePart src fn base a a'
  | element {index index' : Nat} {c c' : Literal} : .indexAddr a base index ∈ src.instrs fn →
    .indexAddr a' base index' ∈ src.instrs fn → (src.ssa.value index).kind.literal? = some c →
    (src.ssa.value index').kind.literal? = some c' → c.int64? = c'.int64? →
    SamePart src fn base a a'

theorem Source.SamePart.exists_parts {base a' : Nat} (h : src.SamePart fn base a a') :
    ∃ part part', src.Selects fn a part ∧ src.Selects fn a' part' ∧ partBase part = base ∧
      partBase part' = base ∧ src.HasConstantIndex part ∧ src.HasConstantIndex part' ∧
      src.partKey part = src.partKey part' := by
  cases h
  case field hi hi' => exact ⟨_, _, .field hi, .field hi', rfl, rfl, trivial, trivial, rfl⟩
  case element hi hi' hc hc' same =>
    refine ⟨_, _, .element hi, .element hi', rfl, rfl, ?constant, ?constant', ?key⟩
    case constant => simp [Source.HasConstantIndex, hc]
    case constant' => simp [Source.HasConstantIndex, hc']
    case key => simp [Source.partKey, hc, hc', same]

-- What is stored through `a` is loaded through `a'` in every converged analysis that reaches the
-- function, provided that the base points to an object, which has the part.
def Meet (src : Source) (r : Result) (locals : List (Nat × Var)) (fn : Nat) (m : Method)
    (base a a' : Nat) : Prop :=
  ∀ v t, .store a v ∈ src.instrs fn → .load t a' ∈ src.instrs fn →
    ∀ (s : Settings) (analysis : Analysis.Result), s.program = some r.program →
      analyze s = .ok analysis → analysis.converged → m ∈ analysis.reachable →
      ∃ x, locals.lookup base = some x ∧
        ((pointees analysis.facts.toSet x).Nonempty →
          FlowsTo analysis.facts.toSet locals locals v t)

theorem Source.HasConstantIndex.accessed (h : src.HasConstantIndex part) (fn a : Nat) :
    src.HasConstantIndex (src.accessed fn a part) := by
  unfold Source.accessed
  split
  case isTrue  => exact h
  case isFalse => trivial

theorem Finished.meet {base a' : Nat} (h : Finished src r fn m locals) (form : SingleAssignment src)
    (same : src.SamePart fn base a a') (scalar : src.leadsToAggregate a = false)
    (scalar' : src.leadsToAggregate a' = false)
    (alike : isFused src (src.instrs fn) a = isFused src (src.instrs fn) a') :
    Meet src r locals fn m base a a' := by
  intro v t store load s analysis program analyzed converged reached
  have ⟨p, fixed, _⟩ := exists_fixedPoint program analyzed converged
  have ⟨part, part', selects, selects', hb, hb', constant, constant', key⟩ := same.exists_parts
  have slot : src.partKey (src.accessed fn a part) = src.partKey (src.accessed fn a' part') := by
    unfold Source.accessed
    rw [alike]
    split
    case isTrue  => exact key
    case isFalse => rfl
  have stored := h.storePart_mem form selects scalar store
  have loaded := h.loadPart_mem form selects' scalar' load
  refine ⟨_, hb ▸ h.lookup_base form selects scalar store, fun ⟨o, ho⟩ => ?_⟩
  refine ⟨_, _, h.lookup_of_mem stored ?stores, h.lookup_of_mem loaded ?loads, ?pointees⟩
  case stores => cases src.accessed fn a part <;> simp [storePart, Stmt.vars]
  case loads => cases src.accessed fn a' part' <;> simp [loadPart, Stmt.vars]
  case pointees =>
    have ho₁ := h.pointees_base_subset selects fixed reached (hb ▸ ho)
    have ho₂ := h.pointees_base_subset selects' fixed reached (hb' ▸ ho)
    calc pointees analysis.facts.toSet ((naming locals r.method?).var v)
        ⊆ contents analysis.facts.toSet ⟨o, src.partKey (src.accessed fn a part)⟩ :=
          h.subset_contents_of_store form (constant.accessed fn a) stored fixed reached ho₁
      _ = contents analysis.facts.toSet ⟨o, src.partKey (src.accessed fn a' part')⟩ := by rw [slot]
      _ ⊆ pointees analysis.facts.toSet ((naming locals r.method?).var t) :=
          h.contents_subset_of_load form (constant'.accessed fn a') loaded fixed reached ho₂

-- Two addresses of one part meet unless only one of them is fused. `locals` are the variables of
-- the values of each function.
theorem parts_meet {ssa : Ssa.Program} {markers : Markers} (lowered : lower ssa markers = .ok r)
    (form : SingleAssignment (source ssa markers)) : ∃ locals : Nat → List (Nat × Var),
      (∀ fn m, r.method? fn = some m → (source ssa markers).hasBody fn →
        Translation (source ssa markers) r fn m (locals fn)) ∧
      ∀ fn m base a a', r.method? fn = some m → (source ssa markers).hasBody fn →
        (source ssa markers).SamePart fn base a a' →
        (source ssa markers).leadsToAggregate a = false →
        (source ssa markers).leadsToAggregate a' = false →
        isFused (source ssa markers) ((source ssa markers).instrs fn) a =
          isFused (source ssa markers) ((source ssa markers).instrs fn) a' →
        Meet (source ssa markers) r (locals fn) fn m base a a' := by
  have ⟨_, _, _, _, run⟩ := run_of_lower lowered
  have ⟨locals, finished⟩ := run.exists_finished
  refine ⟨locals, fun fn m hm hb => (finished fn m hm hb).body, ?_⟩
  intro fn m base a a' hm hb same scalar scalar' alike
  exact (finished fn m hm hb).meet form same scalar scalar' alike

-- `main` stores to a field, and loads it through an address that it has passed on before.
namespace Sample.Passed

def main : Ssa.Function where
  name        := "main"
  text        := "main.main"
  pkg         := some 0
  isSynthetic := false
  isNested    := false
  hasBlocks   := true
  recv        := none
  signature   := []
  blocks      := [[.alloc 0, .alloc 1, .fieldAddr 2 0 0, .call (some 3) ⟨none, 8, [2], "keep(t2)"⟩,
    .fieldAddr 4 0 0, .store 4 1, .load 5 2, .fieldAddr 6 0 0, .load 7 6, .ret []]]

def keep : Ssa.Function where
  name        := "keep"
  text        := "main.keep"
  pkg         := some 0
  isSynthetic := false
  isNested    := false
  hasBlocks   := true
  recv        := none
  signature   := [("p", "**int")]
  params      := [9]
  blocks      := [[.ret []]]

def ssa : Ssa.Program where
  roots     := [0]
  packages  := [⟨"main", "main", [.function "main" 0, .function "keep" 1]⟩]
  types     := [⟨"int", .basic, 0⟩, ⟨"*int", .pointer 0, 1⟩, ⟨"**int", .pointer 1, 2⟩,
    ⟨"main.T", .named 0 0 [], 4⟩, ⟨"struct{f *int}", .struct ["f"], 4⟩, ⟨"*main.T", .pointer 3, 5⟩]
  functions := [main, keep]
  values    := [⟨"t0", 5, .reg⟩, ⟨"t1", 1, .reg⟩, ⟨"t2", 2, .reg⟩, ⟨"t3", 0, .reg⟩, ⟨"t4", 2, .reg⟩,
    ⟨"t5", 1, .reg⟩, ⟨"t6", 2, .reg⟩, ⟨"t7", 1, .reg⟩, ⟨"keep", 0, .function 1⟩, ⟨"p", 2, .param⟩]

def lowered : Result :=
  match lower ssa {} with
  | .ok r => r
  | .error _ => ⟨{}, [], [], []⟩

def settings : Settings where
  program := some lowered.program
  objects := some (lowered.program.objects {})
  entries := lowered.starts

theorem lower_ssa : lower ssa {} = .ok lowered := by
  have ⟨r, _, _, _, _, h, _⟩ := lower_run ssa {} (by decide)
  unfold lowered
  rw [h]

theorem singleAssignment : SingleAssignment (source ssa {}) :=
  .of_forall (by decide) (by decide)

theorem analyze_settings : ∃ analysis m, analyze settings = .ok analysis ∧ analysis.converged ∧
    lowered.method? 0 = some m ∧ m ∈ analysis.reachable ∧
    (∀ x, lowered.var? 0 = some x → -1 ∈ analysis.facts.points.get x) ∧
    (∀ x, lowered.var? 1 = some x → -2 ∈ analysis.facts.points.get x) ∧
    ∀ x, lowered.var? 5 = some x → -2 ∉ analysis.facts.points.get x := by
  have checked : (analyze settings).toOption.any fun analysis => analysis.converged &&
      (lowered.method? 0).any (· ∈ analysis.reachable) &&
      (lowered.var? 0).all (-1 ∈ analysis.facts.points.get ·) &&
      (lowered.var? 1).all (-2 ∈ analysis.facts.points.get ·) &&
      (lowered.var? 5).all (-2 ∉ analysis.facts.points.get ·) := by decide +kernel
  simp only [Option.any_eq_true, Option.all_eq_true, Bool.and_eq_true, decide_eq_true_eq] at checked
  obtain ⟨analysis, ok, ⟨⟨⟨converged, m, hm, reached⟩, base⟩, stored⟩, loaded⟩ := checked
  exact ⟨analysis, m, eq_ok_of_toOption ok, converged, hm, reached, base, stored, loaded⟩

theorem var?_of_lookup {locals : List (Nat × Var)} {m : Method} {v : Nat} {x : Var}
    (body : Translation (source ssa {}) lowered 0 m locals) (hv : v ∈ [0, 1, 5])
    (hx : locals.lookup v = some x) : lowered.var? v = some x := by
  have own : ∀ v ∈ [0, 1, 5], (ssa.value v).kind.isOwn := by decide
  have only : ∀ fn < 2, ∀ v ∈ [0, 1, 5], (v ∈ (ssa.function fn).params ∨
      ∃ i ∈ (ssa.function fn).blocks.flatten, v ∈ i.operands ∨ i.result? = some v) → fn = 0 := by
    decide
  exact body.recorded v x (own v hv) hx fun fn hb mentions => only fn (lt_of_hasBody hb) v hv mentions

-- What is stored to the field is there for a load through another address that is used for nothing
-- else.
theorem field_arrives : ∃ locals analysis m, analyze settings = .ok analysis ∧
    analysis.converged ∧ lowered.method? 0 = some m ∧ m ∈ analysis.reachable ∧
    Translation (source ssa {}) lowered 0 m locals ∧
    FlowsTo analysis.facts.toSet locals locals 1 7 := by
  have ⟨locals, bodies, meet⟩ := parts_meet lower_ssa singleAssignment
  have ⟨analysis, m, analyzed, converged, hm, reached, base, _⟩ := analyze_settings
  have body := bodies 0 m hm (by decide)
  have ⟨x, hx, arrives⟩ := meet 0 m 0 4 6 hm (by decide) (.field (f := 0) (by decide) (by decide))
    (by decide) (by decide) (by decide) 1 7 (by decide) (by decide) settings analysis rfl analyzed
    converged reached
  exact ⟨locals 0, analysis, m, analyzed, converged, hm, reached, body,
    arrives ⟨-1, base x (var?_of_lookup body (by decide) hx)⟩⟩

end Sample.Passed

-- An address that has been passed on leads to another slot than one that has not.
theorem not_parts_meet : ¬ ∀ (ssa : Ssa.Program) (markers : Markers) (r : Result),
    lower ssa markers = .ok r → SingleAssignment (source ssa markers) →
    ∃ locals : Nat → List (Nat × Var),
      (∀ fn m, r.method? fn = some m → (source ssa markers).hasBody fn →
        Translation (source ssa markers) r fn m (locals fn)) ∧
      ∀ fn m base a a', r.method? fn = some m → (source ssa markers).hasBody fn →
        (source ssa markers).SamePart fn base a a' →
        (source ssa markers).leadsToAggregate a = false →
        (source ssa markers).leadsToAggregate a' = false →
        Meet (source ssa markers) r (locals fn) fn m base a a' := by
  intro all
  have ⟨locals, bodies, meet⟩ := all Sample.Passed.ssa {} Sample.Passed.lowered
    Sample.Passed.lower_ssa Sample.Passed.singleAssignment
  have ⟨analysis, m, analyzed, converged, hm, reached, base, stored, loaded⟩ :=
    Sample.Passed.analyze_settings
  have body := bodies 0 m hm (by decide)
  have var? {v : Nat} {x : Var} (hv : v ∈ [0, 1, 5]) (hx : (locals 0).lookup v = some x) :=
    Sample.Passed.var?_of_lookup body hv hx
  have ⟨x, hx, arrives⟩ := meet 0 m 0 4 2 hm (by decide) (.field (f := 0) (by decide) (by decide))
    (by decide) (by decide) 1 5 (by decide) (by decide) Sample.Passed.settings analysis rfl analyzed
    converged reached
  have ⟨y, z, hy, hz, sub⟩ := arrives ⟨-1, base x (var? (by decide) hx)⟩
  exact loaded z (var? (by decide) hz) (sub (stored y (var? (by decide) hy)))

end Parts

section Globals

variable {g pkg : Nat}

-- What a function assigns to a global is read by a function in every converged analysis that
-- reaches both of them and starts with the whole program.
def Seen (src : Source) (r : Result) (locals locals' : List (Nat × Var)) (fn fn' : Nat)
    (m m' : Method) (g : Nat) : Prop :=
  ∀ v t, .store g v ∈ src.instrs fn → .load t g ∈ src.instrs fn' →
    ∀ (s : Settings) (markers : Markers) (analysis : Analysis.Result),
      s.program = some r.program → s.objects = some (r.program.objects markers) →
      (s.entries = r.starts ∨ s.entries = []) → analyze s = .ok analysis → analysis.converged →
      m ∈ analysis.reachable → m' ∈ analysis.reachable →
      FlowsTo analysis.facts.toSet locals locals' v t

-- A global is no result of an instruction, so it is not the address of a part.
theorem SingleAssignment.fusedPart?_global (form : SingleAssignment src) (hb : src.hasBody fn)
    (hk : (src.ssa.value g).kind = .global pkg) : fusedPart? src (src.instrs fn) g = none := by
  have undefined : definition? (src.instrs fn) g = none := by
    refine List.find?_eq_none.mpr fun i hi result => ?_
    have := form.results fn hb i hi g (by simpa using result)
    simp [hk] at this
  simp [fusedPart?, undefined]

namespace Finished

theorem load_global_mem {t : Nat} (h : Finished src r fn m locals) (form : SingleAssignment src)
    (hk : (src.ssa.value g).kind = .global pkg) (hi : .load t g ∈ src.instrs fn) :
    (if src.leadsToAggregate g then
        .copy ((naming locals r.method?).var t) ((naming locals r.method?).var g)
      else .loadField ((naming locals r.method?).var t) ((naming locals r.method?).var g)
        (pointee src g)) ∈ m.body := by
  have ⟨fresh, sub⟩ := h.exists_statements hi
  have typed := form.load_typed h.hasBody hi
  refine sub ?_
  rw [statements, loadStatements, form.fusedPart?_global h.hasBody hk]
  cases hg : src.leadsToAggregate g <;> simp [typed, hg]

theorem store_global_mem (h : Finished src r fn m locals) (form : SingleAssignment src)
    (hk : (src.ssa.value g).kind = .global pkg) (hi : .store g v ∈ src.instrs fn) :
    (if src.leadsToAggregate g then
        .copy ((naming locals r.method?).var g) ((naming locals r.method?).var v)
      else .storeField ((naming locals r.method?).var g) (pointee src g)
        ((naming locals r.method?).var v)) ∈ m.body := by
  have ⟨fresh, sub⟩ := h.exists_statements hi
  have typed := (form.store_typed h.hasBody hi).left
  refine sub ?_
  rw [statements, storeStatements, form.fusedPart?_global h.hasBody hk]
  cases hg : src.leadsToAggregate g <;> simp [typed, hg]

theorem cell_loaded (h : Finished src r fn m locals) (placed : WellPlaced src)
    (hk : (src.ssa.value g).kind = .global pkg)
    {x : Var} (hx : locals.lookup g = some x) : .loadField x none (globalField src g) ∈ m.body := by
  have ⟨before, after, body, _⟩ :=
    h.holds.loads g pkg x (lookup_params_eq_none placed h.hasBody hk) hk hx
  simp [body]

end Finished

-- All functions that load a global share an object.
theorem Run.exists_shared {st₀ st fin : State} {done : List Nat} {s : Settings} {markers : Markers}
    {analysis : Analysis.Result} {x : Var} (h : Run src r st₀ st fin done) (placed : WellPlaced src)
    (hk : (src.ssa.value g).kind = .global pkg) (hm : r.method? fn = some m)
    (loaded : .loadField x none (globalField src g) ∈ m.body) (program : s.program = some r.program)
    (objects : s.objects = some (r.program.objects markers))
    (start : s.entries = r.starts ∨ s.entries = []) (analyzed : analyze s = .ok analysis)
    (converged : analysis.converged) :
    ∃ o, ∀ fn' m' y, r.method? fn' = some m' → m' ∈ analysis.reachable →
      .loadField y none (globalField src g) ∈ m'.body → o ∈ pointees analysis.facts.toSet y := by
  have used := h.mem_globals_of_loads placed hk hm ⟨x, loaded⟩
  have ⟨k, initializes, _, site, z, cell⟩ := h.exists_cell placed used hk
  have ⟨o, number⟩ := h.exists_id initializes.mem initializes.initializer cell markers
  refine ⟨o, fun fn' m' y hm' reached loaded' => ?_⟩
  exact h.cell_mem_pointees initializes.mem initializes.initializer cell program objects start
    analyzed converged reached ((h.declares hm').hasBody loaded') loaded' number

theorem Run.seen {st₀ st fin : State} {done : List Nat} {locals : Nat → List (Nat × Var)} {fn' : Nat}
    {m' : Method} (run : Run src r st₀ st fin done) (placed : WellPlaced src)
    (form : SingleAssignment src) (hm : r.method? fn = some m) (hm' : r.method? fn' = some m')
    (h : Finished src r fn m (locals fn)) (h' : Finished src r fn' m' (locals fn'))
    (hk : (src.ssa.value g).kind = .global pkg) (near : src.leadsToAggregate g → fn = fn') :
    Seen src r (locals fn) (locals fn') fn fn' m m' g := by
  intro v t store load s markers analysis program objects start analyzed converged reached reached'
  obtain ⟨p, fixed, _⟩ := exists_fixedPoint program analyzed converged
  have stored := h.store_global_mem form hk store
  have loaded := h'.load_global_mem form hk load
  obtain ⟨_, _, satisfied⟩ := fixed.satisfied_of_mem reached (h.declares.hasBody stored) stored
  obtain ⟨_, _, satisfied'⟩ := fixed.satisfied_of_mem reached' (h'.declares.hasBody loaded) loaded
  cases aggregate : src.leadsToAggregate g
  case true =>
    obtain rfl := near aggregate
    obtain rfl : m = m' := Option.some.inj (hm.symm.trans hm')
    rw [if_pos aggregate] at stored loaded satisfied satisfied'
    refine ⟨_, _, h.lookup_of_mem stored (by simp [Stmt.vars]),
      h.lookup_of_mem loaded (by simp [Stmt.vars]), ?_⟩
    exact fun o ho => satisfied' (satisfied ho)
  case false =>
    rw [if_neg (by simp [aggregate])] at stored loaded satisfied satisfied'
    have hx := h.lookup_of_mem (v := g) stored (by simp [Stmt.vars])
    have hx' := h'.lookup_of_mem (v := g) loaded (by simp [Stmt.vars])
    refine ⟨_, _, h.lookup_of_mem stored (by simp [Stmt.vars]),
      h'.lookup_of_mem loaded (by simp [Stmt.vars]), ?_⟩
    have cell := h.cell_loaded placed hk hx
    have cell' := h'.cell_loaded placed hk hx'
    obtain ⟨o, shared⟩ :=
      run.exists_shared placed hk hm cell program objects start analyzed converged
    calc pointees analysis.facts.toSet ((naming (locals fn) r.method?).var v)
        ⊆ contents analysis.facts.toSet ⟨o, .field (pointee src g).name⟩ :=
          satisfied o (shared fn m _ hm reached cell)
      _ ⊆ pointees analysis.facts.toSet ((naming (locals fn') r.method?).var t) :=
          satisfied' o (shared fn' m' _ hm' reached' cell')

-- What is assigned to a global is seen everywhere, but a struct or an array only in the function
-- that assigns it. `locals` are the variables of the values of each function.
theorem globals_meet {ssa : Ssa.Program} {markers : Markers} (lowered : lower ssa markers = .ok r)
    (placed : WellPlaced (source ssa markers)) (form : SingleAssignment (source ssa markers)) :
    ∃ locals : Nat → List (Nat × Var),
      (∀ fn m, r.method? fn = some m → (source ssa markers).hasBody fn →
        Translation (source ssa markers) r fn m (locals fn)) ∧
      ∀ fn fn' m m' g pkg, r.method? fn = some m → (source ssa markers).hasBody fn →
        r.method? fn' = some m' → (source ssa markers).hasBody fn' →
        ((source ssa markers).ssa.value g).kind = .global pkg →
        ((source ssa markers).leadsToAggregate g → fn = fn') →
        Seen (source ssa markers) r (locals fn) (locals fn') fn fn' m m' g := by
  have ⟨_, _, _, _, run⟩ := run_of_lower lowered
  have ⟨locals, finished⟩ := run.exists_finished
  refine ⟨locals, fun fn m hm hb => (finished fn m hm hb).body, ?_⟩
  intro fn fn' m m' g pkg hm hb hm' hb' hk near
  exact run.seen placed form hm hm' (finished fn m hm hb) (finished fn' m' hm' hb') hk near

-- What `set` is given, `get` reads.
theorem Sample.Shared.pointer_seen : ∃ locals locals' analysis m m',
    analyze settings = .ok analysis ∧ analysis.converged ∧ lowered.method? 1 = some m ∧
    m ∈ analysis.reachable ∧ lowered.method? 2 = some m' ∧ m' ∈ analysis.reachable ∧
    Translation (source ssa {}) lowered 1 m locals ∧
    Translation (source ssa {}) lowered 2 m' locals' ∧
    FlowsTo analysis.facts.toSet locals locals' 2 3 := by
  have ⟨locals, bodies, seen⟩ :=
    globals_meet lower_ssa wellPlaced (.of_forall (by decide) (by decide))
  have ⟨analysis, m, m', analyzed, converged, hm, reached, hm', reached'⟩ := analyze_settings
  refine ⟨locals 1, locals 2, analysis, m, m', analyzed, converged, hm, reached, hm', reached',
    bodies 1 m hm (by decide), bodies 2 m' hm' (by decide), ?_⟩
  exact seen 1 2 m m' 1 0 hm (by decide) hm' (by decide) (by decide) (by decide) 2 3 (by decide)
    (by decide) settings {} analysis rfl rfl (.inl rfl) analyzed converged reached reached'

-- `set` assigns a struct to a global, and `get` reads it.
namespace Sample.Struct

def main : Ssa.Function where
  name        := "main"
  text        := "main.main"
  pkg         := some 0
  isSynthetic := false
  isNested    := false
  hasBlocks   := true
  recv        := none
  signature   := []
  blocks      := [[.alloc 0, .call (some 7) ⟨none, 5, [0], "set(t0)"⟩,
    .call (some 8) ⟨none, 6, [], "get()"⟩, .ret []]]

def set : Ssa.Function where
  name        := "set"
  text        := "main.set"
  pkg         := some 0
  isSynthetic := false
  isNested    := false
  hasBlocks   := true
  recv        := none
  signature   := [("p", "*main.T")]
  params      := [2]
  blocks      := [[.load 3 2, .store 1 3, .ret []]]

def get : Ssa.Function where
  name        := "get"
  text        := "main.get"
  pkg         := some 0
  isSynthetic := false
  isNested    := false
  hasBlocks   := true
  recv        := none
  signature   := []
  blocks      := [[.load 4 1, .ret [4]]]

def ssa : Ssa.Program where
  roots     := [0]
  packages  := [⟨"main", "main", [.function "main" 0, .function "set" 1, .function "get" 2]⟩]
  types     := [⟨"main.T", .named 0 0 [], 1⟩, ⟨"struct{f *int}", .struct ["f"], 1⟩,
    ⟨"*main.T", .pointer 0, 2⟩, ⟨"()", .tuple, 3⟩]
  functions := [main, set, get]
  values    := [⟨"t0", 2, .reg⟩, ⟨"g", 2, .global 0⟩, ⟨"p", 2, .param⟩, ⟨"t0", 0, .reg⟩,
    ⟨"t0", 0, .reg⟩, ⟨"set", 3, .function 1⟩, ⟨"get", 3, .function 2⟩, ⟨"t1", 3, .reg⟩,
    ⟨"t2", 0, .reg⟩]

def lowered : Result :=
  match lower ssa {} with
  | .ok r => r
  | .error _ => ⟨{}, [], [], []⟩

def settings : Settings where
  program := some lowered.program
  objects := some (lowered.program.objects {})
  entries := lowered.starts

theorem lower_ssa : lower ssa {} = .ok lowered := by
  have ⟨r, _, _, _, _, h, _⟩ := lower_run ssa {} (by decide)
  unfold lowered
  rw [h]

theorem analyze_settings : ∃ analysis m m', analyze settings = .ok analysis ∧
    analysis.converged ∧ lowered.method? 1 = some m ∧ m ∈ analysis.reachable ∧
    lowered.method? 2 = some m' ∧ m' ∈ analysis.reachable ∧
    (∀ x, lowered.var? 3 = some x → -1 ∈ analysis.facts.points.get x) ∧
    ∀ x, lowered.var? 4 = some x → -1 ∉ analysis.facts.points.get x := by
  have checked : (analyze settings).toOption.any fun analysis => analysis.converged &&
      (lowered.method? 1).any (· ∈ analysis.reachable) &&
      (lowered.method? 2).any (· ∈ analysis.reachable) &&
      (lowered.var? 3).all (-1 ∈ analysis.facts.points.get ·) &&
      (lowered.var? 4).all (-1 ∉ analysis.facts.points.get ·) := by decide +kernel
  simp only [Option.any_eq_true, Option.all_eq_true, Bool.and_eq_true, decide_eq_true_eq] at checked
  obtain ⟨analysis, ok, ⟨⟨⟨converged, m, hm, reached⟩, m', hm', reached'⟩, stored⟩, loaded⟩ := checked
  exact ⟨analysis, m, m', eq_ok_of_toOption ok, converged, hm, reached, hm', reached', stored,
    loaded⟩

theorem var?_of_lookup {fn v : Nat} {locals : List (Nat × Var)} {m : Method} {x : Var}
    (body : Translation (source ssa {}) lowered fn m locals) (hv : (fn, v) ∈ [(1, 3), (2, 4)])
    (hx : locals.lookup v = some x) : lowered.var? v = some x := by
  have own : ∀ e ∈ [(1, 3), (2, 4)], (ssa.value e.2).kind.isOwn := by decide
  have only : ∀ fn < 3, ∀ e ∈ [(1, 3), (2, 4)], (e.2 ∈ (ssa.function fn).params ∨
      ∃ i ∈ (ssa.function fn).blocks.flatten, e.2 ∈ i.operands ∨ i.result? = some e.2) →
        fn = e.1 := by decide
  exact body.recorded v x (own _ hv) hx fun fn' hb mentions =>
    only fn' (lt_of_hasBody hb) _ hv mentions

end Sample.Struct

-- The struct is copied to the variable that holds the cell in `set`, and not to the cell.
theorem not_globals_meet : ¬ ∀ (ssa : Ssa.Program) (markers : Markers) (r : Result),
    lower ssa markers = .ok r → WellPlaced (source ssa markers) →
    SingleAssignment (source ssa markers) → ∃ locals : Nat → List (Nat × Var),
      (∀ fn m, r.method? fn = some m → (source ssa markers).hasBody fn →
        Translation (source ssa markers) r fn m (locals fn)) ∧
      ∀ fn fn' m m' g pkg, r.method? fn = some m → (source ssa markers).hasBody fn →
        r.method? fn' = some m' → (source ssa markers).hasBody fn' →
        ((source ssa markers).ssa.value g).kind = .global pkg →
        Seen (source ssa markers) r (locals fn) (locals fn') fn fn' m m' g := by
  intro all
  have ⟨locals, bodies, seen⟩ := all Sample.Struct.ssa {} Sample.Struct.lowered
    Sample.Struct.lower_ssa (.of_forall (by decide) (by decide)) (.of_forall (by decide) (by decide))
  have ⟨analysis, m, m', analyzed, converged, hm, reached, hm', reached', stored, loaded⟩ :=
    Sample.Struct.analyze_settings
  have ⟨x, y, hx, hy, sub⟩ := seen 1 2 m m' 1 0 hm (by decide) hm' (by decide) (by decide) 3 4
    (by decide) (by decide) Sample.Struct.settings {} analysis rfl rfl (.inl rfl) analyzed converged
    reached reached'
  have hx := Sample.Struct.var?_of_lookup (bodies 1 m hm (by decide)) (by decide) hx
  have hy := Sample.Struct.var?_of_lookup (bodies 2 m' hm' (by decide)) (by decide) hy
  exact loaded y hy (sub (stored x hx))

end Globals

end Lowering
end PointsTo
