import PointsTo.Proofs.FixedPoint
import PointsTo.Proofs.Trace

namespace PointsTo

-- All array elements are taken for one.
def FieldKey.collapse : FieldKey → FieldKey
  | field name => field name
  | _ => anyIndex

namespace Analysis

namespace Fact

-- The fact about the slots that are seen in the place of others.
def view (key : FieldKey → FieldKey) : Fact → Fact
  | points v o => points v o
  | holds slot o => holds ⟨slot.object, key slot.key⟩ o

@[simp]
theorem view_id (x : Fact) : x.view id = x := by
  cases x <;> rfl

end Fact

-- The calls for which the declared method may stand in, and the elements that the array accesses of
-- a method may select.
structure Reading where
  standsIn : Invoke → Prop
  selects  : Method → Stmt → FieldKey → Prop

inductive Judgement
  | reached (m : Method)
  | executes (m : Method) (s : Stmt)
  | runs (m : Method) (call : Invoke) (callee : Method)
  | fact (x : Fact)

-- Only the statements of reached methods with a body count, and only callees with a body get
-- anything.
inductive Flows (p : Problem) (how : Reading) : Judgement → Prop
  | root {m} (h : m ∈ p.roots) : Flows p how (.reached m)
  | callee {m call callee} (h : Flows p how (.runs m call callee)) (hb : callee.hasBody) :
    Flows p how (.reached callee)
  | executes {m s} (h : Flows p how (.reached m)) (hb : m.hasBody) (hs : s ∈ m.body) :
    Flows p how (.executes m s)
  | declared {m call declared} (h : Flows p how (.executes m (.invoke call)))
    (hk : call.kind.isDirect ∨ how.standsIn call)
    (hd : p.scene.hierarchy.resolve call.method = some declared)
    (hn : declared.isNative = false) (ha : declared.isAbstract = false) :
    Flows p how (.runs m call declared)
  | dispatched {m call declared b o callee} (h : Flows p how (.executes m (.invoke call)))
    (hk : call.kind.isDirect = false) (hd : p.scene.hierarchy.resolve call.method = some declared)
    (hn : declared.isNative = false) (hb : call.base = some b)
    (ho : Flows p how (.fact (.points b o)))
    (ht : p.scene.receiverTarget? declared.subsignature o = some callee) :
    Flows p how (.runs m call callee)
  | alloc {m site lhs type o} (h : Flows p how (.executes m (.alloc site lhs type)))
    (ho : p.scene.objects.id? site = some o) : Flows p how (.fact (.points lhs o))
  | copy {m lhs rhs o} (h : Flows p how (.executes m (.copy lhs rhs)))
    (ho : Flows p how (.fact (.points rhs o))) : Flows p how (.fact (.points lhs o))
  | cast {m lhs rhs type o} (h : Flows p how (.executes m (.cast lhs rhs type)))
    (ho : Flows p how (.fact (.points rhs o))) : Flows p how (.fact (.points lhs o))
  | loadField {m lhs b field owner o}
    (h : Flows p how (.executes m (.loadField lhs (some b) field)))
    (hb : Flows p how (.fact (.points b owner)))
    (ho : Flows p how (.fact (.holds ⟨owner, .field field.name⟩ o))) :
    Flows p how (.fact (.points lhs o))
  | loadStatic {m lhs field o} (h : Flows p how (.executes m (.loadField lhs none field)))
    (ho : Flows p how (.fact (.holds ⟨Slot.staticOwner field.owner, .field field.name⟩ o))) :
    Flows p how (.fact (.points lhs o))
  | storeField {m b field rhs owner o}
    (h : Flows p how (.executes m (.storeField (some b) field rhs)))
    (hb : Flows p how (.fact (.points b owner))) (ho : Flows p how (.fact (.points rhs o))) :
    Flows p how (.fact (.holds ⟨owner, .field field.name⟩ o))
  | storeStatic {m field rhs o} (h : Flows p how (.executes m (.storeField none field rhs)))
    (ho : Flows p how (.fact (.points rhs o))) :
    Flows p how (.fact (.holds ⟨Slot.staticOwner field.owner, .field field.name⟩ o))
  | loadArray {m lhs base index key k owner o}
    (h : Flows p how (.executes m (.loadArray lhs base index)))
    (hkey : how.selects m (.loadArray lhs base index) key) (hk : key.Reads k)
    (hb : Flows p how (.fact (.points base owner)))
    (ho : Flows p how (.fact (.holds ⟨owner, k⟩ o))) : Flows p how (.fact (.points lhs o))
  | storeArray {m base index rhs key owner o}
    (h : Flows p how (.executes m (.storeArray base index rhs)))
    (hkey : how.selects m (.storeArray base index rhs) key)
    (hb : Flows p how (.fact (.points base owner))) (ho : Flows p how (.fact (.points rhs o))) :
    Flows p how (.fact (.holds ⟨owner, key⟩ o))
  | receiver {m call callee v b o} (h : Flows p how (.runs m call callee)) (hbody : callee.hasBody)
    (hv : callee.receiver = some v) (hb : call.base = some b)
    (ho : Flows p how (.fact (.points b o))) : Flows p how (.fact (.points v o))
  | param {m call callee v arg o} (h : Flows p how (.runs m call callee)) (hbody : callee.hasBody)
    (hv : (v, arg) ∈ callee.params.zip call.args)
    (ho : Flows p how (.fact (.points arg o))) : Flows p how (.fact (.points v o))
  | result {m call callee v w o} (h : Flows p how (.runs m call callee)) (hbody : callee.hasBody)
    (hv : call.result = some v) (hw : w ∈ callee.returned)
    (ho : Flows p how (.fact (.points w o))) : Flows p how (.fact (.points v o))

namespace Reading

-- The declared method may always stand in, and all elements of an array are one.
def relaxed : Reading where
  standsIn _      := True
  selects _ _ key := key = .anyIndex

-- The reading allows whatever a run may do, if slots are seen as `view` shows them.
structure Admits (how : Reading) (view : FieldKey → FieldKey) : Prop where
  standsIn : ∀ call, how.standsIn call
  field    : ∀ name, view (.field name) = .field name
  store    : ∀ {m s cs}, Constants.From (Method.body m) cs →
    how.selects m s (view (cs.key s.index?))
  load     : ∀ {m s cs k}, Constants.From (Method.body m) cs → (cs.key s.index?).Reads k →
    ∃ key, how.selects m s key ∧ key.Reads (view k)

end Reading

theorem collapse_of_isArray {k : FieldKey} (h : k.isArray) : k.collapse = .anyIndex := by
  cases k
  case field => contradiction
  all_goals rfl

theorem Reading.admits_relaxed : relaxed.Admits .collapse where
  standsIn _ := trivial
  field _    := rfl
  store _    := collapse_of_isArray (Constants.isArray_key ..)
  load       := by
    intro m s cs k _ hk
    refine ⟨.anyIndex, rfl, .inl (collapse_of_isArray ?_)⟩
    cases hk
    case inl hk => exact hk ▸ Constants.isArray_key ..
    case inr hk => exact hk.right

section Supported

variable {p : Problem} {how : Reading} {view : FieldKey → FieldKey}

structure Supported (p : Problem) (how : Reading) (view : FieldKey → FieldKey) (st : State) :
    Prop where
  facts   : ∀ x ∈ st.facts.toSet, Flows p how (.fact (x.view view))
  reached : ∀ m ∈ st.discovered, Flows p how (.reached m)
  calls   : ∀ a b, b ∈ st.graph.successors a → ∃ call, Flows p how (.runs a call b)

-- The facts that follow, seen as `view` shows them.
def flowing (p : Problem) (how : Reading) (view : FieldKey → FieldKey) : Set Fact :=
  { x | Flows p how (.fact (x.view view)) }

theorem runs_of_mem_targets (admits : how.Admits view) {f : Facts} {m : Method} {call : Invoke}
    (hf : f.toSet ⊆ flowing p how view) (h : Flows p how (.executes m (.invoke call)))
    {callee : Method} (hc : callee ∈ p.targets f call) : Flows p how (.runs m call callee) := by
  cases Scene.mem_targets_iff.mp hc
  case inl hc =>
    have ⟨declared, hd, hn, hrun⟩ := hc
    split at hrun
    case isTrue hk => exact hrun.right ▸ .declared h (.inl hk) hd hn hrun.left
    case isFalse hk =>
      have ⟨o, ho, ht⟩ := hrun
      unfold Facts.receivers at ho
      split at ho
      case h_1 b hb =>
        have flows : .points b o ∈ flowing p how view := hf ho
        exact .dispatched h (by simpa using hk) hd hn hb flows ht
      case h_2 => simp at ho
  case inr hc =>
    have ⟨hd, hn, ha, _⟩ := hc
    exact .declared h (.inr (admits.standsIn call)) hd hn ha

-- There is a rule for each flow of each statement.
theorem satisfies_flowing (admits : how.Admits view) {m : Method} {s : Stmt} {cs : Constants}
    {targets : Invoke → Set Method} (h : Flows p how (.executes m s)) (hc : cs.From m.body)
    (ht : ∀ call, s = .invoke call → ∀ callee ∈ targets call, Flows p how (.runs m call callee)) :
    Satisfies p (flowing p how view) cs targets s := by
  cases s
  case alloc => exact fun id hid => .alloc h hid
  case copy  => exact fun o ho => .copy h ho
  case cast  => exact fun o ho => .cast h ho
  case loadField lhs base field =>
    intro owner howner o ho
    have ho : Flows p how (.fact (.holds ⟨owner, view (.field field.name)⟩ o)) := ho
    rw [admits.field] at ho
    cases base
    case some b => exact .loadField h howner ho
    case none =>
      cases howner
      exact .loadStatic h ho
  case storeField base field rhs =>
    intro owner howner o ho
    show Flows p how (.fact (.holds ⟨owner, view (.field field.name)⟩ o))
    rw [admits.field]
    cases base
    case some b => exact .storeField h howner ho
    case none =>
      cases howner
      exact .storeStatic h ho
  case loadArray lhs base index =>
    intro owner howner k hk o ho
    have ⟨key, hkey, hread⟩ := admits.load (s := .loadArray lhs base index) hc hk
    exact .loadArray h hkey hread howner ho
  case storeArray base index rhs =>
    intro owner howner o ho
    exact .storeArray h (admits.store hc) howner ho
  case invoke call =>
    intro callee hcallee hb
    have run := ht call rfl callee hcallee
    exact {
      receiver := fun v b hv hbase o ho => .receiver run hb hv hbase ho
      params   := fun pa hpa o ho => .param run hb hpa ho
      result   := fun v hv w hw o ho => .result run hb hv hw ho }
  all_goals trivial

theorem Supported.step (admits : how.Admits view) {st : State} {m : Method} {cs : Constants}
    {s : Stmt} (h : Supported p how view st) (hm : m ∈ st.discovered) (hb : m.hasBody)
    (hs : s ∈ m.body) (hc : cs.From m.body) :
    Supported p how view (st.step p m cs (.ofStmt p s)).1 := by
  have executes : Flows p how (.executes m s) := .executes (h.reached m hm) hb hs
  have runs {call} (hcall : s = .invoke call) {callee} (ht : callee ∈ p.targets st.facts call) :
      Flows p how (.runs m call callee) :=
    runs_of_mem_targets admits h.facts (hcall ▸ executes) ht
  have satisfied := satisfies_flowing admits executes hc fun call hcall _ ht => runs hcall ht
  constructor
  case facts =>
    rw [State.facts_step]
    exact Facts.step_within h.facts satisfied fun _ _ => subset_rfl
  case reached =>
    intro x hx
    cases State.mem_discovered_step.mp hx
    case inl hx => exact h.reached x hx
    case inr hx =>
      have ⟨_, hx, hbody⟩ := hx
      have ⟨call, hcall, hx⟩ := Problem.mem_finding_targets hx
      exact .callee (runs hcall hx) hbody
  case calls =>
    intro a b hab
    cases State.mem_successors_step.mp hab
    case inl hab => exact h.calls a b hab
    case inr hab =>
      have ⟨ha, hx⟩ := hab
      have ⟨call, hcall, hx⟩ := Problem.mem_finding_targets hx
      exact ⟨call, ha ▸ runs hcall hx⟩

theorem preserved_supported (admits : how.Admits view) : Preserved p (Supported p how view) where
  start  := by
    have ⟨_, hs⟩ := State.start_eq p
    constructor
    case facts   => exact State.facts_start_subset p (flowing p how view)
    case reached => exact fun m hm => .root (State.mem_discovered_start.mp hm)
    case calls =>
      rw [hs]
      simp [CallGraph.successors]
  enter st h := { h with reached := by simpa using h.reached }
  step st m cs s h hm hb hs hc := h.step admits (List.mem_append_left _ hm) hb hs hc
  cut _ h := { h with }
  report _ _ _ h := { h with }

end Supported

def Problem.Creates (p : Problem) (m : Method) (o : Int) : Prop :=
  m.hasBody ∧ ∃ site lhs type, .alloc site lhs type ∈ m.body ∧ p.scene.objects.id? site = some o

def StoresStatic (m : Method) (slot : Slot) : Prop :=
  m.hasBody ∧ ∃ field rhs, .storeField none field rhs ∈ m.body ∧
    slot = ⟨Slot.staticOwner field.owner, .field field.name⟩

-- Only objects that a known method creates are pointed to, held, or own slots, except for the
-- owners of static fields that a known method stores to.
def Grounded (p : Problem) (known : List Method) : Set Fact
  | .points _ o => ∃ m ∈ known, p.Creates m o
  | .holds slot o => (∃ m ∈ known, p.Creates m o) ∧
    ((∃ m ∈ known, p.Creates m slot.object) ∨ ∃ m ∈ known, StoresStatic m slot)

section Grounded

variable {p : Problem} {known : List Method}

theorem grounded_mono {known' : List Method} (h : known ⊆ known') :
    Grounded p known ⊆ Grounded p known' := by
  have mono {P : Method → Prop} (hp : ∃ m ∈ known, P m) : ∃ m ∈ known', P m :=
    hp.imp fun m hm => ⟨h hm.left, hm.right⟩
  intro x hx
  cases x
  case points v o   => exact mono hx
  case holds slot o => exact ⟨mono hx.left, hx.right.imp mono mono⟩

theorem satisfies_grounded {m : Method} {s : Stmt} {cs : Constants}
    {targets : Invoke → Set Method} (hm : m ∈ known) (hb : m.hasBody) (hs : s ∈ m.body) :
    Satisfies p (Grounded p known) cs targets s := by
  cases s
  case alloc site lhs type => exact fun id hid => ⟨m, hm, hb, site, lhs, type, hs, hid⟩
  case copy | cast         => exact fun o ho => ho
  case loadField           => exact fun _ _ o ho => ho.left
  case loadArray           => exact fun _ _ _ _ o ho => ho.left
  case storeField base field rhs =>
    intro owner howner o ho
    refine ⟨ho, ?_⟩
    cases base
    case some b => exact .inl howner
    case none =>
      cases howner
      exact .inr ⟨m, hm, hb, field, rhs, hs, rfl⟩
  case storeArray  => exact fun owner howner o ho => ⟨ho, .inl howner⟩
  case invoke call =>
    exact fun _ _ _ => {
      receiver := fun _ _ _ _ o ho => ho
      params   := fun _ _ o ho => ho
      result   := fun _ _ _ _ o ho => ho }
  all_goals trivial

theorem preserved_grounded (p : Problem) :
    Preserved p fun st => st.facts.toSet ⊆ Grounded p st.discovered where
  start      := State.facts_start_subset p _
  enter st h := by
    rw [State.discovered_enter]
    exact h
  step st m cs s h hm hb hs _ := by
    have later := State.step_extends p m cs st s
    have known := later.discovered (List.mem_append_left _ hm)
    rw [State.facts_step]
    exact Facts.step_within (h.trans (grounded_mono later.discovered))
      (satisfies_grounded known hb hs) fun _ _ => subset_rfl
  cut _ h        := h
  report _ _ _ h := h

end Grounded

-- What a run knows, and where it comes from. The owner of a static field is not an object, unless
-- some method creates an object of that number.
structure Justified (p : Problem) (st : State) : Prop extends
    Supported p .relaxed .collapse st where
  objects : ∀ x ∈ st.facts.toSet, ∃ m ∈ st.discovered, p.Creates m x.object
  statics : ∀ c, (∀ m ∈ st.discovered, ¬ p.Creates m (Slot.staticOwner c)) →
    ∀ x ∈ st.facts.toSet, x.object ≠ Slot.staticOwner c
  owners  : ∀ slot o, .holds slot o ∈ st.facts.toSet →
    (∃ m ∈ st.discovered, p.Creates m slot.object) ∨ ∃ m ∈ st.discovered, StoresStatic m slot

theorem creates_of_grounded {p : Problem} {known : List Method} {x : Fact}
    (h : x ∈ Grounded p known) : ∃ m ∈ known, p.Creates m x.object := by
  cases x
  case points v o   => exact h
  case holds slot o => exact h.left

-- Whatever the limits are, and whether the run converges or not, all that it knows at any moment
-- follows by the relaxed rules, and its objects are created by methods that it has reached.
theorem states_justified (p : Problem) :
    p.states.getLast? = some p.solve.state ∧ ∀ st ∈ p.states, Justified p st := by
  refine ⟨getLast?_states p, fun st hst => ?_⟩
  have supported := (preserved_supported Reading.admits_relaxed).states st hst
  have grounded := (preserved_grounded p).states st hst
  have objects (x : Fact) (hx : x ∈ st.facts.toSet) := creates_of_grounded (grounded hx)
  refine { supported with objects, statics := ?_, owners := ?_ }
  · intro c none x hx he
    have ⟨m, hm, creates⟩ := objects x hx
    exact none m hm (he ▸ creates)
  · intro slot o ho
    exact (grounded ho).right

theorem Sample.cell_justified :
    problem.solve.state ∈ problem.states ∧ .points found 2 ∈ problem.solve.state.facts.toSet ∧
      Flows problem .relaxed (.fact (.points found 2)) ∧
      ∃ m ∈ problem.solve.state.discovered, problem.Creates m 2 := by
  have ⟨last, justified⟩ := states_justified problem
  have mem : problem.solve.state ∈ problem.states := List.mem_of_getLast? last
  have points : .points found 2 ∈ problem.solve.state.facts.toSet := by
    show 2 ∈ problem.solve.state.facts.points.get found
    decide +kernel
  have final := justified _ mem
  exact ⟨mem, points, final.facts _ points, final.objects _ points⟩

end Analysis
end PointsTo
