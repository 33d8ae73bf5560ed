import PointsTo.Proofs.Flow
import PointsTo.Proofs.LeastSolution
import PointsTo.Proofs.Soundness

namespace PointsTo

-- The integer that an index operand stands for. A literal of any other kind or size is as good as
-- none.
def Stmt.literalIndex? (index : Option Var) : Option Int :=
  index.bind Var.int64?

def FieldKey.ofLiteral : Option Int → FieldKey
  | some n => .index n
  | none => .anyIndex

theorem FieldKey.ofLiteral_inj {n n' : Option Int} (h : ofLiteral n = ofLiteral n') : n = n' := by
  cases n <;> cases n' <;> simp_all [ofLiteral]

theorem FieldKey.exists_ofLiteral {k : FieldKey} (h : k.isArray) : ∃ n, k = ofLiteral n := by
  cases k
  case field      => contradiction
  case index n    => exact ⟨some n, rfl⟩
  case anyIndex   => exact ⟨none, rfl⟩

theorem FieldKey.isArray_ofLiteral (n : Option Int) : (ofLiteral n).isArray := by
  cases n <;> rfl

namespace Analysis

theorem Constants.key_empty (index : Option Var) :
    key ∅ index = .ofLiteral (Stmt.literalIndex? index) := by
  have none (v : Var) : int64? ∅ v = v.int64? := by simp [int64?]
  have same : index.bind (int64? ∅) = Stmt.literalIndex? index :=
    congrArg index.bind (funext none)
  unfold key
  rw [same]
  cases Stmt.literalIndex? index <;> rfl

-- A statement stores `x` in a slot, according to a set of facts. The constants decide which array
-- element that is.
def Stores (F : Set Fact) (cs : Constants) (slot : Slot) (x : Int) : Stmt → Prop
  | .storeField base field rhs =>
    slot.key = .field field.name ∧ slot.object ∈ owners F base field ∧ x ∈ pointees F rhs
  | .storeArray base index rhs =>
    slot.key = cs.key index ∧ slot.object ∈ pointees F base ∧ x ∈ pointees F rhs
  | _ => False

section Provenance

variable {p : Problem} {F G : Set Fact} {f : Facts} {cs : Constants} {s : Stmt} {slot : Slot}
  {x : Int}

theorem Stores.mono (h : Stores F cs slot x s) (hFG : F ⊆ G) : Stores G cs slot x s := by
  cases s
  case storeField base field rhs => exact ⟨h.1, owners_mono hFG base field h.2.1, hFG h.2.2⟩
  case storeArray base index rhs => exact ⟨h.1, hFG h.2.1, hFG h.2.2⟩
  all_goals exact h.elim

-- Anything about variables, and about slots what they held before the statement or get by it.
def stepBound (f : Facts) (cs : Constants) (s : Stmt) : Set Fact
  | .points _ _ => True
  | .holds slot x => .holds slot x ∈ f.toSet ∨ Stores f.toSet cs slot x s

theorem subset_stepBound (f : Facts) (cs : Constants) (s : Stmt) : f.toSet ⊆ stepBound f cs s := by
  intro y hy
  cases y
  case points => trivial
  case holds  => exact .inl hy

theorem step_subset_stepBound :
    (f.step cs (p.finding f s) s).facts.toSet ⊆ stepBound f cs s := by
  have sub := subset_stepBound f cs s
  cases s
  case storeField base field rhs =>
    exact Update.putAll_within sub fun o ho x hx => .inr ⟨rfl, Facts.mem_owners.mp ho, hx⟩
  case storeArray base index rhs =>
    exact Update.putAll_within sub fun o ho x hx => .inr ⟨rfl, ObjectSet.mem_toList.mp ho, hx⟩
  -- All other statements have an effect on variables only, which the bound leaves open.
  all_goals refine Facts.step_within sub ?_ fun call _ => (subset_rfl : p.targets f call ⊆ _)
  case alloc       => exact fun _ _ => trivial
  case copy | cast => exact fun _ _ => trivial
  case loadField   => exact fun _ _ _ _ => trivial
  case loadArray   => exact fun _ _ _ _ _ _ => trivial
  case invoke      => exact fun _ _ _ =>
    ⟨fun _ _ _ _ _ _ => trivial, fun _ _ _ _ => trivial, fun _ _ _ _ _ _ => trivial⟩
  all_goals trivial

theorem stores_of_step (h : .holds slot x ∈ (f.step cs (p.finding f s) s).facts.toSet) :
    .holds slot x ∈ f.toSet ∨ Stores f.toSet cs slot x s :=
  step_subset_stepBound h

-- Whatever a slot holds was stored there by a statement of a known method.
def Stored (st : State) : Prop :=
  ∀ slot x, .holds slot x ∈ st.facts.toSet → ∃ m ∈ st.discovered, m.hasBody ∧ ∃ s ∈ m.body,
    ∃ cs, cs.From m.body ∧ Stores st.facts.toSet cs slot x s

theorem Stored.extends {st st' : State} {m : Method} (e : st.Extends st')
    (h : m ∈ st.discovered ∧ m.hasBody ∧ ∃ s ∈ m.body,
      ∃ cs, cs.From m.body ∧ Stores st.facts.toSet cs slot x s) :
    m ∈ st'.discovered ∧ m.hasBody ∧ ∃ s ∈ m.body,
      ∃ cs, cs.From m.body ∧ Stores st'.facts.toSet cs slot x s := by
  have ⟨hm, hb, s, hs, cs, hc, stores⟩ := h
  exact ⟨e.discovered hm, hb, s, hs, cs, hc, stores.mono e.facts⟩

theorem preserved_stored (p : Problem) : Preserved p Stored where
  start := fun slot x hx => (State.facts_start_subset p ∅ hx).elim
  enter st h slot x hx := by
    have ⟨m, hm⟩ := h slot x hx
    exact ⟨m, Stored.extends (State.enter_extends st) hm⟩
  step st m cs s h hm hb hs hc slot x hx := by
    have later := State.step_extends p m cs st s
    rw [State.facts_step] at hx
    cases stores_of_step hx
    case inl hx =>
      have ⟨m', hm'⟩ := h slot x hx
      exact ⟨m', Stored.extends later hm'⟩
    case inr stores =>
      exact ⟨m, Stored.extends later ⟨List.mem_append_left _ hm, hb, s, hs, cs, hc, stores⟩⟩
  cut _ h        := h
  report _ _ _ h := h

end Provenance

section Contents

-- What the statements of the methods store in the field of an object.
def storedInField (F : Set Fact) (ms : List Method) (o : Int) (name : String) : Set Int :=
  { x | ∃ m ∈ ms, m.hasBody ∧ ∃ base field rhs, .storeField base field rhs ∈ m.body ∧
    field.name = name ∧ o ∈ owners F base field ∧ x ∈ pointees F rhs }

-- What they store in the static field of a class.
def storedInStatic (F : Set Fact) (ms : List Method) (c name : String) : Set Int :=
  { x | ∃ m ∈ ms, m.hasBody ∧ ∃ field rhs, .storeField none field rhs ∈ m.body ∧
    field.name = name ∧ Slot.staticOwner field.owner = Slot.staticOwner c ∧ x ∈ pointees F rhs }

-- What they store in the array element of an object with this literal index, or with an index that
-- is left out or is no literal.
def storedInElement (F : Set Fact) (ms : List Method) (o : Int) (n : Option Int) : Set Int :=
  { x | ∃ m ∈ ms, m.hasBody ∧ ∃ base index rhs, .storeArray base index rhs ∈ m.body ∧
    Stmt.literalIndex? index = n ∧ o ∈ pointees F base ∧ x ∈ pointees F rhs }

-- Nothing is assigned to the index of an array access.
def IndexFixed (m : Method) : Prop :=
  ∀ s ∈ m.body, ∀ i, s.index? = some i →
    (∀ value, .literal i value ∉ m.body) ∧ ∀ rhs, .copy i rhs ∉ m.body

theorem IndexFixed.key_eq {m : Method} {s : Stmt} {cs : Constants} (h : IndexFixed m)
    (hs : s ∈ m.body) (hc : cs.From m.body) :
    cs.key s.index? = .ofLiteral (Stmt.literalIndex? s.index?) :=
  (Constants.key_of_unassigned (h s hs) hc).trans (Constants.key_empty _)

variable {p : Problem}

theorem from_of_append {m : Method} {pre post : List Stmt} {s : Stmt}
    (h : m.body = pre ++ s :: post) : (Constants.ofStmts pre).From m.body :=
  ⟨pre, by simp [h], rfl⟩

theorem contents_field (coherent : p.Coherent) (h : p.solve.converged) (o : Int) (name : String) :
    contents p.run.facts.toSet ⟨o, .field name⟩ =
      storedInField p.run.facts.toSet p.run.reachable o name := by
  ext x
  constructor
  case mp =>
    intro hx
    have ⟨m, hm, hb, s, hs, cs, _, stores⟩ := (preserved_stored p).solve ⟨o, .field name⟩ x hx
    cases s
    case storeField base field rhs =>
      exact ⟨m, hm, hb, base, field, rhs, hs, (FieldKey.field.inj stores.1).symm, stores.2⟩
    case storeArray base index rhs =>
      have array := Constants.isArray_key cs index
      rw [← stores.1] at array
      contradiction
    all_goals exact stores.elim
  case mpr =>
    intro ⟨m, hm, hb, base, field, rhs, hs, hname, ho, hx⟩
    have ⟨pre, post, hbody⟩ := List.append_of_mem hs
    have satisfied := (fixedPoint_run coherent h).satisfied m hm hb pre _ post hbody
    exact hname ▸ satisfied o ho hx

theorem contents_element (coherent : p.Coherent) (h : p.solve.converged)
    (fixed : ∀ m ∈ p.run.reachable, IndexFixed m) (o : Int) (n : Option Int) :
    contents p.run.facts.toSet ⟨o, .ofLiteral n⟩ =
      storedInElement p.run.facts.toSet p.run.reachable o n := by
  ext x
  constructor
  case mp =>
    intro hx
    have ⟨m, hm, hb, s, hs, cs, hc, stores⟩ := (preserved_stored p).solve ⟨o, .ofLiteral n⟩ x hx
    cases s
    case storeField base field rhs =>
      have key : FieldKey.ofLiteral n = .field field.name := stores.1
      have array := FieldKey.isArray_ofLiteral n
      rw [key] at array
      contradiction
    case storeArray base index rhs =>
      have key : cs.key index = .ofLiteral (Stmt.literalIndex? index) := (fixed m hm).key_eq hs hc
      have same := FieldKey.ofLiteral_inj (stores.1.trans key)
      exact ⟨m, hm, hb, base, index, rhs, hs, same.symm, stores.2⟩
    all_goals exact stores.elim
  case mpr =>
    intro ⟨m, hm, hb, base, index, rhs, hs, hn, ho, hx⟩
    have ⟨pre, post, hbody⟩ := List.append_of_mem hs
    have satisfied := (fixedPoint_run coherent h).satisfied m hm hb pre _ post hbody
    have key : (Constants.ofStmts pre).key index = .ofLiteral (Stmt.literalIndex? index) :=
      (fixed m hm).key_eq hs (from_of_append hbody)
    have held := satisfied o ho hx
    rw [key, hn] at held
    exact held

-- An owner of static fields that is not the number of an object only gets something by static
-- stores.
theorem contents_static (coherent : p.Coherent) (h : p.solve.converged) (c name : String)
    (separate : ∀ m ∈ p.run.reachable, ¬ p.Creates m (Slot.staticOwner c)) :
    contents p.run.facts.toSet ⟨Slot.staticOwner c, .field name⟩ =
      storedInStatic p.run.facts.toSet p.run.reachable c name := by
  rw [contents_field coherent h]
  ext x
  constructor
  case mp =>
    intro ⟨m, hm, hb, base, field, rhs, hs, hname, ho, hx⟩
    cases base
    case none => exact ⟨m, hm, hb, field, rhs, hs, hname, (Set.mem_singleton_iff.mp ho).symm, hx⟩
    case some b =>
      have points : .points b (Slot.staticOwner c) ∈ p.run.facts.toSet := ho
      have ⟨m', hm', creates⟩ := creates_of_grounded ((preserved_grounded p).solve points)
      exact absurd creates (separate m' hm')
  case mpr =>
    intro ⟨m, hm, hb, field, rhs, hs, hname, howner, hx⟩
    exact ⟨m, hm, hb, none, field, rhs, hs, hname, howner ▸ rfl, hx⟩

-- What an array load is to receive: what was stored with its literal, or with any index at all.
def receivedFrom (F : Set Fact) (ms : List Method) (base : Var) (index : Option Var) : Set Int :=
  match Stmt.literalIndex? index with
  | some n => { x | ∃ o ∈ pointees F base, x ∈ storedInElement F ms o (some n) }
  | none => { x | ∃ o ∈ pointees F base, ∃ n, x ∈ storedInElement F ms o n }

theorem reads_ofLiteral {n : Option Int} {k : FieldKey} :
    (FieldKey.ofLiteral n).Reads k ↔ ∃ n', k = .ofLiteral n' ∧ (n = none ∨ n' = n) := by
  unfold FieldKey.Reads
  constructor
  case mp =>
    intro h
    obtain h | ⟨hn, hk⟩ := h
    case inl => exact ⟨n, h, .inr rfl⟩
    case inr =>
      have ⟨n', he⟩ := FieldKey.exists_ofLiteral hk
      have none_n : n = none := FieldKey.ofLiteral_inj hn
      exact ⟨n', he, .inl none_n⟩
  case mpr =>
    intro ⟨n', hk, h⟩
    subst hk
    obtain rfl | rfl := h
    case inl => exact .inr ⟨rfl, FieldKey.isArray_ofLiteral n'⟩
    case inr => exact .inl rfl

theorem mem_loadElement_iff (coherent : p.Coherent) (h : p.solve.converged)
    (fixed : ∀ m ∈ p.run.reachable, IndexFixed m) (base : Var) (index : Option Var) (x : Int) :
    x ∈ p.run.facts.loadElement (p.run.facts.points.get base).toList
        (.ofLiteral (Stmt.literalIndex? index)) ↔
      x ∈ receivedFrom p.run.facts.toSet p.run.reachable base index := by
  have held (o : Int) (n : Option Int) : .holds ⟨o, .ofLiteral n⟩ x ∈ p.run.facts.toSet ↔
      x ∈ storedInElement p.run.facts.toSet p.run.reachable o n := by
    rw [← contents_element coherent h fixed]
    rfl
  rw [Facts.mem_loadElement]
  unfold receivedFrom
  simp only [reads_ofLiteral, ObjectSet.mem_toList]
  split
  case h_1 n hn =>
    simp only [hn, reduceCtorEq, false_or]
    constructor
    case mp =>
      intro ⟨o, ho, k, ⟨n', hk, hn'⟩, hx⟩
      subst hk hn'
      exact ⟨o, ho, (held o _).mp hx⟩
    case mpr =>
      intro ⟨o, ho, hx⟩
      exact ⟨o, ho, _, ⟨some n, rfl, rfl⟩, (held o _).mpr hx⟩
  case h_2 hn =>
    simp only [hn, true_or, and_true]
    constructor
    case mp =>
      intro ⟨o, ho, k, ⟨n', hk⟩, hx⟩
      subst hk
      exact ⟨o, ho, n', (held o n').mp hx⟩
    case mpr =>
      intro ⟨o, ho, n', hx⟩
      exact ⟨o, ho, _, ⟨n', rfl⟩, (held o n').mpr hx⟩

end Contents

-- The slots of a converged result hold exactly what is stored into them: fields by owner and name,
-- static fields by the owner of their class, elements by literal index. A load with a literal index
-- gets what was stored with that literal, any other load gets all elements.
theorem slots_hold_stored {s : Settings} {p : Problem} {r : Result} (valid : s.problem = .ok p)
    (done : analyze s = .ok r) (converged : r.converged) :
    (∀ o name, contents r.facts.toSet ⟨o, .field name⟩ =
      storedInField r.facts.toSet r.reachable o name) ∧
    (∀ c name, (∀ m ∈ r.reachable, ¬ p.Creates m (Slot.staticOwner c)) →
      contents r.facts.toSet ⟨Slot.staticOwner c, .field name⟩ =
        storedInStatic r.facts.toSet r.reachable c name) ∧
    ((∀ m ∈ r.reachable, IndexFixed m) →
      (∀ o n, contents r.facts.toSet ⟨o, .index n⟩ =
        storedInElement r.facts.toSet r.reachable o (some n)) ∧
      (∀ o, contents r.facts.toSet ⟨o, .anyIndex⟩ =
        storedInElement r.facts.toSet r.reachable o none) ∧
      ∀ m ∈ r.reachable, m.hasBody → ∀ lhs base index, .loadArray lhs base index ∈ m.body →
        (∀ cs : Constants, cs.From m.body → ∀ x,
          x ∈ r.facts.loadElement (r.facts.points.get base).toList (cs.key index) ↔
            x ∈ receivedFrom r.facts.toSet r.reachable base index) ∧
        receivedFrom r.facts.toSet r.reachable base index ⊆ pointees r.facts.toSet lhs) := by
  have hr := run_eq_of_analyze valid done
  subst hr
  have coherent := Settings.coherent valid
  refine ⟨contents_field coherent converged, contents_static coherent converged, fun fixed => ?_⟩
  refine ⟨fun o n => contents_element coherent converged fixed o (some n),
    fun o => contents_element coherent converged fixed o none, ?_⟩
  intro m hm hb lhs base index hs
  have received := mem_loadElement_iff coherent converged fixed base index
  have key {cs : Constants} (hc : cs.From m.body) :
      cs.key index = .ofLiteral (Stmt.literalIndex? index) := (fixed m hm).key_eq hs hc
  refine ⟨fun cs hc => key hc ▸ received, fun x hx => ?_⟩
  have ⟨pre, post, hbody⟩ := List.append_of_mem hs
  have satisfied := (fixedPoint_run coherent converged).satisfied m hm hb pre _ post hbody
  have ⟨o, ho, k, hk, hx⟩ := Facts.mem_loadElement.mp ((received x).mpr hx)
  exact satisfied o (ObjectSet.mem_toList.mp ho) k (key (from_of_append hbody) ▸ hk) hx

namespace Sample

-- An item is stored with the index 0 and a cell with an unknown one.
def filling : List Stmt :=
  [.alloc ⟨0, 2⟩ cell "Cell", .alloc ⟨1, 2⟩ item "Item", .storeArray cell (some zero) item,
    .storeArray cell (some unknown) cell, .storeField none ⟨"Main", "f"⟩ item,
    .loadArray found cell (some zero)]

theorem indexFixed_filling : ∀ m ∈ (problemOf filling objects).run.reachable, IndexFixed m := by
  have reached : (problemOf filling objects).run.reachable = [mainOf filling] := by decide +kernel
  rw [reached]
  intro m hm s hs i _
  rw [List.mem_singleton.mp hm]
  exact ⟨fun value hv => by simp [mainOf, filling] at hv, fun rhs hr => by simp [mainOf, filling] at hr⟩

theorem filling_slots :
    (problemOf filling objects).run.converged ∧
      (problemOf filling objects).run.queries = [(1, [2])] ∧
      contents (problemOf filling objects).run.facts.toSet ⟨1, .index 0⟩ =
        storedInElement (problemOf filling objects).run.facts.toSet
          (problemOf filling objects).run.reachable 1 (some 0) ∧
      2 ∈ contents (problemOf filling objects).run.facts.toSet ⟨Slot.staticOwner "Main", .field "f"⟩ ∧
      2 ∈ storedInStatic (problemOf filling objects).run.facts.toSet
        (problemOf filling objects).run.reachable "Main" "f" := by
  have converged : (problemOf filling objects).run.converged := by decide +kernel
  have ⟨_, statics, elements⟩ := slots_hold_stored (problem_settingsOf filling objects)
    (analyze_settingsOf filling objects) converged
  have held : 2 ∈ contents (problemOf filling objects).run.facts.toSet
      ⟨Slot.staticOwner "Main", .field "f"⟩ := by
    show 2 ∈ (problemOf filling objects).run.facts.fields.get ⟨Slot.staticOwner "Main", .field "f"⟩
    decide +kernel
  have separate (m : Method) (hm : m ∈ (problemOf filling objects).run.reachable) :
      ¬ (problemOf filling objects).Creates m (Slot.staticOwner "Main") := by
    intro ⟨_, site, _, _, _, hid⟩
    have ⟨a, ha, he⟩ := Option.map_eq_some_iff.mp hid
    have others : ∀ a ∈ objects.allocations, a.id ≠ Slot.staticOwner "Main" := by decide +kernel
    exact others a (List.mem_of_find?_eq_some ha) he
  refine ⟨converged, by decide +kernel, (elements indexFixed_filling).left 1 0, held, ?_⟩
  exact statics "Main" "f" separate ▸ held

end Sample
end Analysis
end PointsTo
