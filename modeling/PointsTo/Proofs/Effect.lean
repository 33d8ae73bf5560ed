import Mathlib.Order.CompletePartialOrder
import PointsTo.Proofs.Run

namespace PointsTo.Analysis

namespace Facts

variable {P : Update → Prop}

-- What additions to variables and slots keep is kept by the effect of any statement.
theorem step_induction (point : ∀ u v ids, P u → P (Update.point u v ids))
    (put : ∀ u slot ids, P u → P (Update.put u slot ids)) {f : Facts} (h : P ⟨f, false⟩)
    (cs : Constants) (found : Finding) (s : Stmt) : P (f.step cs found s) := by
  have foldl {α : Type} {op : Update → α → Update} (hop : ∀ u a, P u → P (op u a))
      (l : List α) (u : Update) (hu : P u) : P (l.foldl op u) := by
    induction l generalizing u
    case nil            => exact hu
    case cons a rest hi => exact hi _ (hop u a hu)
  have putAll (os : List Int) (key : FieldKey) (ids : ObjectSet) :
      P (Update.putAll ⟨f, false⟩ os key ids) :=
    foldl (fun u o => put u ⟨o, key⟩ ids) os _ h
  have bind (u : Update) (call : Invoke) (callee : Method) (hu : P u) :
      P ((u.bindReceiver call callee).bindParams call callee) := by
    refine foldl (fun u (pa : Var × Var) => point u pa.1 _) _ _ ?_
    unfold Update.bindReceiver
    split
    case h_1 => exact point _ _ _ hu
    case h_2 => exact hu
  have callAll (call : Invoke) (callees : List Method) (u : Update) (results : ObjectSet)
      (hu : P u) : P (Update.callAll call u results callees).1 := by
    induction callees generalizing u results
    case nil                 => exact hu
    case cons callee rest hi => exact hi _ _ (bind u call callee hu)
  cases s
  case alloc =>
    simp only [step]
    split
    case h_1 => exact point _ _ _ h
    case h_2 => exact h
  case copy | cast             => exact point _ _ _ h
  case loadField | loadArray   => exact point _ _ _ h
  case storeField | storeArray => exact putAll ..
  case invoke call =>
    simp only [step, invoke_eq]
    split
    case h_1 => exact point _ _ _ (callAll _ _ _ _ h)
    case h_2 => exact callAll _ _ _ _ h
  all_goals exact h

end Facts

section Named

-- The variables that a statement may add to. `targets` are the methods that a call may run; it
-- adds to the variables of those with a body, as far as it passes something to them.
def writtenVars (targets : List Method) : Stmt → Set Var
  | .alloc _ lhs _ | .copy lhs _ | .cast lhs _ _ | .loadField lhs _ _ | .loadArray lhs _ _ => {lhs}
  | .invoke call => { v | call.result = some v ∨ ∃ callee ∈ targets, callee.hasBody ∧
      (call.base.isSome ∧ callee.receiver = some v ∨ v ∈ callee.params.take call.args.length) }
  | .storeField .. | .storeArray .. => ∅
  | .literal .. | .ret _ | .branch _ | .jump | .throw _ | .nop _ => ∅

-- The slots that a statement may add to: one part of each owner.
def writtenSlots (f : Facts) (cs : Constants) : Stmt → Set Slot
  | .storeField base field _ =>
    { slot | slot.object ∈ f.owners base field ∧ slot.key = .field field.name }
  | .storeArray base index _ =>
    { slot | slot.object ∈ f.points.get base ∧ slot.key = cs.key index }
  | .alloc .. | .copy .. | .cast .. | .loadField .. | .loadArray .. | .invoke _ => ∅
  | .literal .. | .ret _ | .branch _ | .jump | .throw _ | .nop _ => ∅

variable (p : Problem) (f : Facts) (cs : Constants) (s : Stmt)

-- What was known, and anything about the variables and slots that the statement names.
def namedBound : Set Fact
  | .points v o => .points v o ∈ f.toSet ∨ v ∈ writtenVars (p.finding f s).targets s
  | .holds slot o => .holds slot o ∈ f.toSet ∨ slot ∈ writtenSlots f cs s

theorem subset_namedBound : f.toSet ⊆ namedBound p f cs s := by
  intro x hx
  cases x
  case points => exact .inl hx
  case holds  => exact .inl hx

-- A statement that names no variable learns nothing about its operands.
theorem pointees_namedBound (h : writtenVars (p.finding f s).targets s = ∅) (v : Var) :
    pointees (namedBound p f cs s) v = pointees f.toSet v := by
  ext o
  have unnamed : v ∉ writtenVars (p.finding f s).targets s := by simp [h]
  exact ⟨fun ho => ho.resolve_right unnamed, .inl⟩

theorem fst_mem_take_of_mem_zip {params args : List Var} {pa : Var × Var}
    (h : pa ∈ params.zip args) : pa.1 ∈ params.take args.length := by
  have ⟨i, hi, he⟩ := List.mem_iff_getElem.mp h
  rw [List.length_zip] at hi
  rw [← he, List.getElem_zip, List.mem_take_iff_getElem]
  exact ⟨i, by omega, rfl⟩

theorem satisfies_named : Satisfies p (namedBound p f cs s) cs (p.targets f) s := by
  cases s
  case alloc       => exact fun _ _ => .inr rfl
  case copy | cast => exact fun _ _ => .inr rfl
  case loadField   => exact fun _ _ _ _ => .inr rfl
  case loadArray   => exact fun _ _ _ _ _ _ => .inr rfl
  -- The owners are those from before, since a store adds to no variable.
  case storeField base field rhs =>
    intro o ho x hx
    refine .inr ⟨Facts.mem_owners.mpr ?_, rfl⟩
    cases base
    case none   => exact ho
    case some b => exact (pointees_namedBound p f cs _ rfl b).subset ho
  case storeArray base index rhs =>
    intro o ho x _
    exact .inr ⟨(pointees_namedBound p f cs _ rfl base).subset ho, rfl⟩
  case invoke call =>
    intro callee hc hb
    constructor
    case receiver =>
      intro v b hv hbase o _
      exact .inr (.inr ⟨callee, hc, hb, .inl ⟨by simp [hbase], hv⟩⟩)
    case params =>
      intro pa hpa o _
      exact .inr (.inr ⟨callee, hc, hb, .inr (fst_mem_take_of_mem_zip hpa)⟩)
    case result =>
      intro v hv w _ o _
      exact .inr (.inl hv)
  all_goals trivial

theorem step_subset_named : (f.step cs (p.finding f s) s).facts.toSet ⊆ namedBound p f cs s :=
  Facts.step_within (subset_namedBound p f cs s) (satisfies_named p f cs s) fun _ _ => subset_rfl

end Named

-- An object gets slots only together with something that they hold.
def FilledFrom (before : Fields) (u : Update) : Prop :=
  ∀ o ∈ u.facts.fields.parts, o ∉ before.parts → ∃ key, u.facts.fields.get ⟨o, key⟩ ≠ ∅

namespace FilledFrom

variable {before : Fields} {u : Update}

theorem point (h : FilledFrom before u) (v : Var) (ids : ObjectSet) :
    FilledFrom before (u.point v ids) := by
  unfold Update.point
  split <;> exact h

theorem put (h : FilledFrom before u) (slot : Slot) (ids : ObjectSet) :
    FilledFrom before (u.put slot ids) := by
  unfold Update.put
  split
  case isFalse => exact h
  case isTrue hg =>
    -- What makes a set larger is not empty.
    have ⟨a, ha, _⟩ := Fields.grows_iff.mp hg
    intro o ho hn
    by_cases same : slot.object = o
    case pos =>
      refine ⟨slot.key, fun he => ?_⟩
      have held : a ∈ (u.facts.fields.addAll slot ids).get ⟨o, slot.key⟩ := by
        rw [Fields.mem_get_addAll, ← same]
        exact .inr ⟨rfl, ha⟩
      rw [he] at held
      simp at held
    case neg =>
      have ho' : o ∈ u.facts.fields.parts := by
        have some : ids ≠ ∅ := fun he => by simp [he] at ha
        simpa [Fields.addAll, some, Std.TreeMap.mem_insert, same] using ho
      obtain ⟨key, hk⟩ := h o ho' hn
      refine ⟨key, ?_⟩
      have other : (⟨o, key⟩ : Slot) ≠ slot := fun e => same (congrArg Slot.object e).symm
      rwa [Fields.get_addAll, if_neg other]

end FilledFrom

-- How the stores of two moments are related by a step with this flag that names these variables
-- and slots.
structure Effect (before after : Facts) (changed : Bool) (vars : Set Var) (slots : Set Slot) :
    Prop where
  -- Every set keeps what it had.
  points_le       : ∀ v, pointees before.toSet v ⊆ pointees after.toSet v
  fields_le       : ∀ slot, contents before.toSet slot ⊆ contents after.toSet slot
  -- The flag says whether some set is larger than before.
  changed_iff     : changed = true ↔
    (∃ v, pointees before.toSet v ⊂ pointees after.toSet v) ∨
      ∃ slot, contents before.toSet slot ⊂ contents after.toSet slot
  -- Only what is named is larger, and without names the stores are the same.
  points_eq       : ∀ v, v ∉ vars → after.points.get v = before.points.get v
  fields_eq       : ∀ slot, slot ∉ slots → after.fields.get slot = before.fields.get slot
  unchanged       : changed = false → after = before
  untouched       : vars = ∅ → slots = ∅ → after = before
  -- There are no entries with an empty set, and no new objects without an entry.
  points_nonempty : ∀ e ∈ after.points.entries, e.2 ≠ ∅
  fields_nonempty : ∀ o, ∀ e ∈ (after.fields.partsOf o).entries, e.2 ≠ ∅
  parts_nonempty  : ∀ o ∈ after.fields.parts, o ∉ before.fields.parts →
    ∃ e, e ∈ (after.fields.partsOf o).entries

-- A new fact makes one of the sets larger.
theorem larger_iff_exists_new {F G : Set Fact} (le : F ⊆ G) :
    ((∃ v, pointees F v ⊂ pointees G v) ∨ ∃ slot, contents F slot ⊂ contents G slot) ↔
      ∃ x ∈ G, x ∉ F := by
  constructor
  case mp =>
    rintro (⟨v, hv⟩ | ⟨slot, hs⟩)
    · have ⟨o, ho, hn⟩ := Set.exists_of_ssubset hv
      exact ⟨.points v o, ho, hn⟩
    · have ⟨o, ho, hn⟩ := Set.exists_of_ssubset hs
      exact ⟨.holds slot o, ho, hn⟩
  case mpr =>
    intro ⟨x, hx, hn⟩
    cases x
    case points v o =>
      exact .inl ⟨v, Set.ssubset_iff_of_subset (pointees_mono le v) |>.mpr ⟨o, hx, hn⟩⟩
    case holds slot o =>
      exact .inr ⟨slot, Set.ssubset_iff_of_subset (contents_mono le slot) |>.mpr ⟨o, hx, hn⟩⟩

-- The effect of an update that only adds and stays within what is named.
theorem Effect.of_extends {f : Facts} {u : Update} {vars : Set Var} {slots : Set Slot}
    (e : Update.Extends ⟨f, false⟩ u)
    (hv : ∀ v o, .points v o ∈ u.facts.toSet → .points v o ∈ f.toSet ∨ v ∈ vars)
    (hs : ∀ slot o, .holds slot o ∈ u.facts.toSet → .holds slot o ∈ f.toSet ∨ slot ∈ slots)
    (filled : FilledFrom f.fields u) : Effect f u.facts u.grown vars slots := by
  have le : f.toSet ⊆ u.facts.toSet := e.le
  have quiet : u.grown = false → u.facts = f := fun h => by rw [e.quiet h]
  refine
    { points_le := pointees_mono le
      fields_le := contents_mono le
      changed_iff := e.grown_iff.trans (larger_iff_exists_new le).symm
      points_eq := fun v h => ObjectSet.ext_mem fun o =>
        ⟨fun ho => (hv v o ho).resolve_right h, fun ho => le (a := .points v o) ho⟩
      fields_eq := fun slot h => ObjectSet.ext_mem fun o =>
        ⟨fun ho => (hs slot o ho).resolve_right h, fun ho => le (a := .holds slot o) ho⟩
      unchanged := quiet
      untouched := fun noVars noSlots => quiet (Bool.eq_false_iff.mpr fun h => ?_)
      points_nonempty := fun e he => (Store.mem_entries.mp he).right
      fields_nonempty := fun o e he => (Store.mem_entries.mp he).right
      parts_nonempty := fun o ho hn => ?_ }
  · -- A new fact would be about something that is named.
    have ⟨x, hx, hn⟩ := e.grown_iff.mp h
    cases x
    case points v o   => simpa [noVars] using (hv v o hx).resolve_left hn
    case holds slot o => simpa [noSlots] using (hs slot o hx).resolve_left hn
  · have ⟨key, hk⟩ := filled o ho hn
    exact ⟨(key, _), Store.mem_entries.mpr ⟨rfl, hk⟩⟩

theorem step_effect (p : Problem) (m : Method) (cs : Constants) (st : State) (s : Stmt) :
    Effect st.facts (st.step p m cs (.ofStmt p s)).1.facts (st.step p m cs (.ofStmt p s)).2
      (writtenVars (p.finding st.facts s).targets s) (writtenSlots st.facts cs s) := by
  rw [State.facts_step, State.grown_step]
  have named := step_subset_named p st.facts cs s
  refine .of_extends (Facts.step_extends ..) (fun v o h => named h) (fun slot o h => named h) ?_
  exact Facts.step_induction (fun _ v ids h => h.point v ids) (fun _ slot ids h => h.put slot ids)
    (fun o ho hn => absurd ho hn) cs _ s

end PointsTo.Analysis
