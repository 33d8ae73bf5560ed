import PointsTo.Analysis.Transfer
import PointsTo.Proofs.Fact

namespace PointsTo.Analysis

namespace Update

variable {u u₁ u₂ u₃ : Update} {F : Set Fact}

-- An update keeps all facts, stays the same unless it reports growth, and has a new fact if it
-- does.
structure Extends (u₁ u₂ : Update) : Prop where
  le     : u₁.facts.toSet ⊆ u₂.facts.toSet
  quiet  : u₂.grown = false → u₂ = u₁
  gained : u₂.grown → u₁.grown ∨ ∃ x ∈ u₂.facts.toSet, x ∉ u₁.facts.toSet

namespace Extends

theorem refl (u : Update) : Extends u u where
  le     := subset_rfl
  quiet  := fun _ => rfl
  gained := .inl

theorem trans (e₁ : Extends u₁ u₂) (e₂ : Extends u₂ u₃) : Extends u₁ u₃ where
  le     := e₁.le.trans e₂.le
  quiet  := fun h => by
    have h₂ := e₂.quiet h
    subst h₂
    exact e₁.quiet h
  gained := fun h => by
    cases e₂.gained h
    case inl h =>
      have := e₁.gained h
      exact this.imp_right fun ⟨x, hx, hn⟩ => ⟨x, e₂.le hx, hn⟩
    case inr h =>
      have ⟨x, hx, hn⟩ := h
      exact .inr ⟨x, hx, fun hc => hn (e₁.le hc)⟩

theorem foldl {α : Type} {op : Update → α → Update} (e : ∀ u a, Extends u (op u a))
    (l : List α) (u : Update) : Extends u (l.foldl op u) := by
  induction l generalizing u
  case nil            => exact refl u
  case cons a rest hi => exact (e u a).trans (hi (op u a))

-- A quiet sequence of updates consists of updates that are quiet from where it began.
theorem foldl_quiet {α : Type} {op : Update → α → Update} (e : ∀ u a, Extends u (op u a))
    {l : List α} (h : (l.foldl op u).grown = false) : ∀ a ∈ l, (op u a).grown = false := by
  induction l generalizing u
  case nil => simp
  case cons a rest hi =>
    -- If the end is quiet, then so is what comes before the rest.
    have hrest := (foldl e rest (op u a)).quiet h
    have ha : (op u a).grown = false := by rw [← hrest]; exact h
    have hu := (e u a).quiet ha
    intro b hb
    cases List.mem_cons.mp hb
    case inl hb => exact hb ▸ ha
    case inr hb =>
      refine hi ?_ b hb
      rw [List.foldl_cons, hu] at h
      exact h

-- From facts on, growth means that there is a new one.
theorem grown_iff {f : Facts} (e : Extends ⟨f, false⟩ u) :
    u.grown = true ↔ ∃ x ∈ u.facts.toSet, x ∉ f.toSet := by
  constructor
  case mp => exact fun h => (e.gained h).resolve_left (by simp)
  case mpr =>
    intro ⟨x, hx, hn⟩
    by_contra h
    rw [e.quiet (Bool.eq_false_iff.mpr h)] at hx
    exact hn hx

end Extends

theorem foldl_within {α : Type} {op : Update → α → Update} {l : List α} (h : u.facts.toSet ⊆ F)
    (hs : ∀ a ∈ l, ∀ u, u.facts.toSet ⊆ F → (op u a).facts.toSet ⊆ F) :
    (l.foldl op u).facts.toSet ⊆ F := by
  induction l generalizing u
  case nil => exact h
  case cons a rest hi =>
    have ha := hs a List.mem_cons_self u h
    exact hi ha fun b hb => hs b (List.mem_cons_of_mem _ hb)

theorem mem_point {v : Var} {ids : ObjectSet} {x : Fact} :
    x ∈ (u.point v ids).facts.toSet ↔ x ∈ u.facts.toSet ∨ ∃ o ∈ ids, x = .points v o := by
  unfold point
  split
  case isTrue =>
    cases x
    case points w o   => simp [Store.mem_get_addAll, and_comm, eq_comm]
    case holds slot o => simp
  case isFalse h =>
    -- Nothing is added, since all of `ids` were there.
    rw [Store.grows_iff] at h
    push Not at h
    refine ⟨.inl, fun hx => hx.elim id ?_⟩
    intro ⟨o, ho, he⟩
    exact he ▸ h o ho

theorem point_extends (u : Update) (v : Var) (ids : ObjectSet) : Extends u (u.point v ids) where
  le     := fun _ hx => mem_point.mpr (.inl hx)
  quiet  := by
    unfold point
    split <;> simp
  gained := by
    intro h
    unfold point at h
    split at h
    case isTrue hg =>
      have ⟨o, ho, hn⟩ := Store.grows_iff.mp hg
      exact .inr ⟨.points v o, mem_point.mpr (.inr ⟨o, ho, rfl⟩), hn⟩
    case isFalse => exact .inl h

theorem point_quiet {v : Var} {ids : ObjectSet} (h : (u.point v ids).grown = false) :
    ∀ o ∈ ids, o ∈ pointees u.facts.toSet v := by
  intro o ho
  have := (point_extends u v ids).quiet h
  rw [← this]
  exact mem_point.mpr (.inr ⟨o, ho, rfl⟩)

theorem point_within {v : Var} {ids : ObjectSet} (h : u.facts.toSet ⊆ F)
    (hi : ∀ o ∈ ids, o ∈ pointees F v) : (u.point v ids).facts.toSet ⊆ F := by
  intro x hx
  cases mem_point.mp hx
  case inl hx => exact h hx
  case inr hx =>
    have ⟨o, ho, he⟩ := hx
    exact he ▸ hi o ho

theorem flow_extends (u : Update) (v w : Var) : Extends u (u.flow v w) :=
  point_extends u v _

theorem flow_quiet {v w : Var} (h : (u.flow v w).grown = false) :
    pointees u.facts.toSet w ⊆ pointees u.facts.toSet v :=
  point_quiet h

theorem flow_within {v w : Var} (h : u.facts.toSet ⊆ F) (hi : pointees F w ⊆ pointees F v) :
    (u.flow v w).facts.toSet ⊆ F :=
  point_within h fun _ ho => hi (h ho)

theorem mem_put {slot : Slot} {ids : ObjectSet} {x : Fact} :
    x ∈ (u.put slot ids).facts.toSet ↔ x ∈ u.facts.toSet ∨ ∃ o ∈ ids, x = .holds slot o := by
  unfold put
  split
  case isTrue =>
    cases x
    case points v o => simp
    case holds s o  => simp [Fields.mem_get_addAll, and_comm, eq_comm]
  case isFalse h =>
    rw [Fields.grows_iff] at h
    push Not at h
    refine ⟨.inl, fun hx => hx.elim id ?_⟩
    intro ⟨o, ho, he⟩
    exact he ▸ h o ho

theorem put_extends (u : Update) (slot : Slot) (ids : ObjectSet) : Extends u (u.put slot ids) where
  le     := fun _ hx => mem_put.mpr (.inl hx)
  quiet  := by
    unfold put
    split <;> simp
  gained := by
    intro h
    unfold put at h
    split at h
    case isTrue hg =>
      have ⟨o, ho, hn⟩ := Fields.grows_iff.mp hg
      exact .inr ⟨.holds slot o, mem_put.mpr (.inr ⟨o, ho, rfl⟩), hn⟩
    case isFalse => exact .inl h

theorem putAll_extends (u : Update) (os : List Int) (key : FieldKey) (ids : ObjectSet) :
    Extends u (u.putAll os key ids) :=
  .foldl (fun u o => put_extends u ⟨o, key⟩ ids) os u

theorem putAll_quiet {os : List Int} {key : FieldKey} {ids : ObjectSet}
    (h : (u.putAll os key ids).grown = false) :
    ∀ o ∈ os, ∀ x ∈ ids, x ∈ contents u.facts.toSet ⟨o, key⟩ := by
  intro o ho x hx
  have hq := Extends.foldl_quiet (fun u o => put_extends u ⟨o, key⟩ ids) h o ho
  rw [← (put_extends u ⟨o, key⟩ ids).quiet hq]
  exact mem_put.mpr (.inr ⟨x, hx, rfl⟩)

theorem putAll_within {os : List Int} {key : FieldKey} {ids : ObjectSet} (h : u.facts.toSet ⊆ F)
    (hi : ∀ o ∈ os, ∀ x ∈ ids, x ∈ contents F ⟨o, key⟩) :
    (u.putAll os key ids).facts.toSet ⊆ F := by
  refine foldl_within h fun o ho u hu x hx => ?_
  cases mem_put.mp hx
  case inl hx => exact hu hx
  case inr hx =>
    have ⟨a, ha, he⟩ := hx
    exact he ▸ hi o ho a ha

theorem bindReceiver_extends (u : Update) (call : Invoke) (callee : Method) :
    Extends u (u.bindReceiver call callee) := by
  unfold bindReceiver
  split
  case h_1 => exact flow_extends ..
  case h_2 => exact .refl u

theorem bindParams_extends (u : Update) (call : Invoke) (callee : Method) :
    Extends u (u.bindParams call callee) :=
  .foldl (fun u (pa : Var × Var) => flow_extends u pa.1 pa.2) _ u

end Update

-- The variables of the callee and the result of the call have room for what is passed.
structure Passes (F : Set Fact) (call : Invoke) (callee : Method) : Prop where
  receiver : ∀ v b, callee.receiver = some v → call.base = some b → pointees F b ⊆ pointees F v
  params   : ∀ pa ∈ callee.params.zip call.args, pointees F pa.2 ⊆ pointees F pa.1
  result   : ∀ v, call.result = some v → ∀ w ∈ callee.returned, pointees F w ⊆ pointees F v

-- A callee that returns its receiver returns what the base points to, because that is what the
-- receiver points to. So it is no exception when such a callee is taken to return the base.
theorem Passes.base_result {F : Set Fact} {call : Invoke} {callee : Method} {v b : Var}
    (h : Passes F call callee) (hv : call.result = some v) (hb : call.base = some b)
    (hr : callee.returnsReceiver) : pointees F b ⊆ pointees F v := by
  unfold Method.returnsReceiver at hr
  split at hr
  case h_1 w hw => exact (h.receiver w b hw hb).trans (h.result v hv w (by simpa using hr))
  case h_2      => contradiction

namespace Facts

variable {f : Facts} {call : Invoke} {callee : Method} {x : Int}

theorem mem_returned_of_mem {v w : Var} (hv : call.result = some v) (hw : w ∈ callee.returned)
    (hx : x ∈ f.points.get w) : x ∈ f.returned call callee := by
  have known : x ∈ ObjectSet.unionAll (callee.returned.map f.points.get) :=
    ObjectSet.mem_unionAll.mpr ⟨_, List.mem_map_of_mem hw, hx⟩
  have nonempty : (ObjectSet.unionAll (callee.returned.map f.points.get)).isEmpty = false := by
    rw [← Bool.not_eq_true, ObjectSet.isEmpty_iff]
    intro he
    simp [he] at known
  unfold returned
  simp only [hv, Option.isNone_some, Bool.false_eq_true, if_false, nonempty, Bool.false_and]
  split <;> exact known

theorem of_mem_returned (h : x ∈ f.returned call callee) :
    (∃ w ∈ callee.returned, x ∈ f.points.get w) ∨
      ∃ b, call.base = some b ∧ callee.returnsReceiver ∧ x ∈ f.points.get b := by
  have known : x ∈ ObjectSet.unionAll (callee.returned.map f.points.get) →
      ∃ w ∈ callee.returned, x ∈ f.points.get w := by
    simp [ObjectSet.mem_unionAll]
  unfold returned at h
  split at h
  case isTrue => simp at h
  case isFalse =>
    dsimp only at h
    split at h
    case h_1 b hb =>
      split at h
      case isTrue hr =>
        simp only [Bool.and_eq_true] at hr
        exact .inr ⟨b, hb, hr.right, h⟩
      case isFalse => exact .inl (known h)
    case h_2 => exact .inl (known h)

end Facts

namespace Update

variable {u : Update} {F : Set Fact} {call : Invoke} {callee : Method}

theorem bind_within (h : u.facts.toSet ⊆ F) (hp : Passes F call callee) :
    ((u.bindReceiver call callee).bindParams call callee).facts.toSet ⊆ F := by
  have hr : (u.bindReceiver call callee).facts.toSet ⊆ F := by
    unfold bindReceiver
    split
    case h_1 v b hv hb => exact flow_within h (hp.receiver v b hv hb)
    case h_2           => exact h
  exact foldl_within hr fun pa hpa u hu => flow_within hu (hp.params pa hpa)

theorem bind_extends (u : Update) (call : Invoke) (callee : Method) :
    Extends u ((u.bindReceiver call callee).bindParams call callee) :=
  (bindReceiver_extends u call callee).trans (bindParams_extends _ call callee)

-- Where binding is quiet, what it passes was there.
theorem bind_quiet (h : ((u.bindReceiver call callee).bindParams call callee).grown = false) :
    (∀ v b, callee.receiver = some v → call.base = some b →
      pointees u.facts.toSet b ⊆ pointees u.facts.toSet v) ∧
    ∀ pa ∈ callee.params.zip call.args,
      pointees u.facts.toSet pa.2 ⊆ pointees u.facts.toSet pa.1 := by
  have hr : (u.bindReceiver call callee).grown = false := by
    rw [← (bindParams_extends _ call callee).quiet h]
    exact h
  have hu := (bindReceiver_extends u call callee).quiet hr
  constructor
  case left =>
    intro v b hv hb
    simp only [bindReceiver, hv, hb] at hr
    exact flow_quiet hr
  case right =>
    intro pa hpa
    rw [hu] at h
    have extends_flow (u : Update) (pa : Var × Var) := flow_extends u pa.1 pa.2
    exact flow_quiet (Extends.foldl_quiet extends_flow h pa hpa)

theorem callAll_extends (call : Invoke) (callees : List Method) (u : Update) (results : ObjectSet) :
    Extends u (callAll call u results callees).1 := by
  induction callees generalizing u results
  case nil                 => exact .refl u
  case cons callee rest hi => exact (bind_extends u call callee).trans (hi ..)

theorem callAll_within {callees : List Method} {results : ObjectSet} (h : u.facts.toSet ⊆ F)
    (hp : ∀ callee ∈ callees, Passes F call callee)
    (hr : ∀ v, call.result = some v → ∀ x ∈ results, x ∈ pointees F v) :
    (callAll call u results callees).1.facts.toSet ⊆ F ∧
      ∀ v, call.result = some v → ∀ x ∈ (callAll call u results callees).2, x ∈ pointees F v := by
  induction callees generalizing u results
  case nil => exact ⟨h, hr⟩
  case cons callee rest hi =>
    have hc := hp callee List.mem_cons_self
    have hb := bind_within h hc
    refine hi hb (fun c hm => hp c (List.mem_cons_of_mem _ hm)) fun v hv x hx => ?_
    cases ObjectSet.mem_union.mp hx
    case inl hx => exact hr v hv x hx
    case inr hx =>
      cases Facts.of_mem_returned hx
      case inl hx =>
        have ⟨w, hw, hx⟩ := hx
        exact hc.result v hv w hw (hb hx)
      -- Nothing was known of the result yet, so the base stood in for it.
      case inr hx =>
        have ⟨b, hb', hr, hx⟩ := hx
        exact hc.base_result hv hb' hr (hb hx)

-- A quiet sequence of calls binds quietly, and its result is everything that the callees return.
theorem callAll_quiet {callees : List Method} {results : ObjectSet}
    (h : (callAll call u results callees).1.grown = false) :
    (∀ x ∈ results, x ∈ (callAll call u results callees).2) ∧
    ∀ callee ∈ callees,
      ((u.bindReceiver call callee).bindParams call callee).grown = false ∧
      ∀ x ∈ u.facts.returned call callee, x ∈ (callAll call u results callees).2 := by
  induction callees generalizing u results
  case nil => simp [callAll]
  case cons callee rest hi =>
    unfold callAll at h ⊢
    have hb : ((u.bindReceiver call callee).bindParams call callee).grown = false := by
      rw [← (callAll_extends call rest _ _).quiet h]
      exact h
    have hu := (bind_extends u call callee).quiet hb
    rw [hu] at h ⊢
    have ⟨hr, hc⟩ := hi h
    refine ⟨fun x hx => hr x (ObjectSet.mem_union.mpr (.inl hx)), fun c hm => ?_⟩
    cases List.mem_cons.mp hm
    case inl he =>
      subst he
      exact ⟨hb, fun x hx => hr x (ObjectSet.mem_union.mpr (.inr hx))⟩
    case inr hm => exact hc c hm

end Update
end PointsTo.Analysis
