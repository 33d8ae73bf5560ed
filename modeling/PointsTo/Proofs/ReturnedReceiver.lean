import PointsTo.Proofs.Run

namespace PointsTo.Analysis

namespace Update

def bind (call : Invoke) (u : Update) (callee : Method) : Update :=
  (u.bindReceiver call callee).bindParams call callee

-- `callAll` with another way to take a result from a callee.
def callAllWith (take : Facts → Method → ObjectSet) (call : Invoke) (u : Update)
    (results : ObjectSet) : List Method → Update × ObjectSet
  | [] => (u, results)
  | callee :: rest =>
    let u := u.bind call callee
    callAllWith take call u (results.union (take u.facts callee)) rest

variable {take : Facts → Method → ObjectSet} {call : Invoke} {u : Update} {results : ObjectSet}
  {callee : Method} {callees : List Method}

theorem callAllWith_returned :
    callAllWith (Facts.returned · call ·) call u results callees =
      callAll call u results callees := by
  induction callees generalizing u results
  case nil                 => rfl
  case cons callee rest hi => exact hi

-- What is taken from the callees has no influence on how they are bound.
theorem fst_callAllWith :
    (callAllWith take call u results callees).1 = callees.foldl (bind call) u := by
  induction callees generalizing u results
  case nil                 => rfl
  case cons callee rest hi => exact hi

-- The result is taken from each callee when it and those before it are bound.
theorem mem_callAllWith {x : Int} :
    x ∈ (callAllWith take call u results callees).2 ↔ x ∈ results ∨
      ∃ pre callee post, callees = pre ++ callee :: post ∧
        x ∈ take ((pre.foldl (bind call) u).bind call callee).facts callee := by
  induction callees generalizing u results
  case nil => simp [callAllWith]
  case cons c rest hi =>
    rw [callAllWith, hi, ObjectSet.mem_union, or_assoc]
    refine or_congr_right ⟨?_, ?_⟩
    · rintro (hx | ⟨pre, callee, post, he, hx⟩)
      · exact ⟨[], c, rest, rfl, hx⟩
      · exact ⟨c :: pre, callee, post, by rw [he]; rfl, hx⟩
    · intro ⟨pre, callee, post, he, hx⟩
      cases pre
      case nil =>
        cases he
        exact .inl hx
      case cons d pre =>
        cases he
        exact .inr ⟨pre, callee, post, rfl, hx⟩

theorem bind_foldl_extends (call : Invoke) (callees : List Method) (u : Update) :
    Extends u (callees.foldl (bind call) u) :=
  .foldl (fun u callee => bind_extends u call callee) callees u

theorem pointees_bindReceiver_subset {v b : Var} (hv : callee.receiver = some v)
    (hb : call.base = some b) :
    pointees (u.bindReceiver call callee).facts.toSet b ⊆
      pointees (u.bindReceiver call callee).facts.toSet v := by
  intro x hx
  simp only [bindReceiver, hv, hb] at hx ⊢
  refine mem_point.mpr (.inr ⟨x, ?_, rfl⟩)
  cases mem_point.mp (mem_pointees.mp hx)
  case inl hx => exact hx
  case inr hx =>
    obtain ⟨o, ho, ⟨⟩⟩ := hx
    exact ho

-- Only parameters get something when the arguments are passed.
theorem pointees_bindParams {w : Var} (h : w ∉ callee.params) :
    pointees (u.bindParams call callee).facts.toSet w = pointees u.facts.toSet w := by
  refine subset_antisymm ?_ (pointees_mono (bindParams_extends u call callee).le w)
  have within : (u.bindParams call callee).facts.toSet ⊆
      { x | ∀ o, x = .points w o → x ∈ u.facts.toSet } := by
    refine foldl_within (fun x hx _ _ => hx) fun pa hpa u' hu' => ?_
    have other : pa.1 ≠ w := fun he => h (he ▸ (List.of_mem_zip hpa).left)
    refine flow_within hu' fun o _ o' he => ?_
    exact absurd (Fact.points.inj he).left other
  exact fun o ho => within ho o rfl

-- A base that is no parameter has been passed to the receiver when the callee is bound.
theorem pointees_base_subset_receiver {v b : Var} (hv : callee.receiver = some v)
    (hb : call.base = some b) (hn : b ∉ callee.params) :
    pointees (u.bind call callee).facts.toSet b ⊆ pointees (u.bind call callee).facts.toSet v := by
  have passed : pointees (u.bindReceiver call callee).facts.toSet b ⊆
      pointees (u.bindReceiver call callee).facts.toSet v :=
    pointees_bindReceiver_subset hv hb
  unfold bind
  rw [pointees_bindParams hn]
  exact passed.trans (pointees_mono (bindParams_extends _ call callee).le v)

end Update

namespace Facts

variable {f : Facts} {call : Invoke} {callee : Method} {targets : List Method} {x : Int}

-- What a call takes from a callee without the rule for receivers.
def plainReturned (f : Facts) (call : Invoke) (callee : Method) : ObjectSet :=
  if call.result.isNone then ∅ else .unionAll (callee.returned.map f.points.get)

theorem mem_plainReturned : x ∈ f.plainReturned call callee ↔
    ∃ v, call.result = some v ∧ ∃ w ∈ callee.returned, x ∈ f.points.get w := by
  unfold plainReturned
  cases call.result
  case none   => simp
  case some v => simp [ObjectSet.mem_unionAll]

theorem mem_returned_of_plain (h : x ∈ f.plainReturned call callee) :
    x ∈ f.returned call callee := by
  have ⟨_, hv, _, hw, hx⟩ := mem_plainReturned.mp h
  exact mem_returned_of_mem hv hw hx

theorem result_of_mem_returned (h : x ∈ f.returned call callee) : ∃ v, call.result = some v := by
  cases hr : call.result
  case none   => simp [returned, hr] at h
  case some v => exact ⟨v, rfl⟩

-- The rule adds nothing when the receiver has all that the base has.
theorem returned_eq_of_bound
    (h : ∀ v b, callee.receiver = some v → call.base = some b →
      pointees f.toSet b ⊆ pointees f.toSet v) :
    f.returned call callee = f.plainReturned call callee := by
  refine ObjectSet.ext_mem fun x => ⟨fun hx => ?_, mem_returned_of_plain⟩
  have ⟨v, hv⟩ := result_of_mem_returned hx
  refine mem_plainReturned.mpr ⟨v, hv, ?_⟩
  cases of_mem_returned hx
  case inl hx => exact hx
  case inr hx =>
    have ⟨b, hb, hr, hx⟩ := hx
    unfold Method.returnsReceiver at hr
    split at hr
    case h_1 w hw => exact ⟨w, by simpa using hr, h w b hw hb hx⟩
    case h_2      => contradiction

-- `invoke` with another way to take a result from a callee.
def invokeWith (take : Facts → Method → ObjectSet) (f : Facts) (call : Invoke)
    (targets : List Method) : Update :=
  let (u, results) := Update.callAllWith take call ⟨f, false⟩ ∅ (targets.filter Method.hasBody)
  match call.result with
  | some v => u.point v results
  | none => u

theorem invokeWith_returned (f : Facts) (call : Invoke) (targets : List Method) :
    f.invokeWith (returned · call ·) call targets = f.invoke call targets := by
  unfold invokeWith
  rw [Update.callAllWith_returned]
  rfl

-- The facts once all callees are bound and nothing has been taken from them.
def bound (f : Facts) (call : Invoke) (targets : List Method) : Update :=
  (targets.filter Method.hasBody).foldl (Update.bind call) ⟨f, false⟩

def taken (take : Facts → Method → ObjectSet) (f : Facts) (call : Invoke) (targets : List Method) :
    ObjectSet :=
  (Update.callAllWith take call ⟨f, false⟩ ∅ (targets.filter Method.hasBody)).2

section

variable {take take' : Facts → Method → ObjectSet}

theorem mem_taken : x ∈ f.taken take call targets ↔
    ∃ pre callee post, targets.filter Method.hasBody = pre ++ callee :: post ∧
      x ∈ take ((pre.foldl (Update.bind call) ⟨f, false⟩).bind call callee).facts callee := by
  unfold taken
  rw [Update.mem_callAllWith]
  simp

theorem invokeWith_eq : f.invokeWith take call targets =
    match call.result with
    | some v => (f.bound call targets).point v (f.taken take call targets)
    | none => f.bound call targets := by
  have first : (Update.callAllWith take call ⟨f, false⟩ ∅ (targets.filter Method.hasBody)).1 =
      f.bound call targets :=
    Update.fst_callAllWith
  rw [← first]
  rfl

theorem invokeWith_congr (h : ∀ callee ∈ targets, ∀ u : Update,
      take (u.bind call callee).facts callee = take' (u.bind call callee).facts callee) :
    f.invokeWith take call targets = f.invokeWith take' call targets := by
  have same : f.taken take call targets = f.taken take' call targets := by
    refine ObjectSet.ext_mem fun x => ?_
    rw [mem_taken, mem_taken]
    refine exists_congr fun pre => exists_congr fun callee => exists_congr fun post =>
      and_congr_right fun he => ?_
    have target : callee ∈ targets.filter Method.hasBody := by simp [he]
    rw [h callee (List.mem_filter.mp target).left]
  rw [invokeWith_eq, invokeWith_eq, same]

theorem mem_invokeWith {y : Fact} :
    y ∈ (f.invokeWith take call targets).facts.toSet ↔
      y ∈ (f.bound call targets).facts.toSet ∨
        ∃ v, call.result = some v ∧ ∃ o ∈ f.taken take call targets, y = .points v o := by
  rw [invokeWith_eq]
  split
  case h_1 v hv => simp [Update.mem_point, hv]
  case h_2 hn   => simp [hn]

theorem fields_invokeWith :
    (f.invokeWith take call targets).facts.fields = (f.bound call targets).facts.fields := by
  rw [invokeWith_eq]
  split
  case h_1 =>
    unfold Update.point
    split <;> rfl
  case h_2 => rfl

theorem invokeWith_extends (take : Facts → Method → ObjectSet) (f : Facts) (call : Invoke)
    (targets : List Method) : Update.Extends ⟨f, false⟩ (f.invokeWith take call targets) := by
  have binds : Update.Extends ⟨f, false⟩ (f.bound call targets) :=
    Update.bind_foldl_extends call _ _
  rw [invokeWith_eq]
  split
  case h_1 => exact binds.trans (Update.point_extends ..)
  case h_2 => exact binds

end

-- The facts when a callee is bound are among those when all are.
theorem bound_le {pre post : List Method}
    (he : targets.filter Method.hasBody = pre ++ callee :: post) :
    ((pre.foldl (Update.bind call) ⟨f, false⟩).bind call callee).facts.toSet ⊆
      (f.bound call targets).facts.toSet := by
  unfold bound
  rw [he, List.foldl_append, List.foldl_cons]
  exact (Update.bind_foldl_extends call post _).le

-- Without the rule no more is taken, and what is missing is what the base stood in for.
theorem mem_taken_of_plain (h : x ∈ f.taken (plainReturned · call ·) call targets) :
    x ∈ f.taken (returned · call ·) call targets := by
  have ⟨pre, callee, post, he, hx⟩ := mem_taken.mp h
  exact mem_taken.mpr ⟨pre, callee, post, he, mem_returned_of_plain hx⟩

theorem of_mem_taken (h : x ∈ f.taken (returned · call ·) call targets) :
    x ∈ f.taken (plainReturned · call ·) call targets ∨
      ∃ b, call.base = some b ∧ x ∈ pointees (f.bound call targets).facts.toSet b := by
  have ⟨pre, callee, post, he, hx⟩ := mem_taken.mp h
  have ⟨v, hv⟩ := result_of_mem_returned hx
  cases of_mem_returned hx
  case inl hx =>
    exact .inl (mem_taken.mpr ⟨pre, callee, post, he, mem_plainReturned.mpr ⟨v, hv, hx⟩⟩)
  case inr hx =>
    have ⟨b, hb, _, hx⟩ := hx
    exact .inr ⟨b, hb, pointees_mono (bound_le he) b hx⟩

-- What the base had is passed to the receiver, and taken from a callee that returns it.
theorem base_subset_taken {this r b : Var} (hb : call.base = some b) (hr : call.result = some r)
    (hm : callee ∈ targets) (body : callee.hasBody) (hthis : callee.receiver = some this)
    (returns : this ∈ callee.returned) :
    ∀ x ∈ pointees f.toSet b, x ∈ f.taken (returned · call ·) call targets := by
  intro x hx
  have ⟨pre, post, he⟩ := List.append_of_mem (List.mem_filter.mpr ⟨hm, body⟩)
  refine mem_taken.mpr ⟨pre, callee, post, he, mem_returned_of_mem hr returns ?_⟩
  have binds := Update.bind_foldl_extends call pre ⟨f, false⟩
  have base := (binds.trans (Update.bindReceiver_extends _ call callee)).le
  have received := Update.pointees_bindReceiver_subset hthis hb (pointees_mono base b hx)
  exact pointees_mono (Update.bindParams_extends _ call callee).le this received

theorem plain_le_invoke (f : Facts) (call : Invoke) (targets : List Method) :
    (f.invokeWith (plainReturned · call ·) call targets).facts.toSet ⊆
    (f.invokeWith (returned · call ·) call targets).facts.toSet := by
  intro y hy
  refine mem_invokeWith.mpr ((mem_invokeWith.mp hy).imp_right ?_)
  intro ⟨v, hv, o, ho, he⟩
  exact ⟨v, hv, o, mem_taken_of_plain ho, he⟩

theorem extra_of_mem_invoke {y : Fact}
    (h : y ∈ (f.invokeWith (returned · call ·) call targets).facts.toSet)
    (hn : y ∉ (f.invokeWith (plainReturned · call ·) call targets).facts.toSet) :
    ∃ r b o, call.result = some r ∧ call.base = some b ∧ y = .points r o ∧
      o ∈ pointees (f.invokeWith (plainReturned · call ·) call targets).facts.toSet b := by
  rw [mem_invokeWith] at hn
  push Not at hn
  have ⟨r, hr, o, ho, he⟩ := (mem_invokeWith.mp h).resolve_left hn.left
  cases of_mem_taken ho
  case inl ho => exact absurd he (hn.right r hr o ho)
  case inr ho =>
    have ⟨b, hb, ho⟩ := ho
    exact ⟨r, b, o, hr, hb, he, pointees_mono (fun _ h => mem_invokeWith.mpr (.inl h)) b ho⟩

end Facts

namespace State

-- What a call leads to whose effect on the facts is `u`.
def afterCall (p : Problem) (m : Method) (st : State) (call : Invoke) (u : Update) :
    State × Bool :=
  let callees := p.scene.targets call (st.facts.receivers call)
  let st := { st.recordCalls p m callees with facts := u.facts }
  (if u.grown then st.report (.changed m (.invoke call)) else st, u.grown)

-- A call without the rule for callees that return their receiver.
def plainCall (p : Problem) (m : Method) (st : State) (call : Invoke) : State × Bool :=
  st.afterCall p m call (st.facts.invokeWith (Facts.plainReturned · call ·) call
    (p.scene.targets call (st.facts.receivers call)))

theorem step_invoke (p : Problem) (m : Method) (cs : Constants) (st : State) (call : Invoke) :
    st.step p m cs (.ofStmt p (.invoke call)) =
      st.afterCall p m call (st.facts.invokeWith (Facts.returned · call ·) call
        (p.scene.targets call (st.facts.receivers call))) := by
  rw [Facts.invokeWith_returned]
  simp [step, afterCall, note, Problem.finding, Facts.step]

variable {p : Problem} {m : Method} {cs : Constants} {st : State} {call : Invoke} {u u' : Update}

@[simp]
theorem facts_afterCall : (st.afterCall p m call u).1.facts = u.facts := by
  unfold afterCall
  dsimp only
  split <;> rfl

-- Calls and discoveries do not depend on the effect.
theorem calls_afterCall :
    (st.afterCall p m call u).1.graph = (st.afterCall p m call u').1.graph ∧
      (st.afterCall p m call u).1.discovered = (st.afterCall p m call u').1.discovered := by
  unfold afterCall
  dsimp only
  split <;> split <;> exact ⟨rfl, rfl⟩

theorem step_eq_plainCall
    (h : ∀ b, call.base = some b → ∀ callee ∈ p.scene.targets call (st.facts.receivers call),
      b ∉ callee.params) :
    st.step p m cs (.ofStmt p (.invoke call)) = st.plainCall p m call := by
  rw [step_invoke, plainCall]
  congr 1
  refine Facts.invokeWith_congr fun callee hc u => Facts.returned_eq_of_bound fun v b hv hb => ?_
  exact Update.pointees_base_subset_receiver hv hb (h b hb callee hc)

end State

-- Two outcomes of a call that agree but for its result variable, where the first may have more,
-- all of it from what the base points to.
structure AgreeButResult (call : Invoke) (full plain : State × Bool) : Prop where
  fields     : full.1.facts.fields = plain.1.facts.fields
  graph      : full.1.graph = plain.1.graph
  discovered : full.1.discovered = plain.1.discovered
  points     : ∀ v, call.result ≠ some v →
    full.1.facts.points.get v = plain.1.facts.points.get v
  le_result  : ∀ r, call.result = some r →
    pointees plain.1.facts.toSet r ⊆ pointees full.1.facts.toSet r
  from_base  : ∀ r, call.result = some r → ∀ x ∈ pointees full.1.facts.toSet r,
    x ∉ pointees plain.1.facts.toSet r →
      ∃ b, call.base = some b ∧ x ∈ pointees plain.1.facts.toSet b
  changed    : full.2 = true ↔ plain.2 = true ∨ ∃ r, call.result = some r ∧
    ∃ x ∈ pointees full.1.facts.toSet r, x ∉ pointees plain.1.facts.toSet r

theorem State.agree_plainCall (p : Problem) (m : Method) (cs : Constants) (st : State)
    (call : Invoke) :
    AgreeButResult call (st.step p m cs (.ofStmt p (.invoke call))) (st.plainCall p m call) := by
  rw [step_invoke, plainCall]
  generalize p.scene.targets call (st.facts.receivers call) = targets
  have full := Facts.invokeWith_extends (Facts.returned · call ·) st.facts call targets
  have plain := Facts.invokeWith_extends (Facts.plainReturned · call ·) st.facts call targets
  have le := Facts.plain_le_invoke st.facts call targets
  constructor
  case fields     => simp [Facts.fields_invokeWith]
  case graph      => exact calls_afterCall.left
  case discovered => exact calls_afterCall.right
  case points =>
    intro v hv
    simp only [facts_afterCall]
    refine ObjectSet.ext_mem fun x => ⟨fun hx => ?_, fun hx => le (a := .points v x) hx⟩
    by_contra hn
    have ⟨r, _, _, hr, _, he, _⟩ := Facts.extra_of_mem_invoke (y := .points v x) hx hn
    cases he
    exact hv hr
  case le_result =>
    intro r _
    simp only [facts_afterCall]
    exact pointees_mono le r
  case from_base =>
    intro r _ x hx hn
    simp only [facts_afterCall] at hx hn ⊢
    have ⟨_, b, o, _, hb, he, ho⟩ := Facts.extra_of_mem_invoke (y := .points r x) hx hn
    cases he
    exact ⟨b, hb, ho⟩
  case changed =>
    show (Facts.invokeWith ..).grown = true ↔ (Facts.invokeWith ..).grown = true ∨ _
    simp only [facts_afterCall]
    rw [full.grown_iff, plain.grown_iff]
    constructor
    case mp =>
      intro ⟨y, hy, hn⟩
      by_cases hp : y ∈ (st.facts.invokeWith (Facts.plainReturned · call ·) call targets).facts.toSet
      case pos => exact .inl ⟨y, hp, hn⟩
      case neg =>
        have ⟨r, _, o, hr, _, he, _⟩ := Facts.extra_of_mem_invoke hy hp
        cases he
        exact .inr ⟨r, hr, o, hy, hp⟩
    case mpr =>
      rintro (⟨y, hy, hn⟩ | ⟨r, _, x, hx, hn⟩)
      · exact ⟨y, le hy, hn⟩
      · exact ⟨.points r x, hx, fun hf => hn (plain.le hf)⟩

-- Binding the receiver passes on the base before a result is taken, so the rule has nothing left to
-- add unless binding the parameters has added to the base itself.
theorem receiver_rule_adds_base (p : Problem) (m : Method) (cs : Constants) (st : State)
    (call : Invoke) :
    ((∀ b, call.base = some b → ∀ callee ∈ p.scene.targets call (st.facts.receivers call),
        b ∉ callee.params) →
      st.step p m cs (.ofStmt p (.invoke call)) = st.plainCall p m call) ∧
    AgreeButResult call (st.step p m cs (.ofStmt p (.invoke call))) (st.plainCall p m call) ∧
    ∀ b r, call.base = some b → call.result = some r →
      ∀ callee ∈ p.scene.targets call (st.facts.receivers call), callee.hasBody →
        ∀ this, callee.receiver = some this → .ret (some this) ∈ callee.body →
          pointees st.facts.toSet b ⊆
            pointees (st.step p m cs (.ofStmt p (.invoke call))).1.facts.toSet r := by
  refine ⟨State.step_eq_plainCall, State.agree_plainCall p m cs st call, ?_⟩
  intro b r hb hr callee hm body this hthis returns x hx
  have returned : this ∈ callee.returned := List.mem_filterMap.mpr ⟨_, returns, rfl⟩
  have taken := Facts.base_subset_taken hb hr hm body hthis returned x hx
  rw [State.step_invoke, State.facts_afterCall]
  exact Facts.mem_invokeWith.mpr (.inr ⟨r, hr, x, taken, rfl⟩)

namespace Sample.Linking

-- A method that returns its receiver, and that calls itself.
def varOf (index : Nat) (name : String) : Var where
  owner := some 0
  index
  name
  type  := "Node"

def this : Var := varOf 0 "this"

def next : Var := varOf 1 "p0"

def node : Var := varOf 2 "node"

def linked : Var := varOf 3 "linked"

def callOn (base : Var) : Invoke where
  result := some linked
  kind   := .special
  method := ⟨"Node", "link(Node)"⟩
  base   := some base
  args   := [node]

def link : Method where
  id        := 0
  owner     := "Node"
  name      := "link"
  modifiers := {}
  receiver  := some this
  params    := [next]
  vars      := [this, next, node, linked]
  body      := [.invoke (callOn next), .invoke (callOn node), .ret (some this)]

def program : Program where
  classes := [{ name := "Node", methods := [link] }]

def problem : Problem where
  program
  scene     := { hierarchy := { program }, objects := {} }
  entries   := [link]
  maxSweeps := 5000
  maxSteps  := 5000

-- Only `node` points to something.
def state : State where
  facts := { points := (∅ : Store Var).add node 1 }

-- Called on its own parameter, the method gets the argument as its base only after the receiver is
-- bound. Called on anything else, it makes no difference whether there is the rule.
theorem self_calls :
    (state.step problem link ∅ (.ofStmt problem (.invoke (callOn next)))).1.facts.points.get linked =
      .ofList [1] ∧
    (state.plainCall problem link (callOn next)).1.facts.points.get linked = ∅ ∧
    AgreeButResult (callOn next)
      (state.step problem link ∅ (.ofStmt problem (.invoke (callOn next))))
      (state.plainCall problem link (callOn next)) ∧
    state.step problem link ∅ (.ofStmt problem (.invoke (callOn node))) =
      state.plainCall problem link (callOn node) ∧
    pointees state.facts.toSet node ⊆ pointees
      (state.step problem link ∅ (.ofStmt problem (.invoke (callOn node)))).1.facts.toSet linked := by
  have ⟨_, agree, _⟩ := receiver_rule_adds_base problem link ∅ state (callOn next)
  have ⟨same, _, passed⟩ := receiver_rule_adds_base problem link ∅ state (callOn node)
  have target : link ∈ problem.scene.targets (callOn node) (state.facts.receivers (callOn node)) := by
    decide +kernel
  refine ⟨by decide +kernel, by decide +kernel, agree, same ?_, ?_⟩
  · intro b hb
    cases hb
    decide +kernel
  · exact passed node linked rfl rfl link target rfl this rfl (by decide +kernel)

end Sample.Linking
end PointsTo.Analysis
