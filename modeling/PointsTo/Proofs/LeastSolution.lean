import PointsTo.Proofs.FixedPoint

namespace PointsTo.Analysis

-- A candidate: facts, reached methods and call edges.
@[ext]
structure Solution where
  facts   : Set Fact
  reached : Set Method
  calls   : Set (Method × Method)

namespace Solution

instance : LE Solution where
  le S T := S.facts ⊆ T.facts ∧ S.reached ⊆ T.reached ∧ S.calls ⊆ T.calls

theorem le_antisymm {S T : Solution} (h₁ : S ≤ T) (h₂ : T ≤ S) : S = T :=
  Solution.ext (h₁.1.antisymm h₂.1) (h₁.2.1.antisymm h₂.2.1) (h₁.2.2.antisymm h₂.2.2)

end Solution

def Result.solution (r : Result) : Solution where
  facts   := r.facts.toSet
  reached := { m | m ∈ r.reachable }
  calls   := { e | e.2 ∈ r.graph.callees e.1 }

def receivers (F : Set Fact) (call : Invoke) : Set Int :=
  match call.base with
  | some v => pointees F v
  | none => ∅

theorem receivers_mono {F G : Set Fact} (h : F ⊆ G) (call : Invoke) :
    receivers F call ⊆ receivers G call := by
  unfold receivers
  split
  case h_1 v _ => exact pointees_mono h v
  case h_2     => exact subset_rfl

theorem Facts.mem_receivers {f : Facts} {call : Invoke} {id : Int} :
    id ∈ f.receivers call ↔ id ∈ Analysis.receivers f.toSet call := by
  unfold receivers Analysis.receivers
  cases call.base <;> simp

namespace Problem

-- The methods that a call runs, the declared method as a stand-in left out.
def runs (p : Problem) (F : Set Fact) (call : Invoke) : Set Method :=
  p.scene.runs call (receivers F call)

theorem runs_mono {p : Problem} {F G : Set Fact} (h : F ⊆ G) (call : Invoke) :
    p.runs F call ⊆ p.runs G call :=
  Scene.runs_mono (receivers_mono h call)

-- An array index selects the element that its own literal names, or the wildcard.
structure Solves (p : Problem) (S : Solution) : Prop where
  roots     : ∀ m ∈ p.roots, m ∈ S.reached
  satisfied : ∀ m ∈ S.reached, m.hasBody → ∀ s ∈ m.body, Satisfies p S.facts ∅ (p.runs S.facts) s
  calls     : ∀ m ∈ S.reached, m.hasBody → ∀ call, .invoke call ∈ m.body →
    ∀ callee ∈ p.runs S.facts call, (m, callee) ∈ S.calls
  callees   : ∀ m ∈ S.reached, m.hasBody → ∀ call, .invoke call ∈ m.body →
    ∀ callee ∈ p.runs S.facts call, callee.hasBody → callee ∈ S.reached

end Problem

-- Calls that are not direct refer to methods that cannot be run themselves, and nothing is assigned
-- to the index of an array access.
structure Problem.Monotone (p : Problem) : Prop where
  declared : ∀ m ∈ p.methods, ∀ call, .invoke call ∈ m.body → call.kind.isDirect = false →
    ∀ declared, p.scene.hierarchy.resolve call.method = some declared →
      declared.isNative ∨ declared.isAbstract
  index    : ∀ m ∈ p.methods, ∀ s ∈ m.body, ∀ i, s.index? = some i →
    (∀ value, .literal i value ∉ m.body) ∧ ∀ rhs, .copy i rhs ∉ m.body

section Least

variable {p : Problem} {F : Set Fact} {cs cs' : Constants} {targets targets' : Invoke → Set Method}
  {s : Stmt}

theorem Satisfies.mono_targets (h : Satisfies p F cs targets s)
    (ht : ∀ call, s = .invoke call → targets' call ⊆ targets call) :
    Satisfies p F cs targets' s := by
  cases s
  case invoke call => exact fun c hc => h c (ht call rfl hc)
  all_goals exact h

theorem Satisfies.congr_key (h : Satisfies p F cs targets s)
    (hk : cs.key (s.index?) = cs'.key (s.index?)) : Satisfies p F cs' targets s := by
  cases s
  case loadArray lhs base index =>
    have hk : cs.key index = cs'.key index := hk
    exact fun o ho k hr => h o ho k (hk ▸ hr)
  case storeArray base index rhs =>
    have hk : cs.key index = cs'.key index := hk
    exact fun o ho => hk ▸ h o ho
  all_goals exact h

-- The constraints are inclusions, so what satisfies them all in common satisfies them.
theorem satisfies_of_forall {P : Set Fact → Prop} (h : ∀ G, P G → F ⊆ G)
    (hF : ∀ x, (∀ G, P G → x ∈ G) → x ∈ F) (hs : ∀ G, P G → Satisfies p G cs (p.runs G) s) :
    Satisfies p F cs (p.runs F) s := by
  cases s
  case alloc site lhs type => exact fun id hid => hF _ fun G hG => hs G hG id hid
  case copy | cast         => exact fun o ho => hF _ fun G hG => hs G hG (h G hG ho)
  case loadField lhs base field =>
    intro o ho x hx
    exact hF _ fun G hG => hs G hG o (owners_mono (h G hG) base field ho) (h G hG hx)
  case storeField base field rhs =>
    intro o ho x hx
    exact hF _ fun G hG => hs G hG o (owners_mono (h G hG) base field ho) (h G hG hx)
  case loadArray lhs base index =>
    intro o ho k hk x hx
    exact hF _ fun G hG => hs G hG o (h G hG ho) k hk (h G hG hx)
  case storeArray base index rhs =>
    intro o ho x hx
    exact hF _ fun G hG => hs G hG o (h G hG ho) (h G hG hx)
  case invoke call =>
    intro callee hc hb
    have passes (G) (hG : P G) := hs G hG callee (Problem.runs_mono (h G hG) call hc) hb
    exact {
      receiver := fun v b hv hbase x hx => hF _ fun G hG =>
        (passes G hG).receiver v b hv hbase (h G hG hx)
      params := fun pa hpa x hx => hF _ fun G hG => (passes G hG).params pa hpa (h G hG hx)
      result := fun v hv w hw x hx => hF _ fun G hG => (passes G hG).result v hv w hw (h G hG hx) }
  all_goals trivial

end Least

namespace Problem

-- What all solutions have in common.
def least (p : Problem) : Solution where
  facts   := { x | ∀ S, p.Solves S → x ∈ S.facts }
  reached := { m | ∀ S, p.Solves S → m ∈ S.reached }
  calls   := { e | ∀ S, p.Solves S → e ∈ S.calls }

variable {p : Problem} {S : Solution}

theorem least_le (h : p.Solves S) : p.least ≤ S :=
  ⟨fun _ hx => hx S h, fun _ hm => hm S h, fun _ he => he S h⟩

theorem solves_least (p : Problem) : p.Solves p.least where
  roots m hm S hS := hS.roots m hm
  satisfied := by
    intro m hm hb s hs
    -- The constraint holds in every solution, and so in what they have in common.
    have sub (G : Set Fact) (hG : ∃ S, p.Solves S ∧ S.facts = G) : p.least.facts ⊆ G := by
      have ⟨S, hS, he⟩ := hG
      exact he ▸ (least_le hS).1
    refine satisfies_of_forall sub (fun x hx S hS => hx S.facts ⟨S, hS, rfl⟩) ?_
    intro G ⟨S, hS, he⟩
    exact he ▸ hS.satisfied m (hm S hS) hb s hs
  calls := by
    intro m hm hb call hcall callee hc S hS
    exact hS.calls m (hm S hS) hb call hcall callee (runs_mono (least_le hS).1 call hc)
  callees := by
    intro m hm hb call hcall callee hc hbody S hS
    exact hS.callees m (hm S hS) hb call hcall callee (runs_mono (least_le hS).1 call hc) hbody

theorem isLeast_least (p : Problem) : IsLeast { S | p.Solves S } p.least :=
  ⟨p.solves_least, fun _ hS => least_le hS⟩

end Problem

namespace Constants

-- Nothing is known of a variable beyond its own literal, unless something was assigned to it.
theorem get?_after_of_unassigned {cs : Constants} {s : Stmt} {i : Var}
    (hl : ∀ value, s ≠ .literal i value) (hc : ∀ rhs, s ≠ .copy i rhs) :
    Table.get? (cs.after s) i = Table.get? cs i := by
  cases s
  case literal lhs value =>
    have hi : i ≠ lhs := fun he => hl value (he ▸ rfl)
    simp [after, Table.get?_set, hi]
  case copy lhs rhs =>
    have hi : i ≠ lhs := fun he => hc rhs (he ▸ rfl)
    simp only [after]
    split
    case h_1 => simp [Table.get?_set, hi]
    case h_2 => rfl
  all_goals rfl

theorem get?_foldl_of_unassigned {stmts : List Stmt} {cs : Constants} {i : Var}
    (hl : ∀ value, .literal i value ∉ stmts) (hc : ∀ rhs, .copy i rhs ∉ stmts) :
    Table.get? (stmts.foldl after cs) i = Table.get? cs i := by
  induction stmts generalizing cs
  case nil => rfl
  case cons s rest hi =>
    simp only [List.mem_cons, not_or] at hl hc
    rw [List.foldl_cons, hi (fun v => (hl v).2) fun r => (hc r).2]
    exact get?_after_of_unassigned (fun v he => (hl v).1 he.symm) fun r he => (hc r).1 he.symm

theorem get?_ofStmts_of_unassigned {stmts : List Stmt} {i : Var}
    (hl : ∀ value, .literal i value ∉ stmts) (hc : ∀ rhs, .copy i rhs ∉ stmts) :
    Table.get? (ofStmts stmts) i = none :=
  (get?_foldl_of_unassigned hl hc).trans (Table.get?_empty i)

-- An index to which the body assigns nothing always selects what its own literal says.
theorem key_of_unassigned {body : List Stmt} {cs : Constants} {index : Option Var}
    (h : ∀ i, index = some i → (∀ value, .literal i value ∉ body) ∧ ∀ rhs, .copy i rhs ∉ body)
    (hc : cs.From body) : cs.key index = key ∅ index := by
  cases index
  case none => rfl
  case some i =>
    have ⟨stmts, hsub, he⟩ := hc
    have ⟨hl, hcopy⟩ := h i rfl
    have hnone : Table.get? cs i = none := by
      rw [he]
      exact get?_ofStmts_of_unassigned (fun v hv => hl v (hsub hv)) fun r hr => hcopy r (hsub hr)
    simp [key, int64?, hnone]

end Constants

namespace Problem.Monotone

variable {p : Problem} {m : Method} {s : Stmt} {cs : Constants}

theorem key_eq (h : p.Monotone) (hm : m ∈ p.methods) (hs : s ∈ m.body) (hc : cs.From m.body) :
    cs.key (s.index?) = Constants.key ∅ (s.index?) :=
  Constants.key_of_unassigned (h.index m hm s hs) hc

theorem targets_subset (h : p.Monotone) (hm : m ∈ p.methods) {call : Invoke}
    (hs : .invoke call ∈ m.body) (f : Facts) : p.targets f call ⊆ p.runs f.toSet call := by
  intro callee hc
  cases Scene.mem_targets_iff.mp hc
  case inl hr =>
    exact Scene.runs_mono (fun _ hid => Facts.mem_receivers.mp hid) hr
  case inr hd =>
    -- The declared method would have to be one that can be run.
    have ⟨hres, hn, ha, hk, _⟩ := hd
    have := h.declared m hm call hs hk callee hres
    simp [hn, ha] at this

end Problem.Monotone

theorem Problem.runs_subset_targets (p : Problem) (f : Facts) (call : Invoke) :
    p.runs f.toSet call ⊆ p.targets f call := by
  intro callee hc
  exact Scene.runs_subset_targets (Scene.runs_mono (fun _ hid => Facts.mem_receivers.mpr hid) hc)

-- All that a run knows of is in the solution.
structure Below (p : Problem) (S : Solution) (st : State) : Prop where
  facts   : st.facts.toSet ⊆ S.facts
  reached : ∀ m ∈ st.discovered, m ∈ S.reached ∧ m ∈ p.methods
  calls   : ∀ a b, b ∈ st.graph.successors a → (a, b) ∈ S.calls

theorem Below.step {p : Problem} {S : Solution} {st : State} {m : Method} {cs : Constants}
    {s : Stmt} (coherent : p.Coherent) (mono : p.Monotone) (hS : p.Solves S)
    (h : Below p S st) (hm : m ∈ st.discovered) (hb : m.hasBody) (hs : s ∈ m.body)
    (hc : cs.From m.body) : Below p S (st.step p m cs (.ofStmt p s)).1 := by
  have ⟨hr, hmethods⟩ := h.reached m hm
  have targets {call} (hcall : s = .invoke call) : p.targets st.facts call ⊆ p.runs S.facts call :=
    (mono.targets_subset hmethods (hcall ▸ hs) st.facts).trans (Problem.runs_mono h.facts call)
  have satisfied := (hS.satisfied m hr hb s hs).congr_key (mono.key_eq hmethods hs hc).symm
  constructor
  case facts =>
    rw [State.facts_step]
    exact Facts.step_within h.facts satisfied fun call hcall => targets hcall
  case reached =>
    intro x hx
    cases State.mem_discovered_step.mp hx
    case inl hx => exact h.reached x hx
    case inr hx =>
      have ⟨_, hx, hbody⟩ := hx
      have ⟨call, hcall, hx⟩ := Problem.mem_finding_targets hx
      refine ⟨hS.callees m hr hb call (hcall ▸ hs) x (targets hcall hx) hbody, ?_⟩
      exact List.mem_append_left _ (coherent.mem_methods hx)
  case calls =>
    intro a b hab
    cases State.mem_successors_step.mp hab
    case inl hab => exact h.calls a b hab
    case inr hab =>
      have ⟨ha, hb'⟩ := hab
      have ⟨call, hcall, hb'⟩ := Problem.mem_finding_targets hb'
      exact ha ▸ hS.calls m hr hb call (hcall ▸ hs) b (targets hcall hb')

theorem Below.solve {p : Problem} {S : Solution} (coherent : p.Coherent)
    (mono : p.Monotone) (hS : p.Solves S) : Below p S p.solve.state := by
  refine Preserved.solve ⟨?_, ?_, ?_, fun _ h => { h with }, fun _ _ _ h => { h with }⟩
  · constructor
    case facts => exact State.facts_start_subset ..
    case reached =>
      intro m hm
      have hm := State.mem_discovered_start.mp hm
      exact ⟨hS.roots m hm, p.roots_subset_methods hm⟩
    case calls =>
      have ⟨_, hstart⟩ := State.start_eq p
      rw [hstart]
      simp [CallGraph.successors]
  · intro st h
    exact { h with reached := by simpa using h.reached }
  · intro st m cs s h hm hb hs hc
    exact h.step coherent mono hS (List.mem_append_left _ hm) hb hs hc

-- Whether it converges or not, a run stays below every solution.
theorem solution_le {p : Problem} {S : Solution} (coherent : p.Coherent)
    (mono : p.Monotone) (hS : p.Solves S) : p.run.solution ≤ S := by
  have below := Below.solve coherent mono hS
  refine ⟨below.facts, fun m hm => (below.reached m hm).left, fun e he => ?_⟩
  exact below.calls e.1 e.2 ((closed_graph_solve p).mem_callees.mp he)

theorem solves_solution {p : Problem} (coherent : p.Coherent)
    (mono : p.Monotone) (h : p.solve.converged) : p.Solves p.run.solution := by
  have fixed := fixedPoint_run coherent h
  have below := Below.solve coherent mono p.solves_least
  have runs (call : Invoke) := p.runs_subset_targets p.run.facts call
  constructor
  case roots => exact fun m hm => fixed.roots hm
  case satisfied =>
    intro m hm hb s hs
    have ⟨pre, post, hbody⟩ := List.append_of_mem hs
    -- The constants of the statements before it have no bearing on the index.
    have from_pre : (Constants.ofStmts pre).From m.body := ⟨pre, by simp [hbody], rfl⟩
    have satisfied := fixed.satisfied m hm hb pre s post hbody
    have key := mono.key_eq (below.reached m hm).right hs from_pre
    exact (satisfied.mono_targets fun call _ => runs call).congr_key key
  case calls =>
    intro m hm hb call hcall callee hc
    exact fixed.calls m hm hb call hcall callee (runs call hc)
  case callees =>
    intro m hm hb call hcall callee hc hbody
    exact fixed.callees m hm hb call hcall callee (runs call hc) hbody

theorem solution_eq_least {p : Problem} (coherent : p.Coherent)
    (mono : p.Monotone) (h : p.solve.converged) : p.run.solution = p.least :=
  Solution.le_antisymm (solution_le coherent mono p.solves_least)
    (Problem.least_le (solves_solution coherent mono h))

end PointsTo.Analysis
