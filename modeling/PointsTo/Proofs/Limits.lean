import PointsTo.Proofs.FixedPoint

namespace PointsTo.Analysis

def Problem.withLimits (p : Problem) (maxSweeps maxSteps : Nat) : Problem :=
  { p with maxSweeps, maxSteps }

namespace State

variable {p : Problem} {st : State} {m : Method} {cs : Constants} {stmts : List Stmt}
  {changed : Bool} {a n n' : Nat}

-- A step does not look at the limits.
theorem process_withLimits (k : Nat) : st.process (p.withLimits a n) m k stmts cs changed =
    st.process p m k stmts cs changed := by
  fun_induction State.process p m k stmts cs st changed
  case case1    => simp [process]
  case case2    => rfl
  case case3 hi => exact hi

theorem visit_withLimits : st.visit (p.withLimits a p.maxSteps) m = st.visit p m := by
  rw [visit_eq, visit_eq]
  split
  case isTrue  => exact process_withLimits p.maxSteps
  case isFalse => rfl

theorem visitAll_withLimits (ms : List Method) :
    st.visitAll (p.withLimits a p.maxSteps) ms changed = st.visitAll p ms changed := by
  induction ms generalizing st changed
  case nil            => rfl
  case cons m rest hi => rw [visitAll_cons, visitAll_cons, visit_withLimits, hi]

theorem process_eq_of_le (h : n ≤ n')
    (hc : (st.process p m n stmts cs changed).1.capped = st.capped) :
    st.process p m n' stmts cs changed = st.process p m n stmts cs changed := by
  fun_induction State.process p m n stmts cs st changed generalizing n'
  case case1 => simp [process]
  case case2 => simp [report] at hc
  case case3 n s rest cs st changed result hi =>
    obtain ⟨k, rfl⟩ := Nat.exists_eq_add_of_le' (Nat.zero_lt_of_lt h)
    exact hi (Nat.le_of_succ_le_succ h) (hc.trans capped_step.symm)

theorem visit_eq_of_le (h : p.maxSteps ≤ n) (hc : (st.visit p m).1.capped = st.capped) :
    st.visit (p.withLimits a n) m = st.visit p m := by
  rw [visit_eq] at hc ⊢
  rw [visit_eq]
  split
  case isFalse => rfl
  case isTrue hb =>
    simp only [hb, if_true] at hc
    exact (process_withLimits n).trans (process_eq_of_le h hc)

theorem visitAll_eq_of_le {ms : List Method} (h : p.maxSteps ≤ n)
    (hc : (st.visitAll p ms changed).1.capped = st.capped) :
    st.visitAll (p.withLimits a n) ms changed = st.visitAll p ms changed := by
  induction ms generalizing st changed
  case nil => rfl
  case cons m rest hi =>
    rw [visitAll_cons] at hc ⊢
    have hv := capped_visit hc
    rw [visitAll_cons, visit_eq_of_le h hv]
    exact hi (hc.trans hv.symm)

theorem sweep_eq_of_le (h : p.maxSteps ≤ n) (hc : (st.sweep p).1.capped = st.capped) :
    st.sweep (p.withLimits a n) = st.sweep p :=
  visitAll_eq_of_le h hc

end State

section Sweeps

variable {p : Problem} {st : State} {left left' done a n : Nat}

-- Reports are no part of what a state knows.
theorem State.Extends.report {st st' : State} (h : st.Extends st') (e : Event) :
    st.Extends (st'.report e) :=
  { h with }

theorem sweeps_extends (p : Problem) (left done : Nat) (st : State) :
    st.Extends (sweeps p left done st).state := by
  induction left generalizing done st
  case zero => exact (State.Extends.refl st).report _
  case succ left hi =>
    have swept := (State.sweep_extends p st).report
      (.swept (done + 1) (st.sweep p).1.swept.length (st.sweep p).2)
    simp only [sweeps]
    split
    case isTrue  => exact swept
    case isFalse => exact swept.trans (hi ..)

theorem sweeps_mono (h : left ≤ left') :
    (sweeps p left done st).state.Extends (sweeps p left' done st).state := by
  induction left generalizing left' done st
  case zero => exact { sweeps_extends p left' done st with }
  case succ left hi =>
    obtain ⟨k, rfl⟩ := Nat.exists_eq_add_of_le' (Nat.zero_lt_of_lt h)
    simp only [sweeps]
    split
    case isTrue  => exact .refl _
    case isFalse => exact hi (Nat.le_of_succ_le_succ h)

theorem sweeps_eq_of_quiescent (h : left ≤ left') (hq : (sweeps p left done st).quiescent) :
    sweeps p left' done st = sweeps p left done st := by
  induction left generalizing left' done st
  case zero => simp [sweeps] at hq
  case succ left hi =>
    obtain ⟨k, rfl⟩ := Nat.exists_eq_add_of_le' (Nat.zero_lt_of_lt h)
    simp only [sweeps] at hq ⊢
    split
    case isTrue     => rfl
    case isFalse hc =>
      simp only [hc] at hq
      exact hi (Nat.le_of_succ_le_succ h) hq

-- The number of sweeps only counts as far as it is left.
theorem sweeps_withLimits : sweeps (p.withLimits a p.maxSteps) left done st =
    sweeps p left done st := by
  induction left generalizing done st
  case zero => rfl
  case succ left hi =>
    have swept : st.sweep (p.withLimits a p.maxSteps) = st.sweep p := State.visitAll_withLimits _
    simp only [sweeps, swept, hi]

-- If no visit of the whole run is cut short, then none of the first sweep is.
theorem sweeps_eq_of_le (h : p.maxSteps ≤ n)
    (hc : (sweeps p left done st).state.capped = st.capped) :
    sweeps (p.withLimits a n) left done st = sweeps p left done st := by
  induction left generalizing done st
  case zero => rfl
  case succ left hi =>
    have swept := State.sweep_extends p st
    simp only [sweeps] at hc ⊢
    have first : (st.sweep p).1.capped = st.capped := by
      split at hc
      case isTrue  => exact hc
      case isFalse =>
        have later := (sweeps_extends p left _ _).capped.trans (Nat.le_of_eq hc)
        exact Nat.le_antisymm later swept.capped
    rw [State.sweep_eq_of_le h first]
    split
    case isTrue  => rfl
    case isFalse hq =>
      simp only [hq] at hc
      exact hi (hc.trans first.symm)

theorem sweeps_eq_of_both_quiescent (hq : (sweeps p left done st).quiescent)
    (hq' : (sweeps p left' done st).quiescent) :
    sweeps p left' done st = sweeps p left done st := by
  cases Nat.le_total left left'
  case inl h => exact sweeps_eq_of_quiescent h hq
  case inr h => exact (sweeps_eq_of_quiescent h hq').symm

end Sweeps

-- Everything of `r` is in `r'`, where `f m` stands for `m`.
structure Result.Within (f : Method → Method) (r r' : Result) : Prop where
  points    : ∀ v, ∀ o ∈ r.facts.points.get v, o ∈ r'.facts.points.get v
  fields    : ∀ slot, ∀ o ∈ r.facts.fields.get slot, o ∈ r'.facts.fields.get slot
  calls     : ∀ a, ∀ b ∈ r.graph.callees a, f b ∈ r'.graph.callees (f a)
  reachable : ∀ m ∈ r.reachable, f m ∈ r'.reachable

theorem within_of_extends {p p' : Problem} (h : p.solve.state.Extends p'.solve.state) :
    p.run.Within id p'.run where
  points v o ho    := h.facts (a := .points v o) ho
  fields slot o ho := h.facts (a := .holds slot o) ho
  calls a b hb     := by
    have hb := (closed_graph_solve p).mem_callees.mp hb
    exact (closed_graph_solve p').mem_callees.mpr (h.calls a hb)
  reachable _ hm   := h.discovered hm

namespace Problem

variable {p : Problem} {a n : Nat}

theorem run_withLimits (h : (p.withLimits a n).solve = p.solve) :
    (p.withLimits a n).run = p.run := by
  unfold run
  rw [h]
  rfl

theorem solve_withLimits (p : Problem) (a : Nat) :
    (p.withLimits a p.maxSteps).solve = sweeps p a 0 (State.start p) :=
  sweeps_withLimits

theorem solve_mono (h : p.maxSweeps ≤ a) :
    p.solve.state.Extends (p.withLimits a p.maxSteps).solve.state := by
  rw [solve_withLimits]
  exact sweeps_mono h

theorem solve_eq_of_quiescent (h : p.maxSweeps ≤ a) (hq : p.solve.quiescent) :
    (p.withLimits a p.maxSteps).solve = p.solve := by
  rw [solve_withLimits]
  exact sweeps_eq_of_quiescent h hq

-- With as many sweeps as before the run is the same one, and so it is with any number of sweeps
-- after which it comes to rest.
theorem solve_eq_of_maxSteps_le (h : p.maxSteps ≤ n) (hc : p.solve.converged)
    (hq : (p.withLimits a n).solve.quiescent) : (p.withLimits a n).solve = p.solve := by
  have ⟨quiescent, capped⟩ := Bool.and_eq_true_iff.mp hc
  have uncut : p.solve.state.capped = (State.start p).capped := by
    have ⟨_, start⟩ := State.start_eq p
    rw [of_decide_eq_true capped, start]
  have same : sweeps (p.withLimits a n) p.maxSweeps 0 (State.start p) = p.solve :=
    sweeps_eq_of_le h uncut
  rw [← same] at quiescent ⊢
  exact sweeps_eq_of_both_quiescent quiescent hq

theorem solve_eq_of_converged (hc : p.solve.converged) (hc' : (p.withLimits a n).solve.converged) :
    (p.withLimits a n).solve = p.solve := by
  have quiescent := (Bool.and_eq_true_iff.mp hc).left
  have quiescent' := (Bool.and_eq_true_iff.mp hc').left
  cases Nat.le_total p.maxSteps n
  case inl h => exact solve_eq_of_maxSteps_le h hc quiescent'
  case inr h =>
    -- The other way round, `p` is the problem with more steps.
    exact (solve_eq_of_maxSteps_le (p := p.withLimits a n) (a := p.maxSweeps) h hc' quiescent).symm

end Problem

-- The limits only decide where a run stops. Converged results do not depend on them, more sweeps
-- lead to more, and to nothing more once a run has come to rest.
theorem limits_only_stop {s s' : Settings} {p p' : Problem} {r r' : Result}
    (same : s' = { s with maxSweeps := s'.maxSweeps, maxSteps := s'.maxSteps })
    (valid : s.problem = .ok p) (valid' : s'.problem = .ok p')
    (done : analyze s = .ok r) (done' : analyze s' = .ok r') :
    (r.converged → r'.converged → r' = r) ∧
    (p'.maxSteps = p.maxSteps → p.maxSweeps ≤ p'.maxSweeps →
      r.Within id r' ∧ (p.solve.quiescent → r' = r)) ∧
    ∀ k v, ∀ o ∈ (p.withLimits k p.maxSteps).run.facts.points.get v,
      o ∈ (p.withLimits (k + 1) p.maxSteps).run.facts.points.get v := by
  have limited : p' = p.withLimits p'.maxSweeps p'.maxSteps := by
    have ⟨_, _, hp, ho, he⟩ := Settings.problem_eq valid
    have ⟨_, _, hp', ho', he'⟩ := Settings.problem_eq valid'
    rw [same] at hp' ho'
    cases hp.symm.trans hp'
    cases ho.symm.trans ho'
    rw [he', he, same]
    rfl
  have hr := run_eq_of_analyze valid done
  have hr' := run_eq_of_analyze valid' done'
  subst hr hr'
  refine ⟨?_, ?_, ?_⟩
  · intro converged converged'
    rw [limited] at converged' ⊢
    exact Problem.run_withLimits (Problem.solve_eq_of_converged converged converged')
  · intro steps sweeps
    rw [limited, steps]
    refine ⟨within_of_extends (Problem.solve_mono sweeps), fun quiescent => ?_⟩
    exact Problem.run_withLimits (Problem.solve_eq_of_quiescent sweeps quiescent)
  · intro k v
    have longer := Problem.solve_mono (p := p.withLimits k p.maxSteps) (Nat.le_succ k)
    exact (within_of_extends longer).points v

namespace Sample

def limited (maxSweeps maxSteps : Int) : Settings :=
  { settingsOf storing objects with maxSweeps, maxSteps }

-- Four sweeps and twenty steps are just enough. The item is found in the third sweep.
theorem cell_limits_only_stop :
    (problem.withLimits 4 20).run.converged ∧ (problem.withLimits 4 20).run = problem.run ∧
      (problem.withLimits 3 5000).run.converged = false ∧
      (problem.withLimits 4 19).run.converged = false ∧
      (problem.withLimits 2 5000).run.queries = [(1, [])] ∧
      (problem.withLimits 2 5000).run.Within id problem.run := by
  have tight : (problem.withLimits 4 20).run.converged := by decide +kernel
  have valid : (limited 4 20).problem = .ok (problem.withLimits 4 20) := rfl
  have valid_two : (limited 2 0).problem = .ok (problem.withLimits 2 5000) := rfl
  have equal := (limits_only_stop rfl (problem_settingsOf storing objects) valid
    (analyze_settingsOf storing objects) rfl).left
  have within := (limits_only_stop rfl valid_two (problem_settingsOf storing objects) rfl
    (analyze_settingsOf storing objects)).2.1
  exact ⟨tight, equal converged_run tight, by decide +kernel, by decide +kernel, by decide +kernel,
    (within rfl (by decide)).left⟩

end Sample
end PointsTo.Analysis
