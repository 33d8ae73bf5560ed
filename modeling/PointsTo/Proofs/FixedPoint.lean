import PointsTo.Analysis.Report
import PointsTo.Proofs.Run

namespace PointsTo.Analysis

namespace State

variable {p : Problem} {st st₁ st₂ st₃ : State} {m : Method} {cs : Constants}

structure Extends (st₁ st₂ : State) : Prop where
  facts      : st₁.facts.toSet ⊆ st₂.facts.toSet
  calls      : ∀ a, st₁.graph.successors a ⊆ st₂.graph.successors a
  discovered : st₁.discovered ⊆ st₂.discovered
  capped     : st₁.capped ≤ st₂.capped

namespace Extends

theorem refl (st : State) : Extends st st where
  facts      := subset_rfl
  calls      := fun _ => List.Subset.refl _
  discovered := List.Subset.refl _
  capped     := Nat.le_refl _

theorem trans (e₁ : Extends st₁ st₂) (e₂ : Extends st₂ st₃) : Extends st₁ st₃ where
  facts      := e₁.facts.trans e₂.facts
  calls      := fun a => List.Subset.trans (e₁.calls a) (e₂.calls a)
  discovered := List.Subset.trans e₁.discovered e₂.discovered
  capped     := e₁.capped.trans e₂.capped

end Extends

theorem step_extends (p : Problem) (m : Method) (cs : Constants) (st : State) (s : Stmt) :
    Extends st (st.step p m cs (.ofStmt p s)).1 where
  facts      := facts_step ▸ st.facts.le_step ..
  calls      := fun _ _ h => mem_successors_step.mpr (.inl h)
  discovered := fun _ h => mem_discovered_step.mpr (.inl h)
  capped     := Nat.le_of_eq capped_step.symm

theorem process_extends (p : Problem) (m : Method) (n : Nat) (stmts : List Stmt) (cs : Constants)
    (st : State) (changed : Bool) : Extends st (st.process p m n stmts cs changed).1 := by
  fun_induction State.process p m n stmts cs st changed
  case case1 st _                     => exact .refl st
  case case2 st _                     => exact { Extends.refl st with capped := Nat.le_succ _ }
  case case3 n s rest cs st _ _ ih => exact (step_extends p m cs st s).trans ih

theorem visit_extends (p : Problem) (st : State) (m : Method) : Extends st (st.visit p m).1 := by
  rw [visit_eq]
  split
  case isTrue  => exact process_extends ..
  case isFalse => exact .refl st

theorem visitAll_extends (p : Problem) (ms : List Method) (st : State) (changed : Bool) :
    Extends st (st.visitAll p ms changed).1 := by
  induction ms generalizing st changed
  case nil            => exact .refl st
  case cons m rest hi => exact (visit_extends p st m).trans (hi ..)

theorem enter_extends (st : State) : Extends st st.enter :=
  { Extends.refl st with discovered := by simp }

theorem sweep_extends (p : Problem) (st : State) : Extends st (st.sweep p).1 :=
  (enter_extends st).trans (visitAll_extends p st.discovered st.enter _)

theorem changed_of_process {n : Nat} {stmts : List Stmt} {changed : Bool}
    (h : (st.process p m n stmts cs changed).2 = false) : changed = false := by
  fun_induction State.process p m n stmts cs st changed
  case case1 => exact h
  case case2 => exact h
  case case3 ih => exact (Bool.or_eq_false_iff.mp (ih h)).left

-- A statement has had its effect, and what it calls is known to `st`.
structure Settled (p : Problem) (f : Facts) (st : State) (m : Method) (cs : Constants) (s : Stmt) :
    Prop where
  quiet : (f.step cs (p.finding f s) s).grown = false
  calls : (p.finding f s).targets ⊆ st.graph.successors m
  found : p.entries ≠ [] → ∀ callee ∈ (p.finding f s).targets, callee.hasBody →
    callee ∈ st.discovered

theorem Settled.extends {f : Facts} {s : Stmt} (h : Settled p f st₁ m cs s) (e : Extends st₁ st₂) :
    Settled p f st₂ m cs s where
  quiet := h.quiet
  calls := List.Subset.trans h.calls (e.calls m)
  found := fun hp c hc hb => e.discovered (h.found hp c hc hb)

theorem settled_step {s : Stmt} (h : (st.step p m cs (.ofStmt p s)).2 = false) :
    Settled p st.facts (st.step p m cs (.ofStmt p s)).1 m cs s where
  quiet := grown_step ▸ h
  calls := fun _ hc => mem_successors_step.mpr (.inr ⟨rfl, hc⟩)
  found := fun hp _ hc hb => mem_discovered_step.mpr (.inr ⟨hp, hc, hb⟩)

-- The induction follows the worklist, to which a quiet visit adds nothing.
theorem process_quiet {n : Nat} {stmts : List Stmt} {changed : Bool}
    (h : (st.process p m n stmts cs changed).2 = false)
    (hc : (st.process p m n stmts cs changed).1.capped = st.capped) :
    (st.process p m n stmts cs changed).1.facts = st.facts ∧
    ∀ pre s post, stmts = pre ++ s :: post → Settled p st.facts
      (st.process p m n stmts cs changed).1 m (pre.foldl Constants.after cs) s := by
  fun_induction State.process p m n stmts cs st changed
  case case1 => exact ⟨rfl, by simp⟩
  case case2 => simp [report] at hc
  case case3 n s rest cs st changed result ih =>
    -- The flag of the whole visit covers this step, which was quiet, so the facts are the same.
    have hg : result.2 = false := (Bool.or_eq_false_iff.mp (changed_of_process h)).right
    have hf : result.1.facts = st.facts := by
      rw [facts_step]
      exact Facts.step_eq_of_quiet (grown_step ▸ hg)
    have hcap : result.1.capped = st.capped := capped_step
    have he := process_extends p m n (if result.2 then rest ++ m.body else rest) (cs.after s)
      result.1 (changed || result.2)
    obtain ⟨ih₁, ih₂⟩ := ih h (hc.trans hcap.symm)
    rw [hf] at ih₁ ih₂
    refine ⟨ih₁, fun pre s' post hs => ?_⟩
    cases pre
    case nil =>
      obtain ⟨hs, _⟩ := List.cons.inj hs
      exact hs ▸ (settled_step hg).extends he
    case cons t pre =>
      obtain ⟨ht, hr⟩ := List.cons.inj hs
      subst ht
      refine ih₂ pre s' post ?_
      rw [hg]
      exact hr

theorem visitAll_cons (p : Problem) (m : Method) (rest : List Method) (st : State)
    (changed : Bool) : st.visitAll p (m :: rest) changed =
      (st.visit p m).1.visitAll p rest (changed || (st.visit p m).2) :=
  rfl

-- No later visit takes back that a visit was cut short.
theorem capped_visit {rest : List Method} {changed : Bool}
    (hc : ((st.visit p m).1.visitAll p rest changed).1.capped = st.capped) :
    (st.visit p m).1.capped = st.capped := by
  have later := visitAll_extends p rest (st.visit p m).1 changed
  exact Nat.le_antisymm (later.capped.trans (Nat.le_of_eq hc)) (visit_extends p st m).capped

theorem changed_of_visitAll {ms : List Method} {changed : Bool}
    (h : (st.visitAll p ms changed).2 = false) : changed = false := by
  induction ms generalizing st changed
  case nil            => exact h
  case cons m rest hi => exact (Bool.or_eq_false_iff.mp (hi h)).left

-- Every statement of the methods in a quiet sweep is settled.
theorem visitAll_quiet {ms : List Method} {changed : Bool}
    (h : (st.visitAll p ms changed).2 = false)
    (hc : (st.visitAll p ms changed).1.capped = st.capped) :
    (st.visitAll p ms changed).1.facts = st.facts ∧
    ∀ m ∈ ms, m.hasBody → ∀ pre s post, m.body = pre ++ s :: post →
      Settled p st.facts (st.visitAll p ms changed).1 m (.ofStmts pre) s := by
  induction ms generalizing st changed
  case nil => exact ⟨rfl, by simp⟩
  case cons m rest hi =>
    rw [visitAll_cons] at h hc ⊢
    have hv : (st.visit p m).2 = false := (Bool.or_eq_false_iff.mp (changed_of_visitAll h)).right
    have he := visitAll_extends p rest (st.visit p m).1 (changed || (st.visit p m).2)
    have hcap := capped_visit hc
    have ⟨ih₁, ih₂⟩ := hi h (hc.trans hcap.symm)
    have first : (st.visit p m).1.facts = st.facts ∧
        (m.hasBody → ∀ pre s post, m.body = pre ++ s :: post →
          Settled p st.facts (st.visit p m).1 m (.ofStmts pre) s) := by
      rw [visit_eq] at hv hcap ⊢
      split at hv
      case isTrue hb =>
        simp only [hb, if_true] at hcap ⊢
        have ⟨hf, hs⟩ := process_quiet hv hcap
        exact ⟨hf, fun _ => hs⟩
      case isFalse hb => simp [hb]
    rw [first.left] at ih₁ ih₂
    refine ⟨ih₁, fun x hx hb pre s post hs => ?_⟩
    cases List.mem_cons.mp hx
    case inl hx =>
      subst hx
      exact (first.right hb pre s post hs).extends he
    case inr hx => exact ih₂ x hx hb pre s post hs

end State

-- A run that ends because nothing changed ends with a quiet sweep over all methods it knows.
theorem sweeps_quiescent {p : Problem} {left done : Nat} {st : State}
    (h : (sweeps p left done st).quiescent) :
    ∃ (st' : State) (e : Event), (st'.sweep p).2 = false ∧ (st'.sweep p).1.fresh = [] ∧
      (sweeps p left done st).state = (st'.sweep p).1.report e := by
  induction left generalizing done st
  case zero => simp [sweeps] at h
  case succ left hi =>
    simp only [sweeps] at h ⊢
    split at h
    case isTrue hq =>
      obtain ⟨hc, hf⟩ := Bool.and_eq_true_iff.mp hq
      simp only [hq, if_true]
      exact ⟨st, _, by simpa using hc, by simpa [State.report] using hf, rfl⟩
    case isFalse hq =>
      simp only [hq]
      exact hi h

theorem swept_sweep (p : Problem) (st : State) : (st.sweep p).1.swept = st.discovered := by
  have h : Preserved p fun _ => True := by constructor <;> simp
  exact (h.sweep trivial).right

theorem solve_settled {p : Problem} (h : p.solve.converged) {m : Method}
    (hm : m ∈ p.solve.state.discovered) (hb : m.hasBody) {pre post : List Stmt} {s : Stmt}
    (hs : m.body = pre ++ s :: post) :
    State.Settled p p.solve.state.facts p.solve.state m (.ofStmts pre) s := by
  have ⟨hq, hc⟩ := Bool.and_eq_true_iff.mp h
  have ⟨st, e, hquiet, hfresh, hst⟩ := sweeps_quiescent hq
  have hst : p.solve.state = (st.sweep p).1.report e := hst
  have hcapped : (st.sweep p).1.capped = 0 := by
    rw [hst] at hc
    exact of_decide_eq_true hc
  have hzero : st.enter.capped = 0 :=
    Nat.le_zero.mp (hcapped ▸ (State.sweep_extends p st).capped)
  have ⟨hf, hall⟩ := @State.visitAll_quiet p st.enter _ _ hquiet (hcapped.trans hzero.symm)
  -- All methods that the run knows are swept in the last sweep.
  have hm : m ∈ st.discovered := by
    rw [hst] at hm
    simpa [State.discovered, State.report, hfresh, swept_sweep p st] using hm
  have hfacts : p.solve.state.facts = st.enter.facts := by
    rw [hst]
    exact hf
  rw [hfacts, hst]
  exact { hall m hm hb pre s post hs with }

-- The problem that usable settings describe.
theorem Settings.problem_eq {s : Settings} {p : Problem} (h : s.problem = .ok p) :
    ∃ program objects, s.program = some program ∧ s.objects = some objects ∧ p =
      { program
        scene := { hierarchy := { program, visible := s.visible }, objects }
        entries := s.entries.filterMap id
        maxSweeps := limit s.maxSweeps
        maxSteps := limit s.maxSteps } := by
  unfold problem at h
  split at h
  case h_1 program hp =>
    split at h
    case h_1 objects ho =>
      dsimp only at h
      split at h
      case isTrue => cases h
      case isFalse =>
        split at h
        case isTrue => cases h
        case isFalse =>
          cases h
          exact ⟨program, objects, hp, ho, rfl⟩
    case h_2 => cases h
  case h_2 => cases h

theorem Settings.coherent {s : Settings} {p : Problem} (h : s.problem = .ok p) : p.Coherent := by
  have ⟨_, _, _, _, hp⟩ := problem_eq h
  rw [hp]
  rfl

theorem run_eq_of_analyze {s : Settings} {p : Problem} {r : Result} (h : s.problem = .ok p)
    (hr : analyze s = .ok r) : r = p.run := by
  unfold analyze at hr
  rw [h] at hr
  exact (Except.ok.inj hr).symm

theorem problem_of_analyze {s : Settings} {r : Result} (h : analyze s = .ok r) :
    ∃ p, s.problem = .ok p ∧ r = p.run := by
  unfold analyze at h
  cases hp : s.problem
  case error e =>
    rw [hp] at h
    contradiction
  case ok p =>
    rw [hp] at h
    exact ⟨p, rfl, (Except.ok.inj h).symm⟩

-- What a converged result is: closed under every statement of every method that it reaches.
structure FixedPoint (p : Problem) (r : Result) : Prop where
  roots     : p.roots ⊆ r.reachable
  satisfied : ∀ m ∈ r.reachable, m.hasBody → ∀ pre s post, m.body = pre ++ s :: post →
    Satisfies p r.facts.toSet (.ofStmts pre) (p.targets r.facts) s
  calls     : ∀ m ∈ r.reachable, m.hasBody → ∀ call, .invoke call ∈ m.body →
    ∀ callee ∈ p.targets r.facts call, callee ∈ r.graph.callees m
  callees   : ∀ m ∈ r.reachable, m.hasBody → ∀ call, .invoke call ∈ m.body →
    ∀ callee ∈ p.targets r.facts call, callee.hasBody → callee ∈ r.reachable

theorem fixedPoint_run {p : Problem} (coherent : p.Coherent) (h : p.solve.converged) :
    FixedPoint p p.run where
  roots := roots_subset_discovered p
  satisfied := by
    intro m hm hb pre s post hs
    exact Facts.satisfies_of_quiet (solve_settled h hm hb hs).quiet
  calls := by
    intro m hm hb call hcall callee hc
    have ⟨pre, post, hs⟩ := List.append_of_mem hcall
    exact (closed_graph_solve p).mem_callees.mpr ((solve_settled h hm hb hs).calls hc)
  callees := by
    intro m hm hb call hcall callee hc hbody
    by_cases he : p.entries = []
    case pos =>
      -- Without entries, all methods with a body are roots.
      have hmem := coherent.mem_methods hc
      refine roots_subset_discovered p ?_
      simp [Problem.roots, he, hmem, hbody]
    case neg =>
      have ⟨pre, post, hs⟩ := List.append_of_mem hcall
      exact (solve_settled h hm hb hs).found he callee hc hbody

-- The facts of a converged result satisfy the constraint of every statement, with the constants of
-- the statements before it. A callee that returns its receiver returns the base of the call.
theorem converged_fixed_point {s : Settings} {p : Problem} {r : Result} (valid : s.problem = .ok p)
    (done : analyze s = .ok r) (converged : r.converged) :
    r.capped = 0 ∧
    ∀ m ∈ r.reachable, m.hasBody → ∀ pre stmt post, m.body = pre ++ stmt :: post →
      Satisfies p r.facts.toSet (.ofStmts pre) (p.targets r.facts) stmt ∧
      ∀ call, stmt = .invoke call → ∀ callee ∈ p.targets r.facts call,
        callee ∈ r.graph.callees m ∧
        (callee.hasBody → callee ∈ r.reachable ∧
          ∀ v b, call.result = some v → call.base = some b → callee.returnsReceiver →
            pointees r.facts.toSet b ⊆ pointees r.facts.toSet v) := by
  have hr := run_eq_of_analyze valid done
  subst hr
  have hc : p.solve.converged := converged
  have fixed := fixedPoint_run (Settings.coherent valid) hc
  refine ⟨of_decide_eq_true (Bool.and_eq_true_iff.mp hc).right, ?_⟩
  intro m hm hb pre stmt post hs
  have satisfied := fixed.satisfied m hm hb pre stmt post hs
  refine ⟨satisfied, ?_⟩
  intro call hcall callee hcallee
  subst hcall
  have hmem : .invoke call ∈ m.body := by simp [hs]
  refine ⟨fixed.calls m hm hb call hmem callee hcallee, fun hbody => ⟨?_, ?_⟩⟩
  · exact fixed.callees m hm hb call hmem callee hcallee hbody
  · intro v b hv hbase hret
    exact (satisfied callee hcallee hbody).base_result hv hbase hret

-- Small programs, which differ in what `main` does. Cells and items are sources.
namespace Sample

def self : Var where
  owner := some 1
  index := 0
  name  := "this"
  type  := "Cell"

def value : Var where
  owner := some 1
  index := 1
  name  := "value"
  type  := "Item"

def get : Method where
  id        := 1
  owner     := "Cell"
  name      := "get"
  modifiers := {}
  receiver  := some self
  vars      := [self, value]
  body      := [.loadField value (some self) ⟨"Cell", "f"⟩, .ret (some value)]

def declared : Method where
  id        := 0
  owner     := "Source"
  name      := "get"
  modifiers := { isAbstract := true }

def itemGet : Method where
  id        := 3
  owner     := "Item"
  name      := "get"
  modifiers := {}
  body      := [.ret none]

def cell : Var where
  owner := some 2
  index := 0
  name  := "cell"
  type  := "Cell"

def item : Var where
  owner := some 2
  index := 1
  name  := "item"
  type  := "Item"

def found : Var where
  owner := some 2
  index := 2
  name  := "found"
  type  := "Item"

def call : Invoke where
  result := some found
  kind   := .interface
  method := ⟨"Source", "get()"⟩
  base   := some cell
  args   := []

def mainOf (body : List Stmt) : Method where
  id        := 2
  owner     := "Main"
  name      := "main"
  modifiers := { isStatic := true }
  vars      := [cell, item, found]
  body

def cellClass : Class where
  name       := "Cell"
  interfaces := ["Source"]
  methods    := [get]

def programOf (body : List Stmt) : Program where
  classes := [{ name := "Source", isInterface := true, methods := [declared] }, cellClass,
    { name := "Item", interfaces := ["Source"], methods := [itemGet] },
    { name := "Main", methods := [mainOf body] }]

def settingsOf (body : List Stmt) (objects : Objects) : Settings where
  program := some (programOf body)
  objects := some objects
  entries := [some (mainOf body)]

def problemOf (body : List Stmt) (objects : Objects) : Problem where
  program   := programOf body
  scene     := { hierarchy := { program := programOf body }, objects }
  entries   := [mainOf body]
  maxSweeps := 5000
  maxSteps  := 5000

theorem problem_settingsOf (body : List Stmt) (objects : Objects) :
    (settingsOf body objects).problem = .ok (problemOf body objects) :=
  rfl

theorem analyze_settingsOf (body : List Stmt) (objects : Objects) :
    analyze (settingsOf body objects) = .ok (problemOf body objects).run :=
  rfl

-- `main` stores an item in a cell and finds it there.
def storing : List Stmt :=
  [.alloc ⟨0, 2⟩ cell "Cell", .alloc ⟨1, 2⟩ item "Item", .storeField (some cell) ⟨"Cell", "f"⟩ item,
    .invoke call]

def objects : Objects where
  allocations := [⟨⟨0, 2⟩, 1, "Cell"⟩, ⟨⟨1, 2⟩, 2, "Item"⟩]
  queries     := [(1, found)]

def main : Method :=
  mainOf storing

def problem : Problem :=
  problemOf storing objects

theorem converged_run : problem.run.converged := by
  decide +kernel

theorem cell_fixed_point :
    problem.run.converged ∧ problem.run.queries = [(1, [2])] ∧ problem.run.capped = 0 ∧
      main ∈ problem.run.reachable ∧ get ∈ problem.run.graph.callees main ∧
      Satisfies problem problem.run.facts.toSet (.ofStmts (main.body.take 3))
        (problem.targets problem.run.facts) (.invoke call) := by
  have ⟨capped, fixed⟩ := converged_fixed_point (problem_settingsOf storing objects)
    (analyze_settingsOf storing objects) converged_run
  have reached : main ∈ problem.run.reachable := by decide +kernel
  have ⟨satisfied, calls⟩ := fixed main reached rfl (main.body.take 3) (.invoke call) [] rfl
  have target : get ∈ problem.targets problem.run.facts call := by
    show get ∈ problem.scene.targets call (problem.run.facts.receivers call)
    decide +kernel
  have called := (calls call rfl get target).left
  exact ⟨converged_run, by decide +kernel, capped, reached, called, satisfied⟩

end Sample
end PointsTo.Analysis
