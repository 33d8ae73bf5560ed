import Mathlib.Logic.Relation
import PointsTo.Proofs.FixedPoint
import PointsTo.Proofs.Termination

namespace PointsTo

-- A recorded call between methods with bodies.
def CallGraph.CallsBody (g : CallGraph Method) (a b : Method) : Prop :=
  a.hasBody ∧ b.hasBody ∧ b ∈ g.successors a

namespace Analysis

open Relation

-- What the call graph of a state and its discovered methods have to do with each other.
structure Connected (p : Problem) (st : State) : Prop where
  callers : ∀ a, ∀ b ∈ st.graph.successors a, a ∈ st.swept ∧ a.hasBody
  callees : p.entries ≠ [] → ∀ a, ∀ b ∈ st.graph.successors a, b.hasBody → b ∈ st.discovered
  found   : ∀ m ∈ st.discovered,
    m ∈ p.roots ∨ p.entries ≠ [] ∧ m.hasBody ∧ ∃ a, m ∈ st.graph.successors a
  paths   : ∀ m ∈ st.discovered, ∃ root ∈ p.roots, ReflTransGen st.graph.CallsBody root m

namespace Connected

variable {p : Problem} {st : State}

theorem start (p : Problem) : Connected p (.start p) := by
  have ⟨_, hs⟩ := State.start_eq p
  have none (a b : Method) : b ∉ (State.start p).graph.successors a := by
    simp [hs, CallGraph.successors]
  constructor
  case callers => exact fun a b hb => absurd hb (none a b)
  case callees => exact fun _ a b hb => absurd hb (none a b)
  case found   => exact fun m hm => .inl (State.mem_discovered_start.mp hm)
  case paths   => exact fun m hm => ⟨m, State.mem_discovered_start.mp hm, .refl⟩

theorem enter (h : Connected p st) : Connected p st.enter where
  callers a b hb  := ⟨List.mem_append_left _ (h.callers a b hb).left, (h.callers a b hb).right⟩
  callees he a b hb hbody := by
    rw [State.discovered_enter]
    exact h.callees he a b hb hbody
  found m hm := h.found m (st.discovered_enter ▸ hm)
  paths m hm := h.paths m (st.discovered_enter ▸ hm)

variable {m : Method} {cs : Constants} {s : Stmt}

-- A method that the step discovers is a callee of `m`, so the path to `m` leads on to it.
theorem step (h : Connected p st) (hm : m ∈ st.swept) (hb : m.hasBody) :
    Connected p (st.step p m cs (.ofStmt p s)).1 := by
  have later := State.step_extends p m cs st s
  have longer {a b : Method} (hab : ReflTransGen st.graph.CallsBody a b) :
      ReflTransGen (st.step p m cs (.ofStmt p s)).1.graph.CallsBody a b :=
    hab.lift id fun _ _ call => ⟨call.1, call.2.1, later.calls _ call.2.2⟩
  constructor
  case callers =>
    intro a b hab
    rw [State.swept_step]
    cases State.mem_successors_step.mp hab
    case inl hab => exact h.callers a b hab
    case inr hab => exact hab.left ▸ ⟨hm, hb⟩
  case callees =>
    intro he a b hab hbody
    cases State.mem_successors_step.mp hab
    case inl hab => exact later.discovered (h.callees he a b hab hbody)
    case inr hab => exact State.mem_discovered_step.mpr (.inr ⟨he, hab.right, hbody⟩)
  case found =>
    intro x hx
    cases State.mem_discovered_step.mp hx
    case inl hx =>
      refine (h.found x hx).imp_right fun ⟨he, hbody, a, ha⟩ => ?_
      exact ⟨he, hbody, a, later.calls a ha⟩
    case inr hx =>
      have ⟨he, ht, hbody⟩ := hx
      exact .inr ⟨he, hbody, m, State.mem_successors_step.mpr (.inr ⟨rfl, ht⟩)⟩
  case paths =>
    intro x hx
    cases State.mem_discovered_step.mp hx
    case inl hx =>
      have ⟨root, hroot, path⟩ := h.paths x hx
      exact ⟨root, hroot, longer path⟩
    case inr hx =>
      have ⟨_, ht, hbody⟩ := hx
      have ⟨root, hroot, path⟩ := h.paths m (List.mem_append_left _ hm)
      refine ⟨root, hroot, (longer path).tail ⟨hb, hbody, ?_⟩⟩
      exact State.mem_successors_step.mpr (.inr ⟨rfl, ht⟩)

end Connected

theorem preserved_connected (p : Problem) : Preserved p (Connected p) where
  start          := .start p
  enter _ h      := h.enter
  step _ _ _ _ h hm hb _ _ := h.step hm hb
  cut _ h        := { h with }
  report _ _ _ h := { h with }

theorem preserved_nodup (p : Problem) : Preserved p fun st => st.discovered.Nodup where
  start              := State.nodup_foldl_discover List.nodup_nil
  enter _ h          := by simpa using h
  step _ _ _ _ h _ _ _ _ := State.nodup_step h
  cut _ h            := h
  report _ _ _ h     := h

-- One sweep: the methods that it takes from the queue, and those that it visits.
structure Round where
  taken   : List Method
  visited : List Method

-- The run once more, with a record of its sweeps.
namespace Logged

def visitAll (p : Problem) : List Method → State → (changed : Bool) → (State × Bool) × List Method
  | [], st, changed => ((st, changed), [])
  | m :: rest, st, changed =>
    let first := st.visit p m
    let later := visitAll p rest first.1 (changed || first.2)
    (later.1, m :: later.2)

def sweep (p : Problem) (st : State) : (State × Bool) × Round :=
  let result := visitAll p st.discovered st.enter (!p.entries.isEmpty && !st.fresh.isEmpty)
  (result.1, { taken := st.fresh, visited := result.2 })

def sweeps (p : Problem) : (left done : Nat) → State → Outcome × List Round
  | 0, done, st => (Analysis.sweeps p 0 done st, [])
  | left + 1, done, st =>
    let result := sweep p st
    let st := result.1.1.report (.swept (done + 1) result.1.1.swept.length result.1.2)
    if !result.1.2 && st.fresh.isEmpty then
      ({ state := st, sweeps := done + 1, quiescent := true }, [result.2])
    else
      let later := sweeps p left (done + 1) st
      (later.1, result.2 :: later.2)

def solve (p : Problem) : Outcome × List Round :=
  sweeps p p.maxSweeps 0 (.start p)

variable {p : Problem} {st : State} {left done : Nat}

theorem visitAll_eq (ms : List Method) (st : State) (changed : Bool) :
    visitAll p ms st changed = (st.visitAll p ms changed, ms) := by
  induction ms generalizing st changed
  case nil            => rfl
  case cons m rest hi => simp [visitAll, hi, State.visitAll_cons]

theorem sweep_eq (st : State) :
    sweep p st = (st.sweep p, { taken := st.fresh, visited := st.discovered }) := by
  simp only [sweep, visitAll_eq]
  rfl

theorem sweeps_fst : (sweeps p left done st).1 = Analysis.sweeps p left done st := by
  induction left generalizing done st
  case zero => rfl
  case succ left hi =>
    simp only [sweeps, Analysis.sweeps, sweep_eq]
    split
    case isTrue  => rfl
    case isFalse => exact hi

-- What follows the first sweep is the record of a run from the state after it.
theorem sweeps_succ (left done : Nat) (st : State) :
    ∃ rest, (sweeps p (left + 1) done st).2 =
        { taken := st.fresh, visited := st.discovered } :: rest ∧
      (rest = [] ∨ ∃ e, rest = (sweeps p left (done + 1) ((st.sweep p).1.report e)).2) := by
  simp only [sweeps, sweep_eq]
  split
  case isTrue  => exact ⟨[], rfl, .inl rfl⟩
  case isFalse => exact ⟨_, rfl, .inr ⟨_, rfl⟩⟩

-- Each sweep visits what was swept before, and what it and the sweeps before it took from the
-- queue.
theorem visited_eq {k : Nat} {round : Round} (h : (sweeps p left done st).2[k]? = some round) :
    round.visited = st.swept ++ ((sweeps p left done st).2.take (k + 1)).flatMap Round.taken := by
  induction left generalizing done st k
  case zero => simp [sweeps] at h
  case succ left hi =>
    have ⟨rest, he, hrest⟩ := sweeps_succ (p := p) left done st
    rw [he] at h ⊢
    cases k
    case zero =>
      cases h
      simp [State.discovered]
    case succ k =>
      obtain rfl | ⟨e, rfl⟩ := hrest
      case inl => simp at h
      case inr =>
        rw [List.getElem?_cons_succ] at h
        rw [hi h]
        have swept : ((st.sweep p).1.report e).swept = st.discovered := swept_sweep p st
        simp [swept, State.discovered]

theorem nodup_visited (hn : st.discovered.Nodup) :
    ∀ round ∈ (sweeps p left done st).2, round.visited.Nodup := by
  induction left generalizing done st
  case zero => simp [sweeps]
  case succ left hi =>
    have ⟨rest, he, hrest⟩ := sweeps_succ (p := p) left done st
    intro round hr
    rw [he] at hr
    cases List.mem_cons.mp hr
    case inl hr => exact hr ▸ hn
    case inr hr =>
      obtain rfl | ⟨e, rfl⟩ := hrest
      case inl => simp at hr
      case inr =>
        have swept : ((st.sweep p).1.report e).discovered.Nodup := ((preserved_nodup p).sweep hn).left
        exact hi swept round hr

-- A run that comes to rest has visited all methods that it knows in its last sweep.
theorem exists_visited_eq (h : (Analysis.sweeps p left done st).quiescent) :
    ∃ round ∈ (sweeps p left done st).2,
      round.visited = (Analysis.sweeps p left done st).state.discovered := by
  induction left generalizing done st
  case zero => simp [Analysis.sweeps] at h
  case succ left hi =>
    simp only [Analysis.sweeps, sweeps, sweep_eq] at h ⊢
    split
    case isTrue hq =>
      have fresh : (st.sweep p).1.fresh = [] := by
        simpa [State.report] using (Bool.and_eq_true_iff.mp hq).right
      refine ⟨_, List.mem_singleton_self _, ?_⟩
      simp [State.report, State.discovered, fresh, swept_sweep p st]
    case isFalse hq =>
      simp only [hq] at h
      obtain ⟨round, hr, he⟩ := hi h
      exact ⟨round, List.mem_cons_of_mem _ hr, he⟩

end Logged

-- Which methods a result reaches, whether the run has converged or not.
structure Reachability (p : Problem) (r : Result) : Prop where
  callers : ∀ a, ∀ b ∈ r.graph.callees a, a ∈ r.reachable ∧ a.hasBody
  whole   : p.entries = [] → ∀ m, m ∈ r.reachable ↔ m ∈ p.program.methods ∧ m.hasBody
  entered : p.entries ≠ [] → ∀ m, m ∈ r.reachable ↔
    m ∈ p.entries ∨ m.hasBody ∧ ∃ a, m ∈ r.graph.callees a
  paths   : p.entries ≠ [] → ∀ m ∈ r.reachable, ∃ entry ∈ p.entries,
    ReflTransGen (fun a b => a.hasBody ∧ b.hasBody ∧ b ∈ r.graph.callees a) entry m

-- No sweep visits a method twice, and what is taken from the queue is visited from then on.
structure Orderly (rounds : List Round) : Prop where
  once : ∀ round ∈ rounds, round.visited.Nodup
  kept : ∀ (i j : Nat) (first later : Round), i ≤ j → rounds[i]? = some first → rounds[j]? = some later →
    first.taken ⊆ later.visited

theorem reachability_run (p : Problem) : Reachability p p.run := by
  have connected := (preserved_connected p).solve
  have roots := roots_subset_discovered p
  have callees {a b : Method} : b ∈ p.run.graph.callees a ↔ b ∈ p.solve.state.graph.successors a :=
    (closed_graph_solve p).mem_callees
  have rooted (he : p.entries ≠ []) : p.roots = p.entries := by simp [Problem.roots, he]
  constructor
  case callers =>
    intro a b hab
    obtain ⟨hs, hb⟩ := connected.callers a b (callees.mp hab)
    exact ⟨List.mem_append_left _ hs, hb⟩
  case whole =>
    intro he m
    have known : m ∈ p.roots ↔ m ∈ p.program.methods ∧ m.hasBody := by simp [Problem.roots, he]
    rw [← known]
    refine ⟨fun hm => (connected.found m hm).resolve_right fun hc => hc.left he, fun hm => roots hm⟩
  case entered =>
    intro he m
    rw [← rooted he]
    constructor
    case mp =>
      intro hm
      refine (connected.found m hm).imp_right ?_
      rintro ⟨_, hb, a, ha⟩
      exact ⟨hb, a, callees.mpr ha⟩
    case mpr =>
      intro hm
      obtain hm | ⟨hb, a, ha⟩ := hm
      case inl => exact roots hm
      case inr => exact connected.callees he a m (callees.mp ha) hb
  case paths =>
    intro he m hm
    rw [← rooted he]
    obtain ⟨root, hroot, path⟩ := connected.paths m hm
    refine ⟨root, hroot, path.lift id fun _ _ call => ?_⟩
    exact ⟨call.1, call.2.1, callees.mpr call.2.2⟩

theorem orderly_solve (p : Problem) : Orderly (Logged.solve p).2 where
  once := Logged.nodup_visited (preserved_nodup p).start
  kept := by
    intro i j first later hij hi hj m hm
    rw [Logged.visited_eq hj]
    refine List.mem_append_right _ (List.mem_flatMap.mpr ⟨first, ?_, hm⟩)
    refine List.mem_of_getElem? (i := i) ?_
    rw [List.getElem?_take, if_pos (Nat.lt_succ_of_le hij)]
    exact hi

-- In every run the callers are reached methods with bodies, and what is reached is what the entries
-- and the recorded calls lead to. A converged run has visited all of it and knows all its calls.
theorem reachable_iff_called {s : Settings} {p : Problem} {r : Result} (valid : s.problem = .ok p)
    (done : analyze s = .ok r) :
    Reachability p r ∧
    ((Logged.solve p).1 = p.solve ∧ Orderly (Logged.solve p).2) ∧
    (r.converged →
      (∃ round ∈ (Logged.solve p).2, ∀ m ∈ r.reachable, m ∈ round.visited) ∧
      ∀ m ∈ r.reachable, m.hasBody → ∀ call, .invoke call ∈ m.body →
        ∀ callee ∈ p.targets r.facts call, callee ∈ r.graph.callees m) := by
  have hr := run_eq_of_analyze valid done
  subst hr
  refine ⟨reachability_run p, ⟨Logged.sweeps_fst, orderly_solve p⟩, fun converged => ⟨?_, ?_⟩⟩
  · have quiescent : p.solve.quiescent := (Bool.and_eq_true_iff.mp converged).left
    have ⟨round, hr, visited⟩ := Logged.exists_visited_eq quiescent
    refine ⟨round, hr, fun m hm => ?_⟩
    rw [visited]
    exact hm
  · exact (fixedPoint_run (Settings.coherent valid) converged).calls

-- The run on the cell takes four sweeps. The second one also visits what the first one has found.
theorem Sample.cell_reachable :
    problem.run.converged ∧ get ∈ problem.run.reachable ∧ get ∈ problem.run.graph.callees main ∧
      (∀ a, ∀ b ∈ problem.run.graph.callees a, a ∈ problem.run.reachable ∧ a.hasBody) ∧
      (Logged.solve problem).2.map Round.visited =
        [[main], [main, get], [main, get], [main, get]] ∧
      (∀ round ∈ (Logged.solve problem).2, round.visited.Nodup) ∧
      ∃ round ∈ (Logged.solve problem).2, ∀ m ∈ problem.run.reachable, m ∈ round.visited := by
  have ⟨reached, ⟨_, orderly⟩, converged⟩ :=
    reachable_iff_called (problem_settingsOf storing objects) (analyze_settingsOf storing objects)
  have ⟨visited, _⟩ := converged converged_run
  exact ⟨converged_run, by decide +kernel, by decide +kernel, reached.callers, by decide +kernel,
    orderly.once, visited⟩

end Analysis
end PointsTo
