import PointsTo.Proofs.Constraint
import PointsTo.Proofs.Links
import PointsTo.Proofs.Targets

namespace PointsTo

namespace CallGraph

variable {α : Type} [DecidableEq α]

theorem find?_insertCall {x y a : α} {calls : List (α × List α)} :
    (insertCall x y calls).find? (·.1 = a) =
      if a = x then
        match calls.find? (·.1 = x) with
        | some (_, callees) => some (x, callees ++ [y])
        | none => some (x, [y])
      else calls.find? (·.1 = a) := by
  induction calls
  case nil => grind [insertCall]
  case cons e rest hi =>
    have ⟨b, callees⟩ := e
    unfold insertCall
    split <;> grind

theorem mem_successors_addEdge {g : CallGraph α} {x y a b : α} :
    b ∈ (g.addEdge x y).successors a ↔ b ∈ g.successors a ∨ a = x ∧ b = y := by
  unfold addEdge
  split
  case isTrue h =>
    refine ⟨.inl, fun hb => hb.elim id ?_⟩
    intro ⟨ha, hb⟩
    exact ha ▸ hb ▸ h
  case isFalse =>
    simp only [successors, find?_insertCall]
    by_cases ha : a = x
    case pos =>
      subst ha
      cases g.calls.find? (·.1 = a) <;> simp
    case neg => simp [ha]

@[simp]
theorem addEdges_nil (g : CallGraph α) (x : α) : g.addEdges x [] = g := by
  simp [addEdges]

theorem mem_successors_addEdges {g : CallGraph α} {x a b : α} {ys : List α} :
    b ∈ (g.addEdges x ys).successors a ↔ b ∈ g.successors a ∨ a = x ∧ b ∈ ys := by
  rw [addEdges_eq]
  induction ys generalizing g
  case nil => simp
  case cons y rest hi =>
    simp only [List.foldl_cons, hi, mem_successors_addEdge, List.mem_cons]
    grind

def Closed (g : CallGraph α) : Prop :=
  ∀ a b, b ∈ g.successors a → a ∈ g.nodes ∧ b ∈ g.nodes

theorem mem_appendNew {β : Type} [DecidableEq β] {l : List β} {x y : β} :
    y ∈ appendNew l x ↔ y ∈ l ∨ y = x := by
  unfold appendNew
  split <;> grind

theorem Closed.addEdge {g : CallGraph α} (h : g.Closed) (x y : α) : (g.addEdge x y).Closed := by
  intro a b hb
  have hb' := mem_successors_addEdge.mp hb
  unfold CallGraph.addEdge
  split
  case isTrue hy =>
    cases hb'
    case inl hb => exact h a b hb
    case inr hb => exact hb.left ▸ hb.right ▸ h x y hy
  case isFalse =>
    simp only [mem_appendNew]
    cases hb'
    case inl hb =>
      have ⟨ha, hb⟩ := h a b hb
      exact ⟨.inl (.inl ha), .inl (.inl hb)⟩
    case inr hb => exact ⟨.inl (.inr hb.left), .inr hb.right⟩

theorem Closed.addEdges {g : CallGraph α} (h : g.Closed) (x : α) (ys : List α) :
    (g.addEdges x ys).Closed := by
  rw [addEdges_eq]
  induction ys generalizing g
  case nil            => exact h
  case cons y rest hi => exact hi (h.addEdge x y)

theorem Closed.mem_callees {g : CallGraph α} (h : g.Closed) {a b : α} :
    b ∈ g.callees a ↔ b ∈ g.successors a := by
  simp only [callees, List.mem_filter, decide_eq_true_eq, and_iff_right_iff_imp]
  exact fun hb => (h a b hb).right

end CallGraph

namespace Analysis

def Problem.roots (p : Problem) : List Method :=
  if p.entries.isEmpty then p.program.methods.filter Method.hasBody else p.entries

def Problem.methods (p : Problem) : List Method :=
  p.program.methods ++ p.entries

theorem Problem.roots_subset_methods (p : Problem) : p.roots ⊆ p.methods := by
  intro m hm
  unfold roots at hm
  split at hm
  case isTrue  => exact List.mem_append_left _ (List.mem_filter.mp hm).left
  case isFalse => exact List.mem_append_right _ hm

-- Calls are looked up in the program that is analysed.
def Problem.Coherent (p : Problem) : Prop :=
  p.scene.hierarchy.program = p.program

theorem Problem.Coherent.mem_methods {p : Problem} (h : p.Coherent) {f : Facts} {call : Invoke}
    {callee : Method} (hc : callee ∈ p.targets f call) : callee ∈ p.program.methods := by
  have hm := Scene.mem_methods_of_mem_targets hc
  rwa [h] at hm

-- Only calls have targets.
theorem Problem.mem_finding_targets {p : Problem} {f : Facts} {s : Stmt} {callee : Method}
    (h : callee ∈ (p.finding f s).targets) :
    ∃ call, s = .invoke call ∧ callee ∈ p.targets f call := by
  cases s
  case invoke call => exact ⟨call, rfl, h⟩
  all_goals simp [finding] at h

def Event.isChanged : Event → Bool
  | .changed .. => true
  | _ => false

namespace Constants

theorem isArray_key (cs : Constants) (index : Option Var) : (cs.key index).isArray := by
  unfold key
  split <;> rfl

-- The constants after some statements, in the order in which they were processed.
def ofStmts (stmts : List Stmt) : Constants :=
  stmts.foldl after ∅

def From (body : List Stmt) (cs : Constants) : Prop :=
  ∃ stmts, stmts ⊆ body ∧ cs = ofStmts stmts

theorem From.empty (body : List Stmt) : From body ∅ :=
  ⟨[], List.nil_subset _, rfl⟩

theorem From.after {body : List Stmt} {cs : Constants} {s : Stmt} (h : From body cs)
    (hs : s ∈ body) : From body (cs.after s) := by
  have ⟨stmts, hsub, he⟩ := h
  refine ⟨stmts ++ [s], ?_, ?_⟩
  · exact List.append_subset.mpr ⟨hsub, by simpa using hs⟩
  · simp [ofStmts, he]

theorem From.induction {P : Constants → Prop} {body : List Stmt} {cs : Constants}
    (h : From body cs) (empty : P ∅) (step : ∀ cs s, P cs → s ∈ body → P (cs.after s)) : P cs := by
  obtain ⟨stmts, hsub, rfl⟩ := h
  unfold ofStmts
  generalize (∅ : Constants) = cs at empty ⊢
  induction stmts generalizing cs
  case nil => exact empty
  case cons s rest hi =>
    have ⟨hs, hrest⟩ := List.cons_subset.mp hsub
    exact hi hrest _ (step cs s empty hs)

end Constants

namespace State

variable {p : Problem} {st : State} {m x a b : Method} {cs : Constants} {s : Stmt}

theorem mem_discovered_discover : x ∈ (st.discover m).discovered ↔ x ∈ st.discovered ∨ x = m := by
  unfold discover
  split
  case isTrue h =>
    refine ⟨.inl, fun hx => hx.elim id fun he => ?_⟩
    exact he ▸ List.mem_append.mpr h
  case isFalse => simp [discovered, or_assoc]

-- Discovering methods touches nothing else.
theorem discover_eq (st : State) (m : Method) : ∃ fresh, st.discover m = { st with fresh } := by
  unfold discover
  split
  case isTrue  => exact ⟨st.fresh, rfl⟩
  case isFalse => exact ⟨_, rfl⟩

theorem foldl_discover_eq (st : State) (ms : List Method) :
    ∃ fresh, ms.foldl discover st = { st with fresh } := by
  induction ms generalizing st
  case nil => exact ⟨st.fresh, rfl⟩
  case cons m rest hi =>
    have ⟨fresh, hm⟩ := discover_eq st m
    have ⟨fresh', hr⟩ := hi (st.discover m)
    exact ⟨fresh', by rw [List.foldl_cons, hr, hm]⟩

theorem mem_discovered_foldl {ms : List Method} :
    x ∈ (ms.foldl discover st).discovered ↔ x ∈ st.discovered ∨ x ∈ ms := by
  induction ms generalizing st
  case nil            => simp
  case cons m rest hi => simp [hi, mem_discovered_discover, or_assoc]

theorem start_eq (p : Problem) : ∃ fresh, start p = { fresh } :=
  foldl_discover_eq {} p.roots

theorem facts_start_subset (p : Problem) (F : Set Fact) : (start p).facts.toSet ⊆ F := by
  have ⟨_, h⟩ := start_eq p
  rw [h]
  intro x hx
  simp at hx

theorem mem_discovered_start : x ∈ (start p).discovered ↔ x ∈ p.roots := by
  have : x ∈ (start p).discovered ↔ x ∈ State.discovered {} ∨ x ∈ p.roots :=
    mem_discovered_foldl
  simpa [discovered] using this

theorem recordCalls_eq (p : Problem) (m : Method) (st : State) (callees : List Method) :
    ∃ fresh, st.recordCalls p m callees =
      { st with graph := st.graph.addEdges m callees, fresh } := by
  unfold recordCalls
  dsimp only
  split
  case isTrue => exact ⟨st.fresh, rfl⟩
  case isFalse =>
    rw [discoverAll_eq]
    exact foldl_discover_eq ..

theorem mem_discovered_recordCalls {callees : List Method} :
    x ∈ (st.recordCalls p m callees).discovered ↔
      x ∈ st.discovered ∨ p.entries ≠ [] ∧ x ∈ callees ∧ x.hasBody := by
  unfold recordCalls
  dsimp only
  split
  case isTrue h =>
    rw [List.isEmpty_iff] at h
    simp [h, discovered]
  case isFalse h =>
    rw [List.isEmpty_iff] at h
    rw [discoverAll_eq, mem_discovered_foldl]
    simp [h, discovered]

theorem note_eq (p : Problem) (m : Method) (st : State) (f : Facts) (s : Stmt) :
    ∃ fresh events, st.note p m (p.finding f s) s =
        { st with graph := st.graph.addEdges m (p.finding f s).targets, fresh, events } ∧
      events.countP Event.isChanged = st.events.countP Event.isChanged := by
  cases s
  case invoke call =>
    have ⟨fresh, h⟩ := recordCalls_eq p m st (p.scene.targets call (f.receivers call))
    exact ⟨fresh, st.events, h, rfl⟩
  case alloc site lhs type =>
    simp only [note]
    split
    case h_1 => exact ⟨st.fresh, st.events, by simp [Problem.finding], rfl⟩
    case h_2 =>
      refine ⟨st.fresh, .unnumbered m (.alloc site lhs type) :: st.events, ?_, ?_⟩
      · simp [Problem.finding, report]
      · exact List.countP_cons_of_neg (by simp [Event.isChanged])
  all_goals exact ⟨st.fresh, st.events, by simp [note, Problem.finding], rfl⟩

theorem mem_discovered_note {f : Facts} :
    x ∈ (st.note p m (p.finding f s) s).discovered ↔
      x ∈ st.discovered ∨ p.entries ≠ [] ∧ x ∈ (p.finding f s).targets ∧ x.hasBody := by
  cases s
  case invoke call => exact mem_discovered_recordCalls
  case alloc site lhs type =>
    simp only [note, Problem.finding]
    split <;> simp [discovered, report]
  all_goals simp [note, Problem.finding]

theorem grown_step :
    (st.step p m cs (.ofStmt p s)).2 = (st.facts.step cs (p.finding st.facts s) s).grown := by
  simp [step]

-- Only a step that made a set larger is reported as a change.
theorem step_eq (p : Problem) (m : Method) (cs : Constants) (st : State) (s : Stmt) :
    ∃ fresh events, (st.step p m cs (.ofStmt p s)).1 =
        { st with
          facts := (st.facts.step cs (p.finding st.facts s) s).facts
          graph := st.graph.addEdges m (p.finding st.facts s).targets
          fresh
          events } ∧
      events.countP Event.isChanged = st.events.countP Event.isChanged +
        if (st.facts.step cs (p.finding st.facts s) s).grown then 1 else 0 := by
  have ⟨fresh, events, hn, he⟩ := note_eq p m st st.facts s
  simp only [step, Linked.finding_ofStmt, Linked.stmt_ofStmt, hn]
  split
  case isTrue =>
    refine ⟨fresh, .changed m s :: events, rfl, ?_⟩
    rw [List.countP_cons_of_pos rfl, he]
  case isFalse => exact ⟨fresh, events, rfl, he⟩

theorem facts_step : (st.step p m cs (.ofStmt p s)).1.facts =
    (st.facts.step cs (p.finding st.facts s) s).facts := by
  have ⟨_, _, h, _⟩ := step_eq p m cs st s
  rw [h]

theorem swept_step : (st.step p m cs (.ofStmt p s)).1.swept = st.swept := by
  have ⟨_, _, h, _⟩ := step_eq p m cs st s
  rw [h]

theorem capped_step : (st.step p m cs (.ofStmt p s)).1.capped = st.capped := by
  have ⟨_, _, h, _⟩ := step_eq p m cs st s
  rw [h]

theorem mem_successors_step : b ∈ (st.step p m cs (.ofStmt p s)).1.graph.successors a ↔
    b ∈ st.graph.successors a ∨ a = m ∧ b ∈ (p.finding st.facts s).targets := by
  have ⟨_, _, h, _⟩ := step_eq p m cs st s
  rw [h, CallGraph.mem_successors_addEdges]

theorem mem_discovered_step : x ∈ (st.step p m cs (.ofStmt p s)).1.discovered ↔
    x ∈ st.discovered ∨ p.entries ≠ [] ∧ x ∈ (p.finding st.facts s).targets ∧ x.hasBody := by
  have noted : x ∈ (st.note p m (p.finding st.facts s) s).discovered ↔
      x ∈ st.discovered ∨ p.entries ≠ [] ∧ x ∈ (p.finding st.facts s).targets ∧ x.hasBody :=
    mem_discovered_note
  rw [← noted]
  simp only [step, Linked.finding_ofStmt, Linked.stmt_ofStmt]
  split <;> rfl

-- The same work with the statements themselves on the worklist.
def process (p : Problem) (m : Method) :
    (steps : Nat) → List Stmt → Constants → State → (changed : Bool) → State × Bool
  | _, [], _, st, changed => (st, changed)
  | 0, _ :: _, _, st, changed =>
    ({ st with capped := st.capped + 1 }.report (.stepLimit m), changed)
  | steps + 1, s :: rest, cs, st, changed =>
    let result := st.step p m cs (.ofStmt p s)
    process p m steps (if result.2 then rest ++ m.body else rest) (cs.after s) result.1
      (changed || result.2)

theorem work_eq_process {n : Nat} {w : Worklist Linked} {stmts : List Stmt} {changed : Bool}
    (hw : w.toList (m.body.map (.ofStmt p)) = stmts.map (.ofStmt p)) :
    st.work p m (m.body.map (.ofStmt p)) n w cs changed = st.process p m n stmts cs changed := by
  induction n generalizing w stmts cs st changed
  case zero =>
    unfold work
    split
    case h_1 h =>
      rw [Worklist.pop?_eq_none_iff.mp h, eq_comm, List.map_eq_nil_iff] at hw
      simp [hw, process]
    case h_2 h =>
      rw [Worklist.pop?_eq_some h] at hw
      have ⟨s, rest, hs, _⟩ := List.map_eq_cons_iff.mp hw.symm
      simp [hs, process]
  case succ n hi =>
    unfold work
    split
    case h_1 h =>
      rw [Worklist.pop?_eq_none_iff.mp h, eq_comm, List.map_eq_nil_iff] at hw
      simp [hw, process]
    case h_2 l w' h =>
      rw [Worklist.pop?_eq_some h] at hw
      -- Both worklists have the same head, and the body goes behind the same rest.
      have ⟨s, rest, hs, hl, hr⟩ := List.map_eq_cons_iff.mp hw.symm
      subst hs hl
      simp only [process, Linked.stmt_ofStmt]
      refine hi ?_
      split
      case isTrue  => simp [hr]
      case isFalse => exact hr.symm

theorem visit_eq (p : Problem) (st : State) (m : Method) :
    st.visit p m = if m.hasBody then st.process p m p.maxSteps m.body ∅ false else (st, false) := by
  unfold visit
  split
  case isTrue  => exact work_eq_process (by simp [Worklist.toList])
  case isFalse => rfl

def enter (st : State) : State :=
  { st with swept := st.discovered, fresh := [] }

@[simp]
theorem discovered_enter (st : State) : st.enter.discovered = st.discovered := by
  simp [enter, discovered]

end State

-- A property of states that a run keeps. Every step counts, not only whole visits and sweeps.
structure Preserved (p : Problem) (I : State → Prop) : Prop where
  start  : I (State.start p)
  enter  : ∀ st, I st → I st.enter
  step   : ∀ st m cs s, I st → m ∈ st.swept → m.hasBody → s ∈ m.body → cs.From m.body →
    I (st.step p m cs (.ofStmt p s)).1
  cut    : ∀ st, I st → I { st with capped := st.capped + 1 }
  report : ∀ st e, e.isChanged = false → I st → I (st.report e)

namespace Preserved

variable {p : Problem} {I : State → Prop} {m : Method} {st : State}

-- Whatever is to be processed comes from the body, and so do the constants.
theorem process (h : Preserved p I) (hb : m.hasBody) {n : Nat} {stmts : List Stmt} {cs : Constants}
    {changed : Bool} (hs : stmts ⊆ m.body) (hc : cs.From m.body) (hm : m ∈ st.swept) (hi : I st) :
    I (st.process p m n stmts cs changed).1 ∧
      (st.process p m n stmts cs changed).1.swept = st.swept := by
  fun_induction State.process p m n stmts cs st changed
  case case1 => exact ⟨hi, rfl⟩
  case case2 => exact ⟨h.report _ _ rfl (h.cut _ hi), rfl⟩
  case case3 n s rest cs st changed result ih =>
    have ⟨hsb, hrest⟩ := List.cons_subset.mp hs
    -- A step leaves the swept methods alone, so `m` stays one of them.
    have hi' := h.step st m cs s hi hm hb hsb hc
    have hs' : result.1.swept = st.swept := State.swept_step
    rw [← hs'] at hm ⊢
    refine ih ?_ (hc.after hsb) hm hi'
    split
    case isTrue  => exact List.append_subset.mpr ⟨hrest, List.Subset.refl _⟩
    case isFalse => exact hrest

theorem visit (h : Preserved p I) (hm : m ∈ st.swept) (hi : I st) :
    I (st.visit p m).1 ∧ (st.visit p m).1.swept = st.swept := by
  rw [State.visit_eq]
  split
  case isTrue hb => exact h.process hb (List.Subset.refl _) (.empty _) hm hi
  case isFalse   => exact ⟨hi, rfl⟩

theorem visitAll (h : Preserved p I) {ms : List Method} {changed : Bool} (hm : ms ⊆ st.swept)
    (hi : I st) :
    I (st.visitAll p ms changed).1 ∧ (st.visitAll p ms changed).1.swept = st.swept := by
  induction ms generalizing st changed
  case nil => exact ⟨hi, rfl⟩
  case cons m rest ih =>
    have ⟨hm, hr⟩ := List.cons_subset.mp hm
    have ⟨hv, hs⟩ := h.visit hm hi
    rw [← hs] at hr ⊢
    exact ih hr hv

theorem sweep (h : Preserved p I) (hi : I st) :
    I (st.sweep p).1 ∧ (st.sweep p).1.swept = st.discovered := by
  have swept : st.discovered ⊆ st.enter.swept := List.Subset.refl _
  exact h.visitAll swept (h.enter st hi)

theorem sweeps (h : Preserved p I) {left done : Nat} (hi : I st) :
    I (sweeps p left done st).state := by
  induction left generalizing done st
  case zero => exact h.report _ _ rfl hi
  case succ left ih =>
    have hs := h.report _ (.swept (done + 1) (st.sweep p).1.swept.length (st.sweep p).2) rfl
      (h.sweep hi).left
    simp only [Analysis.sweeps]
    split
    case isTrue  => exact hs
    case isFalse => exact ih hs

theorem solve (h : Preserved p I) : I p.solve.state :=
  h.sweeps h.start

end Preserved

theorem closed_graph_solve (p : Problem) : p.solve.state.graph.Closed := by
  refine Preserved.solve (I := fun st => st.graph.Closed)
    ⟨?_, fun _ h => h, ?_, fun _ h => h, fun _ _ _ h => h⟩
  · have ⟨_, h⟩ := State.start_eq p
    rw [h]
    intro a b hb
    simp [CallGraph.successors] at hb
  · intro st m cs s h _ _ _ _
    have ⟨_, _, he, _⟩ := State.step_eq p m cs st s
    rw [he]
    exact h.addEdges m _

-- The roots of a run stay discovered.
theorem roots_subset_discovered (p : Problem) : p.roots ⊆ p.solve.state.discovered := by
  refine Preserved.solve (I := fun st => p.roots ⊆ st.discovered)
    ⟨fun m hm => State.mem_discovered_start.mpr hm, ?_, ?_, fun _ h => h, fun _ _ _ h => h⟩
  · intro st h
    rwa [State.discovered_enter]
  · intro st m cs s h _ _ _ _ x hx
    exact State.mem_discovered_step.mpr (.inl (h hx))

end Analysis
end PointsTo
