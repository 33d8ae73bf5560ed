import Mathlib.Data.List.Chain
import PointsTo.Proofs.Run

namespace PointsTo.Analysis

namespace State

def processStates (p : Problem) (m : Method) :
    (steps : Nat) → List Stmt → Constants → State → List State
  | _, [], _, _ => []
  | 0, _ :: _, _, st => [{ st with capped := st.capped + 1 }.report (.stepLimit m)]
  | steps + 1, s :: rest, cs, st =>
    let result := st.step p m cs (.ofStmt p s)
    result.1 :: processStates p m steps (if result.2 then rest ++ m.body else rest) (cs.after s)
      result.1

def visitStates (p : Problem) (st : State) (m : Method) : List State :=
  if m.hasBody then st.processStates p m p.maxSteps m.body ∅ else []

def visitAllStates (p : Problem) : List Method → State → List State
  | [], _ => []
  | m :: rest, st => st.visitStates p m ++ visitAllStates p rest (st.visit p m).1

def sweepStates (p : Problem) (st : State) : List State :=
  st.enter :: st.enter.visitAllStates p st.discovered

end State

def sweepsStates (p : Problem) : (left done : Nat) → State → List State
  | 0, done, st => [st.report (.sweepLimit done)]
  | left + 1, done, st =>
    let swept := st.sweep p
    let st' := swept.1.report (.swept (done + 1) swept.1.swept.length swept.2)
    st.sweepStates p ++ st' ::
      if !swept.2 && st'.fresh.isEmpty then [] else sweepsStates p left (done + 1) st'

-- A state after each step, and one wherever a visit is cut short, a sweep begins or something is
-- reported.
def Problem.states (p : Problem) : List State :=
  .start p :: sweepsStates p p.maxSweeps 0 (.start p)

section Last

variable {p : Problem}

theorem getLast?_cons_append {α : Type} {a b c : α} {l l' : List α}
    (h : (a :: l).getLast? = some b) (h' : (b :: l').getLast? = some c) :
    (a :: (l ++ l')).getLast? = some c := by
  simp only [List.getLast?_cons, List.getLast?_append] at h h' ⊢
  grind

theorem getLast?_processStates (m : Method) (n : Nat) (stmts : List Stmt) (cs : Constants)
    (st : State) (changed : Bool) :
    (st :: st.processStates p m n stmts cs).getLast? =
      some (st.process p m n stmts cs changed).1 := by
  fun_induction State.process p m n stmts cs st changed
  case case1 => simp [State.processStates]
  case case2 => simp [State.processStates]
  case case3 n s rest cs st changed result hi =>
    rw [State.processStates, List.getLast?_cons_cons]
    exact hi

theorem getLast?_visitStates (st : State) (m : Method) :
    (st :: st.visitStates p m).getLast? = some (st.visit p m).1 := by
  rw [State.visit_eq, State.visitStates]
  split
  case isTrue  => exact getLast?_processStates ..
  case isFalse => rfl

theorem getLast?_visitAllStates (ms : List Method) (st : State) (changed : Bool) :
    (st :: st.visitAllStates p ms).getLast? = some (st.visitAll p ms changed).1 := by
  induction ms generalizing st changed
  case nil            => rfl
  case cons m rest hi => exact getLast?_cons_append (getLast?_visitStates st m) (hi ..)

theorem getLast?_sweepStates (st : State) :
    (st :: st.sweepStates p).getLast? = some (st.sweep p).1 := by
  rw [State.sweepStates, List.getLast?_cons_cons]
  exact getLast?_visitAllStates ..

theorem getLast?_sweepsStates (left done : Nat) (st : State) :
    (st :: sweepsStates p left done st).getLast? = some (sweeps p left done st).state := by
  induction left generalizing done st
  case zero => rfl
  case succ left hi =>
    simp only [sweepsStates, sweeps]
    refine getLast?_cons_append (getLast?_sweepStates st) ?_
    rw [List.getLast?_cons_cons]
    split
    case isTrue  => rfl
    case isFalse => exact hi ..

-- The last state is the one that the run ends in.
theorem getLast?_states (p : Problem) : p.states.getLast? = some p.solve.state :=
  getLast?_sweepsStates ..

end Last

-- One state leads to another: a statement of a swept method was processed, or something was done
-- that has nothing to do with the facts.
inductive Leads (p : Problem) (st : State) : State → Prop
  | step {m cs s} (hm : m ∈ st.swept) (hb : m.hasBody) (hs : s ∈ m.body) (hc : cs.From m.body) :
    Leads p st (st.step p m cs (.ofStmt p s)).1
  | idle {st'} (facts : st'.facts = st.facts) : Leads p st st'

section Leads

variable {p : Problem} {m : Method} {st : State}

theorem isChain_cons_append {α : Type} {R : α → α → Prop} {a b : α} {l l' : List α}
    (h : (a :: l).IsChain R) (last : (a :: l).getLast? = some b) (h' : (b :: l').IsChain R) :
    (a :: (l ++ l')).IsChain R := by
  rw [← List.cons_append, List.isChain_append]
  refine ⟨h, h'.tail, fun x hx y hy => ?_⟩
  obtain rfl : b = x := Option.some.inj (last.symm.trans hx)
  exact h'.rel_head? hy

theorem isChain_processStates (hb : m.hasBody) {n : Nat} {stmts : List Stmt} {cs : Constants}
    (hs : stmts ⊆ m.body) (hc : cs.From m.body) (hm : m ∈ st.swept) :
    (st :: st.processStates p m n stmts cs).IsChain (Leads p) := by
  fun_induction State.processStates p m n stmts cs st
  case case1 => exact .singleton _
  case case2 => exact .cons_cons (.idle rfl) (.singleton _)
  case case3 n s rest cs st result hi =>
    have ⟨hsb, hrest⟩ := List.cons_subset.mp hs
    have swept : result.1.swept = st.swept := State.swept_step
    refine .cons_cons (.step hm hb hsb hc) (hi ?_ (hc.after hsb) (swept ▸ hm))
    split
    case isTrue  => exact List.append_subset.mpr ⟨hrest, List.Subset.refl _⟩
    case isFalse => exact hrest

theorem isChain_visitStates (hm : m ∈ st.swept) :
    (st :: st.visitStates p m).IsChain (Leads p) := by
  unfold State.visitStates
  split
  case isTrue hb => exact isChain_processStates hb (List.Subset.refl _) (.empty _) hm
  case isFalse   => exact .singleton _

theorem isChain_visitAllStates {ms : List Method} (hm : ms ⊆ st.swept) :
    (st :: st.visitAllStates p ms).IsChain (Leads p) := by
  induction ms generalizing st
  case nil => exact .singleton _
  case cons m rest hi =>
    have ⟨hm, hr⟩ := List.cons_subset.mp hm
    have trivially : Preserved p fun _ => True := by constructor <;> simp
    have swept : (st.visit p m).1.swept = st.swept := (trivially.visit hm trivial).right
    exact isChain_cons_append (isChain_visitStates hm) (getLast?_visitStates st m) (hi (swept ▸ hr))

theorem isChain_sweepsStates (left done : Nat) (st : State) :
    (st :: sweepsStates p left done st).IsChain (Leads p) := by
  induction left generalizing done st
  case zero => exact .cons_cons (.idle rfl) (.singleton _)
  case succ left hi =>
    have entered : (st :: st.sweepStates p).IsChain (Leads p) :=
      .cons_cons (.idle rfl) (isChain_visitAllStates (List.Subset.refl st.enter.swept))
    refine isChain_cons_append entered (getLast?_sweepStates st) (.cons_cons (.idle rfl) ?_)
    split
    case isTrue  => exact .singleton _
    case isFalse => exact hi ..

theorem isChain_states (p : Problem) : p.states.IsChain (Leads p) :=
  isChain_sweepsStates ..

-- What does not hold at first comes to hold from one state to the next.
theorem exists_change {α : Type} {R : α → α → Prop} {P : α → Prop} {l : List α}
    (chain : l.IsChain R) (start : ∀ a ∈ l.head?, ¬ P a) {before after : List α} {b : α}
    (split : l = before ++ b :: after) (h : P b) :
    ∃ x y, [x, y] <:+: before ++ [b] ∧ R x y ∧ ¬ P x ∧ P y := by
  subst split
  induction before using List.reverseRecOn generalizing b after
  case nil => exact absurd h (start b rfl)
  case append_singleton before a hi =>
    rw [List.append_assoc, List.singleton_append] at chain start
    by_cases ha : P a
    case pos =>
      have ⟨x, y, within, rest⟩ := hi ha chain start
      exact ⟨x, y, within.trans (List.prefix_append _ _).isInfix, rest⟩
    case neg =>
      have step : R a b := (List.isChain_append_cons_cons.mp chain).2.1
      exact ⟨a, b, ⟨before, [], by simp⟩, step, ha, h⟩

end Leads

namespace Preserved

variable {p : Problem} {I : State → Prop} {m : Method} {st x : State}

theorem processStates (h : Preserved p I) (hb : m.hasBody) {n : Nat} {stmts : List Stmt}
    {cs : Constants} (hs : stmts ⊆ m.body) (hc : cs.From m.body) (hm : m ∈ st.swept) (hi : I st)
    (hx : x ∈ st.processStates p m n stmts cs) : I x := by
  fun_induction State.processStates p m n stmts cs st
  case case1 => simp at hx
  case case2 =>
    rw [List.mem_singleton.mp hx]
    exact h.report _ _ rfl (h.cut _ hi)
  case case3 n s rest cs st result ih =>
    have ⟨hsb, hrest⟩ := List.cons_subset.mp hs
    have hi' := h.step st m cs s hi hm hb hsb hc
    cases List.mem_cons.mp hx
    case inl hx => exact hx ▸ hi'
    case inr hx =>
      have hs' : result.1.swept = st.swept := State.swept_step
      refine ih ?_ (hc.after hsb) (hs' ▸ hm) hi' hx
      split
      case isTrue  => exact List.append_subset.mpr ⟨hrest, List.Subset.refl _⟩
      case isFalse => exact hrest

theorem visitAllStates (h : Preserved p I) {ms : List Method} (hm : ms ⊆ st.swept) (hi : I st)
    (hx : x ∈ st.visitAllStates p ms) : I x := by
  induction ms generalizing st
  case nil => simp [State.visitAllStates] at hx
  case cons m rest ih =>
    have ⟨hm, hr⟩ := List.cons_subset.mp hm
    have ⟨hv, hs⟩ := h.visit hm hi
    cases List.mem_append.mp hx
    case inl hx =>
      unfold State.visitStates at hx
      split at hx
      case isTrue hb => exact h.processStates hb (List.Subset.refl _) (.empty _) hm hi hx
      case isFalse   => simp at hx
    case inr hx => exact ih (hs ▸ hr) hv hx

theorem sweepsStates (h : Preserved p I) {left done : Nat} (hi : I st)
    (hx : x ∈ sweepsStates p left done st) : I x := by
  induction left generalizing done st
  case zero =>
    rw [List.mem_singleton.mp hx]
    exact h.report _ _ rfl hi
  case succ left ih =>
    have hs := h.report _ (.swept (done + 1) (st.sweep p).1.swept.length (st.sweep p).2) rfl
      (h.sweep hi).left
    simp only [Analysis.sweepsStates, List.mem_append, List.mem_cons] at hx
    rcases hx with hx | hx | hx
    case inl =>
      have he := h.enter st hi
      cases List.mem_cons.mp hx
      case inl hx => exact hx ▸ he
      case inr hx => exact h.visitAllStates (List.Subset.refl st.enter.swept) he hx
    case inr.inl => exact hx ▸ hs
    case inr.inr =>
      split at hx
      case isTrue  => simp at hx
      case isFalse => exact ih hs hx

theorem states (h : Preserved p I) : ∀ st ∈ p.states, I st := by
  intro st hst
  cases List.mem_cons.mp hst
  case inl he => exact he ▸ h.start
  case inr hm => exact h.sweepsStates h.start hm

end Preserved
end PointsTo.Analysis
