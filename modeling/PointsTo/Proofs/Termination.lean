import PointsTo.Proofs.FixedPoint
import PointsTo.Proofs.PossibleFacts

namespace PointsTo.Analysis

namespace State

variable {p : Problem} {st : State} {m : Method} {cs : Constants} {s : Stmt}

theorem nodup_discover (h : st.discovered.Nodup) : (st.discover m).discovered.Nodup := by
  unfold discover
  split
  case isTrue => exact h
  case isFalse hn =>
    have hn : m ∉ st.discovered := by simpa [discovered] using hn
    have : (st.discovered ++ [m]).Nodup := List.nodup_append.mpr ⟨h, by simp, by grind⟩
    simpa [discovered] using this

theorem nodup_foldl_discover {ms : List Method} (h : st.discovered.Nodup) :
    (ms.foldl discover st).discovered.Nodup := by
  induction ms generalizing st
  case nil            => exact h
  case cons m rest hi => exact hi (nodup_discover h)

theorem nodup_note {f : Finding} (h : st.discovered.Nodup) : (st.note p m f s).discovered.Nodup := by
  cases s
  case invoke call =>
    simp only [note, recordCalls]
    split
    case isTrue => exact h
    case isFalse =>
      rw [discoverAll_eq]
      exact nodup_foldl_discover h
  case alloc =>
    simp only [note]
    split <;> exact h
  all_goals exact h

theorem nodup_step (h : st.discovered.Nodup) :
    (st.step p m cs (.ofStmt p s)).1.discovered.Nodup := by
  have := nodup_note (p := p) (m := m) (s := s) (f := p.finding st.facts s) h
  simp only [step, Linked.finding_ofStmt, Linked.stmt_ofStmt]
  split <;> exact this

end State

-- What every state of a run keeps to. Each reported change has come with a new fact.
structure Bounded (p : Problem) (st : State) : Prop where
  facts   : st.facts.toSet ⊆ p.possible
  methods : st.discovered ⊆ p.methods
  nodup   : st.discovered.Nodup
  changes : st.events.countP Event.isChanged ≤ st.facts.toSet.ncard

theorem ncard_step {p : Problem} {st : State} {m : Method} {cs : Constants} {s : Stmt}
    (h : (st.step p m cs (.ofStmt p s)).1.facts.toSet ⊆ p.possible) :
    st.facts.toSet.ncard + (if (st.step p m cs (.ofStmt p s)).2 then 1 else 0) ≤
      (st.step p m cs (.ofStmt p s)).1.facts.toSet.ncard := by
  have finite := p.possible.finite_toSet.subset h
  rw [State.facts_step] at h finite ⊢
  rw [State.grown_step]
  have hle := st.facts.le_step cs (p.finding st.facts s) s
  split
  case isTrue hg =>
    have ⟨x, hx, hn⟩ := Facts.exists_new_of_grown hg
    exact Set.ncard_lt_ncard ⟨hle, fun hc => hn (hc hx)⟩ finite
  case isFalse => exact Set.ncard_le_ncard hle finite

namespace Bounded

variable {p : Problem} {st : State}

theorem start (p : Problem) : Bounded p (.start p) where
  facts   := State.facts_start_subset ..
  methods := fun _ hm => p.roots_subset_methods (State.mem_discovered_start.mp hm)
  nodup   := State.nodup_foldl_discover List.nodup_nil
  changes := by
    have ⟨_, hs⟩ := State.start_eq p
    rw [hs]
    exact Nat.zero_le _

theorem enter (h : Bounded p st) : Bounded p st.enter :=
  { h with methods := by simpa using h.methods, nodup := by simpa using h.nodup }

theorem report {e : Event} (he : e.isChanged = false) (h : Bounded p st) :
    Bounded p (st.report e) := by
  refine { h with changes := ?_ }
  rw [State.report, List.countP_cons_of_neg (by simp [he])]
  exact h.changes

theorem step {m : Method} {cs : Constants} {s : Stmt} (coherent : p.Coherent) (h : Bounded p st)
    (hm : m ∈ st.discovered) (hs : s ∈ m.body) (hc : cs.From m.body) :
    Bounded p (st.step p m cs (.ofStmt p s)).1 := by
  have callees {callee : Method} (hc : callee ∈ (p.finding st.facts s).targets) :
      callee ∈ p.methods := by
    obtain ⟨call, _, hc⟩ := Problem.mem_finding_targets hc
    exact List.mem_append_left _ (coherent.mem_methods hc)
  have satisfied : Satisfies p p.possible cs (p.targets st.facts) s := by
    refine satisfies_possible (h.methods hm) hs hc fun call hcall callee hcallee => ?_
    subst hcall
    exact callees hcallee
  have facts : (st.step p m cs (.ofStmt p s)).1.facts.toSet ⊆ p.possible := by
    rw [State.facts_step]
    exact Facts.step_within h.facts satisfied fun _ _ => subset_rfl
  constructor
  case facts => exact facts
  case methods =>
    intro x hx
    cases State.mem_discovered_step.mp hx
    case inl hx => exact h.methods hx
    case inr hx => exact callees hx.right.left
  case nodup => exact State.nodup_step h.nodup
  case changes =>
    obtain ⟨_, _, he, hcount⟩ := State.step_eq p m cs st s
    have hn := ncard_step facts
    rw [State.grown_step] at hn
    rw [he] at hn ⊢
    rw [hcount]
    exact (Nat.add_le_add_right h.changes _).trans hn

end Bounded

theorem preserved_bounded {p : Problem} (coherent : p.Coherent) : Preserved p (Bounded p) where
  start  := .start p
  enter  := fun _ h => h.enter
  step   := fun _ _ _ _ h hm _ hs hc => h.step coherent (List.mem_append_left _ hm) hs hc
  cut    := fun _ h => { h with }
  report := fun _ _ he h => h.report he

namespace Problem

variable (p : Problem)

def methodCount : Nat :=
  p.methods.toFinset.card

def longestBody : Nat :=
  (p.methods.map (·.body.length)).max?.getD 0

theorem le_longestBody {m : Method} (hm : m ∈ p.methods) : m.body.length ≤ p.longestBody :=
  List.le_max?_getD_of_mem (List.mem_map_of_mem hm)

-- The number of facts that are still to come, at most.
noncomputable def room (st : State) : Nat :=
  p.possible.card - st.facts.toSet.ncard

-- What the sweeps of a run use up. A method counts twice, for its discovery and its first visit.
noncomputable def potential (st : State) : Nat :=
  p.room st + (p.methodCount - st.swept.length) + (p.methodCount - st.discovered.length)

end Problem

namespace Bounded

variable {p : Problem} {st st' : State}

theorem ncard_le (h : Bounded p st) : st.facts.toSet.ncard ≤ p.possible.card := by
  have := Set.ncard_le_ncard h.facts p.possible.finite_toSet
  rwa [Set.ncard_coe_finset] at this

theorem length_discovered_le (h : Bounded p st) : st.discovered.length ≤ p.methodCount := by
  rw [← List.toFinset_card_of_nodup h.nodup]
  refine Finset.card_le_card fun m hm => ?_
  exact List.mem_toFinset.mpr (h.methods (List.mem_toFinset.mp hm))

theorem room_le (h : Bounded p st') (e : State.Extends st st') : p.room st' ≤ p.room st := by
  have := Set.ncard_le_ncard e.facts (p.possible.finite_toSet.subset h.facts)
  unfold Problem.room
  omega

theorem room_lt (h : Bounded p st') (e : State.Extends st st')
    (hx : ∃ x ∈ st'.facts.toSet, x ∉ st.facts.toSet) : p.room st' < p.room st := by
  have ⟨x, hx, hn⟩ := hx
  have := Set.ncard_lt_ncard ⟨e.facts, fun hc => hn (hc hx)⟩ (p.possible.finite_toSet.subset h.facts)
  have := h.ncard_le
  unfold Problem.room
  omega

end Bounded

-- The run once more, with the steps of each visit counted.
namespace Metered

def process (p : Problem) (m : Method) :
    (steps : Nat) → List Stmt → Constants → State → (changed : Bool) → (State × Bool) × Nat
  | 0, stmts, cs, st, changed => (st.process p m 0 stmts cs changed, 0)
  | _ + 1, [], _, st, changed => ((st, changed), 0)
  | steps + 1, s :: rest, cs, st, changed =>
    let result := st.step p m cs (.ofStmt p s)
    let later := process p m steps (if result.2 then rest ++ m.body else rest) (cs.after s) result.1
      (changed || result.2)
    (later.1, later.2 + 1)

def visit (p : Problem) (st : State) (m : Method) : (State × Bool) × Nat :=
  if m.hasBody then process p m p.maxSteps m.body ∅ st false else ((st, false), 0)

def visitAll (p : Problem) : List Method → State → (changed : Bool) → (State × Bool) × List Nat
  | [], st, changed => ((st, changed), [])
  | m :: rest, st, changed =>
    let first := visit p st m
    let later := visitAll p rest first.1.1 (changed || first.1.2)
    (later.1, first.2 :: later.2)

def sweep (p : Problem) (st : State) : (State × Bool) × List Nat :=
  visitAll p st.discovered st.enter (!p.entries.isEmpty && !st.fresh.isEmpty)

def sweeps (p : Problem) : (left done : Nat) → State → Outcome × List Nat
  | 0, done, st => (Analysis.sweeps p 0 done st, [])
  | left + 1, done, st =>
    let result := sweep p st
    let st := result.1.1.report (.swept (done + 1) result.1.1.swept.length result.1.2)
    if !result.1.2 && st.fresh.isEmpty then
      ({ state := st, sweeps := done + 1, quiescent := true }, result.2)
    else
      let later := sweeps p left (done + 1) st
      (later.1, result.2 ++ later.2)

def solve (p : Problem) : Outcome × List Nat :=
  sweeps p p.maxSweeps 0 (.start p)

variable {p : Problem}

@[simp]
theorem process_fst {m : Method} {n : Nat} {stmts : List Stmt} {cs : Constants} {st : State}
    {changed : Bool} : (process p m n stmts cs st changed).1 = st.process p m n stmts cs changed := by
  fun_induction process p m n stmts cs st changed
  case case1    => rfl
  case case2    => simp [State.process]
  case case3 hi => simpa [State.process] using hi

@[simp]
theorem visit_fst {st : State} {m : Method} : (visit p st m).1 = st.visit p m := by
  rw [State.visit_eq]
  unfold visit
  split
  case isTrue  => exact process_fst
  case isFalse => rfl

@[simp]
theorem visitAll_fst {ms : List Method} {st : State} {changed : Bool} :
    (visitAll p ms st changed).1 = st.visitAll p ms changed := by
  induction ms generalizing st changed
  case nil            => rfl
  case cons m rest hi => simp [visitAll, hi, State.visitAll_cons]

@[simp]
theorem sweep_fst {st : State} : (sweep p st).1 = st.sweep p :=
  visitAll_fst

theorem sweeps_fst {left done : Nat} {st : State} :
    (sweeps p left done st).1 = Analysis.sweeps p left done st := by
  induction left generalizing done st
  case zero => rfl
  case succ left hi =>
    simp only [sweeps, Analysis.sweeps, sweep_fst]
    split
    case isTrue  => rfl
    case isFalse => exact hi

theorem solve_fst : (solve p).1 = p.solve :=
  sweeps_fst

end Metered

namespace State

variable {p : Problem} {st : State} {m : Method} {cs : Constants}

theorem process_gained {n : Nat} {stmts : List Stmt} {changed : Bool}
    (h : (st.process p m n stmts cs changed).2) :
    changed ∨ ∃ x ∈ (st.process p m n stmts cs changed).1.facts.toSet, x ∉ st.facts.toSet := by
  fun_induction State.process p m n stmts cs st changed
  case case1 => exact .inl h
  case case2 => exact .inl h
  case case3 n s rest cs st changed result ih =>
    have first := step_extends p m cs st s
    have later := process_extends p m n (if result.2 then rest ++ m.body else rest) (cs.after s)
      result.1 (changed || result.2)
    cases ih h
    case inr hx =>
      obtain ⟨x, hx, hn⟩ := hx
      exact .inr ⟨x, hx, fun hc => hn (first.facts hc)⟩
    case inl hc =>
      cases Bool.or_eq_true_iff.mp hc
      case inl hc => exact .inl hc
      case inr hg =>
        obtain ⟨x, hx, hn⟩ := Facts.exists_new_of_grown (grown_step ▸ hg)
        exact .inr ⟨x, later.facts (facts_step ▸ hx), hn⟩

theorem visitAll_gained {ms : List Method} {changed : Bool} (h : (st.visitAll p ms changed).2) :
    changed ∨ ∃ x ∈ (st.visitAll p ms changed).1.facts.toSet, x ∉ st.facts.toSet := by
  induction ms generalizing st changed
  case nil => exact .inl h
  case cons m rest hi =>
    rw [visitAll_cons] at h ⊢
    have later := visitAll_extends p rest (st.visit p m).1 (changed || (st.visit p m).2)
    cases hi h
    case inr hx =>
      have ⟨x, hx, hn⟩ := hx
      exact .inr ⟨x, hx, fun hc => hn ((visit_extends p st m).facts hc)⟩
    case inl hc =>
      cases Bool.or_eq_true_iff.mp hc
      case inl hc => exact .inl hc
      case inr hg =>
        rw [visit_eq] at hg later ⊢
        split at hg
        case isFalse => contradiction
        case isTrue hb =>
          have ⟨x, hx, hn⟩ := (process_gained hg).resolve_left Bool.false_ne_true
          simp only [hb, if_true] at later ⊢
          exact .inr ⟨x, later.facts hx, hn⟩

end State

section Limits

variable {p : Problem} {st : State} (keeps : Preserved p (Bounded p))

include keeps

-- The induction is on the steps. The worklist and the room for facts are enough of a measure, since
-- only a step that uses up room puts the body on the worklist again.
theorem process_within_room {m : Method} {n : Nat} {stmts : List Stmt} {cs : Constants}
    (changed : Bool) (hb : m.hasBody) (hs : stmts ⊆ m.body) (hc : cs.From m.body) (hm : m ∈ st.swept)
    (h : Bounded p st) (hn : stmts.length + m.body.length * p.room st ≤ n) :
    (st.process p m n stmts cs changed).1.capped = st.capped ∧
      (Metered.process p m n stmts cs st changed).2 ≤
        stmts.length + m.body.length * p.room st := by
  induction n generalizing stmts cs st changed
  case zero =>
    have : stmts = [] := List.length_eq_zero_iff.mp (by omega)
    subst this
    simp [State.process, Metered.process]
  case succ n ih =>
    cases stmts
    case nil => simp [State.process, Metered.process]
    case cons s rest =>
      obtain ⟨hsb, hrest⟩ := List.cons_subset.mp hs
      have h' := keeps.step st m cs s h hm hb hsb hc
      have extended := State.step_extends p m cs st s
      have measure : (if (st.step p m cs (.ofStmt p s)).2 then rest ++ m.body else rest).length +
          m.body.length * p.room (st.step p m cs (.ofStmt p s)).1 ≤
            rest.length + m.body.length * p.room st := by
        split
        case isTrue hg =>
          -- The whole body is to be processed again, which the lost room pays for.
          have hx := Facts.exists_new_of_grown (State.grown_step ▸ hg)
          have hlt := h'.room_lt extended (State.facts_step ▸ hx)
          have := Nat.mul_le_mul_left m.body.length hlt
          rw [Nat.mul_succ] at this
          rw [List.length_append]
          omega
        case isFalse =>
          exact Nat.add_le_add_left (Nat.mul_le_mul_left _ (h'.room_le extended)) _
      have sub : (if (st.step p m cs (.ofStmt p s)).2 then rest ++ m.body else rest) ⊆ m.body := by
        split
        case isTrue  => exact List.append_subset.mpr ⟨hrest, List.Subset.refl _⟩
        case isFalse => exact hrest
      rw [List.length_cons] at hn ⊢
      obtain ⟨hcap, hcount⟩ := ih (changed || (st.step p m cs (.ofStmt p s)).2) sub
        (hc.after hsb) (State.swept_step.symm ▸ hm) h' (by omega)
      refine ⟨hcap.trans State.capped_step, ?_⟩
      simp only [Metered.process]
      omega

theorem visit_within_room {m : Method} (hm : m ∈ st.swept) (h : Bounded p st)
    (limit : p.longestBody * (p.factBound + 1) ≤ p.maxSteps) :
    (st.visit p m).1.capped = st.capped ∧
      (Metered.visit p st m).2 ≤ p.longestBody * (p.factBound + 1) := by
  rw [State.visit_eq]
  unfold Metered.visit
  split
  case isFalse => exact ⟨rfl, Nat.zero_le _⟩
  case isTrue hb =>
    have hmethods := h.methods (List.mem_append_left _ hm)
    have body := p.le_longestBody hmethods
    have room : p.room st ≤ p.factBound := (Nat.sub_le _ _).trans p.card_possible_le
    have steps : m.body.length + m.body.length * p.room st ≤ p.longestBody * (p.factBound + 1) :=
      calc m.body.length + m.body.length * p.room st
        _ = m.body.length * (p.room st + 1)   := by rw [Nat.mul_succ, Nat.add_comm]
        _ ≤ p.longestBody * (p.factBound + 1) := Nat.mul_le_mul body (Nat.succ_le_succ room)
    have ⟨hcap, hcount⟩ := process_within_room keeps false hb (List.Subset.refl _)
      (.empty _) hm h (steps.trans limit)
    exact ⟨hcap, hcount.trans steps⟩

theorem visitAll_within_room {ms : List Method} (changed : Bool) (hm : ms ⊆ st.swept)
    (h : Bounded p st) (limit : p.longestBody * (p.factBound + 1) ≤ p.maxSteps) :
    (st.visitAll p ms changed).1.capped = st.capped ∧
      ∀ k ∈ (Metered.visitAll p ms st changed).2, k ≤ p.longestBody * (p.factBound + 1) := by
  induction ms generalizing st changed
  case nil => simp [State.visitAll, Metered.visitAll]
  case cons m rest hi =>
    have ⟨hm, hrest⟩ := List.cons_subset.mp hm
    have ⟨h', hswept⟩ := keeps.visit hm h
    have ⟨hcap, hcount⟩ := visit_within_room keeps hm h limit
    have ⟨hcap', hcount'⟩ := hi (changed || (st.visit p m).2) (hswept ▸ hrest) h'
    refine ⟨hcap'.trans hcap, ?_⟩
    simp only [Metered.visitAll, Metered.visit_fst, List.forall_mem_cons]
    exact ⟨hcount, hcount'⟩

theorem sweeps_within_room (left done : Nat) (h : Bounded p st)
    (limit : p.longestBody * (p.factBound + 1) ≤ p.maxSteps) :
    (sweeps p left done st).state.capped = st.capped ∧
      ∀ k ∈ (Metered.sweeps p left done st).2, k ≤ p.longestBody * (p.factBound + 1) := by
  induction left generalizing done st
  case zero => simp [sweeps, Metered.sweeps, State.report]
  case succ left hi =>
    obtain ⟨hcap, hcount⟩ := visitAll_within_room keeps
      (!p.entries.isEmpty && !st.fresh.isEmpty) (List.Subset.refl _) (keeps.enter st h) limit
    have h' := keeps.report _ (.swept (done + 1) (st.sweep p).1.swept.length (st.sweep p).2) rfl
      (keeps.sweep h).left
    obtain ⟨hcap', hcount'⟩ := hi (done + 1) h'
    simp only [sweeps, Metered.sweeps, Metered.sweep_fst]
    split
    case isTrue  => exact ⟨hcap, hcount⟩
    case isFalse => exact ⟨hcap'.trans hcap, List.forall_mem_append.mpr ⟨hcount, hcount'⟩⟩

-- A sweep after which there is more to do has found a fact or a method, or has visited a method for
-- the first time.
theorem potential_sweep_lt (h : Bounded p st)
    (hq : ¬ ((st.sweep p).2 = false ∧ (st.sweep p).1.fresh = [])) :
    p.potential (st.sweep p).1 < p.potential st := by
  have ⟨h', hswept⟩ := keeps.sweep h
  have extended := State.sweep_extends p st
  have room := h'.room_le extended
  have before : st.discovered.length = st.swept.length + st.fresh.length := List.length_append
  have after : (st.sweep p).1.discovered.length =
      st.discovered.length + (st.sweep p).1.fresh.length := by
    rw [State.discovered, hswept, List.length_append]
  have most := h'.length_discovered_le
  unfold Problem.potential
  rw [hswept]
  cases hc : (st.sweep p).2
  case false =>
    -- A method was discovered.
    have : (st.sweep p).1.fresh.length ≠ 0 := fun hl => hq ⟨hc, List.length_eq_zero_iff.mp hl⟩
    omega
  case true =>
    cases State.visitAll_gained hc
    case inl hnews =>
      -- A method was visited for the first time.
      have : st.fresh.length ≠ 0 := by
        intro hl
        simp [List.length_eq_zero_iff.mp hl] at hnews
      omega
    case inr hx =>
      -- A fact was found.
      have := h'.room_lt extended hx
      omega

theorem quiescent_of_potential_lt {left done : Nat} (h : Bounded p st) (hl : p.potential st < left) :
    (sweeps p left done st).quiescent := by
  induction left generalizing done st
  case zero => omega
  case succ left hi =>
    simp only [sweeps]
    split
    case isTrue => rfl
    case isFalse hq =>
      have h' := keeps.report _ (.swept (done + 1) (st.sweep p).1.swept.length (st.sweep p).2) rfl
        (keeps.sweep h).left
      refine hi h' ?_
      have hlt := potential_sweep_lt keeps h (by simpa [State.report] using hq)
      exact Nat.lt_of_lt_of_le hlt (Nat.le_of_lt_succ hl)

end Limits

end PointsTo.Analysis
