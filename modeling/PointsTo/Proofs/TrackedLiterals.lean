import Mathlib.Data.List.Pairwise
import PointsTo.Proofs.IndexKeys
import PointsTo.Proofs.Slots

namespace PointsTo

namespace Stmt

-- The variable whose literal a statement determines.
def defines? : Stmt → Option Var
  | .literal lhs _ | .copy lhs _ => some lhs
  | _ => none

-- The variables whose literals matter to a statement: what it copies, or the index of an access.
def reads : Stmt → List Var
  | .copy _ rhs => [rhs]
  | s => s.index?.toList

theorem target?_of_defines? {s : Stmt} {v : Var} (h : s.defines? = some v) : s.target? = some v := by
  cases s
  case literal | copy => exact h
  all_goals contradiction

theorem mem_reads_of_index? {s : Stmt} {i : Var} (h : s.index? = some i) : i ∈ s.reads := by
  cases s
  case loadArray | storeArray => simpa [reads] using h
  all_goals contradiction

theorem defines?_eq_some_iff {s : Stmt} {v : Var} :
    s.defines? = some v ↔ (∃ c, s = .literal v c) ∨ ∃ u, s = .copy v u := by
  cases s <;> simp [defines?]

end Stmt

namespace Method

-- Each variable is assigned by at most one statement. Literals and copies stand in front of all
-- statements that read the variable.
structure SingleAssignment (m : Method) : Prop where
  once   : (m.body.filterMap Stmt.target?).Nodup
  before : ∀ (i j : Nat) s s' v, m.body[i]? = some s → m.body[j]? = some s' →
    s.defines? = some v → v ∈ s'.reads → i < j

-- The literals that variables have by the assignments of the body.
structure Literals (m : Method) (lit : Var → Option Literal) : Prop where
  assigned   : ∀ v c, .literal v c ∈ m.body → lit v = some c
  copied     : ∀ v u, .copy v u ∈ m.body → lit v = (u.const <|> lit u)
  unassigned : ∀ v, (∀ s ∈ m.body, s.defines? ≠ some v) → lit v = none

-- The element that an index selects if variables have these literals.
def elementOf (lit : Var → Option Literal) (i : Var) : FieldKey :=
  .ofLiteral ((lit i).bind Literal.int64? <|> i.int64?)

variable {m : Method} {lit lit' : Var → Option Literal}

theorem SingleAssignment.eq_of_defines? (form : m.SingleAssignment) {s s' : Stmt} {v : Var}
    (hs : s ∈ m.body) (hs' : s' ∈ m.body) (hv : s.defines? = some v) (hv' : s'.defines? = some v) :
    s = s' := by
  have apart := List.pairwise_filterMap.mp form.once
  have symm : Std.Symm fun s s' : Stmt =>
      ∀ x, s.target? = some x → ∀ y, s'.target? = some y → x ≠ y :=
    ⟨fun _ _ h x hx y hy => (h y hy x hx).symm⟩
  by_contra ne
  exact apart.forall hs hs' ne v (Stmt.target?_of_defines? hv) v (Stmt.target?_of_defines? hv') rfl

-- A variable is defined in front of where it is read.
theorem SingleAssignment.mem_of_reads (form : m.SingleAssignment) {pre post : List Stmt} {s d : Stmt}
    {v : Var} (body : m.body = pre ++ s :: post) (reads : v ∈ s.reads) (hd : d ∈ m.body)
    (hv : d.defines? = some v) : d ∈ pre := by
  have ⟨i, hi⟩ := List.mem_iff_getElem?.mp hd
  have here : m.body[pre.length]? = some s := by simp [body]
  have earlier := form.before i pre.length d s v hi here hv reads
  rw [body, List.getElem?_append_left earlier] at hi
  exact List.mem_of_getElem? hi

-- The solution is unique: the literal of a variable depends on definitions further in front only.
theorem Literals.eq (form : m.SingleAssignment) (h : m.Literals lit) (h' : m.Literals lit') :
    lit = lit' := by
  have agree : ∀ (n i : Nat) d v, i < n → m.body[i]? = some d → d.defines? = some v →
      lit v = lit' v := by
    intro n
    induction n
    case zero => omega
    case succ n hi =>
      intro i d v lt hd hv
      have mem := List.mem_of_getElem? hd
      obtain ⟨c, rfl⟩ | ⟨u, rfl⟩ := Stmt.defines?_eq_some_iff.mp hv
      case inl => rw [h.assigned v c mem, h'.assigned v c mem]
      case inr =>
        rw [h.copied v u mem, h'.copied v u mem]
        by_cases hu : ∃ d' ∈ m.body, d'.defines? = some u
        case pos =>
          have ⟨d', hd', defines⟩ := hu
          have ⟨j, hj⟩ := List.mem_iff_getElem?.mp hd'
          have earlier := form.before j i d' _ u hj hd defines (by simp [Stmt.reads])
          rw [hi j d' u (by omega) hj defines]
        case neg =>
          push Not at hu
          rw [h.unassigned u hu, h'.unassigned u hu]
  funext v
  by_cases hv : ∃ d ∈ m.body, d.defines? = some v
  case pos =>
    have ⟨d, hd, defines⟩ := hv
    have ⟨i, hi⟩ := List.mem_iff_getElem?.mp hd
    exact agree (i + 1) i d v (by omega) hi defines
  case neg =>
    push Not at hv
    rw [h.unassigned v hv, h'.unassigned v hv]

-- At most one literal arrives at a variable, as it has only one definition.
theorem SingleAssignment.eq_of_carries (form : m.SingleAssignment) {c c' : Literal} {v : Var}
    (h : m.Carries c v) (h' : m.Carries c' v) : c = c' := by
  induction h
  case literal v h =>
    cases h'
    case literal h' => exact (Stmt.literal.inj (form.eq_of_defines? h h' rfl rfl)).right
    case own _ h' | copy _ _ h' => cases form.eq_of_defines? h h' rfl rfl
  case own v w h hw =>
    cases h'
    case literal h' => cases form.eq_of_defines? h h' rfl rfl
    case own hw' h' =>
      cases form.eq_of_defines? h h' rfl rfl
      exact Option.some.inj (hw.symm.trans hw')
    case copy hw' _ h' =>
      cases form.eq_of_defines? h h' rfl rfl
      simp [hw] at hw'
  case copy v w h hw _ hi =>
    cases h'
    case literal h' => cases form.eq_of_defines? h h' rfl rfl
    case own hw' h' =>
      cases form.eq_of_defines? h h' rfl rfl
      simp [hw] at hw'
    case copy _ carries h' =>
      cases form.eq_of_defines? h h' rfl rfl
      exact hi carries

-- What the definition of a variable carries to it.
theorem SingleAssignment.carries_copy_iff (form : m.SingleAssignment) {c : Literal} {v u : Var}
    (h : .copy v u ∈ m.body) :
    m.Carries c v ↔ u.const = some c ∨ u.const = none ∧ m.Carries c u := by
  constructor
  case mp =>
    intro carries
    cases carries
    case literal h' => cases form.eq_of_defines? h h' rfl rfl
    case own hu h' =>
      cases form.eq_of_defines? h h' rfl rfl
      exact .inl hu
    case copy hu carries h' =>
      cases form.eq_of_defines? h h' rfl rfl
      exact .inr ⟨hu, carries⟩
  case mpr =>
    rintro (hu | ⟨hu, carries⟩)
    case inl => exact .own h hu
    case inr => exact .copy h hu carries

theorem SingleAssignment.exists_literals (form : m.SingleAssignment) : ∃ lit, m.Literals lit := by
  have carried : ∀ v, ∃ known : Option Literal, ∀ c, known = some c ↔ m.Carries c v := by
    intro v
    by_cases h : ∃ c, m.Carries c v
    case pos =>
      have ⟨c, hc⟩ := h
      exact ⟨some c, fun c' => ⟨fun e => Option.some.inj e ▸ hc,
        fun hc' => congrArg some (form.eq_of_carries hc hc')⟩⟩
    case neg => exact ⟨none, fun c => ⟨nofun, fun hc => absurd ⟨c, hc⟩ h⟩⟩
  choose lit carried using carried
  refine ⟨lit, fun v c h => (carried v c).mpr (.literal h), fun v u h => ?copied,
    fun v none => ?unassigned⟩
  case copied =>
    ext c
    rw [carried, form.carries_copy_iff h]
    cases u.const <;> simp [carried]
  case unassigned =>
    refine Option.eq_none_iff_forall_not_mem.mpr fun c hc => ?_
    cases (carried v c).mp hc
    case literal h | own _ h | copy _ _ h => exact none _ h rfl

-- The definitions that the statements of `rest` rely on are among `done` and what comes in front of
-- them.
def Prepared (m : Method) (done rest : List Stmt) : Prop :=
  ∀ pre s post, rest = pre ++ s :: post → ∀ v ∈ s.reads, ∀ d ∈ m.body, d.defines? = some v →
    d ∈ done ++ pre

namespace Prepared

variable {done rest : List Stmt} {s : Stmt}

theorem body (form : m.SingleAssignment) : m.Prepared [] m.body :=
  fun _ _ _ body _ reads _ hd hv => form.mem_of_reads body reads hd hv

theorem head (h : m.Prepared done (s :: rest)) {v : Var} (reads : v ∈ s.reads) {d : Stmt}
    (hd : d ∈ m.body) (hv : d.defines? = some v) : d ∈ done := by
  simpa using h [] s rest rfl v reads d hd hv

theorem tail (h : m.Prepared done (s :: rest)) : m.Prepared (done ++ [s]) rest := by
  intro pre s' post hr v reads d hd hv
  have := h (s :: pre) s' post (by simp [hr]) v reads d hd hv
  simpa using this

theorem push (h : m.Prepared done rest) (form : m.SingleAssignment) :
    m.Prepared done (rest ++ m.body) := by
  intro pre s' post hr v reads d hd hv
  obtain ⟨mid, hrest, hmid⟩ | ⟨mid, hpre, hmid⟩ := List.append_eq_append_iff.mp hr
  case inl =>
    -- The statement belongs to the added pass.
    have := body form mid s' post hmid v reads d hd hv
    simp_all
  case inr =>
    cases mid
    case nil =>
      have := body form [] s' post (by simpa using hmid.symm) v reads d hd hv
      simp at this
    case cons s'' mid =>
      obtain ⟨rfl, -⟩ := List.cons.inj hmid
      exact h pre s' mid hpre v reads d hd hv

end Prepared
end Method

namespace Analysis

open Method

variable {m : Method} {lit : Var → Option Literal} {done rest : List Stmt} {cs : Constants} {s : Stmt}

-- The constants are the literals of the variables whose definitions have been processed.
def Constants.Tracks (lit : Var → Option Literal) (done : List Stmt) (cs : Constants) : Prop :=
  ∀ v, ((∃ d ∈ done, d.defines? = some v) → Table.get? cs v = lit v) ∧
    ((∀ d ∈ done, d.defines? ≠ some v) → Table.get? cs v = none)

namespace Constants.Tracks

theorem empty (lit : Var → Option Literal) : Tracks lit [] ∅ := by
  simp [Tracks]

-- A variable that is read has its literal, be it defined or not.
theorem get?_eq (h : Tracks lit done cs) (literals : m.Literals lit) (sub : done ⊆ m.body) {v : Var}
    (ready : ∀ d ∈ m.body, d.defines? = some v → d ∈ done) : Table.get? cs v = lit v := by
  by_cases hv : ∃ d ∈ m.body, d.defines? = some v
  case pos =>
    have ⟨d, hd, defines⟩ := hv
    exact (h v).left ⟨d, ready d hd defines, defines⟩
  case neg =>
    push Not at hv
    rw [literals.unassigned v hv]
    exact (h v).right fun d hd => hv d (sub hd)

-- What is left to show when a statement has been processed.
theorem append (h : Tracks lit done cs) {cs' : Constants}
    (here : ∀ x, s.defines? = some x → Table.get? cs' x = lit x)
    (there : ∀ v, s.defines? ≠ some v → Table.get? cs' v = Table.get? cs v) :
    Tracks lit (done ++ [s]) cs' := by
  intro v
  by_cases hv : s.defines? = some v
  case pos => exact ⟨fun _ => here v hv, fun none => absurd hv (none s (by simp))⟩
  case neg =>
    rw [there v hv]
    refine ⟨fun ⟨d, hd, defines⟩ => (h v).left ⟨d, ?_, defines⟩,
      fun none => (h v).right fun d hd => none d (List.mem_append_left _ hd)⟩
    cases List.mem_append.mp hd
    case inl hd => exact hd
    case inr hd =>
      obtain rfl := List.mem_singleton.mp hd
      exact absurd defines hv

theorem after (h : Tracks lit done cs) (literals : m.Literals lit) (sub : done ⊆ m.body)
    (hs : s ∈ m.body) (prepared : m.Prepared done (s :: rest)) :
    Tracks lit (done ++ [s]) (cs.after s) := by
  cases s
  case literal x c =>
    refine h.append (fun v hv => ?assigned) fun v hv => ?others
    case assigned =>
      obtain rfl := Option.some.inj hv
      simp [Constants.after, Table.get?_set, literals.assigned x c hs]
    case others =>
      have ne : v ≠ x := fun e => hv (e ▸ rfl)
      simp [Constants.after, Table.get?_set, ne]
  case copy x u =>
    have source : Table.get? cs u = lit u :=
      h.get?_eq literals sub fun d hd hv => prepared.head (by simp [Stmt.reads]) hd hv
    have known := literals.copied x u hs
    rw [← source] at known
    refine h.append (fun v hv => ?assigned) fun v hv => ?others
    case assigned =>
      obtain rfl := Option.some.inj hv
      simp only [Constants.after]
      split
      case h_1 c hc => simp [Table.get?_set, known, hc]
      case h_2 hc =>
        -- A copy of something unknown leaves the constants alone, so `x` must not have one yet.
        by_cases hx : ∃ d ∈ done, d.defines? = some x
        case pos => exact (h x).left hx
        case neg =>
          push Not at hx
          rw [(h x).right hx, known, hc]
    case others =>
      have ne : v ≠ x := fun e => hv (e ▸ rfl)
      simp only [Constants.after]
      split
      case h_1 => simp [Table.get?_set, ne]
      case h_2 => rfl
  all_goals exact h.append (fun v hv => by contradiction) fun v _ => rfl

end Constants.Tracks

namespace State

variable {p : Problem} {st : State}

theorem get?_of_mem_processed {n : Nat} (form : m.SingleAssignment) (literals : m.Literals lit)
    (sub : done ⊆ m.body) (hr : rest ⊆ m.body) (tracks : cs.Tracks lit done)
    (prepared : m.Prepared done rest) {e : Constants × Stmt} (he : e ∈ st.processed p m n rest cs)
    {i : Var} (hi : e.2.index? = some i) : Table.get? e.1 i = lit i := by
  fun_induction processed p m n rest cs st generalizing done
  case case1 => simp at he
  case case2 => simp at he
  case case3 n s rest cs st result ih =>
    obtain ⟨hs, hrest⟩ := List.cons_subset.mp hr
    cases List.mem_cons.mp he
    case inl he =>
      subst he
      exact tracks.get?_eq literals sub fun d hd hv => prepared.head (Stmt.mem_reads_of_index? hi) hd hv
    case inr he =>
      refine ih (List.append_subset.mpr ⟨sub, by simpa using hs⟩) ?statements
        (tracks.after literals sub hs prepared) ?prepared he
      case statements =>
        split
        case isTrue  => exact List.append_subset.mpr ⟨hrest, List.Subset.refl _⟩
        case isFalse => exact hrest
      case prepared =>
        split
        case isTrue  => exact prepared.tail.push form
        case isFalse => exact prepared.tail

theorem get?_of_mem_evaluations (form : m.SingleAssignment) (literals : m.Literals lit)
    {e : Constants × Stmt} (he : e ∈ st.evaluations p m) {i : Var} (hi : e.2.index? = some i) :
    Table.get? e.1 i = lit i := by
  unfold evaluations at he
  split at he
  case isTrue =>
    exact get?_of_mem_processed form literals (List.nil_subset _) (List.Subset.refl _) (.empty lit)
      (.body form) he hi
  case isFalse => simp at he

end State

theorem Constants.key_eq_of_get? {i : Var} (h : Table.get? cs i = lit i) :
    cs.key (some i) = elementOf lit i := by
  simp only [key, Option.bind_some, int64?, h, elementOf]
  cases (lit i).bind Literal.int64? <|> i.int64? <;> rfl

-- The assignments have one solution, and it tells which element each access selects, whatever has
-- been processed how often before.
theorem index_keys_tracked {m : Method} (form : m.SingleAssignment) :
    (∃! lit, m.Literals lit) ∧ ∀ lit, m.Literals lit →
      ∀ (p : Problem) (st : State) (cs : Constants) (s : Stmt) (i : Var),
        (cs, s) ∈ st.evaluations p m → s.index? = some i → cs.key s.index? = elementOf lit i := by
  refine ⟨?unique, fun lit literals p st cs s i he hi => ?keys⟩
  case unique =>
    have ⟨lit, literals⟩ := form.exists_literals
    exact ⟨lit, literals, fun lit' literals' => literals'.eq form literals⟩
  case keys =>
    rw [hi]
    exact Constants.key_eq_of_get? (State.get?_of_mem_evaluations form literals he hi)

namespace Sample.Indexing

-- The index of both accesses is copied from a variable that gets a literal. The accesses are
-- processed again whenever an object arrives at one of the variables.
def filled : List Stmt :=
  [.literal j (.int 3), .copy i j, .alloc ⟨2, 0⟩ items "Item[]", .storeArray items i items, access]

def filledProblem : Problem where
  program   := (problemOf filled).program
  scene     :=
    { hierarchy := { program := (problemOf filled).program }
      objects := (problemOf filled).program.objects {} }
  entries   := [methodOf filled]
  maxSweeps := 5000
  maxSteps  := 5000

theorem singleAssignment_filled : (methodOf filled).SingleAssignment where
  once := by decide
  before := by
    have ordered : ∀ k l : Fin 5, ∀ v ∈ filled[k].defines?, v ∈ filled[l].reads → k < l := by decide
    intro k l s s' v hs hs' hv reads
    obtain ⟨hk, rfl⟩ := List.getElem?_eq_some_iff.mp hs
    obtain ⟨hl, rfl⟩ := List.getElem?_eq_some_iff.mp hs'
    exact ordered ⟨k, hk⟩ ⟨l, hl⟩ v hv reads

theorem filled_index_tracked :
    1 < (State.evaluations filledProblem {} (methodOf filled)).countP (·.2 = access) ∧
      ∀ e ∈ State.evaluations filledProblem {} (methodOf filled), e.2 = access →
        e.1.key access.index? = .index 3 := by
  refine ⟨by decide +kernel, ?_⟩
  rintro ⟨cs, s⟩ he rfl
  have ⟨⟨lit, literals, _⟩, keys⟩ := index_keys_tracked singleAssignment_filled
  have assigned : lit j = some (.int 3) := literals.assigned j (.int 3) (by decide)
  have copied : lit i = lit j := literals.copied i j (by decide)
  rw [keys lit literals filledProblem {} cs access i he rfl, Method.elementOf, copied, assigned]
  rfl

end Sample.Indexing

end Analysis
end PointsTo
