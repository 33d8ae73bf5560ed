import Mathlib.Logic.Relation
import PointsTo.Proofs.Run

namespace PointsTo

def Stmt.target? : Stmt → Option Var
  | .alloc _ lhs _ | .literal lhs _ | .copy lhs _ | .cast lhs _ _ => some lhs
  | .loadField lhs _ _ | .loadArray lhs _ _ => some lhs
  | .invoke call => call.result
  | .storeField .. | .storeArray .. | .ret _ | .branch _ | .jump | .throw _ | .nop _ => none

namespace Method

-- The variables that calls of the method assign to.
def Formal (m : Method) (v : Var) : Prop :=
  v ∈ m.params ∨ m.receiver = some v

-- The variable cannot hold anything but the integer `n`: either nothing is assigned to it and `n`
-- is its own literal, or it is assigned that literal only, and variables that hold nothing else.
inductive IsConstant (m : Method) (n : Int) : Var → Prop
  | unassigned {i : Var} (never : ∀ s ∈ m.body, s.target? ≠ some i) (own : i.int64? = some n) :
    IsConstant m n i
  | assigned {i : Var} (inner : ¬ m.Formal i) (once : ∃ s ∈ m.body, s.target? = some i)
    (literals : ∀ c, .literal i c ∈ m.body → c.int64? = some n)
    (copies : ∀ w, .copy i w ∈ m.body → w.int64? ≠ some n → IsConstant m n w)
    (only : ∀ s ∈ m.body, s.target? = some i → (∃ c, s = .literal i c) ∨ ∃ w, s = .copy i w) :
    IsConstant m n i

-- A literal arrives at a variable by assignments of the body, in any order.
inductive Carries (m : Method) (c : Literal) : Var → Prop
  | literal {v : Var} (h : .literal v c ∈ m.body) : Carries m c v
  | own {v w : Var} (h : .copy v w ∈ m.body) (hw : w.const = some c) : Carries m c v
  | copy {v w : Var} (h : .copy v w ∈ m.body) (hw : w.const = none) (hc : Carries m c w) :
    Carries m c v

def Feeds (m : Method) : Var → Var → Prop :=
  Relation.ReflTransGen fun w v => .copy v w ∈ m.body

-- All that is assigned to the variable is assigned by one statement, or by calls of the method.
structure SingleSource (m : Method) (v : Var) : Prop where
  same  : ∀ s ∈ m.body, ∀ s' ∈ m.body, s.target? = some v → s'.target? = some v → s = s'
  inner : m.Formal v → ∀ s ∈ m.body, s.target? ≠ some v

-- Variables with a literal of their own are not assigned anything.
def LiteralsFixed (m : Method) : Prop :=
  ∀ s ∈ m.body, ∀ v, s.target? = some v → v.const = none

variable {m : Method} {n : Int} {c : Literal} {v : Var}

-- A variable to which a single statement assigns is constant if that statement assigns a constant.
theorem SingleSource.isConstant (single : m.SingleSource v) {s : Stmt} (hs : s ∈ m.body)
    (target : s.target? = some v) (literals : ∀ c, s = .literal v c → c.int64? = some n)
    (copies : ∀ w, s = .copy v w → w.int64? ≠ some n → m.IsConstant n w)
    (only : (∃ c, s = .literal v c) ∨ ∃ w, s = .copy v w) : m.IsConstant n v := by
  have is_s : ∀ s' ∈ m.body, s'.target? = some v → s = s' :=
    fun s' hs' target' => single.same s hs s' hs' target target'
  refine .assigned (fun hf => single.inner hf s hs target) ⟨s, hs, target⟩ ?_ ?_ ?_
  · exact fun c hc => literals c (is_s _ hc rfl)
  · exact fun w hw => copies w (is_s _ hw rfl)
  · exact fun s' hs' target' => is_s s' hs' target' ▸ only

theorem Carries.isConstant (h : m.Carries c v) (hn : c.int64? = some n)
    (single : ∀ w, m.Feeds w v → m.SingleSource w) : m.IsConstant n v := by
  induction h
  case literal v h =>
    refine (single v .refl).isConstant h rfl ?_ (fun _ he => by cases he) (.inl ⟨c, rfl⟩)
    intro c' he
    cases he
    exact hn
  case own v w h hw =>
    refine (single v .refl).isConstant h rfl (fun _ he => by cases he) ?_ (.inr ⟨w, rfl⟩)
    intro w' he hne
    cases he
    exact absurd (by simp [Var.int64?, hw, hn]) hne
  case copy v w h _ _ hi =>
    refine (single v .refl).isConstant h rfl (fun _ he => by cases he) ?_ (.inr ⟨w, rfl⟩)
    intro w' he _
    cases he
    exact hi fun u hu => single u (hu.tail h)

-- No other literal arrives at a constant.
theorem IsConstant.int64?_eq (h : m.IsConstant n v) (hc : m.Carries c v)
    (fixed : m.LiteralsFixed) : c.int64? = some n := by
  induction hc
  case literal v hl =>
    cases h
    case unassigned never _        => exact absurd rfl (never _ hl)
    case assigned literals _ _     => exact literals c hl
  case own v w hw hc =>
    cases h
    case unassigned never _ => exact absurd rfl (never _ hw)
    case assigned copies _ =>
      have own : w.int64? = c.int64? := by simp [Var.int64?, hc]
      by_contra hne
      -- `w` would have to be assigned something, but it has a literal of its own.
      cases copies w hw (own ▸ hne)
      case unassigned _ hn => exact hne (own ▸ hn)
      case assigned once _ _ _ =>
        have ⟨s, hs, target⟩ := once
        simp [fixed s hs w target] at hc
  case copy v w hw hconst _ hi =>
    cases h
    case unassigned never _ => exact absurd rfl (never _ hw)
    case assigned copies _  => exact hi (copies w hw (by simp [Var.int64?, hconst]))

end Method

namespace Analysis

namespace Constants

variable {m : Method} {cs : Constants} {s : Stmt}

-- What the constants know of a variable has been carried there.
theorem carries_after (h : ∀ v c, Table.get? cs v = some c → m.Carries c v) (hs : s ∈ m.body)
    {v : Var} {c : Literal} (hc : Table.get? (cs.after s) v = some c) : m.Carries c v := by
  cases s
  case literal lhs value =>
    simp only [after, Table.get?_set] at hc
    split at hc
    case isTrue he =>
      cases hc
      exact he ▸ .literal hs
    case isFalse => exact h v c hc
  case copy lhs rhs =>
    simp only [after] at hc
    split at hc
    case h_2 => exact h v c hc
    case h_1 c' hc' =>
      rw [Table.get?_set] at hc
      split at hc
      case isFalse => exact h v c hc
      case isTrue he =>
        cases hc
        subst he
        cases hconst : rhs.const
        case none =>
          rw [hconst] at hc'
          exact .copy hs hconst (h rhs c hc')
        case some =>
          rw [hconst] at hc'
          cases hc'
          exact .own hs hconst
  all_goals exact h v c hc

theorem From.carries (h : cs.From m.body) {v : Var} {c : Literal} (hc : Table.get? cs v = some c) :
    m.Carries c v := by
  refine h.induction (P := fun cs => ∀ v c, Table.get? cs v = some c → m.Carries c v) ?_ ?_ v c hc
  · intro v c hc
    simp at hc
  · exact fun cs s hcs hs v c => carries_after hcs hs

-- The literal of a key was carried to the index, or is its own.
theorem From.carries_of_key (h : cs.From m.body) {i : Var} {n : Int}
    (hk : cs.key (some i) = .index n) :
    (∃ c, m.Carries c i ∧ c.int64? = some n) ∨ i.int64? = some n := by
  simp only [key, Option.bind_some] at hk
  split at hk
  case h_2 => contradiction
  case h_1 n' hn =>
    cases hk
    unfold int64? at hn
    cases hc : (Table.get? cs i).bind Literal.int64?
    case none =>
      rw [hc] at hn
      exact .inr hn
    case some n' =>
      have ⟨c, hget, hint⟩ := Option.bind_eq_some_iff.mp hc
      rw [hc] at hn
      cases hn
      exact .inl ⟨c, h.carries hget, hint⟩

end Constants

namespace State

-- The statements that a visit processes, each with the constants at that moment.
def processed (p : Problem) (m : Method) :
    (steps : Nat) → List Stmt → Constants → State → List (Constants × Stmt)
  | _, [], _, _ => []
  | 0, _ :: _, _, _ => []
  | steps + 1, s :: rest, cs, st =>
    let result := st.step p m cs (.ofStmt p s)
    (cs, s) :: processed p m steps (if result.2 then rest ++ m.body else rest) (cs.after s) result.1

def evaluations (p : Problem) (st : State) (m : Method) : List (Constants × Stmt) :=
  if m.hasBody then st.processed p m p.maxSteps m.body ∅ else []

variable {p : Problem} {m : Method} {st : State}

-- The facts after a visit are those after its evaluations.
theorem facts_process (n : Nat) (stmts : List Stmt) (cs : Constants) (st : State) (changed : Bool) :
    (st.process p m n stmts cs changed).1.facts =
      ((st.processed p m n stmts cs).foldl (fun st e => (st.step p m e.1 (.ofStmt p e.2)).1)
        st).facts := by
  fun_induction process p m n stmts cs st changed
  case case1 => simp [processed]
  case case2 => simp [processed, report]
  case case3 n s rest cs st changed result hi => exact hi

theorem facts_visit (p : Problem) (st : State) (m : Method) :
    (st.visit p m).1.facts = ((st.evaluations p m).foldl
      (fun st e => (st.step p m e.1 (.ofStmt p e.2)).1) st).facts := by
  rw [visit_eq, evaluations]
  split
  case isTrue  => exact facts_process ..
  case isFalse => rfl

theorem of_mem_processed {n : Nat} {stmts : List Stmt} {cs : Constants} (hs : stmts ⊆ m.body)
    (hc : cs.From m.body) {e : Constants × Stmt} (he : e ∈ st.processed p m n stmts cs) :
    e.1.From m.body ∧ e.2 ∈ m.body := by
  fun_induction processed p m n stmts cs st
  case case1 => simp at he
  case case2 => simp at he
  case case3 n s rest cs st result hi =>
    have ⟨hsb, hrest⟩ := List.cons_subset.mp hs
    cases List.mem_cons.mp he
    case inl he => exact he ▸ ⟨hc, hsb⟩
    case inr he =>
      refine hi ?_ (hc.after hsb) he
      split
      case isTrue  => exact List.append_subset.mpr ⟨hrest, List.Subset.refl _⟩
      case isFalse => exact hrest

theorem of_mem_evaluations {e : Constants × Stmt} (he : e ∈ st.evaluations p m) :
    e.1.From m.body ∧ e.2 ∈ m.body := by
  unfold evaluations at he
  split at he
  case isTrue  => exact of_mem_processed (List.Subset.refl _) (.empty _) he
  case isFalse => simp at he

end State

-- A literal key is a literal that reaches the index. This does not make the index a constant, but
-- no index that does stand for one integer is taken for another.
theorem index_key_sources {p : Problem} {st : State} {m : Method} {cs : Constants} {s : Stmt}
    {i : Var} {n : Int} (he : (cs, s) ∈ st.evaluations p m) (hi : s.index? = some i)
    (hk : cs.key s.index? = .index n) :
    ((∃ c, m.Carries c i ∧ c.int64? = some n) ∨ i.int64? = some n) ∧
    (m.LiteralsFixed →
      (∀ n', m.IsConstant n' i → n' = n) ∧
      ((∀ w, m.Feeds w i → m.SingleSource w) → m.IsConstant n i)) := by
  have ⟨from_body, _⟩ := State.of_mem_evaluations he
  rw [hi] at hk
  have source := from_body.carries_of_key hk
  refine ⟨source, fun fixed => ⟨fun n' constant => ?unique, fun single => ?constant⟩⟩
  case unique =>
    cases source
    case inl carried =>
      have ⟨c, carries, hc⟩ := carried
      have same := constant.int64?_eq carries fixed
      rw [hc] at same
      exact (Option.some.inj same).symm
    case inr own =>
      cases constant
      case unassigned hn =>
        rw [own] at hn
        exact (Option.some.inj hn).symm
      case assigned once _ _ _ =>
        have ⟨s, hs, target⟩ := once
        simp [Var.int64?, fixed s hs i target] at own
  case constant =>
    cases source
    case inl carried =>
      have ⟨c, carries, hc⟩ := carried
      exact carries.isConstant hc single
    case inr own =>
      refine .unassigned (fun s hs target => ?_) own
      simp [Var.int64?, fixed s hs i target] at own

namespace Sample.Indexing

def varOf (index : Nat) (name type : String) : Var where
  owner := some 0
  index
  name
  type

def items : Var := varOf 0 "items" "Item[]"

def found : Var := varOf 1 "found" "Item"

def i : Var := varOf 2 "i" "int"

def j : Var := varOf 3 "j" "int"

def methodOf (body : List Stmt) : Method where
  id        := 0
  owner     := "Main"
  name      := "main"
  modifiers := { isStatic := true }
  vars      := [items, found, i, j]
  body

def problemOf (body : List Stmt) : Problem where
  program   := { classes := [{ name := "Main", methods := [methodOf body] }] }
  scene     := { hierarchy := { program := {} }, objects := {} }
  entries   := [methodOf body]
  maxSweeps := 5000
  maxSteps  := 5000

def access : Stmt :=
  .loadArray found items (some i)

-- The index is copied from a variable that gets a literal.
def copied : List Stmt :=
  [.literal j (.int 3), .copy i j, access]

theorem literalsFixed_copied : (methodOf copied).LiteralsFixed := by
  have : ∀ s ∈ copied, ∀ v ∈ s.target?, v.const = none := by decide
  exact this

theorem singleSource_copied (v : Var) : (methodOf copied).SingleSource v where
  same := by
    have distinct : ∀ s ∈ copied, ∀ s' ∈ copied, s.target? = s'.target? → s = s' := by decide
    exact fun s hs s' hs' target target' => distinct s hs s' hs' (target.trans target'.symm)
  inner := by
    rintro (h | h)
    · exact absurd h List.not_mem_nil
    · cases h

theorem copied_index_constant :
    (∃ e ∈ State.evaluations (problemOf copied) {} (methodOf copied),
      e.2 = access ∧ e.1.key access.index? = .index 3) ∧ (methodOf copied).IsConstant 3 i := by
  have evaluated : ∃ e ∈ State.evaluations (problemOf copied) {} (methodOf copied),
      e.2 = access ∧ e.1.key access.index? = .index 3 := by
    decide +kernel
  refine ⟨evaluated, ?_⟩
  have ⟨⟨cs, s⟩, he, hs, hk⟩ := evaluated
  cases hs
  have ⟨_, constant⟩ := index_key_sources he rfl hk
  exact (constant literalsFixed_copied).right fun w _ => singleSource_copied w

-- The index gets a literal first, and then something unknown.
def overwritten : List Stmt :=
  [.literal i (.int 0), .copy i j, access]

theorem not_isConstant_overwritten (n : Int) : ¬ (methodOf overwritten).IsConstant n i := by
  have unassigned : ∀ s ∈ overwritten, s.target? ≠ some j := by decide
  have copy : .copy i j ∈ overwritten := by decide
  intro h
  cases h
  case unassigned never _ => exact never _ copy rfl
  case assigned copies _ =>
    cases copies j copy nofun
    case unassigned _ own => cases own
    case assigned once _ _ _ =>
      have ⟨s, hs, target⟩ := once
      exact unassigned s hs target

theorem overwritten_evaluated :
    ∃ e ∈ State.evaluations (problemOf overwritten) {} (methodOf overwritten),
      e.2 = access ∧ e.1.key access.index? = .index 0 := by
  decide +kernel

end Sample.Indexing

-- A variable keeps its literal when something else is assigned to it.
theorem not_indices_constant :
    ¬ ∀ (p : Problem) (st : State) (m : Method) (cs : Constants) (s : Stmt) (i : Var) (n : Int),
      (cs, s) ∈ st.evaluations p m → s.index? = some i → cs.key s.index? = .index n →
        m.IsConstant n i := by
  intro h
  have ⟨⟨cs, s⟩, he, hs, hk⟩ := Sample.Indexing.overwritten_evaluated
  cases hs
  exact Sample.Indexing.not_isConstant_overwritten 0 (h _ _ _ cs _ _ 0 he rfl hk)

end Analysis
end PointsTo
