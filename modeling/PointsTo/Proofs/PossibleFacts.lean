import Mathlib.Data.Finset.Prod
import Mathlib.Data.Set.Card
import PointsTo.Proofs.Run

namespace PointsTo

namespace Stmt

def vars : Stmt → List Var
  | .alloc _ lhs _ | .literal lhs _ => [lhs]
  | .copy lhs rhs | .cast lhs rhs _ => [lhs, rhs]
  | .loadField lhs base _ => lhs :: base.toList
  | .storeField base _ rhs => rhs :: base.toList
  | .loadArray lhs base index => lhs :: base :: index.toList
  | .storeArray base index rhs => rhs :: base :: index.toList
  | .invoke call => call.result.toList ++ call.base.toList ++ call.args
  | .ret value => value.toList
  | .branch v | .throw v => [v]
  | .jump | .nop _ => []

def fieldNames : Stmt → List String
  | .loadField _ _ field | .storeField _ field _ => [field.name]
  | _ => []

-- The integers that a statement mentions, be it as the value of a variable.
def ints : Stmt → List Int
  | .literal _ value => value.int64?.toList
  | s => s.vars.filterMap Var.int64?

theorem mem_ints_of_index? {s : Stmt} {v : Var} {n : Int} (hv : s.index? = some v)
    (hn : v.int64? = some n) : n ∈ s.ints := by
  cases s <;> simp only [index?, reduceCtorEq] at hv
  all_goals
    subst hv
    exact List.mem_filterMap.mpr ⟨v, by simp [vars], hn⟩

def staticClasses : Stmt → List String
  | .loadField _ none field | .storeField none field _ => [field.owner]
  | _ => []

end Stmt

-- All variables of a method, declared or only mentioned.
def Method.allVars (m : Method) : List Var :=
  m.vars ++ m.receiver.toList ++ m.params ++ m.body.flatMap Stmt.vars

namespace Analysis

namespace Problem

variable (p : Problem)

def allVars : Finset Var :=
  (p.methods.flatMap Method.allVars).toFinset

def stmts : List Stmt :=
  p.methods.flatMap Method.body

def objectIds : Finset Int :=
  (p.stmts.filterMap fun
    | .alloc site _ _ => p.scene.objects.id? site
    | _ => none).toFinset

def slotOwners : Finset Int :=
  p.objectIds ∪ ((p.stmts.flatMap Stmt.staticClasses).map Slot.staticOwner).toFinset

def fieldKeys : Finset FieldKey :=
  (FieldKey.anyIndex :: (p.stmts.flatMap Stmt.fieldNames).map FieldKey.field ++
    (p.stmts.flatMap Stmt.ints).map FieldKey.index).toFinset

-- A variable and an object each, or a slot and an object each.
def possible : Finset Fact :=
  (p.allVars ×ˢ p.objectIds).image (fun (v, o) => .points v o) ∪
    (p.slotOwners ×ˢ p.fieldKeys ×ˢ p.objectIds).image fun (owner, key, o) => .holds ⟨owner, key⟩ o

-- The number of pairs of a variable and an object, and of triples of an owner, a key and an object.
def factBound : Nat :=
  (p.allVars ×ˢ p.objectIds).card + (p.slotOwners ×ˢ p.fieldKeys ×ˢ p.objectIds).card

theorem card_possible_le : p.possible.card ≤ p.factBound :=
  (Finset.card_union_le _ _).trans (Nat.add_le_add Finset.card_image_le Finset.card_image_le)

variable {p} {m : Method} {s : Stmt} {v : Var} {o : Int}

theorem mem_pointees_possible : o ∈ pointees p.possible v ↔ v ∈ p.allVars ∧ o ∈ p.objectIds := by
  simp [possible]

theorem mem_contents_possible {slot : Slot} :
    o ∈ contents p.possible slot ↔
      slot.object ∈ p.slotOwners ∧ slot.key ∈ p.fieldKeys ∧ o ∈ p.objectIds := by
  have ⟨owner, key⟩ := slot
  simp [possible]

-- A variable has room for every object, and so has a slot.
theorem pointees_subset_pointees {w : Var} (hv : v ∈ p.allVars) :
    pointees p.possible w ⊆ pointees p.possible v :=
  fun _ ho => mem_pointees_possible.mpr ⟨hv, (mem_pointees_possible.mp ho).right⟩

theorem contents_subset_pointees {slot : Slot} (hv : v ∈ p.allVars) :
    contents p.possible slot ⊆ pointees p.possible v :=
  fun _ ho => mem_pointees_possible.mpr ⟨hv, (mem_contents_possible.mp ho).right.right⟩

theorem pointees_subset_contents {slot : Slot} (ho : slot.object ∈ p.slotOwners)
    (hk : slot.key ∈ p.fieldKeys) : pointees p.possible v ⊆ contents p.possible slot :=
  fun _ hv => mem_contents_possible.mpr ⟨ho, hk, (mem_pointees_possible.mp hv).right⟩

theorem mem_slotOwners (ho : o ∈ pointees p.possible v) : o ∈ p.slotOwners :=
  Finset.mem_union_left _ (mem_pointees_possible.mp ho).right

theorem mem_slotOwners_of_owners {base : Option Var} {field : FieldRef}
    (hs : s ∈ p.stmts) (hc : base = none → field.owner ∈ s.staticClasses)
    (ho : o ∈ owners p.possible base field) : o ∈ p.slotOwners := by
  cases base
  case some v => exact mem_slotOwners ho
  case none =>
    refine Finset.mem_union_right _ (List.mem_toFinset.mpr (List.mem_map.mpr ⟨field.owner, ?_, ?_⟩))
    · exact List.mem_flatMap.mpr ⟨s, hs, hc rfl⟩
    · exact ho.symm

theorem mem_allVars (hm : m ∈ p.methods) (hv : v ∈ m.allVars) : v ∈ p.allVars :=
  List.mem_toFinset.mpr (List.mem_flatMap.mpr ⟨m, hm, hv⟩)

theorem mem_allVars_of_stmt (hm : m ∈ p.methods) (hs : s ∈ m.body) (hv : v ∈ s.vars) :
    v ∈ p.allVars :=
  mem_allVars hm (List.mem_append_right _ (List.mem_flatMap.mpr ⟨s, hs, hv⟩))

theorem mem_stmts (hm : m ∈ p.methods) (hs : s ∈ m.body) : s ∈ p.stmts :=
  List.mem_flatMap.mpr ⟨m, hm, hs⟩

theorem mem_objectIds {site : Site} {lhs : Var} {type : String} {id : Int}
    (hs : .alloc site lhs type ∈ p.stmts) (h : p.scene.objects.id? site = some id) :
    id ∈ p.objectIds :=
  List.mem_toFinset.mpr (List.mem_filterMap.mpr ⟨_, hs, h⟩)

theorem index_mem_fieldKeys (hs : s ∈ p.stmts) {n : Int} (hn : n ∈ s.ints) :
    .index n ∈ p.fieldKeys := by
  simp only [fieldKeys, List.mem_toFinset, List.mem_append, List.mem_map, List.mem_flatMap]
  exact .inr ⟨n, ⟨s, hs, hn⟩, rfl⟩

theorem field_mem_fieldKeys (hs : s ∈ p.stmts) {name : String} (hn : name ∈ s.fieldNames) :
    .field name ∈ p.fieldKeys := by
  simp only [fieldKeys, List.mem_toFinset, List.mem_append, List.mem_cons, List.mem_map,
    List.mem_flatMap]
  exact .inl (.inr ⟨name, ⟨s, hs, hn⟩, rfl⟩)

theorem anyIndex_mem_fieldKeys : .anyIndex ∈ p.fieldKeys := by
  simp [fieldKeys]

end Problem

namespace Constants

-- Every known literal is mentioned by a statement of the body.
def Mentioned (body : List Stmt) (cs : Constants) : Prop :=
  ∀ v c n, Table.get? cs v = some c → c.int64? = some n → ∃ s ∈ body, n ∈ s.ints

theorem Mentioned.after {body : List Stmt} {cs : Constants} {s : Stmt} (h : Mentioned body cs)
    (hs : s ∈ body) : Mentioned body (cs.after s) := by
  cases s
  case literal lhs value =>
    intro v c n hc hn
    simp only [Constants.after, Table.get?_set] at hc
    split at hc
    case isTrue  =>
      cases hc
      exact ⟨_, hs, by simp [Stmt.ints, hn]⟩
    case isFalse => exact h v c n hc hn
  case copy lhs rhs =>
    simp only [Constants.after]
    split
    case h_2 => exact h
    case h_1 c hc =>
      intro v c' n hc' hn
      rw [Table.get?_set] at hc'
      split at hc'
      case isFalse => exact h v c' n hc' hn
      case isTrue =>
        cases hc'
        cases hconst : rhs.const
        case none =>
          rw [hconst] at hc
          exact h rhs c n hc hn
        case some =>
          rw [hconst] at hc
          cases hc
          exact ⟨_, hs, by simp [Stmt.ints, Stmt.vars, Var.int64?, hconst, hn]⟩
  all_goals exact h

theorem From.mentioned {body : List Stmt} {cs : Constants} (h : cs.From body) :
    Mentioned body cs :=
  h.induction (fun v c n hc => by simp at hc) fun _ _ hcs hs => hcs.after hs

end Constants

theorem key_mem_fieldKeys {p : Problem} {m : Method} {s : Stmt} {cs : Constants}
    (hm : m ∈ p.methods) (hs : s ∈ m.body) (hc : cs.From m.body) :
    cs.key s.index? ∈ p.fieldKeys := by
  unfold Constants.key
  split
  case h_2 => exact Problem.anyIndex_mem_fieldKeys
  case h_1 n hn =>
    have ⟨v, hv, hn⟩ := Option.bind_eq_some_iff.mp hn
    -- The index has been assigned a literal before, or it stands for one itself.
    cases hget : (Table.get? cs v).bind Literal.int64?
    case some n' =>
      have ⟨c, hget', hn'⟩ := Option.bind_eq_some_iff.mp hget
      have ⟨s', hs', hmem⟩ := hc.mentioned v c n' hget' hn'
      simp only [Constants.int64?, hget] at hn
      cases hn
      exact Problem.index_mem_fieldKeys (Problem.mem_stmts hm hs') hmem
    case none =>
      simp only [Constants.int64?, hget] at hn
      exact Problem.index_mem_fieldKeys (Problem.mem_stmts hm hs) (Stmt.mem_ints_of_index? hv hn)

-- All possible facts together satisfy every constraint, since each constraint is about objects,
-- variables and slots of the problem.
theorem satisfies_possible {p : Problem} {m : Method} {s : Stmt} {cs : Constants}
    {targets : Invoke → Set Method} (hm : m ∈ p.methods) (hs : s ∈ m.body) (hc : cs.From m.body)
    (ht : ∀ call, s = .invoke call → ∀ callee ∈ targets call, callee ∈ p.methods) :
    Satisfies p p.possible cs targets s := by
  have stmt := Problem.mem_stmts hm hs
  have vars {v : Var} (hv : v ∈ s.vars) := Problem.mem_allVars_of_stmt hm hs hv
  cases s
  case alloc site lhs type =>
    intro id hid
    have hlhs : lhs ∈ p.allVars := vars (by simp [Stmt.vars])
    exact Problem.mem_pointees_possible.mpr ⟨hlhs, Problem.mem_objectIds stmt hid⟩
  case copy | cast => exact Problem.pointees_subset_pointees (vars (by simp [Stmt.vars]))
  case loadField   => exact fun _ _ => Problem.contents_subset_pointees (vars (by simp [Stmt.vars]))
  case loadArray =>
    exact fun _ _ _ _ => Problem.contents_subset_pointees (vars (by simp [Stmt.vars]))
  case storeField base field rhs =>
    intro o ho
    have class_mem : base = none → field.owner ∈ (Stmt.storeField base field rhs).staticClasses := by
      simp +contextual [Stmt.staticClasses]
    have owner := Problem.mem_slotOwners_of_owners stmt class_mem ho
    have key := Problem.field_mem_fieldKeys stmt (List.mem_singleton.mpr rfl)
    exact Problem.pointees_subset_contents owner key
  case storeArray base index rhs =>
    intro o ho
    exact Problem.pointees_subset_contents (Problem.mem_slotOwners ho) (key_mem_fieldKeys hm hs hc)
  case invoke call =>
    intro callee hcallee hb
    have own {v : Var} (hv : v ∈ callee.allVars) : v ∈ p.allVars :=
      Problem.mem_allVars (ht call rfl callee hcallee) hv
    constructor
    case receiver =>
      exact fun v b hv _ => Problem.pointees_subset_pointees (own (by simp [Method.allVars, hv]))
    case params =>
      intro pa hpa
      have hparam := (List.of_mem_zip hpa).left
      exact Problem.pointees_subset_pointees (own (by simp [Method.allVars, hparam]))
    case result =>
      exact fun v hv w _ => Problem.pointees_subset_pointees (vars (by simp [Stmt.vars, hv]))
  all_goals trivial

end Analysis
end PointsTo
