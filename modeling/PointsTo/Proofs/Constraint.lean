import PointsTo.Analysis.Solver
import PointsTo.Proofs.Update

namespace PointsTo

def Stmt.index? : Stmt → Option Var
  | .loadArray _ _ index | .storeArray _ index _ => index
  | _ => none

namespace Analysis

-- `targets` are the methods that a call may run. The constants decide which array elements are
-- accessed.
def Satisfies (p : Problem) (F : Set Fact) (cs : Constants) (targets : Invoke → Set Method) :
    Stmt → Prop
  | .alloc site lhs _ => ∀ id, p.scene.objects.id? site = some id → id ∈ pointees F lhs
  | .copy lhs rhs => pointees F rhs ⊆ pointees F lhs
  | .cast lhs rhs _ => pointees F rhs ⊆ pointees F lhs
  | .loadField lhs base field =>
    ∀ o ∈ owners F base field, contents F ⟨o, .field field.name⟩ ⊆ pointees F lhs
  | .storeField base field rhs =>
    ∀ o ∈ owners F base field, pointees F rhs ⊆ contents F ⟨o, .field field.name⟩
  | .loadArray lhs base index =>
    ∀ o ∈ pointees F base, ∀ k, (cs.key index).Reads k → contents F ⟨o, k⟩ ⊆ pointees F lhs
  | .storeArray base index rhs =>
    ∀ o ∈ pointees F base, pointees F rhs ⊆ contents F ⟨o, cs.key index⟩
  | .invoke call => ∀ callee ∈ targets call, callee.hasBody → Passes F call callee
  | .literal .. | .ret _ | .branch _ | .jump | .throw _ | .nop _ => True

def Problem.targets (p : Problem) (f : Facts) (call : Invoke) : Set Method :=
  { callee | callee ∈ p.scene.targets call (f.receivers call) }

namespace Facts

variable {p : Problem} {f : Facts} {F : Set Fact} {cs : Constants} {s : Stmt}

theorem invoke_eq (f : Facts) (call : Invoke) (callees : List Method) :
    f.invoke call callees =
      match call.result with
      | some v =>
        (Update.callAll call ⟨f, false⟩ ∅ (callees.filter Method.hasBody)).1.point v
          (Update.callAll call ⟨f, false⟩ ∅ (callees.filter Method.hasBody)).2
      | none => (Update.callAll call ⟨f, false⟩ ∅ (callees.filter Method.hasBody)).1 :=
  rfl

theorem invoke_extends (f : Facts) (call : Invoke) (callees : List Method) :
    Update.Extends ⟨f, false⟩ (f.invoke call callees) := by
  rw [invoke_eq]
  have hc := Update.callAll_extends call (callees.filter Method.hasBody) ⟨f, false⟩ ∅
  split
  case h_1 => exact hc.trans (Update.point_extends ..)
  case h_2 => exact hc

theorem step_extends (cs : Constants) (f : Facts) (found : Finding) (s : Stmt) :
    Update.Extends ⟨f, false⟩ (f.step cs found s) := by
  cases s
  case alloc =>
    simp only [step]
    split
    case h_1 => exact Update.point_extends ..
    case h_2 => exact .refl _
  case copy | cast           => exact Update.flow_extends ..
  case loadField | loadArray => exact Update.point_extends ..
  case storeField | storeArray => exact Update.putAll_extends ..
  case invoke => exact invoke_extends ..
  all_goals exact .refl _

theorem le_step (cs : Constants) (f : Facts) (found : Finding) (s : Stmt) :
    f.toSet ⊆ (f.step cs found s).facts.toSet :=
  (step_extends cs f found s).le

theorem step_eq_of_quiet {found : Finding} (h : (f.step cs found s).grown = false) :
    (f.step cs found s).facts = f := by
  rw [(step_extends cs f found s).quiet h]

theorem exists_new_of_grown {found : Finding} (h : (f.step cs found s).grown) :
    ∃ x ∈ (f.step cs found s).facts.toSet, x ∉ f.toSet := by
  cases (step_extends cs f found s).gained h
  case inl h => contradiction
  case inr h => exact h

theorem invoke_within {call : Invoke} {callees : List Method} (h : f.toSet ⊆ F)
    (hp : ∀ callee ∈ callees, callee.hasBody → Passes F call callee) :
    (f.invoke call callees).facts.toSet ⊆ F := by
  have targets : ∀ callee ∈ callees.filter Method.hasBody, Passes F call callee :=
    fun c hc => hp c (List.mem_filter.mp hc).left (List.mem_filter.mp hc).right
  have nothing : ∀ v, call.result = some v → ∀ x ∈ (∅ : ObjectSet), x ∈ pointees F v := by simp
  have ⟨hu, hr⟩ := Update.callAll_within (u := ⟨f, false⟩) h targets nothing
  rw [invoke_eq]
  split
  case h_1 v hv => exact Update.point_within hu (hr v hv)
  case h_2      => exact hu

-- The constraint may be about more targets than the facts know of.
theorem step_within {targets : Invoke → Set Method} (h : f.toSet ⊆ F)
    (hs : Satisfies p F cs targets s)
    (ht : ∀ call, s = .invoke call → p.targets f call ⊆ targets call) :
    (f.step cs (p.finding f s) s).facts.toSet ⊆ F := by
  cases s
  case alloc site lhs type =>
    simp only [step, Problem.finding]
    split
    case h_1 id hid => exact Update.point_within h (by simpa using hs id hid)
    case h_2        => exact h
  case copy | cast => exact Update.flow_within h hs
  case loadField lhs base field =>
    refine Update.point_within h fun x hx => ?_
    obtain ⟨o, ho, hx⟩ := mem_load.mp hx
    exact hs o (owners_mono h base field (mem_owners.mp ho)) (h hx)
  case storeField base field rhs =>
    refine Update.putAll_within h fun o ho x hx => ?_
    exact hs o (owners_mono h base field (mem_owners.mp ho)) (h hx)
  case loadArray lhs base index =>
    refine Update.point_within h fun x hx => ?_
    obtain ⟨o, ho, k, hk, hx⟩ := mem_loadElement.mp hx
    exact hs o (h ho) k hk (h hx)
  case storeArray base index rhs =>
    exact Update.putAll_within h fun o ho x hx => hs o (h ho) (h hx)
  case invoke call => exact invoke_within h fun c hc => hs c (ht call rfl hc)
  all_goals exact h

theorem passes_of_quiet {call : Invoke} {callees : List Method}
    (h : (f.invoke call callees).grown = false) {callee : Method} (hm : callee ∈ callees)
    (hb : callee.hasBody) : Passes f.toSet call callee := by
  have hm' := List.mem_filter.mpr ⟨hm, hb⟩
  -- The result is added last, so the calls before it were quiet.
  have hc : (Update.callAll call ⟨f, false⟩ ∅ (callees.filter Method.hasBody)).1.grown = false := by
    rw [invoke_eq] at h
    split at h
    case h_1 =>
      rw [← (Update.point_extends ..).quiet h]
      exact h
    case h_2 => exact h
  have ⟨_, hq⟩ := Update.callAll_quiet hc
  have ⟨hbind, hret⟩ := hq callee hm'
  have ⟨receiver, params⟩ := Update.bind_quiet hbind
  refine { receiver, params, result := fun v hv w hw x hx => ?_ }
  rw [invoke_eq] at h
  simp only [hv] at h
  have hx' := Update.point_quiet h x (hret x (mem_returned_of_mem hv hw hx))
  rw [(Update.callAll_extends ..).quiet hc] at hx'
  exact hx'

theorem satisfies_of_quiet (h : (f.step cs (p.finding f s) s).grown = false) :
    Satisfies p f.toSet cs (p.targets f) s := by
  cases s <;> simp only [step] at h
  case alloc site lhs type =>
    intro id hid
    simp only [Problem.finding, hid] at h
    exact Update.point_quiet (u := ⟨f, false⟩) h id (by simp)
  case copy | cast => exact Update.flow_quiet (u := ⟨f, false⟩) h
  case loadField lhs base field =>
    intro o ho x hx
    exact Update.point_quiet (u := ⟨f, false⟩) h x (mem_load.mpr ⟨o, mem_owners.mpr ho, hx⟩)
  case storeField base field rhs =>
    intro o ho x hx
    exact Update.putAll_quiet (u := ⟨f, false⟩) h o (mem_owners.mpr ho) x hx
  case loadArray lhs base index =>
    intro o ho k hk x hx
    exact Update.point_quiet (u := ⟨f, false⟩) h x (mem_loadElement.mpr ⟨o, ho, k, hk, hx⟩)
  case storeArray base index rhs =>
    intro o ho x hx
    exact Update.putAll_quiet (u := ⟨f, false⟩) h o ho x hx
  case invoke call =>
    intro callee hm hb
    exact passes_of_quiet h hm hb
  all_goals trivial

end Facts
end Analysis
end PointsTo
