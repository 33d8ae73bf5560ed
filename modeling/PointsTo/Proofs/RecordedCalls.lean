import Mathlib.Data.List.Induction
import PointsTo.Proofs.Lowering.Numbered
import PointsTo.Proofs.Run

namespace PointsTo
namespace CallGraph

variable {α : Type} [DecidableEq α] {g : CallGraph α} {calls : List (α × α)} {x y a b : α}

-- The graph of some calls, each a caller with a callee.
def ofCalls (calls : List (α × α)) : CallGraph α :=
  calls.foldl (fun g (caller, callee) => g.addEdge caller callee) {}

theorem ofCalls_append (calls : List (α × α)) (x y : α) :
    ofCalls (calls ++ [(x, y)]) = (ofCalls calls).addEdge x y := by
  simp [ofCalls]

theorem mem_successors_ofCalls : b ∈ (ofCalls calls).successors a ↔ (a, b) ∈ calls := by
  induction calls using List.reverseRecOn
  case nil => simp [ofCalls, successors]
  case append_singleton calls e hi =>
    obtain ⟨x, y⟩ := e
    rw [ofCalls_append, mem_successors_addEdge, hi]
    simp

structure Orderly (g : CallGraph α) : Prop where
  nodes   : g.nodes.Nodup
  callers : (g.calls.map Prod.fst).Nodup
  closed  : g.Closed

theorem nodup_appendNew {l : List α} (h : l.Nodup) (a : α) : (appendNew l a).Nodup := by
  unfold appendNew
  split
  case isTrue  => exact h
  case isFalse => exact List.nodup_append.mpr ⟨h, List.nodup_singleton a, by grind⟩

theorem keys_insertCall (calls : List (α × List α)) (x y : α) :
    (insertCall x y calls).map Prod.fst = appendNew (calls.map Prod.fst) x := by
  induction calls
  case nil => rfl
  case cons e rest hi =>
    obtain ⟨a, callees⟩ := e
    unfold insertCall
    split
    case isTrue h  => simp [appendNew, h]
    case isFalse h =>
      rw [List.map_cons, hi]
      grind [appendNew]

namespace Orderly

theorem empty : Orderly ({} : CallGraph α) :=
  ⟨.nil, .nil, fun a b hb => by simp [successors] at hb⟩

theorem addEdge (h : g.Orderly) (x y : α) : (g.addEdge x y).Orderly := by
  have closed := h.closed.addEdge x y
  unfold CallGraph.addEdge at closed ⊢
  split at closed
  case isTrue hy => exact if_pos hy ▸ h
  case isFalse hy =>
    rw [if_neg hy]
    refine ⟨nodup_appendNew (nodup_appendNew h.nodes x) y, ?_, closed⟩
    rw [keys_insertCall]
    exact nodup_appendNew h.callers x

theorem ofCalls (calls : List (α × α)) : (ofCalls calls).Orderly := by
  induction calls using List.reverseRecOn
  case nil => exact empty
  case append_singleton calls e hi =>
    obtain ⟨x, y⟩ := e
    rw [ofCalls_append]
    exact hi.addEdge x y

-- A caller has exactly the callees that are listed with it.
theorem successors_eq (h : g.Orderly) {e : α × List α} (he : e ∈ g.calls) :
    g.successors e.1 = e.2 := by
  have found : g.calls.find? (·.1 = e.1) = some e :=
    (find?_eq_some_iff_of_nodup h.callers).mpr ⟨he, rfl⟩
  simp [successors, found]

end Orderly
end CallGraph

namespace Analysis

theorem State.exists_calls_addEdges {g : CallGraph Method} {calls : List (Method × Method)}
    (h : g = .ofCalls calls) (m : Method) (callees : List Method) :
    g.addEdges m callees = .ofCalls (calls ++ callees.map (m, ·)) := by
  rw [CallGraph.addEdges_eq, CallGraph.ofCalls, List.foldl_append, List.foldl_map, h]
  rfl

theorem exists_calls_solve (p : Problem) : ∃ calls, p.solve.state.graph = .ofCalls calls := by
  refine Preserved.solve (I := fun st => ∃ calls, st.graph = .ofCalls calls)
    ⟨?_, fun _ h => h, ?_, fun _ h => h, fun _ _ _ h => h⟩
  · have ⟨_, h⟩ := State.start_eq p
    rw [h]
    exact ⟨[], rfl⟩
  · intro st m cs s ⟨calls, h⟩ _ _ _ _
    have ⟨_, _, he, _⟩ := State.step_eq p m cs st s
    rw [he]
    exact ⟨_, State.exists_calls_addEdges h m _⟩

end Analysis
end PointsTo
