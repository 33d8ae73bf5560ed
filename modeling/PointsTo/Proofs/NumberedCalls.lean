import Mathlib.Data.Finset.Insert
import Mathlib.Logic.Function.Basic
import PointsTo.Proofs.RecursiveGroups

namespace PointsTo
namespace CallGraph

section FirstSight

-- The ends of the calls as they come, the caller before the callee.
def ends {α : Type} (calls : List (α × α)) : List α :=
  calls.flatMap fun call => [call.1, call.2]

variable {α : Type} [DecidableEq α] {l : List α} {a b : α} {i : Nat}

def sighted (calls : List (α × α)) : List α :=
  (ends calls).eraseDups

theorem appendNew_of_mem (h : a ∈ l) : appendNew l a = l :=
  if_pos h

theorem appendNew_of_not_mem (h : a ∉ l) : appendNew l a = l ++ [a] :=
  if_neg h

-- What was in a list stays at its place.
theorem getElem?_appendNew (h : l[i]? = some b) (a : α) : (appendNew l a)[i]? = some b := by
  unfold appendNew
  split
  case isTrue  => exact h
  case isFalse =>
    have lt := (List.getElem?_eq_some_iff.mp h).1
    rwa [List.getElem?_append_left lt]

theorem eraseDups_concat [BEq α] [LawfulBEq α] (l : List α) (a : α) :
    (l ++ [a]).eraseDups = appendNew l.eraseDups a := by
  rw [List.eraseDups_append]
  by_cases h : a ∈ l <;> simp [List.removeAll, appendNew, List.eraseDups_cons, h]

theorem sighted_concat (calls : List (α × α)) (x y : α) :
    sighted (calls ++ [(x, y)]) = appendNew (appendNew (sighted calls) x) y := by
  have both : ends (calls ++ [(x, y)]) = ends calls ++ [x] ++ [y] := by simp [ends]
  rw [sighted, both, eraseDups_concat, eraseDups_concat]
  rfl

-- A call graph lists its nodes, and its callers with their callees, in the order of first sight.
theorem ofCalls_eq (calls : List (α × α)) : ofCalls calls =
    { nodes := sighted calls
      calls := calls.eraseDups.foldl (fun calls call => insertCall call.1 call.2 calls) [] } := by
  induction calls using List.reverseRecOn
  case nil => rfl
  case append_singleton calls call hi =>
    obtain ⟨x, y⟩ := call
    rw [ofCalls_append, sighted_concat, eraseDups_concat, addEdge]
    split
    case isTrue known =>
      have made : (x, y) ∈ calls := mem_successors_ofCalls.mp known
      have ⟨hx, hy⟩ : x ∈ sighted calls ∧ y ∈ sighted calls := by
        simpa only [hi] using (Orderly.ofCalls calls).closed x y known
      rw [appendNew_of_mem hx, appendNew_of_mem hy,
        appendNew_of_mem (List.mem_eraseDups.mpr made), hi]
    case isFalse new =>
      have fresh : (x, y) ∉ calls.eraseDups :=
        fun made => new (mem_successors_ofCalls.mpr (List.mem_eraseDups.mp made))
      rw [hi, appendNew_of_not_mem fresh, List.foldl_append]
      rfl

end FirstSight
end CallGraph

open CallGraph (appendNew sighted)

-- Nodes with their numbers, and edges between numbers.
structure EdgeSet (α : Type) where
  nodes : List α := []
  index : α → Option Nat := fun _ => none
  seen  : Finset (Nat × Nat) := ∅
  edges : List (Nat × Nat) := []

namespace EdgeSet

def ends? {α : Type} (es : EdgeSet α) (e : Nat × Nat) : Option (α × α) := do
  return (← es.nodes[e.1]?, ← es.nodes[e.2]?)

section Recorder

variable {α : Type} [DecidableEq α]

-- The number of a node, a new one if it has none yet.
def node (es : EdgeSet α) (a : α) : Nat × EdgeSet α :=
  match es.index a with
  | some i => (i, es)
  | none   => (es.nodes.length, { es with
      nodes := es.nodes ++ [a]
      index := Function.update es.index a (some es.nodes.length) })

def add (es : EdgeSet α) (caller callee : α) : EdgeSet α :=
  let (i, es) := es.node caller
  let (j, es) := es.node callee
  if (i, j) ∈ es.seen then es
  else { es with seen := insert (i, j) es.seen, edges := es.edges ++ [(i, j)] }

def ofCalls (calls : List (α × α)) : EdgeSet α :=
  calls.foldl (fun es (caller, callee) => es.add caller callee) {}

def graph (es : EdgeSet α) : CallGraph α where
  nodes := es.nodes
  calls := (es.edges.filterMap es.ends?).foldl
    (fun calls call => CallGraph.insertCall call.1 call.2 calls) []

end Recorder

variable {α : Type} {es : EdgeSet α} {calls : List (α × α)} {a b : α} {i j : Nat}

-- The number of a node is its position.
def Inverse (es : EdgeSet α) : Prop :=
  ∀ a i, es.index a = some i ↔ es.nodes[i]? = some a

theorem ends?_eq_some_iff {call : α × α} : es.ends? (i, j) = some call ↔
    es.nodes[i]? = some call.1 ∧ es.nodes[j]? = some call.2 := by
  simp only [ends?, Option.bind_eq_bind, Option.bind_eq_some_iff, Option.pure_def,
    Option.some.injEq]
  grind

theorem Inverse.eq_of_getElem? (h : es.Inverse) (hi : es.nodes[i]? = some a)
    (hj : es.nodes[j]? = some a) : i = j :=
  Option.some.inj (((h a i).mpr hi).symm.trans ((h a j).mpr hj))

theorem Inverse.eq_of_ends? (h : es.Inverse) {e e' : Nat × Nat} {call : α × α}
    (he : es.ends? e = some call) (he' : es.ends? e' = some call) : e = e' := by
  have ⟨hi, hj⟩ := ends?_eq_some_iff.mp he
  have ⟨hi', hj'⟩ := ends?_eq_some_iff.mp he'
  exact Prod.ext (h.eq_of_getElem? hi hi') (h.eq_of_getElem? hj hj')

theorem Inverse.nodup (h : es.Inverse) : es.nodes.Nodup := by
  rw [List.nodup_iff_getElem?_ne_getElem?]
  intro i j lt bound same
  have last := List.getElem?_eq_getElem bound
  exact lt.ne (h.eq_of_getElem? (same.trans last) last)

variable [DecidableEq α]

section Node

theorem Inverse.node (h : es.Inverse) (a : α) : (es.node a).2.Inverse := by
  unfold EdgeSet.node
  split
  case h_1 => exact h
  case h_2 none =>
    have new (i : Nat) : es.nodes[i]? ≠ some a := fun hi => by simp [(h a i).mpr hi] at none
    intro b i
    by_cases e : b = a
    case pos =>
      subst e
      simp only [Function.update_self, Option.some.injEq]
      grind
    case neg =>
      simp only [Function.update_of_ne e, h b i]
      grind

theorem nodes_node (h : es.Inverse) (a : α) : (es.node a).2.nodes = appendNew es.nodes a := by
  unfold EdgeSet.node
  split
  case h_1 i known => rw [CallGraph.appendNew_of_mem (List.mem_of_getElem? ((h a i).mp known))]
  case h_2 none =>
    have new : a ∉ es.nodes := fun ha => by
      have ⟨i, hi⟩ := List.mem_iff_getElem?.mp ha
      simp [(h a i).mpr hi] at none
    rw [CallGraph.appendNew_of_not_mem new]

-- The number that is handed out is that of the node.
theorem getElem?_node (h : es.Inverse) (a : α) :
    (es.node a).2.nodes[(es.node a).1]? = some a := by
  unfold EdgeSet.node
  split
  case h_1 i known => exact (h a i).mp known
  case h_2         => simp

theorem noted_node (es : EdgeSet α) (a : α) :
    (es.node a).2.seen = es.seen ∧ (es.node a).2.edges = es.edges := by
  unfold EdgeSet.node
  split <;> exact ⟨rfl, rfl⟩

-- A call is noted by the numbers of its ends, after these have got their numbers.
theorem add_eq (h : es.Inverse) (x y : α) : ∃ numbered : EdgeSet α, ∃ e, numbered.Inverse ∧
    numbered.nodes = appendNew (appendNew es.nodes x) y ∧ numbered.seen = es.seen ∧
    numbered.edges = es.edges ∧ numbered.ends? e = some (x, y) ∧
    es.add x y = if e ∈ numbered.seen then numbered
      else { numbered with seen := insert e numbered.seen, edges := numbered.edges ++ [e] } := by
  have hx := h.node x
  have ⟨seen, edges⟩ := noted_node es x
  have ⟨seen', edges'⟩ := noted_node (es.node x).2 y
  have nodes := nodes_node hx y
  have caller : ((es.node x).2.node y).2.nodes[(es.node x).1]? = some x := by
    rw [nodes]
    exact CallGraph.getElem?_appendNew (getElem?_node h x) y
  refine ⟨((es.node x).2.node y).2, ((es.node x).1, ((es.node x).2.node y).1), hx.node y, ?nodes,
    seen'.trans seen, edges'.trans edges, ?ends, rfl⟩
  case nodes => rw [nodes, nodes_node h x]
  case ends => exact ends?_eq_some_iff.mpr ⟨caller, getElem?_node hx y⟩

end Node

-- What recording calls keeps. The edges have the ends of the calls, in the order of first sight.
structure Records (es : EdgeSet α) (calls : List (α × α)) : Prop where
  inverse : es.Inverse
  nodes   : es.nodes = sighted calls
  seen    : ∀ e, e ∈ es.seen ↔ e ∈ es.edges
  nodup   : es.edges.Nodup
  edges   : es.edges.map es.ends? = calls.eraseDups.map some

namespace Records

theorem empty : Records ({} : EdgeSet α) [] :=
  ⟨fun a i => by simp, rfl, fun e => by simp, .nil, rfl⟩

theorem exists_ends (h : es.Records calls) {e : Nat × Nat} (he : e ∈ es.edges) :
    ∃ call ∈ calls, es.ends? e = some call := by
  have mem : es.ends? e ∈ calls.eraseDups.map some := h.edges ▸ List.mem_map_of_mem he
  have ⟨call, hc, eq⟩ := List.mem_map.mp mem
  exact ⟨call, List.mem_eraseDups.mp hc, eq.symm⟩

theorem exists_edge (h : es.Records calls) {call : α × α} (hc : call ∈ calls) :
    ∃ e ∈ es.edges, es.ends? e = some call := by
  have mem : some call ∈ es.edges.map es.ends? :=
    h.edges ▸ List.mem_map_of_mem (List.mem_eraseDups.mpr hc)
  exact List.mem_map.mp mem

theorem add (h : es.Records calls) (x y : α) : (es.add x y).Records (calls ++ [(x, y)]) := by
  have ⟨es', e, inverse, nodes, seen, edges, ends, added⟩ := add_eq h.inverse x y
  have sights : es'.nodes = sighted (calls ++ [(x, y)]) := by
    rw [nodes, h.nodes, CallGraph.sighted_concat]
  have kept {e : Nat × Nat} {call : α × α} (he : es.ends? e = some call) :
      es'.ends? e = some call := by
    have ⟨hi, hj⟩ := ends?_eq_some_iff.mp he
    rw [← Prod.eta e, ends?_eq_some_iff, nodes]
    exact ⟨CallGraph.getElem?_appendNew (CallGraph.getElem?_appendNew hi x) y,
      CallGraph.getElem?_appendNew (CallGraph.getElem?_appendNew hj x) y⟩
  have before : es'.edges.map es'.ends? = calls.eraseDups.map some := by
    rw [edges, ← h.edges]
    refine List.map_congr_left fun e he => ?_
    have ⟨call, _, hc⟩ := h.exists_ends he
    rw [hc, kept hc]
  have noted : ∀ e, e ∈ es'.seen ↔ e ∈ es'.edges := by
    rw [seen, edges]
    exact h.seen
  -- The edge is known if and only if the call was made before.
  have known : e ∈ es'.seen ↔ (x, y) ∈ calls := by
    rw [noted, edges]
    constructor
    case mp =>
      intro he
      have ⟨call, hc, he'⟩ := h.exists_ends he
      rw [kept he'] at ends
      exact Option.some.inj ends ▸ hc
    case mpr =>
      intro hc
      have ⟨e', he', eq⟩ := h.exists_edge hc
      exact inverse.eq_of_ends? ends (kept eq) ▸ he'
  rw [added]
  split
  case isTrue he =>
    refine ⟨inverse, sights, noted, edges ▸ h.nodup, ?_⟩
    rw [before, CallGraph.eraseDups_concat,
      CallGraph.appendNew_of_mem (List.mem_eraseDups.mpr (known.mp he))]
  case isFalse he =>
    have new : (x, y) ∉ calls.eraseDups := fun hc => he (known.mpr (List.mem_eraseDups.mp hc))
    refine ⟨inverse, sights, fun e' => ?seen, ?distinct, ?edges⟩
    case seen => simp [noted, or_comm]
    case distinct => exact List.concat_eq_append ▸ (edges ▸ h.nodup).concat ((noted e).not.mp he)
    case edges =>
      show (es'.edges ++ [e]).map es'.ends? = _
      rw [CallGraph.eraseDups_concat, CallGraph.appendNew_of_not_mem new, List.map_append, before,
        List.map_append, List.map_singleton, ends, List.map_singleton]

theorem ofCalls (calls : List (α × α)) : (ofCalls calls).Records calls := by
  induction calls using List.reverseRecOn
  case nil => exact empty
  case append_singleton calls call hi =>
    rw [EdgeSet.ofCalls, List.foldl_append]
    exact hi.add call.1 call.2

end Records

theorem graph_ofCalls (calls : List (α × α)) : (ofCalls calls).graph = .ofCalls calls := by
  have records := Records.ofCalls calls
  have edges : (ofCalls calls).edges.filterMap (ofCalls calls).ends? = calls.eraseDups := by
    have listed := congrArg (List.filterMap id) records.edges
    simpa only [List.filterMap_map, Function.id_comp, List.filterMap_some] using listed
  rw [graph, records.nodes, edges, CallGraph.ofCalls_eq]

-- The nodes are numbered in the order of first sight, and the edges are the calls by number.
structure Numbers (es : EdgeSet α) (calls : List (α × α)) : Prop where
  nodup    : es.nodes.Nodup
  inverse  : es.Inverse
  order    : es.nodes = sighted calls
  incident : ∀ i < es.nodes.length, ∃ j, (i, j) ∈ es.edges ∨ (j, i) ∈ es.edges
  once     : es.edges.Nodup
  made     : ∀ i j, (i, j) ∈ es.edges ↔
    ∃ a b, (a, b) ∈ calls ∧ es.index a = some i ∧ es.index b = some j
  bounded  : ∀ i j, (i, j) ∈ es.edges → i < es.nodes.length ∧ j < es.nodes.length

theorem Records.numbers (h : es.Records calls) : es.Numbers calls := by
  have made (i j : Nat) : (i, j) ∈ es.edges ↔
      ∃ a b, (a, b) ∈ calls ∧ es.index a = some i ∧ es.index b = some j := by
    simp only [h.inverse _ _]
    constructor
    case mp =>
      intro he
      have ⟨call, hc, ends⟩ := h.exists_ends he
      exact ⟨call.1, call.2, hc, ends?_eq_some_iff.mp ends⟩
    case mpr =>
      intro ⟨a, b, hc, ends⟩
      have ⟨e, he, ends'⟩ := h.exists_edge hc
      exact h.inverse.eq_of_ends? (ends?_eq_some_iff.mpr ends) ends' ▸ he
  refine ⟨h.inverse.nodup, h.inverse, h.nodes, fun i hi => ?named, h.nodup, made,
    fun i j he => ?ends⟩
  case named =>
    have ⟨a, place⟩ : ∃ a, es.nodes[i]? = some a := ⟨_, List.getElem?_eq_getElem hi⟩
    have seen : a ∈ CallGraph.ends calls := by
      have mem := List.mem_of_getElem? place
      rw [h.nodes] at mem
      exact List.mem_eraseDups.mp mem
    have ⟨call, hc, mem⟩ := List.mem_flatMap.mp seen
    have ⟨e, he, ends⟩ := h.exists_edge hc
    have ⟨caller, callee⟩ := ends?_eq_some_iff.mp ends
    simp only [List.mem_cons, List.not_mem_nil, or_false] at mem
    cases mem
    case inl eq => exact ⟨e.2, .inl (h.inverse.eq_of_getElem? caller (eq ▸ place) ▸ he)⟩
    case inr eq => exact ⟨e.1, .inr (h.inverse.eq_of_getElem? callee (eq ▸ place) ▸ he)⟩
  case ends =>
    have ⟨call, _, ends⟩ := h.exists_ends he
    have ⟨caller, callee⟩ := ends?_eq_some_iff.mp ends
    exact ⟨(List.getElem?_eq_some_iff.mp caller).1, (List.getElem?_eq_some_iff.mp callee).1⟩

end EdgeSet

namespace CallGraph

variable {α : Type} [DecidableEq α]

-- The nodes come without repetition, by ascending numbers.
def Ascends (g : CallGraph α) (nodes : List α) : Prop :=
  nodes.Nodup ∧ nodes.Pairwise fun a b => g.nodes.idxOf a < g.nodes.idxOf b

-- Both listings of the neighbours of a node tell of the same calls.
structure ListsCalls (g : CallGraph α) (calls : List (α × α)) : Prop where
  callees   : ∀ a b, b ∈ g.callees a ↔ (a, b) ∈ calls
  callers   : ∀ a b, a ∈ g.callers b ↔ (a, b) ∈ calls
  ascending : ∀ a, g.Ascends (g.callees a) ∧ g.Ascends (g.callers a)
  isolated  : ∀ a, a ∉ g.nodes → g.callees a = [] ∧ g.callers a = []

theorem listsCalls_ofCalls (calls : List (α × α)) : (ofCalls calls).ListsCalls calls := by
  have orderly := Orderly.ofCalls calls
  have ascends (keep : α → Bool) : (ofCalls calls).Ascends ((ofCalls calls).nodes.filter keep) :=
    ⟨orderly.nodes.filter _, (pairwise_idxOf_of_nodup orderly.nodes).sublist List.filter_sublist⟩
  have callees (a b : α) : b ∈ (ofCalls calls).callees a ↔ (a, b) ∈ calls := by
    rw [orderly.closed.mem_callees, mem_successors_ofCalls]
  have callers (a b : α) : a ∈ (ofCalls calls).callers b ↔ (a, b) ∈ calls := by
    simp only [CallGraph.callers, List.mem_filter, decide_eq_true_eq, mem_successors_ofCalls,
      and_iff_right_iff_imp]
    exact fun call => (orderly.closed a b (mem_successors_ofCalls.mpr call)).left
  refine ⟨callees, callers, fun a => ⟨ascends _, ascends _⟩, fun a isolated => ?_⟩
  constructor
  case left =>
    refine List.eq_nil_iff_forall_not_mem.mpr fun b hb => isolated ?_
    exact (orderly.closed a b (mem_successors_ofCalls.mpr ((callees a b).mp hb))).left
  case right =>
    refine List.eq_nil_iff_forall_not_mem.mpr fun b hb => isolated ?_
    exact (orderly.closed b a (mem_successors_ofCalls.mpr ((callers b a).mp hb))).right

theorem calls_numbered (calls : List (α × α)) :
    (EdgeSet.ofCalls calls).Numbers calls ∧ (EdgeSet.ofCalls calls).graph = ofCalls calls ∧
      (ofCalls calls).ListsCalls calls :=
  ⟨(EdgeSet.Records.ofCalls calls).numbers, EdgeSet.graph_ofCalls calls, listsCalls_ofCalls calls⟩

-- A call that is made twice, a node that calls itself, and one that is seen as a callee first.
example : (EdgeSet.ofCalls [(7, 5), (5, 5), (7, 5), (5, 9), (9, 7)]).nodes = [7, 5, 9] ∧
    (EdgeSet.ofCalls [(7, 5), (5, 5), (7, 5), (5, 9), (9, 7)]).edges =
      [(0, 1), (1, 1), (1, 2), (2, 0)] := by
  decide

end CallGraph
end PointsTo
