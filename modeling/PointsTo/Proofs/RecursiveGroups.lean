import PointsTo.Proofs.Preorder
import PointsTo.Proofs.RecordedCalls

namespace PointsTo

open Relation (TransGen)

-- Nodes of a list without repetition come in the order of their numbers.
theorem pairwise_idxOf_of_nodup {α : Type} [DecidableEq α] {l : List α} (h : l.Nodup) :
    l.Pairwise fun a b => l.idxOf a < l.idxOf b := by
  induction h
  case nil => exact .nil
  case cons x rest new _ hi =>
    have shifted {a : α} (ha : a ∈ rest) : (x :: rest).idxOf a = rest.idxOf a + 1 :=
      List.idxOf_cons_ne _ (new a ha)
    refine .cons (fun b hb => ?first) (hi.imp_of_mem fun ha hb lt => ?others)
    case first =>
      rw [shifted hb, List.idxOf_cons_self]
      omega
    case others =>
      rw [shifted ha, shifted hb]
      omega

namespace CallGraph

variable {α : Type} [DecidableEq α]

-- One node calls the other one, directly or through others.
def Reaches (calls : List (α × α)) : α → α → Prop :=
  TransGen fun a b => (a, b) ∈ calls

-- The groups are the cycles of the calls. Each of them is in the order of the nodes, and so are the
-- first nodes of the groups.
structure ListsCycles (calls : List (α × α)) (nodes : List α) (groups : List (List α)) : Prop where
  member    : ∀ a, (∃ group ∈ groups, a ∈ group) ↔ Reaches calls a a
  together  : ∀ a b, (∃ group ∈ groups, a ∈ group ∧ b ∈ group) ↔
    Reaches calls a b ∧ Reaches calls b a
  disjoint  : groups.Pairwise List.Disjoint
  nonempty  : ∀ group ∈ groups, group ≠ []
  nodup     : ∀ group ∈ groups, group.Nodup
  ascending : ∀ group ∈ groups, group.Pairwise fun a b => nodes.idxOf a < nodes.idxOf b
  ordered   : groups.Pairwise fun group group' =>
    ∀ a ∈ group.head?, ∀ b ∈ group'.head?, nodes.idxOf a < nodes.idxOf b

def peers (g : CallGraph α) (a : α) : List α :=
  g.nodes.filter fun b => b ∈ g.reachable a ∧ a ∈ g.reachable b

-- The group that is listed with `a`: its peers, if it is the first of them.
def group? (g : CallGraph α) (a : α) : Option (List α) :=
  if (g.peers a).head? = some a then some (g.peers a) else none

theorem group?_eq_some_iff {g : CallGraph α} {a : α} {group : List α} :
    g.group? a = some group ↔ group.head? = some a ∧ group = g.peers a := by
  unfold group?
  split <;> grind

theorem recursiveGroups_eq (g : CallGraph α) : g.recursiveGroups = g.nodes.filterMap g.group? := by
  unfold recursiveGroups
  simp only [List.filterMap_map]
  refine List.filterMap_congr fun a _ => ?_
  have members : ((g.nodes.map fun b => (b, g.reachable b)).filter fun e =>
      e.1 ∈ g.reachable a ∧ a ∈ e.2).map Prod.fst = g.peers a := by
    rw [List.filter_map, List.map_map]
    exact List.map_id' _
  simp only [Function.comp_apply, members, group?]
  cases g.peers a <;> simp

theorem mem_recursiveGroups {g : CallGraph α} {group : List α} : group ∈ g.recursiveGroups ↔
    ∃ a ∈ g.nodes, group.head? = some a ∧ group = g.peers a := by
  simp only [recursiveGroups_eq, List.mem_filterMap, group?_eq_some_iff]

omit [DecidableEq α] in
theorem edgeCount_eq (g : CallGraph α) : g.edgeCount = (g.calls.flatMap Prod.snd).length := by
  unfold edgeCount
  rw [List.length_flatMap, List.sum_eq_foldl, List.foldl_map]

section Orderly

variable {g : CallGraph α} {calls : List (α × α)} {a b c : α}

-- The steps that a search is allowed are enough for all edges.
theorem Orderly.explores_reachable (h : g.Orderly) (a : α) :
    Explores g.successors [] (g.successors a) (g.reachable a) := by
  have isolated : ∀ b ∉ g.calls.map Prod.fst, g.successors b = [] := by
    intro b hb
    have none : g.calls.find? (·.1 = b) = none := by
      refine List.find?_eq_none.mpr fun e he eq => hb ?_
      exact List.mem_map.mpr ⟨e, he, by simpa using eq⟩
    simp [successors, none]
  have edges : (g.calls.map Prod.fst).flatMap g.successors = g.calls.flatMap Prod.snd := by
    rw [List.flatMap_map]
    exact List.flatMap_congr fun e he => h.successors_eq he
  refine explores_preorderFrom isolated ?_
  simp [openEdges, edges, edgeCount_eq]

theorem mem_reachable_iff : b ∈ (ofCalls calls).reachable a ↔ Reaches calls a b := by
  rw [((Orderly.ofCalls calls).explores_reachable a).mem_iff, Reaches, TransGen.head'_iff]
  simp only [mem_successors_ofCalls]

theorem mem_peers_iff :
    b ∈ (ofCalls calls).peers a ↔ Reaches calls a b ∧ Reaches calls b a := by
  simp only [peers, List.mem_filter, mem_reachable_iff, decide_eq_true_eq, and_iff_right_iff_imp]
  intro ⟨reaches, _⟩
  -- The last call of the path has `b` as its callee.
  have ⟨c, _, call⟩ := TransGen.tail'_iff.mp reaches
  exact ((Orderly.ofCalls calls).closed c b (mem_successors_ofCalls.mpr call)).right

theorem peers_eq (h : b ∈ (ofCalls calls).peers a) :
    (ofCalls calls).peers b = (ofCalls calls).peers a := by
  have ⟨hab, hba⟩ := mem_peers_iff.mp h
  refine List.filter_congr fun c _ => ?_
  simp only [mem_reachable_iff, decide_eq_decide]
  exact ⟨fun ⟨hbc, hcb⟩ => ⟨hab.trans hbc, hcb.trans hba⟩,
    fun ⟨hac, hca⟩ => ⟨hba.trans hac, hca.trans hab⟩⟩

-- The peers of a node that reaches itself are a group.
theorem peers_mem_recursiveGroups (h : Reaches calls a a) :
    (ofCalls calls).peers a ∈ (ofCalls calls).recursiveGroups := by
  have mem : a ∈ (ofCalls calls).peers a := mem_peers_iff.mpr ⟨h, h⟩
  have ⟨first, hf⟩ := Option.isSome_iff_exists.mp (List.isSome_head?.mpr (List.ne_nil_of_mem mem))
  have hf' := List.mem_of_head? hf
  have same := peers_eq hf'
  exact mem_recursiveGroups.mpr ⟨first, List.mem_of_mem_filter hf', hf, same.symm⟩

theorem reaches_of_mem_group {group : List α} (hg : group ∈ (ofCalls calls).recursiveGroups)
    (ha : a ∈ group) (hb : b ∈ group) : Reaches calls a b ∧ Reaches calls b a := by
  obtain ⟨c, _, _, rfl⟩ := mem_recursiveGroups.mp hg
  rw [← peers_eq ha] at hb
  exact mem_peers_iff.mp hb

end Orderly

theorem recursiveGroups_cycles (calls : List (α × α)) :
    ListsCycles calls (ofCalls calls).nodes (ofCalls calls).recursiveGroups := by
  have numbered := pairwise_idxOf_of_nodup (Orderly.ofCalls calls).nodes
  constructor
  case member =>
    intro a
    refine ⟨fun ⟨group, hg, ha⟩ => (reaches_of_mem_group hg ha ha).left, fun h => ?_⟩
    exact ⟨_, peers_mem_recursiveGroups h, mem_peers_iff.mpr ⟨h, h⟩⟩
  case together =>
    intro a b
    refine ⟨fun ⟨group, hg, ha, hb⟩ => reaches_of_mem_group hg ha hb, fun ⟨hab, hba⟩ => ?_⟩
    exact ⟨_, peers_mem_recursiveGroups (hab.trans hba), mem_peers_iff.mpr ⟨hab.trans hba,
      hab.trans hba⟩, mem_peers_iff.mpr ⟨hab, hba⟩⟩
  case disjoint =>
    rw [recursiveGroups_eq, List.pairwise_filterMap]
    refine (Orderly.ofCalls calls).nodes.imp fun ne group hg group' hg' x hx hx' => ne ?_
    obtain ⟨first, rfl⟩ := group?_eq_some_iff.mp hg
    obtain ⟨first', rfl⟩ := group?_eq_some_iff.mp hg'
    -- Groups that share a node are the same, and so are their first nodes.
    rw [← peers_eq hx, peers_eq hx', first'] at first
    exact (Option.some.inj first).symm
  case nonempty =>
    intro group hg
    obtain ⟨a, _, first, rfl⟩ := mem_recursiveGroups.mp hg
    exact List.ne_nil_of_mem (List.mem_of_head? first)
  case nodup =>
    intro group hg
    obtain ⟨a, _, _, rfl⟩ := mem_recursiveGroups.mp hg
    exact (Orderly.ofCalls calls).nodes.filter _
  case ascending =>
    intro group hg
    obtain ⟨a, _, _, rfl⟩ := mem_recursiveGroups.mp hg
    exact numbered.sublist List.filter_sublist
  case ordered =>
    rw [recursiveGroups_eq, List.pairwise_filterMap]
    refine numbered.imp fun lt group hg group' hg' x hx y hy => ?_
    have ⟨first, _⟩ := group?_eq_some_iff.mp hg
    have ⟨first', _⟩ := group?_eq_some_iff.mp hg'
    obtain rfl := Option.some.inj (first.symm.trans hx)
    obtain rfl := Option.some.inj (first'.symm.trans hy)
    exact lt

-- Two nodes that call each other, one that calls itself, and one that does neither.
example : (ofCalls [(4, 3), (3, 1), (1, 3), (2, 2)]).recursiveGroups = [[3, 1], [2]] := by decide

end CallGraph
end PointsTo
