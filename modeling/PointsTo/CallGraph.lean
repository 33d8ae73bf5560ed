import PointsTo.Preorder
import PointsTo.Text.Quoted

namespace PointsTo

-- Nodes are numbered in the order in which they are first seen, the caller of an edge before its
-- callee.
structure CallGraph (α : Type) where
  nodes : List α := []
  calls : List (α × List α) := []
deriving DecidableEq

namespace CallGraph

variable {α : Type} [DecidableEq α]

def appendNew {β : Type} [DecidableEq β] (l : List β) (a : β) : List β :=
  if a ∈ l then l else l ++ [a]

def successors (g : CallGraph α) (a : α) : List α :=
  match g.calls.find? (·.1 = a) with
  | some (_, callees) => callees
  | none => []

def insertCall (caller callee : α) : List (α × List α) → List (α × List α)
  | [] => [(caller, [callee])]
  | (a, callees) :: rest =>
    if a = caller then (a, callees ++ [callee]) :: rest
    else (a, callees) :: insertCall caller callee rest

def addEdge (g : CallGraph α) (caller callee : α) : CallGraph α :=
  if callee ∈ g.successors caller then g
  else
    { nodes := appendNew (appendNew g.nodes caller) callee
      calls := insertCall caller callee g.calls }

-- There is nothing to add if all of them are known callees in their order.
def addEdges (g : CallGraph α) (caller : α) (callees : List α) : CallGraph α :=
  if callees.isSublist (g.successors caller) then g else callees.foldl (·.addEdge caller ·) g

theorem addEdges_eq (g : CallGraph α) (caller : α) (callees : List α) :
    g.addEdges caller callees = callees.foldl (·.addEdge caller ·) g := by
  unfold addEdges
  split
  case isTrue h =>
    have known : ∀ a ∈ callees, a ∈ g.successors caller := (List.isSublist_iff_sublist.mp h).subset
    clear h
    induction callees with
    | nil => rfl
    | cons a rest ih =>
      have hadd : g.addEdge caller a = g := if_pos (known a List.mem_cons_self)
      rw [List.foldl_cons, hadd]
      exact ih fun b hb => known b (List.mem_cons_of_mem _ hb)
  case isFalse => rfl

def callees (g : CallGraph α) (a : α) : List α :=
  let next := g.successors a
  g.nodes.filter (· ∈ next)

def callers (g : CallGraph α) (b : α) : List α :=
  g.nodes.filter fun a => b ∈ g.successors a

def edgeCount (g : CallGraph α) : Nat :=
  g.calls.foldl (fun n (_, callees) => n + callees.length) 0

-- Only non-empty paths count. A traversal takes no more steps than there are callees of `a` and
-- edges.
def reachable (g : CallGraph α) (a : α) : List α :=
  let next := g.successors a
  preorderFrom g.successors (next.length + g.edgeCount) next []

-- Nodes that reach each other, in the order of the nodes; the groups are ordered by their first
-- nodes.
def recursiveGroups (g : CallGraph α) : List (List α) :=
  let below := g.nodes.map fun a => (a, g.reachable a)
  below.filterMap fun (a, belowA) =>
    let members := below.filter fun (b, belowB) => b ∈ belowA ∧ a ∈ belowB
    match members.map Prod.fst with
    | [] => none
    | first :: rest => if first = a then some (first :: rest) else none

-- A node with an edge to itself has a double border.
def nodeLines (g : CallGraph α) (label : α → String) (a : α) (i : Nat) : String :=
  let quoted := "label=" ++ Text.quote (label a)
  if a ∈ g.successors a then
    "  " ++ toString i ++ " [\n    " ++ quoted ++ "\n    peripheries=2\n  ];\n"
  else
    "  " ++ toString i ++ " [" ++ quoted ++ "];\n"

def properEdges (g : CallGraph α) : List (Nat × Nat) :=
  g.nodes.zipIdx.flatMap fun (a, i) =>
    let next := g.successors a
    g.nodes.zipIdx.filterMap fun (b, j) =>
      if i ≠ j ∧ b ∈ next then some (i, j) else none

def dot (g : CallGraph α) (label : α → String) : String :=
  let nodes := if g.nodes.isEmpty then ""
    else "  // Node definitions.\n" ++
      String.join (g.nodes.zipIdx.map fun (a, i) => g.nodeLines label a i)
  let properEdges := g.properEdges
  let edges := if properEdges.isEmpty then ""
    else "\n  // Edge definitions.\n" ++
      String.join (properEdges.map fun (i, j) =>
        "  " ++ toString i ++ " -> " ++ toString j ++ ";\n")
  "strict digraph callgraph \x7b\n" ++ nodes ++ edges ++ "\x7d\n"

end CallGraph
end PointsTo
