import Mathlib.Algebra.BigOperators.Group.List.Basic
import Mathlib.Data.List.Sort
import PointsTo.Proofs.Quoted
import PointsTo.Proofs.RecordedCalls

namespace PointsTo
namespace Text

def listed {β : Type} (title : String) (text : Nat → β → String) (bs : List β) : String :=
  if bs.isEmpty then "" else title ++ String.join (bs.zipIdx.map fun e => text e.2 e.1)

theorem length_le_append_left (s t : String) : s.length ≤ (s ++ t).length := by
  simp

theorem length_le_append_right (s t : String) : t.length ≤ (s ++ t).length := by
  simp

theorem length_le_listed {β : Type} (title : String) {text : Nat → β → String}
    (visible : ∀ i b, 0 < (text i b).length) (bs : List β) :
    bs.length ≤ (listed title text bs).length := by
  unfold listed
  split
  case isTrue h => simp [List.isEmpty_iff.mp h]
  case isFalse =>
    have counted := List.length_le_sum_of_one_le
      ((bs.zipIdx.map fun e => text e.2 e.1).map String.length) fun n hn => by
        have ⟨_, hs, hn⟩ := List.mem_map.mp hn
        have ⟨e, _, hs⟩ := List.mem_map.mp hs
        exact hn ▸ hs ▸ visible e.2 e.1
    rw [List.length_map, List.length_map, List.length_zipIdx, ← String.length_join] at counted
    exact counted.trans (length_le_append_right ..)

abbrev Reader := StateT (List Char) Option

namespace Reader

variable {β γ : Type}

def skip (text : String) : Reader Unit :=
  fun cs => (cs.dropPrefix? text.toList).map ((), ·)

-- A decimal number that ends with `stop`.
def numberUpTo (stop : String) : Reader Nat := do
  let digits ← modifyGet fun cs => (cs.takeWhile Char.isDigit, cs.dropWhile Char.isDigit)
  skip stop
  return Nat.ofDigitChars 10 digits 0

def quoted : Reader String := fun cs => do
  let raw ← unquote? (.ofList cs)
  return (← raw.text?, Quoted.behind (cs.drop 1))

def manyFrom (item : Nat → Reader β) : (fuel k : Nat) → Reader (List β)
  | 0, _ => pure []
  | fuel + 1, k => (do return (← item k) :: (← manyFrom item fuel (k + 1))) <|> pure []

def listing (title : String) (item : Nat → Reader β) (fuel : Nat) : Reader (List β) :=
  (do skip title; manyFrom item fuel 0) <|> pure []

-- `r` takes exactly `text`, whatever follows.
def Reads (r : Reader β) (text : String) (b : β) : Prop :=
  ∀ rest, r.run (text.toList ++ rest) = some (b, rest)

section Run

variable {r r' : Reader β} {f : β → Reader γ} {cs rest : List Char} {b : β}

theorem run_bind_of_some (h : r.run cs = some (b, rest)) : (r >>= f).run cs = (f b).run rest := by
  rw [StateT.run_bind, h]
  rfl

theorem run_bind_of_none (h : r.run cs = none) : (r >>= f).run cs = none := by
  rw [StateT.run_bind, h]
  rfl

theorem run_orElse_of_some (h : r.run cs = some (b, rest)) :
    (r <|> r').run cs = some (b, rest) := by
  change (r.run cs <|> r'.run cs) = _
  rw [h]
  rfl

theorem run_orElse_of_none (h : r.run cs = none) : (r <|> r').run cs = r'.run cs := by
  change (r.run cs <|> r'.run cs) = _
  rw [h]
  rfl

end Run

namespace Reads

variable {r r' : Reader β} {f : β → Reader γ} {s t : String} {b : β} {c : γ}

theorem bind (h : Reads r s b) (h' : Reads (f b) t c) : Reads (r >>= f) (s ++ t) c := by
  intro rest
  rw [String.toList_append, List.append_assoc]
  exact (run_bind_of_some (h _)).trans (h' rest)

theorem map (h : Reads r s b) (f : β → γ) : Reads (do return f (← r)) s (f b) :=
  fun rest => run_bind_of_some (h rest)

theorem orElse_left (h : Reads r s b) : Reads (r <|> r') s b :=
  fun rest => run_orElse_of_some (h rest)

theorem orElse_right (fails : ∀ rest, r.run (s.toList ++ rest) = none) (h : Reads r' s b) :
    Reads (r <|> r') s b :=
  fun rest => (run_orElse_of_none (fails rest)).trans (h rest)

theorem skip (text : String) : Reads (skip text) text () := by
  intro rest
  simp [Reader.skip, StateT.run, List.dropPrefix?_append_of_beq]

theorem numberUpTo {stop : String} {c : Char} (head : stop.toList.head? = some c)
    (h : c.isDigit = false) (n : Nat) : Reads (numberUpTo stop) (toString n ++ stop) n := by
  intro rest
  have digits : ∀ d ∈ Nat.toDigits 10 n, d.isDigit = true := fun d hd =>
    Nat.isDigit_of_mem_toDigits (by decide) (by decide) hd
  have ⟨tail, split⟩ : ∃ tail, stop.toList = c :: tail := List.head?_eq_some_iff.mp head
  have front : (toString n ++ stop).toList ++ rest =
      Nat.toDigits 10 n ++ (stop.toList ++ rest) := by
    simp
  have stops : (stop.toList ++ rest).takeWhile Char.isDigit = [] ∧
      (stop.toList ++ rest).dropWhile Char.isDigit = stop.toList ++ rest := by
    simp [split, h]
  have taken : ((toString n ++ stop).toList ++ rest).takeWhile Char.isDigit =
      Nat.toDigits 10 n := by
    rw [front, List.takeWhile_append_of_pos digits, stops.left, List.append_nil]
  have left : ((toString n ++ stop).toList ++ rest).dropWhile Char.isDigit =
      stop.toList ++ rest := by
    rw [front, List.dropWhile_append_of_pos digits, stops.right]
  unfold Reader.numberUpTo
  rw [StateT.run_bind, StateT.run_modifyGet, taken, left, pure_bind]
  simp only [Nat.ofDigitChars_ten_toDigits]
  exact (skip stop).map (fun _ => n) rest

theorem quoted (s : String) : Reads quoted (quote s) s := by
  intro rest
  have raw := unquote?_quote s rest
  have left := behind_quote s rest
  unfold Reader.quoted
  simp only [StateT.run, raw, left, Option.bind_eq_bind, Option.bind_some, RawText.text?_ofString]
  rfl

end Reads

-- A text that begins with another character cannot be skipped.
theorem run_skip_eq_none {text : String} {c : Char} {cs : List Char}
    (head : text.toList.head? = some c) (h : cs.head? ≠ some c) : (skip text).run cs = none := by
  have ⟨tail, split⟩ : ∃ tail, text.toList = c :: tail := List.head?_eq_some_iff.mp head
  cases cs
  case nil => simp [skip, StateT.run, split, List.dropPrefix?]
  case cons d cs =>
    have ne : d ≠ c := by simpa using h
    simp [skip, StateT.run, split, List.dropPrefix?, ne]

section Listing

variable {item : Nat → Reader β} {text : Nat → β → String} {rest : List Char} {fuel k : Nat}

-- Reading goes on for as long as there is something to read.
theorem run_manyFrom (reads : ∀ i b, Reads (item i) (text i b) b)
    (stops : ∀ i, (item i).run rest = none) {bs : List β} (enough : bs.length ≤ fuel) :
    (manyFrom item fuel k).run ((bs.zipIdx k).flatMap (fun e => (text e.2 e.1).toList) ++ rest) =
      some (bs, rest) := by
  induction bs generalizing fuel k
  case nil =>
    cases fuel
    case zero => rfl
    case succ =>
      exact run_orElse_of_none (run_bind_of_none (stops k))
  case cons b bs hi =>
    obtain _ | fuel := fuel
    case zero => simp at enough
    case succ =>
      have hi := @hi fuel (k + 1) (by simpa using enough)
      rw [List.zipIdx_cons, List.flatMap_cons, List.append_assoc]
      exact run_orElse_of_some ((run_bind_of_some (reads k b _)).trans (run_bind_of_some hi))

theorem run_listing (title : String) {c : Char} (head : title.toList.head? = some c)
    (reads : ∀ i b, Reads (item i) (text i b) b) (stops : ∀ i, (item i).run rest = none)
    (other : rest.head? ≠ some c) {bs : List β} (enough : bs.length ≤ fuel) :
    (listing title item fuel).run ((listed title text bs).toList ++ rest) = some (bs, rest) := by
  cases bs
  case nil => exact run_orElse_of_none (run_bind_of_none (run_skip_eq_none head other))
  case cons b bs =>
    have many := run_manyFrom (k := 0) reads stops enough
    rw [listed, List.isEmpty_cons, if_neg (by decide), String.toList_append, List.append_assoc,
      String.toList_join, List.flatMap_map]
    exact run_orElse_of_some ((run_bind_of_some (Reads.skip title _)).trans many)

end Listing
end Reader
end Text

open Text (Reader)
open Text.Reader

structure Drawing.Node where
  label    : String
  isDouble : Bool
deriving DecidableEq

-- What a drawing shows. The number of a node is its position.
structure Drawing where
  nodes  : List Drawing.Node
  arrows : List (Nat × Nat)
deriving DecidableEq

namespace Drawing

def opening (isDouble : Bool) : String :=
  if isDouble then "\n    label=" else "label="

def closing (isDouble : Bool) : String :=
  if isDouble then "\n    peripheries=2\n  ];\n" else "];\n"

def nodeText (i : Nat) (node : Node) : String :=
  "  " ++ toString i ++ " [" ++
    (opening node.isDouble ++ (Text.quote node.label ++ closing node.isDouble))

def arrowText (arrow : Nat × Nat) : String :=
  "  " ++ (toString arrow.1 ++ " -> " ++ (toString arrow.2 ++ ";\n"))

def text (d : Drawing) : String :=
  "strict digraph callgraph \x7b\n" ++ (Text.listed "  // Node definitions.\n" nodeText d.nodes ++
    (Text.listed "\n  // Edge definitions.\n" (fun _ => arrowText) d.arrows ++ "\x7d\n"))

section Reading

def readBorder (isDouble : Bool) : Reader Node := do
  skip (opening isDouble)
  let label ← quoted
  skip (closing isDouble)
  return ⟨label, isDouble⟩

def readNode (i : Nat) : Reader Node := do
  skip ("  " ++ toString i ++ " [")
  readBorder false <|> readBorder true

def readArrow : Reader (Nat × Nat) := do
  skip "  "
  let i ← numberUpTo " -> "
  let j ← numberUpTo ";\n"
  return (i, j)

def readDrawing (fuel : Nat) : Reader Drawing := do
  skip "strict digraph callgraph \x7b\n"
  let nodes ← listing "  // Node definitions.\n" readNode fuel
  let arrows ← listing "\n  // Edge definitions.\n" (fun _ => readArrow) fuel
  skip "\x7d\n"
  return ⟨nodes, arrows⟩

-- The drawing of a text. No part of it takes more steps than the text has characters.
def read? (s : String) : Option Drawing :=
  match (readDrawing s.length).run s.toList with
  | some (d, []) => some d
  | _ => none

theorem reads_border (node : Node) : Reads (readBorder node.isDouble)
    (opening node.isDouble ++ (Text.quote node.label ++ closing node.isDouble)) node :=
  .bind (.skip _) (.bind (.quoted node.label) (.map (.skip _) fun _ => node))

theorem reads_node (i : Nat) (node : Node) : Reads (readNode i) (nodeText i node) node := by
  refine .bind (.skip _) ?_
  have reads := reads_border node
  cases h : node.isDouble <;> rw [h] at reads
  case false => exact .orElse_left reads
  case true =>
    refine .orElse_right (fun rest => ?_) reads
    -- The label is on a line of its own here.
    have fails : (skip (opening false)).run ((opening true ++ (Text.quote node.label ++
        closing true)).toList ++ rest) = none :=
      run_skip_eq_none (c := 'l') rfl (by simp [opening])
    exact run_bind_of_none fails

theorem reads_arrow (arrow : Nat × Nat) : Reads readArrow (arrowText arrow) arrow :=
  .bind (.skip _) (.bind (.numberUpTo (c := ' ') rfl rfl arrow.1)
    (.map (.numberUpTo (c := ';') rfl rfl arrow.2) fun j => (arrow.1, j)))

theorem run_readNode_eq_none {rest : List Char} (h : rest.head? ≠ some ' ') (i : Nat) :
    (readNode i).run rest = none :=
  run_bind_of_none (run_skip_eq_none (by simp) h)

theorem run_readArrow_eq_none {rest : List Char} (h : rest.head? ≠ some ' ') :
    readArrow.run rest = none :=
  run_bind_of_none (run_skip_eq_none rfl h)

theorem run_readDrawing (d : Drawing) {fuel : Nat} (nodes : d.nodes.length ≤ fuel)
    (arrows : d.arrows.length ≤ fuel) : (readDrawing fuel).run d.text.toList = some (d, []) := by
  have readArrows := run_listing "\n  // Edge definitions.\n" rfl (fun _ => reads_arrow)
    (fun _ => @run_readArrow_eq_none "\x7d\n".toList (by decide)) (by decide) arrows
  have behindNodes : ((Text.listed "\n  // Edge definitions.\n" (fun _ => arrowText) d.arrows ++
      "\x7d\n").toList).head? ≠ some ' ' := by
    unfold Text.listed
    split <;> simp
  have readNodes := run_listing "  // Node definitions.\n" rfl reads_node
    (run_readNode_eq_none behindNodes) behindNodes nodes
  have readEnd := (Reads.skip "\x7d\n").map (fun _ => d) []
  rw [List.append_nil] at readEnd
  unfold text
  rw [String.toList_append]
  refine (run_bind_of_some (Reads.skip _ _)).trans ?_
  rw [String.toList_append]
  refine (run_bind_of_some readNodes).trans ?_
  rw [String.toList_append]
  exact (run_bind_of_some readArrows).trans readEnd

theorem visible_node (i : Nat) (node : Node) : 0 < (nodeText i node).length := by
  have : 0 < "  ".length := by decide
  rw [nodeText, String.append_assoc, String.append_assoc]
  exact this.trans_le (Text.length_le_append_left ..)

theorem visible_arrow (arrow : Nat × Nat) : 0 < (arrowText arrow).length := by
  have : 0 < "  ".length := by decide
  exact this.trans_le (Text.length_le_append_left ..)

theorem read?_text (d : Drawing) : read? d.text = some d := by
  have nodes : d.nodes.length ≤ d.text.length :=
    (Text.length_le_listed _ visible_node _).trans <|
      (Text.length_le_append_left ..).trans (Text.length_le_append_right ..)
  have arrows : d.arrows.length ≤ d.text.length :=
    (Text.length_le_listed _ (fun _ => visible_arrow) _).trans <|
      (Text.length_le_append_left ..).trans <| (Text.length_le_append_right ..).trans <|
        Text.length_le_append_right ..
  unfold read?
  rw [run_readDrawing d nodes arrows]

end Reading

-- Whether there is an edge, be it an arrow or a double border.
def Draws (d : Drawing) (i j : Nat) : Prop :=
  (i, j) ∈ d.arrows ∨ i = j ∧ ∃ node, d.nodes[i]? = some node ∧ node.isDouble

-- The order of arrows: by source, then by target.
def Precedes (arrow arrow' : Nat × Nat) : Prop :=
  arrow.1 < arrow'.1 ∨ arrow.1 = arrow'.1 ∧ arrow.2 < arrow'.2

instance : Std.Irrefl Precedes := ⟨fun _ h => by unfold Precedes at h; omega⟩

instance : Std.Antisymm Precedes := ⟨fun _ _ h h' => by unfold Precedes at h h'; omega⟩

end Drawing

namespace CallGraph

variable {α : Type} [DecidableEq α]

def drawing (g : CallGraph α) (label : α → String) : Drawing where
  nodes  := g.nodes.map fun a => ⟨label a, a ∈ g.successors a⟩
  arrows := g.properEdges

theorem getElem?_drawing {g : CallGraph α} {label : α → String} {i : Nat} {node : Drawing.Node} :
    (g.drawing label).nodes[i]? = some node ↔
      ∃ a, g.nodes[i]? = some a ∧ ⟨label a, a ∈ g.successors a⟩ = node := by
  simp [drawing]

theorem nodeLines_eq (g : CallGraph α) (label : α → String) (a : α) (i : Nat) :
    g.nodeLines label a i = Drawing.nodeText i ⟨label a, a ∈ g.successors a⟩ := by
  unfold nodeLines Drawing.nodeText Drawing.opening Drawing.closing
  have literal : " [\n    " = " [" ++ "\n    " ∧ "\n    label=" = "\n    " ++ "label=" := by decide
  by_cases h : a ∈ g.successors a
  case pos => simp only [h, if_true, decide_true, literal.left, literal.right, String.append_assoc]
  case neg => simp [h, String.append_assoc]

theorem dot_eq (g : CallGraph α) (label : α → String) : g.dot label = (g.drawing label).text := by
  have nodes : g.nodes.zipIdx.map (fun e => g.nodeLines label e.1 e.2) =
      (g.drawing label).nodes.zipIdx.map fun e => Drawing.nodeText e.2 e.1 := by
    simp only [drawing, List.zipIdx_map, List.map_map, nodeLines_eq]
    rfl
  have arrows : g.properEdges.map (fun e =>
        "  " ++ toString e.1 ++ " -> " ++ toString e.2 ++ ";\n") =
      (g.drawing label).arrows.zipIdx.map fun e => Drawing.arrowText e.1 := by
    have numbered := congrArg (List.map Drawing.arrowText) (List.zipIdx_map_fst 0 g.properEdges)
    rw [List.map_map] at numbered
    refine Eq.trans (List.map_congr_left fun e _ => ?_) numbered.symm
    simp only [Drawing.arrowText, String.append_assoc]
  have isEmpty : (g.drawing label).nodes.isEmpty = g.nodes.isEmpty := by
    simp [drawing]
  unfold dot Drawing.text Text.listed
  dsimp only
  rw [nodes, arrows, isEmpty, String.append_assoc, String.append_assoc]
  rfl

def Connects (calls : List (α × α)) (i j : Nat) : Prop :=
  ∃ a b, (ofCalls calls).nodes[i]? = some a ∧ (ofCalls calls).nodes[j]? = some b ∧ (a, b) ∈ calls

theorem mem_properEdges {g : CallGraph α} {i j : Nat} : (i, j) ∈ g.properEdges ↔
    i ≠ j ∧ ∃ a b, g.nodes[i]? = some a ∧ g.nodes[j]? = some b ∧ b ∈ g.successors a := by
  simp only [properEdges, List.mem_flatMap, List.mem_filterMap, Prod.exists,
    List.mem_zipIdx_iff_getElem?]
  grind

theorem ordered_properEdges (g : CallGraph α) : g.properEdges.Pairwise Drawing.Precedes := by
  have numbered : g.nodes.zipIdx.Pairwise (·.2 < ·.2) := by
    have := List.pairwise_lt_range' (s := 0) (n := g.nodes.length)
    rw [← List.zipIdx_map_snd 0 g.nodes] at this
    exact List.pairwise_map.mp this
  refine List.pairwise_flatMap.mpr ⟨fun e _ => ?within, numbered.imp fun lt x hx y hy => ?between⟩
  case within =>
    refine List.pairwise_filterMap.mpr (numbered.imp fun lt x hx y hy => ?_)
    have ⟨_, hx⟩ := Option.ite_none_right_eq_some.mp hx
    have ⟨_, hy⟩ := Option.ite_none_right_eq_some.mp hy
    exact .inr ⟨by simp [← Option.some.inj hx, ← Option.some.inj hy],
      by simpa [← Option.some.inj hx, ← Option.some.inj hy] using lt⟩
  case between =>
    have ⟨_, _, hx⟩ := List.mem_filterMap.mp hx
    have ⟨_, _, hy⟩ := List.mem_filterMap.mp hy
    have ⟨_, hx⟩ := Option.ite_none_right_eq_some.mp hx
    have ⟨_, hy⟩ := Option.ite_none_right_eq_some.mp hy
    exact .inl (by simpa [← Option.some.inj hx, ← Option.some.inj hy] using lt)

section Connects

variable {calls : List (α × α)} {a b : α} {i j : Nat}

theorem connects_iff (hi : (ofCalls calls).nodes[i]? = some a)
    (hj : (ofCalls calls).nodes[j]? = some b) : Connects calls i j ↔ (a, b) ∈ calls := by
  simp [Connects, hi, hj]

theorem exists_connects (call : (a, b) ∈ calls) : ∃ i j, (ofCalls calls).nodes[i]? = some a ∧
    (ofCalls calls).nodes[j]? = some b ∧ Connects calls i j := by
  have ⟨ha, hb⟩ := (Orderly.ofCalls calls).closed a b (mem_successors_ofCalls.mpr call)
  have ⟨i, hi⟩ := List.mem_iff_getElem?.mp ha
  have ⟨j, hj⟩ := List.mem_iff_getElem?.mp hb
  exact ⟨i, j, hi, hj, (connects_iff hi hj).mpr call⟩

end Connects

structure Shows (d : Drawing) (calls : List (α × α)) (label : α → String) : Prop where
  labels   : d.nodes.map (·.label) = (ofCalls calls).nodes.map label
  double   : ∀ i node, d.nodes[i]? = some node → (node.isDouble ↔ Connects calls i i)
  arrows   : ∀ i j, (i, j) ∈ d.arrows ↔ i ≠ j ∧ Connects calls i j
  ordered  : d.arrows.Pairwise Drawing.Precedes
  edges    : ∀ i j, d.Draws i j ↔ Connects calls i j
  complete : ∀ a b, (a, b) ∈ calls → ∃ i j, (ofCalls calls).nodes[i]? = some a ∧
    (ofCalls calls).nodes[j]? = some b ∧ d.Draws i j

theorem shows_drawing (calls : List (α × α)) (label : α → String) :
    Shows ((ofCalls calls).drawing label) calls label := by
  have double (i : Nat) (node : Drawing.Node)
      (hn : ((ofCalls calls).drawing label).nodes[i]? = some node) :
      node.isDouble ↔ Connects calls i i := by
    obtain ⟨a, ha, rfl⟩ := getElem?_drawing.mp hn
    rw [connects_iff ha ha, decide_eq_true_iff, mem_successors_ofCalls]
  have arrows (i j : Nat) : (i, j) ∈ (ofCalls calls).properEdges ↔ i ≠ j ∧ Connects calls i j := by
    simp only [mem_properEdges, mem_successors_ofCalls]
    rfl
  have edges (i j : Nat) : ((ofCalls calls).drawing label).Draws i j ↔ Connects calls i j := by
    constructor
    case mp =>
      rintro (arrow | ⟨rfl, node, hn, isDouble⟩)
      case inl => exact ((arrows i j).mp arrow).right
      case inr => exact (double i node hn).mp isDouble
    case mpr =>
      intro connects
      by_cases eq : i = j
      case neg => exact .inl ((arrows i j).mpr ⟨eq, connects⟩)
      case pos =>
        subst eq
        have ⟨a, _, ha, _⟩ := connects
        have ⟨node, hn⟩ : ∃ node, ((ofCalls calls).drawing label).nodes[i]? = some node :=
          ⟨_, getElem?_drawing.mpr ⟨a, ha, rfl⟩⟩
        exact .inr ⟨rfl, node, hn, (double i node hn).mpr connects⟩
  refine ⟨by simp [drawing], double, arrows, ordered_properEdges _, edges, fun a b call => ?_⟩
  simpa only [edges] using exists_connects call

-- A drawing is determined by what it shows.
theorem Shows.eq {β : Type} [DecidableEq β] {d d' : Drawing} {calls : List (α × α)}
    {label : α → String} {calls' : List (β × β)} {label' : β → String} (h : Shows d calls label)
    (h' : Shows d' calls' label')
    (labels : (ofCalls calls).nodes.map label = (ofCalls calls').nodes.map label')
    (edges : ∀ i j, Connects calls i j ↔ Connects calls' i j) : d = d' := by
  have sameLabels : d.nodes.map (·.label) = d'.nodes.map (·.label) := by
    rw [h.labels, h'.labels, labels]
  have nodes : d.nodes = d'.nodes := by
    refine List.ext_getElem? fun i => ?_
    have label := congrArg (·[i]?) sameLabels
    simp only [List.getElem?_map] at label
    cases hn : d.nodes[i]? <;> cases hn' : d'.nodes[i]? <;> rw [hn, hn'] at label
    case none.some => cases label
    case some.none => cases label
    case some.some node node' =>
      have same : node.isDouble = node'.isDouble :=
        Bool.eq_iff_iff.mpr ((h.double i node hn).trans
          ((edges i i).trans (h'.double i node' hn').symm))
      exact congrArg some (Drawing.Node.mk.injEq .. ▸ ⟨Option.some.inj label, same⟩)
  have arrows : d.arrows = d'.arrows := by
    refine h.ordered.eq_of_mem_iff h'.ordered fun ⟨i, j⟩ => ?_
    rw [h.arrows, h'.arrows, edges]
  exact Drawing.mk.injEq .. ▸ ⟨nodes, arrows⟩

-- The text tells the labels of the nodes and the edges, and nothing else.
theorem dot_determines (calls : List (α × α)) (label : α → String) :
    (∃ d, Drawing.read? ((ofCalls calls).dot label) = some d ∧ Shows d calls label) ∧
    ∀ {β : Type} [DecidableEq β] (calls' : List (β × β)) (label' : β → String),
      (ofCalls calls).dot label = (ofCalls calls').dot label' ↔
        (ofCalls calls).nodes.map label = (ofCalls calls').nodes.map label' ∧
          ∀ i j, Connects calls i j ↔ Connects calls' i j := by
  have shown := shows_drawing calls label
  refine ⟨⟨_, by rw [dot_eq, Drawing.read?_text], shown⟩, fun calls' label' => ?_⟩
  have shown' := shows_drawing calls' label'
  rw [dot_eq, dot_eq]
  refine ⟨fun same => ?_, fun ⟨labels, edges⟩ => by rw [shown.eq shown' labels edges]⟩
  -- Equal texts are read as the same drawing.
  have read := Drawing.read?_text ((ofCalls calls).drawing label)
  rw [same, Drawing.read?_text] at read
  rw [Option.some.inj read] at shown'
  exact ⟨by rw [← shown.labels, shown'.labels],
    fun i j => (shown.edges i j).symm.trans (shown'.edges i j)⟩

end CallGraph
end PointsTo
