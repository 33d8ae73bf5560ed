import PointsTo.Text.Quoted
import PointsTo.Yaml.Node
import PointsTo.Yaml.Value

namespace PointsTo.Yaml

inductive Issue where
  | mismatch (line : Nat) (tag : RawText) (text target : String)
  | duplicateKey (line : Nat) (key : String) (firstLine : Nat)
  | duplicateField (line : Nat) (field target : String)
deriving DecidableEq

namespace Issue

def shortened (text : String) : RawText :=
  if text.utf8ByteSize ≤ 10 then text else RawText.cut 7 text.toList ++ "..."

-- Collections have no text of their own; what is only tagged as a collection is shown as it is.
def shown (tag : RawText) (text : String) : RawText :=
  if tag = ("!!seq" : String) || tag = ("!!map" : String) then text
  else " \x60" ++ shortened text ++ "\x60"

def message : Issue → RawText
  | mismatch line tag text target =>
    ("line " ++ toString line ++ ": cannot unmarshal " : String) ++ tag ++ shown tag text ++
      (" into " ++ target : String)
  | duplicateKey line key firstLine =>
    ("line " ++ toString line ++ ": mapping key " ++ Text.quote key ++
      " already defined at line " ++ toString firstLine : String)
  | duplicateField line field target =>
    ("line " ++ toString line ++ ": field " ++ field ++ " already set in type " ++ target : String)

end Issue

inductive Collection where
  | sequence
  | textMapping
  | mapping
deriving DecidableEq

inductive Failure where
  | malformed
  -- To tell a key from others it has to be hashed, and collections have no hash.
  | unhashable (c : Collection)
deriving DecidableEq

structure Progress where
  issues : List Issue := []
  merged : Option (List Value) := none
  visits : Nat := 0
  aliasVisits : Nat := 0
deriving DecidableEq

namespace Progress

-- Of the visits, 99 in 100 may go through aliases for up to 400 000 visits, falling evenly to 10 in
-- 100 at 4 000 000.
def aliasShare (visits : Nat) : Nat × Nat :=
  (99 * 3600000 - 89 * (min visits 4000000 - 400000), 360000000)

def isExcessive (p : Progress) : Bool :=
  let (part, whole) := aliasShare p.visits
  100 < p.aliasVisits && 1000 < p.visits && part * p.visits < whole * p.aliasVisits

end Progress

-- A node that does not fit is reported and leaves the value as it was, as a null does; the others
-- are still read.
abbrev Decode := StateT Progress (Except Failure)

namespace Decode

def fail {α : Type} : Decode α :=
  throw .malformed

def report (issues : List Issue) : Decode Unit :=
  modify fun p => { p with issues := p.issues ++ issues }

structure Scope where
  anchored : List (Nat × Node)
  active : List Nat := []
  depth : Nat

def scopeOf (d : Document) : Scope where
  anchored := d.anchored
  depth := (d.size + 2) * (d.size + 2)

def visit (scope : Scope) : Decode Unit := do
  let p ← get
  let p := { p with
    visits := p.visits + 1
    aliasVisits := if scope.active.isEmpty then p.aliasVisits else p.aliasVisits + 1 }
  if p.isExcessive then fail
  set p

-- An alias must not be reached through itself.
def Scope.follow (scope : Scope) (n : Node) : Decode (Scope × Node) := do
  visit scope
  match n with
  | .aliasOf _ _ id target =>
    if id ∈ scope.active then fail
    else match scope.anchored.lookup target with
      | some n =>
        let scope := { scope with active := id :: scope.active }
        visit scope
        return (scope, n)
      | none => fail
  | n => return (scope, n)

def value (tag : RawText) (text : String) (isPlain : Bool) : Decode Value :=
  if tag.isEmpty && !isPlain then return .str text
  else match Value.resolve? tag text with
    | some v => return v
    | none => fail

def mergeSign : String := "<<"

def tagOf : Node → RawText
  | .scalar _ tag text isPlain =>
    if !tag.isEmpty then tag
    else if !isPlain then "!!str"
    else if text = mergeSign then "!!merge"
    else (Value.ofPlain text true).tag
  | .sequence _ tag _ => if tag.isEmpty then "!!seq" else tag
  | .mapping _ tag _ => if tag.isEmpty then "!!map" else tag
  | .aliasOf .. => ""

def textOf : Node → String
  | .scalar _ _ text _ => text
  | .aliasOf _ name _ _ => name
  | _ => ""

def mismatch (n : Node) (target : String) : Decode Unit :=
  report [.mismatch n.line (tagOf n) (textOf n) target]

def sameKey : Node → Node → Bool
  | .scalar _ _ a _, .scalar _ _ b _ => a = b
  | .aliasOf _ a _ _, .aliasOf _ b _ _ => a = b
  | .sequence .., .sequence .. | .mapping .., .mapping .. => true
  | _, _ => false

def duplicates : List Node → List Issue
  | [] => []
  | k :: rest =>
    (rest.filter (sameKey k)).map (fun d => .duplicateKey d.line (textOf d) k.line) ++
      duplicates rest

def hasDuplicates (pairs : List (Node × Node)) : Decode Bool := do
  let issues := duplicates (pairs.map Prod.fst)
  report issues
  return !issues.isEmpty

-- Of a mapping with duplicate keys only the duplicates are reported.
def scalar {α : Type} (target : String) (fit : (text : String) → Value → Option α)
    (scope : Scope) (n : Node) : Decode (Option α) := do
  let (_, n) ← scope.follow n
  match n with
  | .scalar _ tag text isPlain =>
    match ← value tag text isPlain with
    | .null => return none
    | v =>
      let found := fit text v
      if found.isNone then mismatch n target
      return found
  | .mapping _ _ pairs =>
    if !(← hasDuplicates pairs) then mismatch n target
    return none
  | n =>
    mismatch n target
    return none

def minInt : Int := -9223372036854775808

def maxInt : Int := 9223372036854775807

-- Fractions are cut off; what lies below all integers becomes the least of them, and so does the
-- first number above all.
def int : Scope → Node → Decode (Option Int) :=
  scalar "int" fun _ v => match v with
    | .int n => if n ≤ maxInt then some n else none
    | .double (.finite q) =>
      if (maxInt + 1) * q.den < q.num then none
      else
        let n := q.num.tdiv q.den
        if minInt ≤ n ∧ n ≤ maxInt then some n else some minInt
    | .double (.infinite true) => some minInt
    | _ => none

def bool : Scope → Node → Decode (Option Bool) :=
  scalar "bool" fun _ v => match v with
    | .bool b => some b
    | .str t => t.text?.bind fun s =>
      if s ∈ ["y", "Y", "yes", "Yes", "YES", "on", "On", "ON"] then some true
      else if s ∈ ["n", "N", "no", "No", "NO", "off", "Off", "OFF"] then some false
      else none
    | _ => none

def string : Scope → Node → Decode (Option RawText) :=
  scalar "string" fun text v => match v with
    | .str t => some t
    | _ => some text

end Decode
end PointsTo.Yaml
