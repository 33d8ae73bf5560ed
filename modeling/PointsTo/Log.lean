import PointsTo.Text.Quoted

namespace PointsTo.Log

inductive Level where
  | fatal | error | warning | info | debug | trace
deriving DecidableEq

namespace Level

def text : Level → String
  | fatal => "fatal"
  | error => "error"
  | warning => "warning"
  | info => "info"
  | debug => "debug"
  | trace => "trace"

def verbosity : Level → Nat
  | fatal => 1
  | error => 2
  | warning => 3
  | info => 4
  | debug => 5
  | trace => 6

def keeps (l message : Level) : Bool :=
  message.verbosity ≤ l.verbosity

end Level

structure Entry where
  level : Level
  component : Option String := none
  message : RawText
deriving DecidableEq

def isPlain (c : Char) : Bool :=
  c.isAlphanum || c ∈ ['-', '.', '_', '/', '@', '^', '+']

-- A value is quoted unless it consists of plain characters; the empty text is written as nothing.
def valueText (t : RawText) : String :=
  match t.text? with
  | some s => if s.toList.all isPlain then s else Text.quote s
  | none => Text.quoteRaw t

def Entry.text (e : Entry) : String :=
  "level=" ++ e.level.text ++ " msg=" ++ valueText e.message ++
    match e.component with
    | some c => " component=" ++ valueText c
    | none => ""

end PointsTo.Log
