namespace PointsTo.Terminal

inductive Value where
  | str (s : String)
  | int (n : Int)
  | bool (b : Bool)
  | absent
deriving DecidableEq

namespace Value

def isStr : Value → Bool
  | str _ => true
  | _ => false

def text : Value → String
  | str s => s
  | int n => toString n
  | bool b => if b then "true" else "false"
  | absent => "<nil>"

-- There is a blank between two values of which neither is a string.
def joinText : List Value → String
  | [] => ""
  | [v] => v.text
  | v :: w :: rest =>
    v.text ++ (if v.isStr || w.isStr then "" else " ") ++ joinText (w :: rest)

end Value

inductive Style where
  | bold | faint | red | green | yellow
deriving DecidableEq

namespace Style

def code : Style → String
  | bold => "1"
  | faint => "2"
  | red => "1;31"
  | green => "1;32"
  | yellow => "1;33"

def apply (style : Style) (enabled : Bool) (values : List Value) : String :=
  let text := Value.joinText values
  if enabled then "\x1b[" ++ style.code ++ "m" ++ text ++ "\x1b[0m" else text

def status (ok : Bool) : Style :=
  if ok then green else yellow

end Style
end PointsTo.Terminal
