import PointsTo.Rounding
import PointsTo.Text.Quoted

namespace PointsTo

inductive Literal where
  | int (n : Int)
  | str (t : RawText)
  | bool (b : Bool)
  | rat (q : Rat)
  | complex (re im : Literal)
  | unknown
deriving DecidableEq

namespace Literal

inductive Kind where
  | int | str | bool | rat | complex | unknown
deriving DecidableEq

def kind : Literal → Kind
  | .int _ => .int
  | .str _ => .str
  | .bool _ => .bool
  | .rat _ => .rat
  | .complex .. => .complex
  | .unknown => .unknown

def ofParts (re im : Literal) : Literal :=
  if re = .unknown || im = .unknown then .unknown else .complex re im

def exactLimit : Nat := twoPow 4095

-- In lowest terms, or rounded to 512 bits if numerator or denominator is too large.
def fractionText (q : Rat) : String :=
  if q.num.natAbs < exactLimit && q.den < exactLimit then
    if q.den = 1 then toString q.num else toString q.num ++ "/" ++ toString q.den
  else (if q.num < 0 then "-" else "") ++ (Binary.ofQuotient 512 q.num.natAbs q.den).text

def text : Literal → String
  | .int n => toString n
  | .str t => Text.quoteRaw t
  | .bool b => if b then "true" else "false"
  | .rat q => fractionText q
  | .complex re im => "(" ++ re.text ++ " + " ++ im.text ++ "i)"
  | .unknown => "unknown"

def fits64 (n : Int) : Bool :=
  -9223372036854775808 ≤ n && n ≤ 9223372036854775807

def int64? : Literal → Option Int
  | .int n => if fits64 n then some n else none
  | _ => none

theorem int64?_eq_some_iff {l : Literal} {n : Int} :
    l.int64? = some n ↔ l = .int n ∧ fits64 n := by
  cases l <;> grind [int64?]

-- Literals of one kind denote the same value exactly when their texts agree.
def same (a b : Literal) : Bool :=
  a.kind = b.kind && a.text = b.text

end Literal
end PointsTo
