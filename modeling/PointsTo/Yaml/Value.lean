import PointsTo.Rounding
import PointsTo.Text.Raw

namespace PointsTo.Yaml

inductive Double where
  | finite (q : Rat)
  | infinite (isNegative : Bool)
  | nan
deriving DecidableEq

inductive Value where
  | null
  | bool (b : Bool)
  | int (n : Int)
  | double (d : Double)
  | timestamp (text : String)
  | str (t : RawText)
deriving DecidableEq

namespace Value

def tag : Value → String
  | null => "!!null"
  | bool _ => "!!bool"
  | int _ => "!!int"
  | double _ => "!!float"
  | timestamp _ => "!!timestamp"
  | str _ => "!!str"

def digit? (c : Char) : Option Nat :=
  if c.isDigit then some (c.toNat - '0'.toNat)
  else if 'a' ≤ c ∧ c ≤ 'z' then some (c.toNat - 'a'.toNat + 10)
  else if 'A' ≤ c ∧ c ≤ 'Z' then some (c.toNat - 'A'.toNat + 10)
  else none

def natural? (base : Nat) (digits : List Char) : Option Nat :=
  if digits.isEmpty then none
  else digits.foldlM (fun n c => (digit? c).bind fun d =>
    if d < base then some (base * n + d) else none) 0

-- A leading zero marks the base eight.
def markedNatural? : List Char → Option Nat
  | '0' :: 'x' :: ds | '0' :: 'X' :: ds => natural? 16 ds
  | '0' :: 'b' :: ds | '0' :: 'B' :: ds => natural? 2 ds
  | '0' :: 'o' :: ds | '0' :: 'O' :: ds => natural? 8 ds
  | '0' :: d :: ds => natural? 8 (d :: ds)
  | ds => natural? 10 ds

def sign : List Char → Bool × List Char
  | '-' :: cs => (true, cs)
  | '+' :: cs => (false, cs)
  | cs => (false, cs)

-- 64 bits; without a sign, an integer may use all of them.
def signed? (natural? : List Char → Option Nat) (cs : List Char) : Option Int := do
  let (isNegative, digits) := sign cs
  let n ← natural? digits
  if isNegative then
    if n ≤ twoPow 63 then some (-n) else none
  else if n < twoPow (if digits.length = cs.length then 64 else 63) then some n
  else none

-- The sign stands in front, or behind the mark of the bases two and eight.
def int? (cs : List Char) : Option Int :=
  signed? markedNatural? cs <|> match cs with
    | '0' :: 'b' :: ds => signed? (natural? 2) ds
    | '0' :: 'o' :: ds => signed? (natural? 8) ds
    | _ => none

structure Decimal where
  isNegative : Bool
  digits : List Char
  exponent : Int

namespace Decimal

def ofChars? (cs : List Char) : Option Decimal := do
  let (isNegative, cs) := sign cs
  let whole := cs.takeWhile Char.isDigit
  let cs := cs.dropWhile Char.isDigit
  let (part, cs) := match cs with
    | '.' :: rest => (rest.takeWhile Char.isDigit, rest.dropWhile Char.isDigit)
    | rest => ([], rest)
  if whole.isEmpty && part.isEmpty then none
  else
    let exponent ← match cs with
      | [] => some 0
      | e :: rest =>
        if e = 'e' || e = 'E' then
          let (isNegative, ds) := sign rest
          (natural? 10 ds).map fun n => if isNegative then -(n : Int) else n
        else none
    some { isNegative, digits := whole ++ part, exponent := exponent - part.length }

def toDouble? (d : Decimal) : Option Double :=
  let digits := d.digits.dropWhile (· = '0')
  let n := (natural? 10 digits).getD 0
  let size := (digits.length : Int) + d.exponent
  if n = 0 || size < -400 then some (.finite (mkRat 0 1))
  else if 400 < size then none
  else
    let x := if 0 ≤ d.exponent then Binary.ofQuotient 53 (n * Nat.pow 10 d.exponent.toNat) 1
      else Binary.ofQuotient 53 n (Nat.pow 10 (-d.exponent).toNat)
    let num := x.mantissa * twoPow x.exponent.toNat
    let den := twoPow (-x.exponent).toNat
    if twoPow 1024 * den ≤ num then none
    else some (.finite (mkRat (if d.isNegative then -num else num) den))

end Decimal

namespace Timestamp

def number? : List Char → Option (Nat × List Char)
  | a :: b :: rest =>
    if !a.isDigit then none
    else if b.isDigit then some ((digit? a).getD 0 * 10 + (digit? b).getD 0, rest)
    else some ((digit? a).getD 0, b :: rest)
  | [a] => if a.isDigit then some ((digit? a).getD 0, []) else none
  | [] => none

def expect? (c : Char) : List Char → Option (List Char)
  | a :: rest => if a = c then some rest else none
  | [] => none

def isLeapYear (year : Nat) : Bool :=
  year % 4 = 0 && (year % 100 ≠ 0 || year % 400 = 0)

def daysIn (month year : Nat) : Nat :=
  if month = 2 then (if isLeapYear year then 29 else 28)
  else if month ∈ [4, 6, 9, 11] then 30 else 31

def date? (cs : List Char) : Option (List Char) := do
  let year ← natural? 10 (cs.take 4)
  let cs ← expect? '-' (cs.drop 4)
  let (month, cs) ← number? cs
  let cs ← expect? '-' cs
  let (day, cs) ← number? cs
  if 1 ≤ month ∧ month ≤ 12 ∧ 1 ≤ day ∧ day ≤ daysIn month year then some cs else none

def time? (cs : List Char) : Option (List Char) := do
  let (hour, cs) ← number? cs
  let cs ← expect? ':' cs
  let (minute, cs) ← number? cs
  let cs ← expect? ':' cs
  let (second, cs) ← number? cs
  if 24 ≤ hour || 60 ≤ minute || 60 ≤ second then none
  else match cs with
    | p :: d :: rest =>
      if (p = '.' || p = ',') && d.isDigit then some (rest.dropWhile Char.isDigit)
      else some (p :: d :: rest)
    | cs => some cs

def isZone : List Char → Bool
  | ['Z'] => true
  | [s, a, b, ':', c, d] =>
    (s = '+' || s = '-') && [a, b, c, d].all Char.isDigit &&
      ((natural? 10 [a, b]).getD 99 ≤ 24) && ((natural? 10 [c, d]).getD 99 ≤ 60)
  | _ => false

def isTimestamp (cs : List Char) : Bool :=
  (cs.takeWhile Char.isDigit).length = 4 && match date? cs with
    | none => false
    | some [] => true
    | some (' ' :: rest) => time? (rest.dropWhile (· = ' ')) = some []
    | some (c :: rest) => (c = 'T' || c = 't') && ((time? rest).map isZone).getD false

end Timestamp

def ofWord? (s : String) : Option Value :=
  if s ∈ ["true", "True", "TRUE"] then some (bool true)
  else if s ∈ ["false", "False", "FALSE"] then some (bool false)
  else if s ∈ ["", "~", "null", "Null", "NULL"] then some null
  else if s ∈ [".nan", ".NaN", ".NAN"] then some (double .nan)
  else if s ∈ [".inf", ".Inf", ".INF", "+.inf", "+.Inf", "+.INF"] then
    some (double (.infinite false))
  else if s ∈ ["-.inf", "-.Inf", "-.INF"] then some (double (.infinite true))
  else none

-- A date, unless a tag asks for something else, an integer or a fraction. Underscores in numbers
-- have no meaning.
def ofNumber? (s : String) (allowsDate : Bool) : Option Value :=
  if allowsDate && Timestamp.isTimestamp s.toList then some (timestamp s)
  else
    let cs := s.toList.filter (· ≠ '_')
    match int? cs with
    | some n => some (int n)
    | none => ((Decimal.ofChars? cs).bind Decimal.toDouble?).map double

-- Every underscore stands between two digits; `before` is the character in front.
def separatesDigits : (before : Char) → List Char → Bool
  | _, [] => true
  | before, '_' :: rest =>
    before.isDigit && (rest.headD ' ').isDigit && separatesDigits '_' rest
  | _, c :: rest => separatesDigits c rest

def ofFraction? (s : String) : Option Value :=
  if separatesDigits ' ' s.toList then
    ((Decimal.ofChars? (s.toList.filter (· ≠ '_'))).bind Decimal.toDouble?).map double
  else none

def ofPlain (s : String) (allowsDate : Bool) : Value :=
  match ofWord? s with
  | some v => v
  | none =>
    let found := match s.toList with
      | '.' :: _ => ofFraction? s
      | c :: _ =>
        if c.isDigit || c = '+' || c = '-' then ofNumber? s allowsDate else none
      | [] => none
    found.getD (str s)

def sextet? (c : Char) : Option Nat :=
  if 'A' ≤ c ∧ c ≤ 'Z' then some (c.toNat - 'A'.toNat)
  else if 'a' ≤ c ∧ c ≤ 'z' then some (c.toNat - 'a'.toNat + 26)
  else if c.isDigit then some (c.toNat - '0'.toNat + 52)
  else if c = '+' then some 62
  else if c = '/' then some 63
  else none

def base64? : List Char → Option (List UInt8)
  | [] => some []
  | [a, b, '=', '='] => do
    let n := 64 * (← sextet? a) + (← sextet? b)
    some [UInt8.ofNat (n / 16)]
  | [a, b, c, '='] => do
    let n := 4096 * (← sextet? a) + 64 * (← sextet? b) + (← sextet? c)
    some [UInt8.ofNat (n / 1024), UInt8.ofNat (n / 4)]
  | a :: b :: c :: d :: rest => do
    let n := 262144 * (← sextet? a) + 4096 * (← sextet? b) + 64 * (← sextet? c) + (← sextet? d)
    some (UInt8.ofNat (n / 65536) :: UInt8.ofNat (n / 256) :: UInt8.ofNat n :: (← base64? rest))
  | _ => none

def binary? (text : String) : Option RawText :=
  .ofBytes <$> base64? (text.toList.filter fun c => c ≠ '\n' && c ≠ '\r')

def kindTags : List String :=
  ["!!bool", "!!int", "!!float", "!!null", "!!timestamp"]

def ofKind? (tag text : String) : Option Value :=
  match ofPlain text (tag = "!!timestamp") with
  | int n =>
    if tag = "!!int" then some (int n)
    else if tag = "!!float" && n < twoPow 63 then
      (Decimal.toDouble? ⟨n < 0, Nat.toDigits 10 n.natAbs, 0⟩).map double
    else none
  | v => if tag = v.tag then some v else none

-- A text that does not go with its tag has no value; with a tag that has no meaning here it is a
-- string.
def resolve? (tag : RawText) (text : String) : Option Value :=
  match tag.text? with
  | some "" => some (ofPlain text true)
  | some "!!binary" => (binary? text).map str
  | some tag => if tag ∈ kindTags then ofKind? tag text else some (str text)
  | none => some (str text)

end Value
end PointsTo.Yaml
