namespace PointsTo

inductive JsonValue where
  | null
  | bool (b : Bool)
  | int (n : Int)
  | str (s : String)
  | arr (items : List JsonValue)
  | obj (fields : List (String × JsonValue))
deriving Inhabited

namespace JsonValue

def get (j : JsonValue) (name : String) : JsonValue :=
  match j with
  | obj fields => (fields.lookup name).getD null
  | _ => null

def item (j : JsonValue) (i : Nat) : JsonValue :=
  match j with
  | arr items => items.getD i null
  | _ => null

def isNull : JsonValue → Bool
  | null => true
  | _ => false

def str? : JsonValue → Option String
  | str s => some s
  | _ => none

def int? : JsonValue → Option Int
  | int n => some n
  | _ => none

def nat? : JsonValue → Option Nat
  | int n => if 0 ≤ n then some n.toNat else none
  | _ => none

def bool? : JsonValue → Option Bool
  | bool b => some b
  | null => some false
  | _ => none

def list? : JsonValue → Option (List JsonValue)
  | arr items => some items
  | null => some []
  | _ => none

def optional? {α : Type} (read : JsonValue → Option α) : JsonValue → Option (Option α)
  | null => some none
  | j => (read j).map some

def skipBlanks (cs : List Char) : List Char :=
  cs.dropWhile fun c => c = ' ' || c = '\t' || c = '\n' || c = '\r'

def hexDigit? (c : Char) : Option Nat :=
  if c.isDigit then some (c.toNat - '0'.toNat)
  else if 'a' ≤ c ∧ c ≤ 'f' then some (c.toNat - 'a'.toNat + 10)
  else if 'A' ≤ c ∧ c ≤ 'F' then some (c.toNat - 'A'.toNat + 10)
  else none

def unit? : List Char → Option (Nat × List Char)
  | a :: b :: c :: d :: rest => do
    let n := 4096 * (← hexDigit? a) + 256 * (← hexDigit? b) + 16 * (← hexDigit? c) + (← hexDigit? d)
    some (n, rest)
  | _ => none

-- Characters beyond the first plane are written as a pair of surrogates.
def escape? : List Char → Option (Char × List Char)
  | 'n' :: rest => some ('\n', rest)
  | 't' :: rest => some ('\t', rest)
  | 'r' :: rest => some ('\r', rest)
  | 'b' :: rest => some ('\x08', rest)
  | 'f' :: rest => some ('\x0c', rest)
  | 'u' :: rest => do
    let (n, rest) ← unit? rest
    if 0xd800 ≤ n ∧ n < 0xdc00 then
      match rest with
      | '\\' :: 'u' :: rest =>
        let (m, rest) ← unit? rest
        if 0xdc00 ≤ m ∧ m < 0xe000 then
          some (Char.ofNat (0x10000 + (n - 0xd800) * 0x400 + (m - 0xdc00)), rest)
        else none
      | _ => none
    else some (Char.ofNat n, rest)
  | c :: rest => if c = '\x22' ∨ c = '\\' ∨ c = '/' then some (c, rest) else none
  | [] => none

def text? : (fuel : Nat) → List Char → List Char → Option (String × List Char)
  | 0, _, _ => none
  | _ + 1, _, [] => none
  | fuel + 1, text, c :: rest =>
    if c = '\x22' then some (String.ofList text.reverse, rest)
    else if c = '\\' then do
      let (e, rest) ← escape? rest
      text? fuel (e :: text) rest
    else text? fuel (c :: text) rest

def number? (cs : List Char) : Option (Int × List Char) :=
  let (isNegative, cs) := match cs with
    | '-' :: rest => (true, rest)
    | cs => (false, cs)
  let digits := cs.takeWhile Char.isDigit
  if digits.isEmpty then none
  else
    let n := digits.foldl (fun n d => 10 * n + (d.toNat - '0'.toNat)) 0
    some (if isNegative then -(n : Int) else n, cs.dropWhile Char.isDigit)

-- A call of the reader reads a value, or the rest of an array or of an object.
inductive Goal where
  | value
  | items (isFirst : Bool) (read : List JsonValue)
  | fields (isFirst : Bool) (read : List (String × JsonValue))

def read : (fuel : Nat) → Goal → List Char → Option (JsonValue × List Char)
  | 0, _, _ => none
  | fuel + 1, .value, cs =>
    match skipBlanks cs with
    | 'n' :: 'u' :: 'l' :: 'l' :: rest => some (null, rest)
    | 't' :: 'r' :: 'u' :: 'e' :: rest => some (bool true, rest)
    | 'f' :: 'a' :: 'l' :: 's' :: 'e' :: rest => some (bool false, rest)
    | '[' :: rest => read fuel (.items true []) rest
    | '\x7b' :: rest => read fuel (.fields true []) rest
    | '\x22' :: rest => (text? (rest.length + 1) [] rest).map fun (s, rest) => (str s, rest)
    | cs => (number? cs).map fun (n, rest) => (int n, rest)
  | fuel + 1, .items isFirst items, cs =>
    match skipBlanks cs, isFirst with
    | ']' :: rest, _ => some (arr items.reverse, rest)
    | ',' :: rest, false => do
      let (j, rest) ← read fuel .value rest
      read fuel (.items false (j :: items)) rest
    | _, false => none
    | cs, true => do
      let (j, rest) ← read fuel .value cs
      read fuel (.items false (j :: items)) rest
  | fuel + 1, .fields isFirst fields, cs => do
    let cs := skipBlanks cs
    if cs.head? = some '\x7d' then some (obj fields.reverse, cs.tail)
    else if !isFirst && cs.head? ≠ some ',' then none
    else
      let cs := if isFirst then cs else skipBlanks cs.tail
      match cs with
      | '\x22' :: rest =>
        let (name, rest) ← text? (rest.length + 1) [] rest
        match skipBlanks rest with
        | ':' :: rest =>
          let (j, rest) ← read fuel .value rest
          read fuel (.fields false ((name, j) :: fields)) rest
        | _ => none
      | _ => none

def parse (s : String) : Option JsonValue := do
  let cs := s.toList
  let (j, rest) ← read (2 * cs.length + 2) .value cs
  if (skipBlanks rest).isEmpty then some j else none

end JsonValue
end PointsTo
