import PointsTo.Text.Printable
import PointsTo.Text.Raw

namespace PointsTo.Text

def hex (width n : Nat) : List Char :=
  let digits := Nat.toDigits 16 n
  List.replicate (width - digits.length) '0' ++ digits

namespace Quoted

def shortEscape? (c : Char) : Option Char :=
  match c.toNat with
  | 0x07 => some 'a'
  | 0x08 => some 'b'
  | 0x09 => some 't'
  | 0x0a => some 'n'
  | 0x0b => some 'v'
  | 0x0c => some 'f'
  | 0x0d => some 'r'
  | _ => none

def escape (c : Char) : List Char :=
  if c = '\x22' ∨ c = '\\' then ['\\', c]
  else if isPrintable c then [c]
  else match shortEscape? c with
    | some letter => ['\\', letter]
    | none =>
      if c.toNat < 0x20 ∨ c.toNat = 0x7f then '\\' :: 'x' :: hex 2 c.toNat
      else if c.toNat ≤ 0xffff then '\\' :: 'u' :: hex 4 c.toNat
      else '\\' :: 'U' :: hex 8 c.toNat

def encode (cs : List Char) : List Char :=
  '\x22' :: (cs.flatMap escape ++ ['\x22'])

end Quoted

def quote (s : String) : String :=
  String.ofList (Quoted.encode s.toList)

def hexValue? (c : Char) : Option Nat :=
  if c.isDigit then some (c.toNat - '0'.toNat)
  else if 'a' ≤ c ∧ c ≤ 'f' then some (c.toNat - 'a'.toNat + 10)
  else if 'A' ≤ c ∧ c ≤ 'F' then some (c.toNat - 'A'.toNat + 10)
  else none

def hexNumber? (width : Nat) (cs : List Char) : Option (Nat × List Char) := do
  let digits ← (cs.take width).mapM hexValue?
  if digits.length = width then some (digits.foldl (16 * · + ·) 0, cs.drop width) else none

namespace Quoted

def ofShortEscape? : Char → Option Char
  | 'a' => some '\x07'
  | 'b' => some '\x08'
  | 't' => some '\t'
  | 'n' => some '\n'
  | 'v' => some '\x0b'
  | 'f' => some '\x0c'
  | 'r' => some '\r'
  | '\x22' => some '\x22'
  | '\\' => some '\\'
  | _ => none

def unescape? : List Char → Option (RawText.Item × List Char)
  | 'x' :: cs => do
    let (n, cs) ← hexNumber? 2 cs
    some (if n < 0x80 then .char (Char.ofNat n) else .stray (UInt8.ofNat n), cs)
  | 'u' :: cs => do
    let (n, cs) ← hexNumber? 4 cs
    some (.char (Char.ofNat n), cs)
  | 'U' :: cs => do
    let (n, cs) ← hexNumber? 8 cs
    some (.char (Char.ofNat n), cs)
  | c :: cs => do some (.char (← ofShortEscape? c), cs)
  | [] => none

def decode? : (fuel : Nat) → List Char → Option (List RawText.Item)
  | 0, _ | _, [] => none
  | fuel + 1, c :: cs =>
    if c = '\x22' then some []
    else if c = '\\' then do
      let (item, cs) ← unescape? cs
      some (item :: (← decode? fuel cs))
    else do some (.char c :: (← decode? fuel cs))

end Quoted

def unquote? (s : String) : Option RawText :=
  match s.toList with
  | c :: cs => if c = '\x22' then RawText.mk <$> Quoted.decode? (cs.length + 1) cs else none
  | [] => none

namespace Quoted

-- A stray byte is written by its number.
def escapeItem : RawText.Item → List Char
  | .char c => escape c
  | .stray b => '\\' :: 'x' :: hex 2 b.toNat

end Quoted

def quoteRaw (t : RawText) : String :=
  String.ofList ('\x22' :: (t.items.flatMap Quoted.escapeItem ++ ['\x22']))

theorem quoteRaw_ofString (s : String) : quoteRaw (.ofString s) = quote s := by
  simp [quoteRaw, quote, Quoted.encode, RawText.ofString, RawText.ofChars, List.flatMap_map,
    Quoted.escapeItem]

end PointsTo.Text
