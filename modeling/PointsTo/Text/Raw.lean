namespace PointsTo

-- A raw text need not be well-formed: between its characters there may be bytes that are part of no
-- character in UTF-8.
inductive RawText.Item where
  | char (c : Char)
  | stray (b : UInt8)
deriving DecidableEq

structure RawText where
  items : List RawText.Item
deriving DecidableEq

namespace RawText

def width? (b : UInt8) : Option Nat :=
  if b < 0x80 then some 1
  else if b < 0xc0 then none
  else if b < 0xe0 then some 2
  else if b < 0xf0 then some 3
  else if b < 0xf8 then some 4
  else none

def isContinuation (b : UInt8) : Bool :=
  0x80 ≤ b && b < 0xc0

def leastCode : (width : Nat) → Nat
  | 2 => 0x80
  | 3 => 0x800
  | 4 => 0x10000
  | _ => 0

def leadBits (width : Nat) (b : UInt8) : Nat :=
  match width with
  | 2 => b.toNat % 0x20
  | 3 => b.toNat % 0x10
  | 4 => b.toNat % 0x08
  | _ => b.toNat

-- A character is written in as few bytes as possible.
def character? : List UInt8 → Option (Char × List UInt8)
  | [] => none
  | b :: bytes => do
    let width ← width? b
    let more := bytes.take (width - 1)
    let code := more.foldl (fun n b => 64 * n + b.toNat % 64) (leadBits width b)
    if more.length = width - 1 ∧ more.all isContinuation ∧ leastCode width ≤ code ∧
        code.isValidChar then
      some (Char.ofNat code, bytes.drop (width - 1))
    else none

def itemsOf : (fuel : Nat) → List UInt8 → List Item
  | 0, _ | _, [] => []
  | fuel + 1, b :: bytes => match character? (b :: bytes) with
    | some (c, rest) => .char c :: itemsOf fuel rest
    | none => .stray b :: itemsOf fuel bytes

def ofBytes (bytes : List UInt8) : RawText :=
  ⟨itemsOf bytes.length bytes⟩

def ofChars (cs : List Char) : RawText :=
  ⟨cs.map .char⟩

def ofString (s : String) : RawText :=
  ofChars s.toList

instance : Coe String RawText := ⟨ofString⟩

instance : Append RawText := ⟨fun a b => ⟨a.items ++ b.items⟩⟩

def join (l : List RawText) : RawText :=
  ⟨l.flatMap items⟩

def toString (t : RawText) : String :=
  String.ofList (t.items.map fun
    | .char c => c
    | .stray _ => '\ufffd')

def text? (t : RawText) : Option String :=
  String.ofList <$> t.items.mapM fun
    | .char c => some c
    | .stray _ => none

def byteSize (t : RawText) : Nat :=
  t.items.foldl (fun n item => n + match item with
    | .char c => c.utf8Size
    | .stray _ => 1) 0

def isEmpty (t : RawText) : Bool :=
  t.items.isEmpty

def behind? (start : String) (t : RawText) : Option RawText :=
  let items := (ofString start).items
  if items.isPrefixOf t.items then some ⟨t.items.drop items.length⟩ else none

-- The beginning of a character that is cut through remains, as stray bytes.
def cut : (n : Nat) → List Char → RawText
  | _, [] => ⟨[]⟩
  | n, c :: cs =>
    if c.utf8Size ≤ n then ofChars [c] ++ cut (n - c.utf8Size) cs
    else ⟨((String.singleton c).toUTF8.toList.take n).map .stray⟩

theorem toString_ofString (s : String) : (ofString s).toString = s := by
  simp [ofString, ofChars, toString, Function.comp_def]

theorem text?_ofString (s : String) : (ofString s).text? = some s := by
  have (cs : List Char) : (cs.map Item.char).mapM
      (fun | .char c => some c | .stray _ => none) = some cs := by
    induction cs with
    | nil => rfl
    | cons c cs ih => simp [List.mapM_cons, ih]
  simp [text?, ofString, ofChars, this]

end RawText
end PointsTo
