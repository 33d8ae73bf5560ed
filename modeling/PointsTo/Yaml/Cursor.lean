namespace PointsTo.Yaml

def eof : Char := '\x00'

def byteOrderMark : Char := '\ufeff'

def isBlank (c : Char) : Bool :=
  c = ' ' || c = '\t'

def isBreak (c : Char) : Bool :=
  c = '\r' || c = '\n' || c = '\x85' || c = '\u2028' || c = '\u2029'

def isBreakOrEnd (c : Char) : Bool :=
  isBreak c || c = eof

def isBlankOrEnd (c : Char) : Bool :=
  isBlank c || isBreakOrEnd c

def isWord (c : Char) : Bool :=
  c.isAlphanum || c = '_' || c = '-'

def isAllowed (c : Char) : Bool :=
  let n := c.toNat
  n = 0x09 || n = 0x0a || n = 0x0d || (0x20 ≤ n && n ≤ 0x7e) || n = 0x85 ||
    (0xa0 ≤ n && n ≤ 0xfffd) || 0x10000 ≤ n

-- A text is taken in piece by piece, and a piece is checked when it is taken in: what stands behind
-- the end of a document is of no interest as long as nobody looks that far.
structure Piece where
  size : Nat
  isClean : Bool
deriving DecidableEq

namespace Piece

def bytes : Nat := 512

-- `free` is how many bytes are left of the current piece, which has `size` characters so far.
def split : (free size : Nat) → (isClean : Bool) → List Char → List Piece
  | _, 0, _, [] => []
  | _, size + 1, isClean, [] => [⟨size + 1, isClean⟩]
  | free, size, isClean, c :: cs =>
    if c.utf8Size ≤ free then split (free - c.utf8Size) (size + 1) (isClean && isAllowed c) cs
    else ⟨size, isClean⟩ :: split (bytes - c.utf8Size) 1 (isAllowed c) cs

end Piece

structure Window where
  first : Char := eof
  ahead : Nat := 0
  pieces : List Piece := []
  isSpoiled : Bool := false
deriving DecidableEq

namespace Window

-- The end of the text is taken in as one character.
def pull (n : Nat) : (pieces : List Piece) → Window → Window
  | [], w => { w with ahead := w.ahead + 1, pieces := [] }
  | p :: rest, w =>
    if !p.isClean then { w with pieces := p :: rest, isSpoiled := true }
    else
      let w := { w with ahead := w.ahead + p.size, pieces := rest }
      if n ≤ w.ahead then w else pull n rest w

end Window

-- Lines and columns count from zero.
structure Cursor where
  rest : List Char
  index : Nat := 0
  line : Nat := 0
  column : Nat := 0
  size : Nat := 0
  window : Window := {}

namespace Cursor

-- More than enough steps to read what follows.
def steps (c : Cursor) : Nat :=
  c.size + 4

def peek (c : Cursor) (n : Nat := 0) : Char :=
  c.rest.getD n eof

def need (c : Cursor) (n : Nat) : Cursor :=
  if n ≤ c.window.ahead then c
  else { c with window := { c.window with first := c.peek }.pull n c.window.pieces }

def skip (c : Cursor) (n : Nat := 1) : Cursor :=
  { c with
    rest := c.rest.drop n
    index := c.index + n
    column := c.column + n
    window := { c.window with ahead := c.window.ahead - n } }

def next (c : Cursor) : Cursor :=
  c.skip.need 1

def takeFrom (test : Char → Bool) : List Char → Cursor → List Char × Cursor
  | [], c => ([], c)
  | ch :: chars, c =>
    if test ch then
      let (taken, c) := takeFrom test chars c.next
      (ch :: taken, c)
    else ([], c)

def takeWhile (c : Cursor) (test : Char → Bool) : List Char × Cursor :=
  takeFrom test c.rest (c.need 1)

def skipWhile (c : Cursor) (test : Char → Bool) : Cursor :=
  (c.takeWhile test).2

def skipToBreak (c : Cursor) : Cursor :=
  c.skipWhile (!isBreakOrEnd ·)

def toNextLine (c : Cursor) (n : Nat) : Cursor :=
  { c.skip n with line := c.line + 1, column := 0 }

-- Most breaks are written as a line feed; the separators of lines and of paragraphs keep their own
-- form.
def takeBreak (c : Cursor) : List Char × Cursor :=
  if !isBreak c.peek then ([], c)
  else
    let c := c.need 2
    if c.peek = '\r' && c.peek 1 = '\n' then (['\n'], c.toNextLine 2)
    else if c.peek = '\u2028' || c.peek = '\u2029' then ([c.peek], c.toNextLine 1)
    else (['\n'], c.toNextLine 1)

def skipBreak (c : Cursor) : Cursor :=
  c.takeBreak.2

def isAtMark (c : Cursor) (mark : Char) : Bool :=
  c.column = 0 && c.peek = mark && c.peek 1 = mark && c.peek 2 = mark && isBlankOrEnd (c.peek 3)

def isAtDocumentMark (c : Cursor) : Bool :=
  c.isAtMark '-' || c.isAtMark '.'

-- A mark of the byte order in front is passed over, and an empty text counts as an empty line. A
-- text of less than three bytes is taken in together with its end.
def ofText (text : String) : Cursor :=
  let chars := if text.isEmpty then ['\n'] else text.toList
  let (rest, free) := match chars with
    | c :: cs =>
      if c = byteOrderMark then (cs, Piece.bytes - c.utf8Size) else (chars, Piece.bytes)
    | [] => ([], Piece.bytes)
  let pieces := Piece.split free 0 true rest
  let isShort := text.utf8ByteSize < 3
  let pieces := if isShort then pieces.map fun p => { p with size := p.size + 1 } else pieces
  { rest, size := rest.length, window := { pieces } }

end Cursor
end PointsTo.Yaml
