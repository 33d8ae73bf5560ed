import PointsTo.Text.Quoted
import PointsTo.Yaml.Cursor

namespace PointsTo.Yaml

structure Gap where
  blanks : List Char := []
  firstBreak : List Char := []
  moreBreaks : List Char := []
  isBroken : Bool := false

namespace Gap

-- A single line break counts as a blank, and of several line breaks the first is dropped.
def fold (g : Gap) : List Char :=
  if !g.isBroken then g.blanks
  else match g.firstBreak with
    | '\n' :: _ => if g.moreBreaks.isEmpty then [' '] else g.moreBreaks.reverse
    | other => other ++ g.moreBreaks.reverse

-- On a further line, a tab may not stand in front of column `indent`.
def read (indent : Nat) : (fuel : Nat) → Gap → Cursor → Option (Gap × Cursor)
  | 0, g, c => some (g, c)
  | fuel + 1, g, c =>
    if isBlank c.peek then
      if g.isBroken then
        if c.peek = '\t' && c.column < indent then none else read indent fuel g c.next
      else
        let (blanks, c) := c.takeWhile isBlank
        read indent fuel { g with blanks := g.blanks ++ blanks } c
    else if isBreak c.peek then
      let (text, c) := c.takeBreak
      let c := c.need 1
      if g.isBroken then read indent fuel { g with moreBreaks := text ++ g.moreBreaks } c
      else read indent fuel { g with blanks := [], firstBreak := text, isBroken := true } c
    else some (g, c)

end Gap

namespace Plain

def isEnd (inFlow : Bool) (c : Cursor) : Bool :=
  (c.peek = ':' && isBlankOrEnd (c.peek 1)) ||
    (inFlow && c.peek ∈ [',', '?', '[', ']', '\x7b', '\x7d'])

def word (inFlow : Bool) : (fuel : Nat) → List Char → Cursor → List Char × Cursor
  | 0, text, c => (text.reverse, c)
  | fuel + 1, text, c =>
    if isBlankOrEnd c.peek || isEnd inFlow c then (text.reverse, c)
    else word inFlow fuel (c.peek :: text) (c.skip.need 2)

-- Further lines start at column `indent` or behind it; `text` is what was read so far, in parts,
-- the last one first. The last part of the answer tells whether a line break was read behind the
-- last word.
def read (inFlow : Bool) (indent : Nat) :
    (fuel : Nat) → (text : List (List Char)) → Gap → Cursor →
      Option (List (List Char) × Cursor × Bool)
  | 0, text, g, c => some (text, c, g.isBroken)
  | fuel + 1, text, g, c =>
    let c := c.need 4
    if c.isAtDocumentMark || c.peek = '#' then some (text, c, g.isBroken)
    else
      let (w, c) := word inFlow (c.steps) [] c
      let text := if w.isEmpty then text else w :: g.fold :: text
      let g := if w.isEmpty then g else {}
      if !(isBlank c.peek || isBreak c.peek) then some (text, c, g.isBroken)
      else do
        let (g, c) ← g.read indent (c.steps) c
        if !inFlow && c.column < indent then some (text, c, g.isBroken)
        else read inFlow indent fuel text g c

end Plain

namespace Quotes

def code (digits : Nat) (c : Cursor) : Option (Char × Cursor) := do
  let c := c.need digits
  let values ← (List.range digits).mapM fun i => Text.hexValue? (c.peek i)
  let n := values.foldl (fun n d => 16 * n + d) 0
  if (0xd800 ≤ n && n ≤ 0xdfff) || 0x10ffff < n then none
  else some (Char.ofNat n, c.skip digits)

def escape (c : Cursor) : Option (Char × Cursor) :=
  let single (n : Nat) : Option (Char × Cursor) := some (Char.ofNat n, c.skip)
  match c.peek with
  | '0' => single 0x00
  | 'a' => single 0x07
  | 'b' => single 0x08
  | 't' | '\t' => single 0x09
  | 'n' => single 0x0a
  | 'v' => single 0x0b
  | 'f' => single 0x0c
  | 'r' => single 0x0d
  | 'e' => single 0x1b
  | ' ' => single 0x20
  | '\x22' => single 0x22
  | '\x27' => single 0x27
  | '\\' => single 0x5c
  | 'N' => single 0x85
  | '_' => single 0xa0
  | 'L' => single 0x2028
  | 'P' => single 0x2029
  | 'x' => code 2 c.skip
  | 'u' => code 4 c.skip
  | 'U' => code 8 c.skip
  | _ => none

-- The last part of the answer tells whether an escaped line break has ended the word.
def word (quote : Char) : (fuel : Nat) → List Char → Cursor → Option (List Char × Cursor × Bool)
  | 0, _, _ => none
  | fuel + 1, text, c =>
    if isBlankOrEnd c.peek then some (text.reverse, c, false)
    else if quote = '\x27' then
      if c.peek = quote then
        if c.peek 1 = quote then word quote fuel (quote :: text) ((c.skip 2).need 2)
        else some (text.reverse, c, false)
      else word quote fuel (c.peek :: text) (c.skip.need 2)
    else if c.peek = quote then some (text.reverse, c, false)
    else if c.peek = '\\' then
      if isBreak (c.peek 1) then some (text.reverse, (c.need 3).skip.skipBreak, true)
      else do
        let (e, c) ← escape c.skip
        word quote fuel (e :: text) (c.need 2)
    else word quote fuel (c.peek :: text) (c.skip.need 2)

def read (quote : Char) :
    (fuel : Nat) → (text : List (List Char)) → Cursor → Option (List (List Char) × Cursor)
  | 0, _, _ => none
  | fuel + 1, text, c =>
    let c := c.need 4
    if c.isAtDocumentMark || c.peek = eof then none
    else do
      let (w, c, isBroken) ← word quote (c.steps) [] c
      let c := c.need 1
      if c.peek = quote then some (w :: text, c.skip)
      else
        let (g, c) ← Gap.read 0 (c.steps) { isBroken } c
        read quote fuel (g.fold :: w :: text) c

end Quotes

namespace Block

inductive Chomping where
  | strip | clip | keep
deriving DecidableEq

-- How line breaks at the end are treated, and how far the text is indented, in any order.
def header (c : Cursor) : Option (Chomping × Option Nat × Cursor) :=
  let chomping (c : Cursor) : Option (Chomping × Cursor) :=
    if c.peek = '+' then some (.keep, c.next)
    else if c.peek = '-' then some (.strip, c.next)
    else none
  -- An indentation of zero is refused.
  let indentation (c : Cursor) : Option (Option Nat × Cursor) :=
    if c.peek = '0' then none
    else if c.peek.isDigit then some (some (c.peek.toNat - '0'.toNat), c.next)
    else some (none, c)
  match chomping c with
  | some (ch, c) => do
    let (n, c) ← indentation c
    some (ch, n, c)
  | none => do
    let (n, c) ← indentation c
    match n, chomping c with
    | some n, some (ch, c) => some (ch, some n, c)
    | n, _ => some (.clip, n, c)

-- `indent` is zero while it is not yet known; the answer holds the line breaks, the last one first,
-- the deepest column seen, and the place reached.
def emptyLines (indent : Nat) :
    (fuel : Nat) → (breaks : List Char) → (deepest : Nat) → Cursor →
      Option (List Char × Nat × Cursor)
  | 0, breaks, deepest, c => some (breaks, deepest, c)
  | fuel + 1, breaks, deepest, c =>
    let room := if indent = 0 then c.rest else c.rest.take (indent - c.column)
    let (_, c) := Cursor.takeFrom (· = ' ') room (c.need 1)
    let deepest := max deepest c.column
    if (indent = 0 || c.column < indent) && c.peek = '\t' then none
    else if isBreak c.peek then
      let (text, c) := c.takeBreak
      emptyLines indent fuel (text ++ breaks) deepest c
    else some (breaks, deepest, c)

def lines (isLiteral : Bool) (indent : Nat) :
    (fuel : Nat) → (text : List (List Char)) → (lastBreak breaks : List Char) →
      (afterBlank : Bool) → Cursor → Option (List (List Char) × List Char × List Char × Cursor)
  | 0, text, lastBreak, breaks, _, c => some (text, lastBreak, breaks, c)
  | fuel + 1, text, lastBreak, breaks, afterBlank, c =>
    if c.column ≠ indent || c.peek = eof then some (text, lastBreak, breaks, c)
    else do
      let startsBlank := isBlank c.peek
      let folds := !isLiteral && !afterBlank && !startsBlank && lastBreak.head? = some '\n'
      let joint := if folds then (if breaks.isEmpty then [' '] else []) else lastBreak
      let (line, c) := c.takeWhile (!isBreakOrEnd ·)
      let (lastBreak, c) := (c.need 2).takeBreak
      let text := line :: breaks.reverse :: joint :: text
      let (breaks, _, c) ← emptyLines indent (c.steps) [] 0 c
      lines isLiteral indent fuel text lastBreak breaks startsBlank c

def read (isLiteral : Bool) (parent : Int) (c : Cursor) : Option (List Char × Cursor) := do
  let (chomping, given, c) ← header (c.need 1)
  let c := c.skipWhile isBlank
  let c := if c.peek = '#' then c.skipToBreak else c
  if !isBreakOrEnd c.peek then none
  else
    let c := c.skipBreak
    let known := match given with
      | some n => parent.toNat + n
      | none => 0
    let (breaks, deepest, c) ← emptyLines known (c.steps) [] 0 c
    let indent := if known = 0 then max (max deepest (parent + 1).toNat) 1 else known
    let (text, lastBreak, breaks, c) ←
      lines isLiteral indent (c.steps) [] [] breaks false c
    let text := if chomping = .strip then text else lastBreak :: text
    let text := if chomping = .keep then breaks.reverse :: text else text
    some (text.reverse.flatten, c)

end Block
end PointsTo.Yaml
