import PointsTo.Yaml.Token
import PointsTo.Yaml.Token.Scalar

namespace PointsTo.Yaml

-- A simple key is a node on one line that turns out to be a key when a colon follows it. Every open
-- collection has at most one candidate, which is the node that started last.
structure SimpleKey where
  isPossible : Bool := false
  isRequired : Bool := false
  isAwaited : Bool := false
  number : Nat := 0
  index : Nat := 0
  line : Nat := 0
  column : Nat := 0

structure Stream where
  cursor : Cursor
  queue : List Token := []
  taken : Nat := 0
  isStarted : Bool := false
  indent : Int := -1
  indents : List Int := []
  flowLevel : Nat := 0
  allowsKey : Bool := false
  -- The candidates of the open flow collections, innermost first, and that of the block.
  keys : List SimpleKey := [{}]

namespace Stream

variable (s : Stream)

def inFlow : Bool :=
  0 < s.flowLevel

def push (kind : Token.Kind) (line : Nat) : Stream :=
  { s with queue := s.queue ++ [⟨kind, line⟩] }

def insertAt (number : Nat) (kind : Token.Kind) (line : Nat) : Stream :=
  if number < s.taken then s.push kind line
  else
    let i := number - s.taken
    { s with queue := s.queue.take i ++ ⟨kind, line⟩ :: s.queue.drop i }

def key : SimpleKey :=
  s.keys.headD {}

def setKey (k : SimpleKey) : Stream :=
  { s with keys := k :: s.keys.tail }

-- The colon has to follow on the same line, within 1024 characters. There is no answer when a
-- required key has missed its colon.
def isValidKey (k : SimpleKey) : Option Bool :=
  if !k.isPossible then some false
  else if k.line < s.cursor.line || k.index + 1024 < s.cursor.index then
    if k.isRequired then none else some false
  else some true

def dropKey : Option Stream :=
  let k := s.key
  if k.isPossible && k.isRequired then none
  else some (s.setKey { k with isPossible := false })

def saveKey : Option Stream :=
  if !s.allowsKey then some s
  else do
    let c := s.cursor
    let s ← s.dropKey
    s.setKey
      { isPossible := true
        isRequired := !s.inFlow && s.indent = c.column
        isAwaited := true
        number := s.taken + s.queue.length
        index := c.index
        line := c.line
        column := c.column }

def maxDepth : Nat := 10000

def openBlock (column : Nat) (number : Option Nat) (kind : Token.Kind) (line : Nat) :
    Option Stream :=
  if s.inFlow || (column : Int) ≤ s.indent then some s
  else if s.indents.length = maxDepth then none
  else
    let s := { s with indents := s.indent :: s.indents, indent := column }
    match number with
    | some n => s.insertAt n kind line
    | none => s.push kind line

def closeBlocksFrom (column : Int) : (indents : List Int) → Stream → Stream
  | [], s => s
  | outer :: rest, s =>
    if s.indent ≤ column then s
    else
      closeBlocksFrom column rest
        { s.push .blockEnd s.cursor.line with indent := outer, indents := rest }

def closeBlocks (column : Int) : Stream :=
  if s.inFlow then s else closeBlocksFrom column s.indents s

def sign (n : Nat) (kind : Token.Kind) : Stream :=
  { s.push kind s.cursor.line with cursor := s.cursor.skip n }

def commentRange : Nat := 512

-- Looks from the end of a line for a comment on a line below, with nothing but blanks and line
-- breaks in between. The search ends at line breaks other than carriage returns and line feeds.
def findComment (c : Cursor) : Option Nat × Cursor :=
  if 1 < c.peek.utf8Size then (none, c.need 2)
  else
    let gap := (c.rest.drop 1).takeWhile fun ch => isBlank ch || ch = '\r' || ch = '\n'
    let n := gap.length + 1
    let seen := if isBreak (c.peek n) then n + 2 else n + 1
    let found := n < commentRange && c.peek n = '#'
    (if found then some n else none, c.need (min seen commentRange))

def skipComments : (fuel : Nat) → Cursor → Cursor
  | 0, c => c
  | fuel + 1, c =>
    match findComment c.skipToBreak with
    | (none, line) => line
    | (some n, line) => match Gap.read 0 n {} line with
      | some (_, next) => skipComments fuel next
      | none => line

-- A mark of the byte order may start a line. While one is the first character at hand, every line
-- counts as starting with one.
def skipByteOrderMark (c : Cursor) : Cursor :=
  if c.column = 0 && c.window.first = byteOrderMark then c.next else c

-- Tabs are not skipped where a key may start in a block.
def toToken : (fuel : Nat) → Stream → Stream
  | 0, s => s
  | fuel + 1, s =>
    let skipsTabs := s.inFlow || !s.allowsKey
    let c := skipByteOrderMark (s.cursor.need 1)
    let c := c.skipWhile fun ch => ch = ' ' || (skipsTabs && ch = '\t')
    let c := if c.peek = '#' then skipComments c.steps c else c
    if isBreak c.peek then
      toToken fuel { s with cursor := c.skipBreak, allowsKey := s.allowsKey || !s.inFlow }
    else { s with cursor := c }

def versionNumber (c : Cursor) : Option (Nat × Cursor) :=
  let (digits, c) := c.takeWhile Char.isDigit
  if digits.isEmpty || 2 < digits.length then none
  else some (digits.foldl (fun n d => 10 * n + (d.toNat - '0'.toNat)) 0, c)

def tagHandle (c : Cursor) : Option (List Char × Cursor) :=
  if c.peek ≠ '!' then none
  else
    let (w, c) := c.skip.takeWhile isWord
    if c.peek = '!' then some ('!' :: w ++ ['!'], c.next) else some ('!' :: w, c)

def isTagChar (c : Char) : Bool :=
  isWord c || c ∈ [';', '/', '?', ':', '@', '&', '=', '+', '$', ',', '.', '!', '~', '*', '\x27',
    '(', ')', '[', ']', '%']

def escapedByte (c : Cursor) : Option (UInt8 × Cursor) := do
  let c := c.need 3
  if c.peek ≠ '%' then none
  else
    let high ← Text.hexValue? (c.peek 1)
    let low ← Text.hexValue? (c.peek 2)
    some (UInt8.ofNat (16 * high + low), c.skip 3)

def continuationBytes : (n : Nat) → Cursor → Option (List UInt8 × Cursor)
  | 0, c => some ([], c)
  | n + 1, c => do
    let (b, c) ← escapedByte c
    if !RawText.isContinuation b then none
    else
      let (bytes, c) ← continuationBytes n c
      some (b :: bytes, c)

-- There have to be as many bytes as the first one announces, but they need not form a character.
def escapedCharacter (c : Cursor) : Option (RawText × Cursor) := do
  let (b, c) ← escapedByte c
  let width ← RawText.width? b
  let (bytes, c) ← continuationBytes (width - 1) c
  some (.ofBytes (b :: bytes), c)

def tagItems : (fuel : Nat) → (items : List RawText.Item) → Cursor →
    Option (List RawText.Item × Cursor)
  | 0, items, c => some (items, c)
  | fuel + 1, items, c =>
    if c.peek = '%' then do
      let (character, c) ← escapedCharacter c
      tagItems fuel (character.items.reverse ++ items) (c.need 1)
    else if isTagChar c.peek then tagItems fuel (.char c.peek :: items) c.next
    else some (items, c)

def tagText (c : Cursor) : Option (RawText × Cursor) := do
  let (items, c) ← tagItems c.steps [] c
  some (⟨items.reverse⟩, c)

def tagAt (c : Cursor) : Option (List Char × RawText × Cursor) :=
  if c.peek 1 = '<' then do
    let (suffix, c) ← tagText ((c.skip 2).need 1)
    if suffix.isEmpty || c.peek ≠ '>' then none else some ([], suffix, c.next)
  else do
    let (handle, c) ← tagHandle c
    let isHandle := 1 < handle.length && handle.getLast? = some '!'
    let (suffix, c) ← tagText c
    if isHandle then
      if suffix.isEmpty then none else some (handle, suffix, c)
    else
      let suffix := RawText.ofChars handle.tail ++ suffix
      some (if suffix.isEmpty then ([], "!", c) else (['!'], suffix, c))

def directive (c : Cursor) : Option (Token.Kind × Cursor) := do
  let (name, c) := c.takeWhile isWord
  if !isBlankOrEnd c.peek then none
  else
    let (kind, c) ←
      if name = "YAML".toList then do
        let (major, c) ← versionNumber (c.skipWhile isBlank)
        if c.peek ≠ '.' then none
        else
          let (minor, c) ← versionNumber c.skip
          some (Token.Kind.version major minor, c)
      else if name = "TAG".toList then do
        let (handle, c) ← tagHandle (c.skipWhile isBlank)
        if (handle.getLast? ≠ some '!') || !isBlank c.peek then none
        else
          let c := c.skipWhile isBlank
          let (expansion, c) ← tagText c
          if expansion.isEmpty || !isBlankOrEnd c.peek then none
          else some (.tagDirective (String.ofList handle) expansion, c)
      else none
    let c := c.skipWhile isBlank
    let c := if c.peek = '#' then c.skipToBreak else c
    if isBreakOrEnd c.peek then some (kind, c.skipBreak) else none

def node (read : Cursor → Option (Token.Kind × Cursor × Bool)) : Option Stream := do
  let s ← s.saveKey
  let (kind, cursor, allowsKey) ← read s.cursor
  some { s.push kind s.cursor.line with cursor, allowsKey }

def anchorOrAlias (kind : String → Token.Kind) : Option Stream :=
  s.node fun c =>
    let (name, c) := c.skip.takeWhile isWord
    let isEnded := isBlankOrEnd c.peek || c.peek ∈ ['?', ':', ',', ']', '\x7d', '%', '@', '\x60']
    if name.isEmpty || !isEnded then none else some (kind (String.ofList name), c, false)

def tag : Option Stream :=
  s.node fun c => do
    let (handle, suffix, c) ← tagAt c
    if isBlankOrEnd c.peek then some (.tag (String.ofList handle) suffix, c, false) else none

def quoted (quote : Char) : Option Stream :=
  s.node fun c => do
    let (text, c) ← Quotes.read quote c.steps [] c.skip
    some (.scalar (String.ofList text.reverse.flatten) false, c, false)

def plain : Option Stream :=
  s.node fun c => do
    let (text, c, isBroken) ←
      Plain.read s.inFlow (s.indent + 1).toNat c.steps [] {} c
    some (.scalar (String.ofList text.reverse.flatten) true, c, isBroken)

def block (isLiteral : Bool) : Option Stream := do
  let s ← s.dropKey
  let (text, cursor) ← Block.read isLiteral s.indent s.cursor.skip
  some { s.push (.scalar (String.ofList text) false) s.cursor.line with cursor, allowsKey := true }

def documentMark (kind : Token.Kind) : Option Stream := do
  let s ← (s.closeBlocks (-1)).dropKey
  some { s.sign 3 kind with allowsKey := false }

def directiveLine : Option Stream := do
  let s ← (s.closeBlocks (-1)).dropKey
  let (kind, cursor) ← directive s.cursor.skip
  some { s.push kind s.cursor.line with cursor, allowsKey := false }

def flowStart (kind : Token.Kind) : Option Stream := do
  let s ← s.saveKey
  if s.flowLevel = maxDepth then none
  else
    let candidate : SimpleKey := { number := s.taken + s.queue.length }
    some { s.sign 1 kind with
      keys := candidate :: s.keys, flowLevel := s.flowLevel + 1, allowsKey := true }

-- If no candidate has come up inside of a flow collection, the collection itself is no longer
-- awaited.
def closeKeys : List SimpleKey → List SimpleKey
  | closed :: k :: keys =>
    { k with isAwaited := k.isAwaited && k.number ≠ closed.number } :: keys
  | keys => keys.tail

def flowEnd (kind : Token.Kind) : Option Stream := do
  let s ← s.dropKey
  let keys := if s.inFlow then closeKeys s.keys else s.keys
  some { s.sign 1 kind with keys, flowLevel := s.flowLevel - 1, allowsKey := false }

def flowEntry : Option Stream := do
  let s ← s.dropKey
  some { s.sign 1 .flowEntry with allowsKey := true }

def blockEntry : Option Stream :=
  if !s.inFlow && !s.allowsKey then none
  else do
    let c := s.cursor
    let s ← (← s.openBlock c.column none .blockSequenceStart c.line).dropKey
    some { s.sign 1 .blockEntry with allowsKey := true }

def explicitKey : Option Stream :=
  if !s.inFlow && !s.allowsKey then none
  else do
    let c := s.cursor
    let s ← (← s.openBlock c.column none .blockMappingStart c.line).dropKey
    some { s.sign 1 .key with allowsKey := !s.inFlow }

-- A colon makes the candidate a key; without a candidate it belongs to an explicit key.
def colon : Option Stream := do
  let k := s.key
  if ← s.isValidKey k then
    let s := s.insertAt k.number .key k.line
    let s ← s.openBlock k.column (some k.number) .blockMappingStart k.line
    let s := s.setKey { k with isPossible := false }
    some { s.sign 1 .value with allowsKey := false }
  else if s.inFlow then some { s.sign 1 .value with allowsKey := false }
  else if !s.allowsKey then none
  else
    let c := s.cursor
    let s ← s.openBlock c.column none .blockMappingStart c.line
    some { s.sign 1 .value with allowsKey := true }

def finish : Option Stream := do
  let c := s.cursor
  let cursor := if c.column = 0 then c else { c with column := 0, line := c.line + 1 }
  let s ← ({ s with cursor }.closeBlocks (-1)).dropKey
  some { s.push .streamEnd cursor.line with allowsKey := false }

def startsPlain : Bool :=
  let c := s.cursor
  let isIndicator := c.peek ∈ ['-', '?', ':', ',', '[', ']', '\x7b', '\x7d', '#', '&', '*', '!',
    '|', '>', '\x27', '\x22', '%', '@', '\x60']
  (!isBlankOrEnd c.peek && !isIndicator) ||
    (c.peek = '-' && !isBlank (c.peek 1)) ||
    (!s.inFlow && (c.peek = '?' || c.peek = ':') && !isBlankOrEnd (c.peek 1))

def content : Option Stream :=
  let c := s.cursor
  let endsWord := isBlankOrEnd (c.peek 1)
  if c.peek = '[' then s.flowStart .flowSequenceStart
  else if c.peek = '\x7b' then s.flowStart .flowMappingStart
  else if c.peek = ']' then s.flowEnd .flowSequenceEnd
  else if c.peek = '\x7d' then s.flowEnd .flowMappingEnd
  else if c.peek = ',' then s.flowEntry
  else if c.peek = '-' && endsWord then s.blockEntry
  else if c.peek = '?' && (s.inFlow || endsWord) then s.explicitKey
  else if c.peek = ':' && (s.inFlow || endsWord) then s.colon
  else if c.peek = '*' then s.anchorOrAlias .aliasOf
  else if c.peek = '&' then s.anchorOrAlias .anchor
  else if c.peek = '!' then s.tag
  else if c.peek = '|' && !s.inFlow then s.block true
  else if c.peek = '>' && !s.inFlow then s.block false
  else if c.peek = '\x27' || c.peek = '\x22' then s.quoted c.peek
  else if s.startsPlain then s.plain
  else none

-- There is no comment behind the sign of a block entry, nor behind a scalar that has used up the
-- end of its line.
def skipLineComment : Stream :=
  let isEnded := match s.queue.getLast? with
    | some ⟨.blockEntry, _⟩ => true
    | some ⟨.scalar .., _⟩ => s.allowsKey
    | _ => false
  if isEnded then s
  else
    let n := (s.cursor.rest.takeWhile isBlank).length
    let c := s.cursor.need (min (n + 1) commentRange)
    if n < commentRange && c.peek n = '#' then
      { s with cursor := (c.skipWhile isBlank).skipToBreak }
    else { s with cursor := c }

def readToken : Option Stream :=
  if !s.isStarted then
    let s := { s with cursor := s.cursor.need 1, isStarted := true, allowsKey := true }
    some (s.push .streamStart s.cursor.line)
  else
    let s := toToken (s.cursor.steps) s
    let s := s.closeBlocks s.cursor.column
    let c := s.cursor.need 4
    let s := { s with cursor := c }
    if c.peek = eof then s.finish
    else if c.column = 0 && c.peek = '%' then s.directiveLine
    else if c.isAtMark '-' then s.documentMark .documentStart
    else if c.isAtMark '.' then s.documentMark .documentEnd
    else s.content.map skipLineComment

def readMore : Option Stream := do
  let s ← s.readToken
  if s.cursor.window.isSpoiled then none else some s

-- A token is handed out once it is certain that no key starts at it. The candidates of inner
-- collections come later than those around them.
def needsMore : Option Bool :=
  if (s.queue.drop 2).isEmpty then some true
  else
    let keys := (s.keys.dropWhile (s.taken < ·.number)).takeWhile (·.number = s.taken)
    match keys.find? fun k => k.isPossible && k.isAwaited with
    | some k => s.isValidKey k
    | none => some false

def fill : (fuel : Nat) → Stream → Option Stream
  | 0, s => some s
  | fuel + 1, s => do
    if ← s.needsMore then fill fuel (← s.readMore) else some s

def peek : Option (Token × Stream) := do
  let s ← fill (s.cursor.steps) s
  match s.queue with
  | t :: _ => some (t, s)
  | [] => none

def drop : Stream :=
  { s with queue := s.queue.tail, taken := s.taken + 1 }

def ofText (text : String) : Stream where
  cursor := .ofText text

end Stream
end PointsTo.Yaml
