import PointsTo.Yaml.Token.Stream

namespace PointsTo.Yaml

-- An alias names a node that was anchored before it. Anchored nodes are numbered and kept in a
-- table, so that a node may contain an alias of itself.
inductive Node where
  | scalar (line : Nat) (tag : RawText) (text : String) (isPlain : Bool)
  | sequence (line : Nat) (tag : RawText) (items : List Node)
  | mapping (line : Nat) (tag : RawText) (pairs : List (Node × Node))
  | aliasOf (line : Nat) (name : String) (id target : Nat)

namespace Node

def line : Node → Nat
  | scalar line .. | sequence line .. | mapping line .. | aliasOf line .. => line

end Node

structure Document where
  root : Node
  anchored : List (Nat × Node)
  size : Nat

namespace Document

structure Reader where
  stream : Stream
  anchors : List (String × Nat) := []
  anchored : List (Nat × Node) := []
  next : Nat := 0
  handles : List (String × RawText) := []

abbrev Read := StateT Reader Option

namespace Read

def peek : Read Token := do
  let r ← get
  let (t, stream) ← (r.stream.peek : Option (Token × Stream))
  set { r with stream }
  return t

def drop : Read Unit :=
  modify fun r => { r with stream := r.stream.drop }

def ensure (condition : Bool) : Read Unit :=
  if condition then pure () else failure

def fresh : Read Nat :=
  modifyGet fun r => (r.next, { r with next := r.next + 1 })

def keep (anchor : Option (String × Nat)) (n : Node) : Read Node := do
  if let some (_, id) := anchor then
    modify fun r => { r with anchored := (id, n) :: r.anchored }
  return n

-- Anchor and tag come in any order. An anchor can be referred to from here on.
structure Properties where
  anchor : Option (String × Nat) := none
  tag : Option (String × RawText) := none

def properties : Read Properties := do
  let register (name : String) : Read (String × Nat) := do
    let id ← fresh
    modify fun r => { r with anchors := (name, id) :: r.anchors }
    return (name, id)
  match (← peek).kind with
  | .anchor name =>
    drop
    let anchor ← register name
    match (← peek).kind with
    | .tag handle suffix => do drop; return { anchor, tag := (handle, suffix) }
    | _ => return { anchor }
  | .tag handle suffix =>
    drop
    match (← peek).kind with
    | .anchor name => do
      drop
      return { anchor := ← register name, tag := (handle, suffix) }
    | _ => return { tag := (handle, suffix) }
  | _ => return {}

def standardTags : String := "tag:yaml.org,2002:"

def shortTag (tag : RawText) : RawText :=
  match tag.behind? standardTags with
  | some name => "!!" ++ name
  | none => tag

-- A lone exclamation mark is no tag.
def resolveTag : Option (String × RawText) → Read RawText
  | none => return ""
  | some ("", suffix) => return if suffix = ("!" : String) then "" else shortTag suffix
  | some (handle, suffix) => do
    match (← get).handles.lookup handle with
    | some expansion => return shortTag (expansion ++ suffix)
    | none => failure

def empty (t : Token) : Node :=
  .scalar (t.line + 1) ("" : String) "" true

-- In a block mapping a sequence needs no indentation of its own.
inductive Place where
  | flow | block | blockMapping
deriving DecidableEq

inductive Goal where
  | node (place : Place)
  | blockItems (items : List Node)
  | plainItems (items : List Node)
  | blockPairs (pairs : List (Node × Node))
  | flowItems (isFirst : Bool) (items : List Node)
  | flowPairs (isFirst : Bool) (pairs : List (Node × Node))

inductive Found where
  | node (n : Node)
  | items (l : List Node)
  | pairs (l : List (Node × Node))

def Found.getNode : Found → Read Node
  | node n => pure n
  | _ => failure

def Found.getItems : Found → Read (List Node)
  | items l => pure l
  | _ => failure

def Found.getPairs : Found → Read (List (Node × Node))
  | pairs l => pure l
  | _ => failure

-- Items and pairs are collected in reverse.
def read : (fuel : Nat) → Goal → Read Found
  | 0, _ => failure
  | fuel + 1, goal => do
    -- A node, or an empty one in front of a token of `ends`. In a block, an empty node counts to
    -- the token `sign` in front of it, elsewhere to the token behind it.
    let nodeUnless (place : Place) (sign : Option Token) (ends : List Token.Kind) : Read Node := do
      let t ← peek
      if t.kind ∈ ends then return empty (sign.getD t)
      else (← read fuel (.node place)).getNode
    match goal with
    | .node place =>
      let t ← peek
      if let .aliasOf name := t.kind then
        drop
        match (← get).anchors.lookup name with
        | some target => return .node (.aliasOf (t.line + 1) name (← fresh) target)
        | none => failure
      let line := t.line + 1
      let props ← properties
      let tag ← resolveTag props.tag
      let t ← peek
      match t.kind, place with
      | .blockEntry, .blockMapping =>
        let items ← (← read fuel (.plainItems [])).getItems
        return .node (← keep props.anchor (.sequence line tag items))
      | .scalar text isPlain, _ =>
        drop
        return .node (← keep props.anchor (.scalar line tag text isPlain))
      | .flowSequenceStart, _ =>
        drop
        let items ← (← read fuel (.flowItems true [])).getItems
        return .node (← keep props.anchor (.sequence line tag items))
      | .flowMappingStart, _ =>
        drop
        let pairs ← (← read fuel (.flowPairs true [])).getPairs
        return .node (← keep props.anchor (.mapping line tag pairs))
      | .blockSequenceStart, .block | .blockSequenceStart, .blockMapping =>
        drop
        let items ← (← read fuel (.blockItems [])).getItems
        return .node (← keep props.anchor (.sequence line tag items))
      | .blockMappingStart, .block | .blockMappingStart, .blockMapping =>
        drop
        let pairs ← (← read fuel (.blockPairs [])).getPairs
        return .node (← keep props.anchor (.mapping line tag pairs))
      | _, _ =>
        ensure (props.anchor.isSome || props.tag.isSome)
        return .node (← keep props.anchor (.scalar line tag "" true))
    | .blockItems items =>
      let t ← peek
      match t.kind with
      | .blockEntry =>
        drop
        let n ← nodeUnless .block t [.blockEntry, .blockEnd]
        read fuel (.blockItems (n :: items))
      | .blockEnd => do drop; return .items items.reverse
      | _ => failure
    | .plainItems items =>
      let t ← peek
      match t.kind with
      | .blockEntry =>
        drop
        let n ← nodeUnless .block t [.blockEntry, .key, .value, .blockEnd]
        read fuel (.plainItems (n :: items))
      | _ => return .items items.reverse
    | .blockPairs pairs =>
      let ends := [.key, .value, .blockEnd]
      let t ← peek
      match t.kind with
      | .key =>
        drop
        let k ← nodeUnless .blockMapping t ends
        let next ← peek
        let v ← if next.kind = .value then do drop; nodeUnless .blockMapping next ends
          else pure (empty next)
        read fuel (.blockPairs ((k, v) :: pairs))
      | .blockEnd => do drop; return .pairs pairs.reverse
      | _ => failure
    | .flowItems isFirst items =>
      if !isFirst && (← peek).kind ≠ .flowSequenceEnd then
        ensure ((← peek).kind = .flowEntry)
        drop
      let ends := [.flowEntry, .flowSequenceEnd]
      let t ← peek
      match t.kind with
      | .flowSequenceEnd => do drop; return .items items.reverse
      | .key =>
        -- A single pair is a mapping of its own. An empty key takes the token behind it along.
        drop
        let hasKey := (← peek).kind ∉ Token.Kind.value :: ends
        let k ← nodeUnless .flow none (.value :: ends)
        if !hasKey then drop
        let next ← peek
        let v ← if next.kind = .value then do drop; nodeUnless .flow none ends
          else pure (empty next)
        read fuel (.flowItems false (.mapping (t.line + 1) ("" : String) [(k, v)] :: items))
      | _ =>
        let n ← (← read fuel (.node .flow)).getNode
        read fuel (.flowItems false (n :: items))
    | .flowPairs isFirst pairs =>
      if !isFirst && (← peek).kind ≠ .flowMappingEnd then
        ensure ((← peek).kind = .flowEntry)
        drop
      let ends := [.flowEntry, .flowMappingEnd]
      match (← peek).kind with
      | .flowMappingEnd => do drop; return .pairs pairs.reverse
      | .key =>
        drop
        let k ← nodeUnless .flow none (.value :: ends)
        let next ← peek
        let v ← if next.kind = .value then do drop; nodeUnless .flow none ends
          else pure (empty next)
        read fuel (.flowPairs false ((k, v) :: pairs))
      | _ =>
        let k ← (← read fuel (.node .flow)).getNode
        read fuel (.flowPairs false ((k, empty (← peek)) :: pairs))

-- At most one version, which has to be 1.1, and different handles.
def directives : (fuel : Nat) → (hasVersion : Bool) → Read Unit
  | 0, _ => failure
  | fuel + 1, hasVersion => do
    match (← peek).kind with
    | .version major minor =>
      ensure (!hasVersion && major = 1 && minor = 1)
      drop
      directives fuel true
    | .tagDirective handle expansion =>
      ensure ((← get).handles.lookup handle).isNone
      modify fun r => { r with handles := (handle, expansion) :: r.handles }
      drop
      directives fuel hasVersion
    | _ => return

def standardHandles : List (String × RawText) :=
  [("!", "!"), ("!!", standardTags)]

def document (fuel : Nat) : Read (Option Node) := do
  ensure ((← peek).kind = .streamStart)
  drop
  let t ← peek
  match t.kind with
  | .streamEnd => return none
  | .version .. | .tagDirective .. | .documentStart =>
    directives fuel false
    modify fun r => { r with handles := r.handles ++ standardHandles }
    ensure ((← peek).kind = .documentStart)
    drop
    let t ← peek
    let root ← match t.kind with
      | .version .. | .tagDirective .. | .documentStart | .documentEnd | .streamEnd =>
        pure (empty t)
      | _ => (← read fuel (.node .block)).getNode
    discard peek
    return some root
  | _ =>
    modify fun r => { r with handles := standardHandles }
    let root ← (← read fuel (.node .block)).getNode
    discard peek
    return some root

end Read

-- `none` if the text is not well-formed, `some none` if there is no document in it.
def ofText (text : String) : Option (Option Document) := do
  let stream := Stream.ofText text
  let fuel := 16 * (text.length + 4)
  let (root, r) ← (Read.document fuel).run { stream }
  return root.map fun root => { root, anchored := r.anchored, size := text.length }

end Document
end PointsTo.Yaml
