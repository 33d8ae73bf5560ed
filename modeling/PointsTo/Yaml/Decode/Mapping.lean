import PointsTo.Yaml.Decode.Basic

namespace PointsTo.Yaml.Decode

def isMergeKey : Node → Bool
  | .scalar _ tag text isPlain =>
    text = mergeSign && ((tag.isEmpty && isPlain) || tag = ("!!merge" : String))
  | _ => false

def isMapping (scope : Scope) : Node → Bool
  | .mapping .. => true
  | .aliasOf _ _ _ target => match scope.anchored.lookup target with
    | some (.mapping ..) => true
    | _ => false
  | _ => false

inductive Reading where
  | scalar (v : Value)
  | collection (c : Collection)
deriving DecidableEq

structure Target (σ : Type) where
  key : Scope → Node → Decode (Option Reading)
  set : Scope → (done : List Value) → Value → Node × Node → σ → Decode σ

structure Partial (σ : Type) where
  value : σ
  merged : Option (List Value)
  done : List Value := []
  merge : Option Node := none

-- What is no number differs from itself.
def isAmong (keys : List Value) (key : Value) : Bool :=
  key ≠ .double .nan && keys.contains key

variable {σ : Type}

def pair (target : Target σ) (scope : Scope) (p : Partial σ) (kv : Node × Node) :
    Decode (Partial σ) := do
  if isMergeKey kv.1 then return { p with merge := some kv.2 }
  match ← target.key scope kv.1 with
  | none => return p
  | some (.collection c) => if p.merged.isSome then throw (.unhashable c) else fail
  | some (.scalar key) =>
    if isAmong (p.merged.getD []) key then return p
    let value ← target.set scope p.done key kv p.value
    return { p with value, merged := p.merged.map (key :: ·), done := key :: p.done }

def markKey (any : Scope → Node → Decode (Option Reading)) (scope : Scope) (k : Node) :
    Decode Unit := do
  match ← any scope k with
  | none => return
  | some (.collection c) => throw (.unhashable c)
  | some (.scalar key) =>
    modify fun p => { p with merged := p.merged.map (key :: ·) }

-- Other mappings are merged after the pairs of the mapping itself; a key that is set already is not
-- merged again.
def mapping (target : Target σ) (any : Scope → Node → Decode (Option Reading)) :
    (fuel : Nat) → Scope → List (Node × Node) → σ → Decode σ
  | 0, _, _, _ => fail
  | fuel + 1, scope, pairs, value => do
    let merged := (← get).merged
    modify fun p => { p with merged := none }
    let p ← pairs.foldlM (pair target scope) { value, merged }
    modify fun q => { q with merged := p.merged }
    let some merge := p.merge | return p.value
    if merged.isNone then
      modify fun q => { q with merged := some [] }
      pairs.forM fun (k, _) => markKey any scope k
    let sources := match merge with
      | .sequence _ _ items => items
      | node => [node]
    let value ← sources.foldlM (fun value source => do
      if !isMapping scope source then fail
      match ← scope.follow source with
      | (scope, .mapping _ _ pairs) =>
        if ← hasDuplicates pairs then return value
        mapping target any fuel scope pairs value
      | _ => fail) p.value
    if merged.isNone then modify fun q => { q with merged := none }
    return value

def tagBehind (scope : Scope) : Node → RawText
  | .aliasOf _ _ _ target => ((scope.anchored.lookup target).map tagOf).getD ""
  | n => tagOf n

def hasTextKeys (scope : Scope) (pairs : List (Node × Node)) : Bool :=
  pairs.all fun (k, _) =>
    let tag := tagBehind scope k
    tag = ("!!str" : String) || tag = ("!!merge" : String)

def textKey (scope : Scope) (k : Node) : Decode (Option Reading) := do
  return (← string scope k).map fun t => .scalar (.str t)

-- A mapping with duplicate keys stands for nothing.
def any : (fuel : Nat) → Scope → Node → Decode (Option Reading)
  | 0, _, _ => fail
  | fuel + 1, scope, n => do
    match ← scope.follow n with
    | (_, .scalar _ tag text isPlain) => return some (.scalar (← value tag text isPlain))
    | (scope, .sequence _ _ items) =>
      items.forM fun item => discard (any fuel scope item)
      return some (.collection .sequence)
    | (scope, .mapping _ _ pairs) =>
      if ← hasDuplicates pairs then return none
      let hasTexts := hasTextKeys scope pairs
      let target : Target Unit := {
        key := if hasTexts then textKey else any fuel
        set := fun scope _ _ kv _ => discard (any fuel scope kv.2) }
      mapping target (any fuel) fuel scope pairs ()
      return some (.collection (if hasTexts then .textMapping else .mapping))
    | (_, .aliasOf ..) => fail

end PointsTo.Yaml.Decode
