import PointsTo.Yaml.Decode.Mapping

namespace PointsTo.Yaml.Decode

structure RecordField (σ : Type) where
  name : String
  read : Scope → Node → σ → Decode σ

variable {σ : Type}

def RecordField.of {α : Type} (name : String) (read : Scope → Node → Decode (Option α))
    (set : α → σ → σ) : RecordField σ where
  name
  read scope n r := do
    match ← read scope n with
    | some a => return set a r
    | none => return r

-- In one mapping a field is set only once.
def setField (target : String) (fields : List (RecordField σ)) (scope : Scope)
    (done : List Value) (key : Value) (kv : Node × Node) (r : σ) : Decode σ := do
  match fields.find? fun field => key = .str field.name with
  | none => return r
  | some field =>
    if key ∈ done then
      report [.duplicateField kv.1.line field.name target]
      return r
    else field.read scope kv.2 r

def record (target : String) (fields : List (RecordField σ)) (scope : Scope) (n : Node) (r : σ) :
    Decode σ := do
  match ← scope.follow n with
  | (_, .scalar line tag text isPlain) =>
    if (← value tag text isPlain) ≠ .null then
      mismatch (.scalar line tag text isPlain) target
    return r
  | (scope, .mapping _ _ pairs) =>
    if ← hasDuplicates pairs then return r
    mapping { key := textKey, set := setField target fields } (any scope.depth) scope.depth scope
      pairs r
  | (_, n) =>
    mismatch n target
    return r

def document (target : String) (fields : List (RecordField σ)) (d : Document) (r : σ) :
    Decode σ := do
  let scope := scopeOf d
  visit scope
  record target fields scope d.root r

end PointsTo.Yaml.Decode
