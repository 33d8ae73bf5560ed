import PointsTo.Text.Raw

namespace PointsTo.Yaml

inductive Token.Kind where
  | streamStart
  | streamEnd
  | version (major minor : Nat)
  | tagDirective (handle : String) (expansion : RawText)
  | documentStart
  | documentEnd
  | blockSequenceStart
  | blockMappingStart
  | blockEnd
  | flowSequenceStart
  | flowSequenceEnd
  | flowMappingStart
  | flowMappingEnd
  | blockEntry
  | flowEntry
  | key
  | value
  | aliasOf (name : String)
  | anchor (name : String)
  | tag (handle : String) (suffix : RawText)
  | scalar (text : String) (isPlain : Bool)
deriving DecidableEq

structure Token where
  kind : Token.Kind
  line : Nat
deriving DecidableEq

end PointsTo.Yaml
