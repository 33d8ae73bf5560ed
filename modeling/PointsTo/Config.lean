import PointsTo.Analysis.Settings
import PointsTo.Log
import PointsTo.Objects
import PointsTo.Yaml.Decode

namespace PointsTo

structure Config where
  sourceFile : String := ""
  maxSweeps : Int := Analysis.Settings.standardLimit
  maxSteps : Int := Analysis.Settings.standardLimit
  logLevel : RawText := "info"
  markers : Markers := .standard
  entryOnly : Bool := false
deriving DecidableEq

inductive ConfigError where
  | unreadable (file : String)
  | malformed
  | issues (l : List Yaml.Issue)
  -- A mapping that others are merged into has a collection as a key.
  | unhashable (c : Yaml.Collection)
  | unknownLevel (level : RawText)
  | inFile (file : String) (e : ConfigError)
deriving DecidableEq

namespace ConfigError

def typeName : Yaml.Collection → String
  | .sequence => "[]interface {}"
  | .textMapping => "map[string]interface {}"
  | .mapping => "map[interface {}]interface {}"

def message : ConfigError → RawText
  | unreadable file =>
    ("could not read config file: open " ++ file ++ ": no such file or directory" : String)
  | malformed => "could not unmarshal config: yaml: the text is not well-formed"
  | issues l =>
    .join ("could not unmarshal config: yaml: unmarshal errors:" ::
      l.map fun issue => "\n  " ++ issue.message)
  | unhashable c => ("runtime error: hash of unhashable type " ++ typeName c : String)
  | unknownLevel level => ("unknown log level " ++ Text.quoteRaw level : String)
  | inFile file e => (file ++ ": " : String) ++ e.message

def cause : ConfigError → ConfigError
  | inFile _ e => e.cause
  | e => e

def isCrash : ConfigError → Bool
  | unhashable _ => true
  | _ => false

-- A crash is not laid to a file.
def within (file : String) (e : ConfigError) : ConfigError :=
  if e.isCrash then e else inFile file e

end ConfigError

namespace Config

def level? (t : RawText) : Option Log.Level :=
  match t.text? with
  | some "error" => some .error
  | some "warn" => some .warning
  | some "info" => some .info
  | some "debug" => some .debug
  | some "trace" => some .trace
  | _ => none

def level (c : Config) : Log.Level :=
  (level? c.logLevel).getD .info

def isVerbose (c : Config) : Bool :=
  match level? c.logLevel with
  | some l => l.keeps .debug
  | none => false

open Yaml.Decode in
def markerFields : List (RecordField Markers) := [
  .of "class" string fun t mk => { mk with owner := t.toString },
  .of "alloc" string fun t mk => { mk with alloc := t.toString },
  .of "test" string fun t mk => { mk with test := t.toString }]

open Yaml.Decode in
def fields : List (RecordField Config) := [
  .of "max-sweeps" int fun n c => { c with maxSweeps := n },
  .of "max-method-steps" int fun n c => { c with maxSteps := n },
  .of "log-level" string fun t c => { c with logLevel := t },
  { name := "markers"
    read := fun scope n c => do
      let markers ← record "preprocess.Markers" markerFields scope n c.markers
      return { c with markers } },
  .of "entry-only" bool fun b c => { c with entryOnly := b }]

def decode (text : String) : Except ConfigError Config :=
  match Yaml.Document.ofText text with
  | none => .error .malformed
  | some none => .ok {}
  | some (some d) =>
    match (Yaml.Decode.document "config.Config" fields d {}).run {} with
    | .error .malformed => .error .malformed
    | .error (.unhashable c) => .error (.unhashable c)
    | .ok (c, p) => if p.issues.isEmpty then .ok c else .error (.issues p.issues)

-- What is left out, empty or not positive takes its standard value.
def orStandard (c : Config) : Config :=
  let standard : Config := {}
  { c with
    maxSweeps := if c.maxSweeps ≤ 0 then standard.maxSweeps else c.maxSweeps
    maxSteps := if c.maxSteps ≤ 0 then standard.maxSteps else c.maxSteps
    logLevel := if c.logLevel.isEmpty then standard.logLevel else c.logLevel
    markers := c.markers.orStandard }

def parse (text : String) : Except ConfigError Config := do
  let c := (← decode text).orStandard
  match level? c.logLevel with
  | some _ => return c
  | none => throw (.unknownLevel c.logLevel)

def load (file : String) (text : Option String) : Except ConfigError Config :=
  match text with
  | none => .error (.unreadable file)
  | some text => match parse text with
    | .ok c => .ok { c with sourceFile := file }
    | .error e => .error (e.within file)

end Config
end PointsTo
