import PointsTo.Analysis.Report
import PointsTo.Config
import PointsTo.Lowering.Basic
import PointsTo.Terminal

namespace PointsTo.Cli

structure Options where
  config : Option String := none
  dot : Option String := none
  callGraph : Bool := false
  listing : Bool := false
  queries : List String := []
deriving DecidableEq

inductive UsageError where
  | badSyntax (arg : String)
  | unknownFlag (name : String)
  | missingValue (name : String)
  | badSwitch (name value : String)
deriving DecidableEq

def UsageError.message : UsageError → String
  | badSyntax arg => "bad flag syntax: " ++ arg
  | unknownFlag name => "flag provided but not defined: -" ++ name
  | missingValue name => "flag needs an argument: -" ++ name
  | badSwitch name value =>
    "invalid boolean value " ++ Text.quote value ++ " for -" ++ name ++ ": parse error"

namespace Options

def flagText? (arg : String) : Option (List Char) :=
  match arg.toList with
  | '-' :: '-' :: rest => some rest
  | '-' :: c :: rest => some (c :: rest)
  | _ => none

def splitFlag (text : List Char) : String × Option String :=
  let name := String.ofList (text.takeWhile (· ≠ '='))
  match text.dropWhile (· ≠ '=') with
  | _ :: value => (name, some (String.ofList value))
  | [] => (name, none)

def switch? (value : String) : Option Bool :=
  if value ∈ ["1", "t", "T", "true", "TRUE", "True"] then some true
  else if value ∈ ["0", "f", "F", "false", "FALSE", "False"] then some false
  else none

-- Names of files may be empty, which is the same as no file.
def fileName? (name : String) : Option String :=
  if name.isEmpty then none else some name

def setSwitch (name : String) (value : Option String) (set : Bool → Options) :
    Except UsageError Options :=
  match value with
  | none => .ok (set true)
  | some value => match switch? value with
    | some b => .ok (set b)
    | none => .error (.badSwitch name value)

-- Flags come first; the first argument that is none, and all behind it, are queries.
def read (o : Options) : List String → Except UsageError Options
  | [] => .ok o
  | "--" :: rest => .ok { o with queries := rest }
  | arg :: rest =>
    match flagText? arg with
    | none => .ok { o with queries := arg :: rest }
    | some text =>
      if text.head? = none || text.head? = some '-' || text.head? = some '=' then
        .error (.badSyntax arg)
      else match splitFlag text with
        | ("callgraph", value) =>
          match setSwitch "callgraph" value fun b => { o with callGraph := b } with
          | .ok o => read o rest
          | .error e => .error e
        | ("ir", value) =>
          match setSwitch "ir" value fun b => { o with listing := b } with
          | .ok o => read o rest
          | .error e => .error e
        | ("config", some file) => read { o with config := fileName? file } rest
        | ("dot", some file) => read { o with dot := fileName? file } rest
        | (name, value) =>
          if name ≠ "config" && name ≠ "dot" then .error (.unknownFlag name)
          else match value, rest with
            | none, file :: rest =>
              if name = "config" then read { o with config := fileName? file } rest
              else read { o with dot := fileName? file } rest
            | _, _ => .error (.missingValue name)

def ofArgs (args : List String) : Except UsageError Options :=
  read {} args

def configuration (o : Options) (files : String → Option String) : Except ConfigError Config :=
  match o.config with
  | some file => Config.load file (files file)
  | none => .ok {}

end Options

structure Output where
  exit : Nat := 0
  stdout : String := ""
  stderr : String := ""
  dot : Option String := none

def logText (level : Log.Level) (entries : List Log.Entry) : String :=
  String.join ((entries.filter (level.keeps ·.level)).map (·.text ++ "\n"))

def info (message : String) : Log.Entry where
  level := .info
  message := message

def fatal (level : Log.Level) (entries : List Log.Entry) (message : RawText) : Output where
  exit := 1
  stderr := logText level (entries ++ [{ level := .fatal, message }])

-- A run that ends at once, without a log.
def crash (message : RawText) : Output where
  exit := 2
  stderr := "panic: " ++ message.toString ++ "\n"

def queryLine (colors : Bool) (query : Int × List Int) : String :=
  Terminal.Style.bold.apply colors [.int query.1] ++ " : " ++ ObjectSet.joinIds query.2 ++ "\n"

def callGraphText (colors : Bool) (g : CallGraph Method) : String :=
  let edges := g.nodes.flatMap fun caller =>
    (g.callees caller).map fun callee => caller.text ++ " -> " ++ callee.text ++ "\n"
  let groups := g.recursiveGroups.map fun group =>
    Terminal.Style.faint.apply colors [.str "recursive:"] ++
      " [" ++ " ".intercalate (group.map Method.text) ++ "]\n"
  String.join (edges ++ groups)

def summary (colors : Bool) (r : Analysis.Result) : List Log.Entry :=
  let status := if r.converged then "converged" else "not converged"
  let shown := (Terminal.Style.status r.converged).apply colors [.str status]
  let message := toString r.reachable.length ++ " reachable methods, " ++ toString r.sweeps ++
    " sweeps, " ++ shown
  let capped := toString r.capped ++ " method visits hit the step limit"
  info message :: if 0 < r.capped then [{ level := .warning, message := capped }] else []

def settings (c : Config) (l : Lowering.Result) : Analysis.Settings where
  program := some l.program
  objects := some (l.program.objects c.markers)
  entries := if c.entryOnly then l.starts else []
  maxSweeps := c.maxSweeps
  maxSteps := c.maxSteps

def report (colors : Bool) (o : Options) (c : Config) (entries : List Log.Entry)
    (l : Lowering.Result) : Output :=
  let objects := l.program.objects c.markers
  let counts := info (toString objects.ids.length ++ " allocation sites, " ++
    toString objects.queryIds.length ++ " queries")
  let listing := if o.listing then l.program.listing else ""
  match Analysis.analyze (settings c l) with
  | .error e => { fatal c.level (entries ++ [counts]) e.message with stdout := listing }
  | .ok r =>
    let log := entries ++ [counts] ++ r.events.map Analysis.Event.entry ++ summary colors r
    { stdout := listing ++ String.join (r.queries.map (queryLine colors)) ++
        (if o.callGraph then callGraphText colors r.graph else "")
      stderr := logText c.level log ++ (if c.isVerbose then r.dump l.program else "")
      dot := o.dot.map fun _ => r.graph.dot Method.text }

-- `files` gives the texts of files; `packages` is `none` if the packages do not load.
def run (colors : Bool) (o : Options) (files : String → Option String)
    (packages : Option Ssa.Program) : Output :=
  match o.configuration files with
  | .error e => if e.isCrash then crash e.message else fatal .info [] e.message
  | .ok c =>
    if o.queries.isEmpty then fatal c.level [] "Specify a package query on the command line"
    else match packages with
      | none =>
        fatal c.level [] "Loading packages failed: errors encountered while loading packages"
      | some ssa =>
        let entries := [info ("Loaded " ++ toString ssa.roots.length ++ " packages"),
          info "Built packages"]
        match Lowering.lower ssa c.markers with
        | .error e => fatal c.level entries ("Lowering failed: " ++ e.message : String)
        | .ok l => report colors o c entries l

end PointsTo.Cli
