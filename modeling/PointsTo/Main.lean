import PointsTo.Cli
import PointsTo.Ssa.Reader

namespace PointsTo

def readFile? (name : String) : IO (Option String) := do
  try
    return some (← IO.FS.readFile name)
  catch _ =>
    return none

def runTool (o : Cli.Options) : IO UInt32 := do
  let config ← match o.config with
    | some file => readFile? file
    | none => pure none
  let text ← match o.queries with
    | file :: _ => readFile? file
    | [] => pure none
  let packages := (text.bind JsonValue.parse).bind Ssa.Program.ofJson?
  let out := Cli.run false o (fun _ => config) packages
  IO.print out.stdout
  IO.eprint out.stderr
  match o.dot, out.dot with
  | some file, some dot => IO.FS.writeFile file dot
  | _, _ => pure ()
  return UInt32.ofNat out.exit

end PointsTo

def main (args : List String) : IO UInt32 := do
  match PointsTo.Cli.Options.ofArgs args with
  | .ok o => PointsTo.runTool o
  | .error e =>
    IO.eprintln e.message
    return 2
