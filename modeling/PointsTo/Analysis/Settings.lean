import PointsTo.Analysis.Solver

namespace PointsTo.Analysis

-- Parts that are left out are `none`; a limit of zero selects the standard one.
structure Settings where
  program : Option Program := none
  objects : Option Objects := none
  visible : String → Bool := fun _ => true
  entries : List (Option Method) := []
  maxSweeps : Int := 0
  maxSteps : Int := 0

inductive SettingsError where
  | noProgram
  | noObjects
  | negativeLimit (maxSweeps maxSteps : Int)
  | missingEntry
deriving DecidableEq

def SettingsError.message (e : SettingsError) : String :=
  "invalid analysis configuration: " ++ match e with
    | noProgram => "no program"
    | noObjects => "no preprocessing result"
    | negativeLimit maxSweeps maxSteps =>
      "negative limit (sweeps " ++ toString maxSweeps ++ ", method steps " ++
        toString maxSteps ++ ")"
    | missingEntry => "nil entry method"

namespace Settings

def standardLimit : Nat := 5000

def limit (n : Int) : Nat :=
  if n = 0 then standardLimit else n.toNat

def problem (s : Settings) : Except SettingsError Problem := do
  let some program := s.program | throw .noProgram
  let some objects := s.objects | throw .noObjects
  if s.maxSweeps < 0 ∨ s.maxSteps < 0 then throw (.negativeLimit s.maxSweeps s.maxSteps)
  if none ∈ s.entries then throw .missingEntry
  return {
    program
    scene := { hierarchy := { program, visible := s.visible }, objects }
    entries := s.entries.filterMap id
    maxSweeps := limit s.maxSweeps
    maxSteps := limit s.maxSteps }

end Settings
end PointsTo.Analysis
