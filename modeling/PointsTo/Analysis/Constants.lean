import PointsTo.Fields
import PointsTo.Program.Method

namespace PointsTo.Analysis

abbrev Constants := Table Var Literal

namespace Constants

-- A copy passes on the literal that the copied variable stands for or has last received. Without
-- one, its left side keeps what it had.
def after (cs : Constants) : Stmt → Constants
  | .literal lhs value => Table.set cs lhs value
  | .copy lhs rhs => match rhs.const <|> Table.get? cs rhs with
    | some c => Table.set cs lhs c
    | none => cs
  | _ => cs

def int64? (cs : Constants) (v : Var) : Option Int :=
  (Table.get? cs v).bind Literal.int64? <|> v.int64?

def key (cs : Constants) (index : Option Var) : FieldKey :=
  match index.bind cs.int64? with
  | some i => .index i
  | none => .anyIndex

end Constants
end PointsTo.Analysis
