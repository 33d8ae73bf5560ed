import PointsTo.Preorder
import PointsTo.Program.Basic

namespace PointsTo

-- Only the visible classes can be looked up by name.
structure Hierarchy where
  program : Program
  visible : String → Bool := fun _ => true

def Program.hierarchy (p : Program) : Hierarchy where
  program := p

namespace Hierarchy

variable (h : Hierarchy)

def class? (name : String) : Option Class :=
  if h.visible name then h.program.class? name else none

def chainFrom : (fuel : Nat) → (c : Class) → List Class
  | 0, _ => []
  | fuel + 1, c => c :: match c.super.bind h.program.class? with
    | some super => chainFrom fuel super
    | none => []

-- A chain has no more members than the program has classes.
def chain (c : Class) : List Class :=
  h.chainFrom h.program.classes.length c

def interfaces (name : String) : List String :=
  match h.program.class? name with
  | some c => c.interfaces
  | none => []

-- In depth-first order, nearest class first.
def superinterfaces (c : Class) : List Class :=
  let roots := (h.chain c).flatMap Class.interfaces
  let names := preorder h.interfaces (h.program.classes.map Class.name) roots
  names.filterMap h.program.class?

-- The first declaration along the superclass chain, and failing that the first one among the
-- interfaces of the chain.
def resolve (ref : MethodRef) : Option Method := do
  let c ← h.class? ref.owner
  (h.chain c ++ h.superinterfaces c).findSome? (·.method? ref.subsignature)

-- Objects run the first declaration along the chain of their class that is not abstract.
def dispatch (c : Class) (subsignature : String) : Option Method :=
  (h.chain c).findSome? fun k => (k.method? subsignature).filter (!·.isAbstract)

end Hierarchy
end PointsTo
