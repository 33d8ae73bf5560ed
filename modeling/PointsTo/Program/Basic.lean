import PointsTo.Program.Method

namespace PointsTo

structure Class where
  name : String
  super : Option String := none
  interfaces : List String := []
  isInterface : Bool := false
  methods : List Method := []
deriving DecidableEq

def Class.method? (c : Class) (subsignature : String) : Option Method :=
  c.methods.find? (·.subsignature = subsignature)

structure Program where
  classes : List Class := []
deriving DecidableEq

structure DuplicateClass where
  name : String
deriving DecidableEq

def DuplicateClass.message (e : DuplicateClass) : String :=
  "duplicate class " ++ e.name

namespace Program

def class? (p : Program) (name : String) : Option Class :=
  p.classes.find? (·.name = name)

def declared? (p : Program) (owner subsignature : String) : Option Method :=
  (p.class? owner).bind (·.method? subsignature)

def methods (p : Program) : List Method :=
  p.classes.flatMap Class.methods

def references (p : Program) : List MethodRef :=
  (p.methods.flatMap Method.references).eraseDups

def method? (p : Program) (id : Nat) : Option Method :=
  p.methods.find? (·.id = id)

def addClass (p : Program) (c : Class) : Except DuplicateClass Program :=
  match p.class? c.name with
  | some _ => .error ⟨c.name⟩
  | none => .ok { p with classes := p.classes ++ [c] }

def modifyClass (p : Program) (name : String) (f : Class → Class) : Program :=
  { p with classes := p.classes.map fun c => if c.name = name then f c else c }

def link (p : Program) (name interface : String) : Program :=
  p.modifyClass name fun c => { c with interfaces := c.interfaces ++ [interface] }

def nextMethod (p : Program) (owner name : String) (modifiers : Modifiers) (types : List String) :
    Method :=
  .declare p.methods.length owner name modifiers types

def insertMethod (p : Program) (owner : String) (m : Method) : Program :=
  p.modifyClass owner fun c => { c with methods := c.methods ++ [m] }

def addMethod (p : Program) (owner name : String) (modifiers : Modifiers) (types : List String) :
    Program :=
  p.insertMethod owner (p.nextMethod owner name modifiers types)

def modifyMethod (p : Program) (id : Nat) (f : Method → Method) : Program :=
  { p with classes := p.classes.map fun c =>
    { c with methods := c.methods.map fun m => if m.id = id then f m else m } }

def listing (p : Program) : String :=
  String.join (p.classes.map fun c =>
    let kind := if c.isInterface then "interface " else "class "
    let super := match c.super with
      | some super => " extends " ++ super
      | none => ""
    kind ++ c.name ++ super ++ "\n" ++ String.join (c.methods.map Method.listing))

end Program
end PointsTo
