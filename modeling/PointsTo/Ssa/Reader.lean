import PointsTo.JsonValue
import PointsTo.Ssa.Basic

namespace PointsTo

def Literal.ofJson? : JsonValue → Option Literal
  | .obj [("int", j)] => do some (.int (← (← j.str?).toInt?))
  | .obj [("string", j)] => do some (.str (← j.str?))
  | .obj [("bool", j)] => do some (.bool (← j.bool?))
  | .obj [("rat", j)] => do
    let num ← (← (j.item 0).str?).toInt?
    let den ← (← (j.item 1).str?).toNat?
    some (.rat (mkRat num den))
  | .obj [("complex", .arr [re, im])] => do some (.ofParts (← ofJson? re) (← ofJson? im))
  | .obj [("unknown", _)] => some .unknown
  | _ => none

namespace Ssa

-- JSON cannot hold stray bytes: they arrive as replacement characters. They are put back as far as
-- `items` agree with the text.
def restore : List RawText.Item → List Char → List RawText.Item
  | .char a :: items, c :: cs =>
    if a = c then .char c :: restore items cs else (c :: cs).map .char
  | .stray b :: items, c :: cs =>
    if c = '\ufffd' then .stray b :: restore items cs else (c :: cs).map .char
  | _, cs => cs.map .char

def cutSize : Nat := 20

def withoutCut (items : List RawText.Item) : List RawText.Item :=
  match items.reverse with
  | .stray 0xef :: rest | .stray 0xbf :: .stray 0xef :: rest => rest.reverse
  | _ => items

def shownItems (name : RawText) : List RawText.Item :=
  let dots := (RawText.ofString "...").items
  if name.byteSize = cutSize && dots.isSuffixOf name.items then
    withoutCut (name.items.take (name.items.length - dots.length))
  else name.items

-- The name of a constant is the quoted text, or the beginning of it if it is long.
def exactConstant (name : String) : Literal → Literal
  | .str t => match Text.unquote? name with
    | some named =>
      if named.toString = t.toString then .str named
      else .str ⟨restore (shownItems named) t.toString.toList⟩
    | none => .str t
  | l => l

def Member.ofJson? (j : JsonValue) : Option Member := do
  let name ← (j.item 0).str?
  match ← (j.item 1).str? with
  | "func" => some (.function name (← (j.item 2).nat?))
  | "type" => some (.type name (← (j.item 2).nat?))
  | _ => some (.other name)

def Package.ofJson? (j : JsonValue) : Option Package := do
  some {
    path := ← (j.get "path").str?
    name := ← (j.get "name").str?
    members := ← (← (j.get "members").list?).mapM Member.ofJson? }

def refs? (j : JsonValue) : Option (List Nat) := do
  let l ← (← j.list?).mapM (JsonValue.optional? JsonValue.nat?)
  some (l.filterMap id)

def strings? (j : JsonValue) : Option (List String) := do
  (← j.list?).mapM JsonValue.str?

def TypeKind.ofJson? (j : JsonValue) : Option TypeKind := do
  match ← (j.get "kind").str? with
  | "pointer" => some (.pointer (← (j.get "elem").nat?))
  | "slice" => some .slice
  | "array" => some .array
  | "map" => some .map
  | "chan" => some .chan
  | "basic" => some .basic
  | "signature" => some .signature
  | "tuple" => some .tuple
  | "struct" => some (.struct (← strings? (j.get "fields")))
  | "interface" => some (.interface (← strings? (j.get "methods")))
  | "named" =>
    some (.named (← (j.get "type_params").nat?) (← (j.get "type_args").nat?)
      (← refs? (j.get "method_set")))
  | _ => some .other

def Ty.ofJson? (j : JsonValue) : Option Ty := do
  some {
    text := ← (j.get "str").str?
    kind := ← TypeKind.ofJson? j
    underlying := ← (j.get "underlying").nat? }

def Value.ofJson? (j : JsonValue) : Option Value := do
  let name ← (j.get "name").str?
  let kind ← match ← (j.get "kind").str? with
    | "const" =>
      let value ← (j.get "const").optional? Literal.ofJson?
      some (.const (value.map (exactConstant name)))
    | "global" => some (.global (← (j.get "pkg").nat?))
    | "function" => some (.function (← (j.get "fn").nat?))
    | "builtin" => some .builtin
    | "param" => some .param
    | "freevar" => some .freevar
    | _ => some .reg
  some { name, type := ← (j.get "type").nat?, kind }

def Instr.ofJson? (j : JsonValue) : Option Instr := do
  let operands ← refs? (j.get "args")
  let v? ← (j.get "v").optional? JsonValue.nat?
  let v : Nat := v?.getD 0
  let field : Option Nat := (j.get "field").nat?
  let call : Option Call := do
    match operands with
    | value :: args =>
      some {
        method := ← (j.get "invoke").optional? JsonValue.str?
        value, args
        text := ← (j.get "call_str").str? }
    | [] => none
  match ← (j.get "op").str?, operands with
  | "Alloc", _ => some (.alloc v)
  | "MakeSlice", l | "MakeMap", l | "MakeChan", l => some (.make v l)
  | "MakeInterface", [x] => some (.makeInterface v x)
  | "UnOp", [x] =>
    match ← (j.get "tok").str? with
    | "*" => some (.load v x)
    | "<-" => some (.receive v x)
    | _ => some (.other v? [x])
  | "Send", [c, x] => some (.send c x)
  | "Store", [addr, x] => some (.store addr x)
  | "FieldAddr", [x] => some (.fieldAddr v x (← field))
  | "IndexAddr", [x, i] => some (.indexAddr v x i)
  | "Field", [x] => some (.field v x (← field))
  | "Index", [x, i] => some (.index v x i)
  | "Lookup", [x, i] => some (.lookup v x i)
  | "MapUpdate", [m, k, x] => some (.mapUpdate m k x)
  | "Next", [iter] => some (.next v iter (← (j.get "is_string").bool?))
  | "Phi", edges => some (.phi v edges)
  | "Range", x :: l | "Extract", x :: l | "ChangeType", x :: l | "ChangeInterface", x :: l
  | "Convert", x :: l | "Slice", x :: l | "SliceToArrayPointer", x :: l => some (.convert v x l)
  | "TypeAssert", [x] => some (.typeAssert v x (← (j.get "asserted").nat?))
  | "Call", _ => some (.call v? (← call))
  | "Go", _ | "Defer", _ => some (.call none (← call))
  | "Return", l => some (.ret l)
  | "If", [x] => some (.branch x)
  | "Jump", _ => some .jump
  | "Panic", [x] => some (.panic x)
  | "DebugRef", l => some (.debugRef l)
  | _, l => some (.other v? l)

def Function.ofJson? (j : JsonValue) : Option Function := do
  let param (j : JsonValue) : Option (String × String) := do
    some (← (j.item 0).str?, ← (j.item 1).str?)
  let block (j : JsonValue) : Option (List Instr) := do
    (← j.list?).mapM Instr.ofJson?
  some {
    name := ← (j.get "name").str?
    text := ← (j.get "str").str?
    pkg := ← (j.get "pkg").optional? JsonValue.nat?
    isSynthetic := ← (j.get "synthetic").bool?
    isNested := ← (j.get "nested").bool?
    hasBlocks := ← (j.get "has_blocks").bool?
    recv := ← (j.get "recv").optional? JsonValue.nat?
    signature := ← (← (j.get "sig_params").list?).mapM param
    params := ← refs? (j.get "params")
    blocks := ← (← (j.get "blocks").list?).mapM block }

def Program.ofJson? (j : JsonValue) : Option Program := do
  some {
    roots := ← refs? (j.get "initial")
    packages := ← (← (j.get "packages").list?).mapM Package.ofJson?
    types := ← (← (j.get "types").list?).mapM Ty.ofJson?
    functions := ← (← (j.get "functions").list?).mapM Function.ofJson?
    values := ← (← (j.get "values").list?).mapM Value.ofJson? }

end Ssa
end PointsTo
