import PointsTo.Proofs.Lowering.Building

namespace PointsTo.Lowering

-- What an instruction makes up.
structure Fresh where
  site    : Site
  -- The result of an `append` that nobody asks for.
  target  : Var := .absent
  -- The elements that are copied.
  element : Var := .absent
  -- Neither of the variables stands for a literal.
  plain   : target.const = none ∧ element.const = none := by exact ⟨rfl, rfl⟩

section Meaning

variable (src : Source) (body : List Ssa.Instr) (w : Naming) (fresh : Fresh)

open Build

def loadStatements (v addr : Nat) : List Stmt :=
  match fusedPart? src body addr with
  | some (.field x ref) => [.loadField (w.var v) (w.var x) ref]
  | some (.element x index) => [.loadArray (w.var v) (w.var x) (w.var index)]
  | none =>
    if src.ssa.isAggregate (src.ssa.typeOf v) then [.copy (w.var v) (w.var addr)]
    else [.loadField (w.var v) (w.var addr) (pointee src addr)]

def storeStatements (addr x : Nat) : List Stmt :=
  match fusedPart? src body addr with
  | some (.field base ref) => [.storeField (w.var base) ref (w.var x)]
  | some (.element base index) => [.storeArray (w.var base) (w.var index) (w.var x)]
  | none =>
    if src.ssa.isAggregate (src.ssa.typeOf x) then [.copy (w.var addr) (w.var x)]
    else [.storeField (w.var addr) (pointee src addr) (w.var x)]

def elementStatements (element dst : Var) (x : Nat) : List Stmt :=
  [.loadArray element (w.var x) none, .storeArray dst none element]

def appendStatements (element lhs : Var) (x : Nat) : List Nat → List Stmt
  | [] => [.copy lhs (w.var x)]
  | y :: _ =>
    .copy lhs (w.var x) ::
      if src.ssa.underlyingKind (src.ssa.typeOf y) = .slice then
        .copy lhs (w.var y) :: elementStatements w element lhs y
      else elementStatements w element lhs y

def builtinStatements (lhs : Option Var) (name : String) (args : List Nat) : List Stmt :=
  match name, args with
  | "append", x :: rest => appendStatements src w fresh.element (lhs.getD fresh.target) x rest
  | "copy", x :: y :: _ => elementStatements w fresh.element (w.var x) y
  | "ssa:wrapnilchk", x :: _ => lhs.toList.map fun lhs => .copy lhs (w.var x)
  | _, _ => []

-- The call of a function. The first argument of a method is its receiver.
def directCall (result : Option Var) (fn : Nat) (args : List Nat) : Invoke :=
  if src.isMarker fn then
    ⟨result, .static, ⟨src.markers.owner, (src.ssa.function fn).name⟩, none, args.map w.var⟩
  else match (src.ssa.function fn).recv, args with
    | some _, receiver :: rest =>
      ⟨result, .special, w.ref fn, some (w.var receiver), rest.map w.var⟩
    | _, args => ⟨result, .static, w.ref fn, none, args.map w.var⟩

def callStatements (result : Option Var) (c : Ssa.Call) : List Stmt :=
  let callee := src.ssa.value c.value
  match c.method, callee.kind with
  | some name, _ =>
    [.invoke ⟨result, .interface, ⟨src.ssa.typeText callee.type, name⟩, some (w.var c.value),
      c.args.map w.var⟩]
  | none, .builtin => builtinStatements src w fresh result callee.name c.args
  | none, .function fn => [.invoke (directCall src w result fn c.args)]
  | none, _ => [.nop c.text]

def allocStatements (v t : Nat) : List Stmt :=
  [.alloc fresh.site (w.var v) (src.ssa.typeText t)]

-- The statements of an instruction of `body`, without the loads of globals.
def statements : Ssa.Instr → List Stmt
  | .alloc v => allocStatements src w fresh v (src.ssa.deref (src.ssa.typeOf v))
  | .make v _ => allocStatements src w fresh v (src.ssa.typeOf v)
  | .makeInterface v x =>
    if src.ssa.isReference (src.ssa.typeOf x) || src.ssa.isAggregate (src.ssa.typeOf x) then
      [.copy (w.var v) (w.var x)]
    else allocStatements src w fresh v (src.ssa.typeOf x)
  | .load v addr => loadStatements src body w v addr
  | .receive v c => [.loadField (w.var v) (w.var c) (channel src c)]
  | .send c x => [.storeField (w.var c) (channel src c) (w.var x)]
  | .store addr x => storeStatements src body w addr x
  | .fieldAddr v x _ | .indexAddr v x _ =>
    if isFused src body v then [] else [.copy (w.var v) (w.var x)]
  | .field v x field =>
    if src.ssa.isAggregate (src.ssa.typeOf v) then [.copy (w.var v) (w.var x)]
    else [.loadField (w.var v) (w.var x) (structField src (src.ssa.typeOf x) field)]
  | .index v x index =>
    if src.ssa.isAggregate (src.ssa.typeOf v) then [.copy (w.var v) (w.var x)]
    else [.loadArray (w.var v) (w.var x) (w.var index)]
  | .lookup v x index =>
    if src.ssa.underlyingKind (src.ssa.typeOf x) = .map then
      [.loadArray (w.var v) (w.var x) (w.var index)]
    else []
  | .mapUpdate map key x => [.storeArray (w.var map) (w.var key) (w.var x)]
  | .next v iter isString => if isString then [] else [.loadArray (w.var v) (w.var iter) none]
  | .phi v edges =>
    match commonLiteral? src edges with
    | some c => [.literal (w.var v) c]
    | none => edges.map fun e => .copy (w.var v) (w.var e)
  | .convert v x _ => [.copy (w.var v) (w.var x)]
  | .typeAssert v x asserted => [.cast (w.var v) (w.var x) (src.ssa.typeText asserted)]
  | .call v c => callStatements src w fresh (v.map w.var) c
  | .ret [] => [.ret none]
  | .ret results => results.map fun r => .ret (w.var r)
  | .branch cond => [.branch (w.var cond)]
  | .jump => [.jump]
  | .panic x => [.throw (w.var x)]
  | .debugRef _ | .other .. => []

end Meaning

section Parts

variable {src : Source} {mine : Nat → Prop} {K : List Var} {body : List Ssa.Instr} {v x y : Nat}

open Build

theorem yields_emit₁ {s : Var → Stmt} (hv : mine v)
    (plain : ∀ a, IsPlain (s a) := by intro a; trivial)
    (vars : ∀ a, (s a).vars ⊆ [a] := by simp [Stmt.vars]) :
    Yields src mine K (do emit (s (← value src v))) (fun _ => [])
      fun w _ c => c = [s (w.var v)] := by
  refine yields_value_bind (U := fun _ a _ c => c = [s a]) hv fun a => ?_
  exact yields_emit (plain a) fun y hy => List.mem_append_left K (vars a hy)

theorem yields_emit₂ {s : Var → Var → Stmt} (hv : mine v) (hx : mine x)
    (plain : ∀ a b, IsPlain (s a b) := by intro a b; trivial)
    (vars : ∀ a b, (s a b).vars ⊆ [a, b] := by simp [Stmt.vars]) :
    Yields src mine K (do
      let a ← value src v
      emit (s a (← value src x))) (fun _ => []) fun w _ c => c = [s (w.var v) (w.var x)] := by
  refine yields_value_bind (U := fun w a _ c => c = [s a (w.var x)]) hv fun a => ?_
  refine yields_value_bind (U := fun _ b _ c => c = [s a b]) hx fun b => ?_
  exact yields_emit (plain a b) fun y hy => by have := vars a b hy; simp at this ⊢; tauto

theorem yields_emit₃ {s : Var → Var → Var → Stmt} (hv : mine v) (hx : mine x) (hy : mine y)
    (plain : ∀ a b c, IsPlain (s a b c) := by intro a b c; trivial)
    (vars : ∀ a b c, (s a b c).vars ⊆ [a, b, c] := by simp [Stmt.vars]) :
    Yields src mine K (do
      let a ← value src v
      let b ← value src x
      emit (s a b (← value src y))) (fun _ => [])
      fun w _ c => c = [s (w.var v) (w.var x) (w.var y)] := by
  refine yields_value_bind (U := fun w a _ c => c = [s a (w.var x) (w.var y)]) hv fun a => ?_
  refine yields_value_bind (U := fun w b _ c => c = [s a b (w.var y)]) hx fun b => ?_
  refine yields_value_bind (U := fun _ i _ c => c = [s a b i]) hy fun i => ?_
  exact yields_emit (plain a b i) fun z hz => by have := vars a b i hz; simp at this ⊢; tauto

theorem yields_copy (hv : mine v) (hx : mine x) :
    Yields src mine K (copy src v x) (fun _ => []) fun w _ c => c = [.copy (w.var v) (w.var x)] :=
  yields_emit₂ hv hx

theorem yields_alloc (hv : mine v) (t : Nat) :
    Yields src mine K (alloc src v t) (fun _ => []) fun w _ c =>
      ∃ fresh, c = allocStatements src w fresh v t := by
  have rest : ∀ K, Yields src mine K (do
      let lhs ← value src v
      modify fun b => { b with method := b.method.emitAlloc lhs (src.ssa.typeText t) })
      (fun _ => []) fun w _ c => ∃ fresh, c = allocStatements src w fresh v t := by
    intro K
    refine yields_value_bind
      (U := fun w lhs _ c => ∃ fresh : Fresh, c = [.alloc fresh.site lhs (src.ssa.typeText t)]) hv
      fun lhs => ?_
    exact (yields_emitAlloc List.mem_cons_self).mono fun _ _ _ ⟨site, h⟩ => ⟨{ site }, h⟩
  unfold alloc
  split
  case isTrue =>
    refine ((yields_declare (useClass_grows src t)).bind fun _ => rest _).mono ?_
    rintro w _ _ ⟨_, _, c, rfl, h, rfl⟩
    exact h
  case isFalse => exact rest K

def Mentions (body : List Ssa.Instr) (v : Nat) : Prop :=
  ∃ i ∈ body, v ∈ i.operands ∨ i.result? = some v

def Build.Part.values : Part → List Nat
  | .field x _ => [x]
  | .element x index => [x, index]

-- The address of a part is made of the values that select it.
theorem exists_of_fusedPart? {addr : Nat} {part : Part} (h : fusedPart? src body addr = some part) :
    ∃ i ∈ body, (∀ a, isAccess a i = false) ∧ part.values = i.operands := by
  unfold fusedPart? at h
  split at h
  case h_1 x field hd | h_2 x index hd =>
    split at h
    case isTrue =>
      cases h
      exact ⟨_, List.mem_of_find?_eq_some hd, fun _ => rfl, rfl⟩
    case isFalse => contradiction
  case h_3 => contradiction

-- The values that an access through an address is about: those that select the part if the address
-- is fused, and else the address.
def accessValues (src : Source) (body : List Ssa.Instr) (addr : Nat) : List Nat :=
  match fusedPart? src body addr with
  | some part => part.values
  | none => [addr]

-- The values whose variables an instruction of `body` may be about.
def names (src : Source) (body : List Ssa.Instr) : Ssa.Instr → List Nat
  | .load v addr => v :: accessValues src body addr
  | .store addr x => x :: accessValues src body addr
  | .fieldAddr v x _ | .indexAddr v x _ => if isFused src body v then [] else [v, x]
  | .debugRef _ => []
  | i => i.result?.toList ++ i.operands

theorem mentions_of_mem_names {i : Ssa.Instr} (hi : i ∈ body) (hv : v ∈ names src body i) :
    Mentions body v := by
  have accessed {addr : Nat} (ha : Mentions body addr) (hv : v ∈ accessValues src body addr) :
      Mentions body v := by
    unfold accessValues at hv
    split at hv
    case h_1 hp =>
      have ⟨i, hi, _, values⟩ := exists_of_fusedPart? hp
      exact ⟨i, hi, .inl (values ▸ hv)⟩
    case h_2 => exact List.mem_singleton.mp hv ▸ ha
  have operand {x : Nat} (hx : x ∈ i.operands) : Mentions body x := ⟨i, hi, .inl hx⟩
  have result {x : Nat} (hx : i.result? = some x) : Mentions body x := ⟨i, hi, .inr hx⟩
  cases i
  case load t addr =>
    cases List.mem_cons.mp hv
    case inl e  => exact result (e ▸ rfl)
    case inr hv => exact accessed (operand (by simp [Ssa.Instr.operands])) hv
  case store addr x =>
    cases List.mem_cons.mp hv
    case inl e  => exact operand (e ▸ by simp [Ssa.Instr.operands])
    case inr hv => exact accessed (operand (by simp [Ssa.Instr.operands])) hv
  case fieldAddr | indexAddr =>
    simp only [names] at hv
    split at hv
    case isTrue => contradiction
    case isFalse =>
      cases List.mem_cons.mp hv
      case inl e  => exact result (e ▸ rfl)
      case inr hv => exact operand (List.mem_singleton.mp hv ▸ by simp [Ssa.Instr.operands])
  case debugRef => contradiction
  all_goals
    cases List.mem_append.mp hv
    case inl hv => exact result (Option.mem_toList.mp hv)
    case inr hv => exact operand hv

theorem yields_load {addr : Nat} (hv : mine v) (ha : ∀ x ∈ accessValues src body addr, mine x) :
    Yields src mine K (load src body v addr) (fun _ => [])
      fun w _ c => c = loadStatements src body w v addr := by
  unfold load loadStatements
  unfold accessValues at ha
  cases hp : fusedPart? src body addr <;> rw [hp] at ha
  case none =>
    cases hg : src.ssa.isAggregate (src.ssa.typeOf v)
    case true | false => exact yields_emit₂ hv (ha addr (by simp))
  case some part =>
    cases part
    case field x ref => exact yields_emit₂ hv (ha x (by simp [Part.values]))
    case element x index =>
      exact yields_emit₃ hv (ha x (by simp [Part.values])) (ha index (by simp [Part.values]))

theorem yields_store {addr : Nat} (ha : ∀ x ∈ accessValues src body addr, mine x) (hx : mine x) :
    Yields src mine K (store src body addr x) (fun _ => [])
      fun w _ c => c = storeStatements src body w addr x := by
  unfold store storeStatements
  unfold accessValues at ha
  cases hp : fusedPart? src body addr <;> rw [hp] at ha
  case none =>
    cases hg : src.ssa.isAggregate (src.ssa.typeOf x)
    case true | false => exact yields_emit₂ hx (ha addr (by simp))
  case some part =>
    cases part
    case field base ref => exact yields_emit₂ hx (ha base (by simp [Part.values]))
    case element base index =>
      exact yields_emit₃ hx (ha base (by simp [Part.values])) (ha index (by simp [Part.values]))

theorem yields_elements {dst : Var} (hd : dst ∈ K) (hx : mine x) :
    Yields src mine K (elements src dst x) (fun _ => []) fun w _ c =>
      ∃ element : Var, element.const = none ∧ c = elementStatements w element dst x := by
  refine ((yields_newVar _ _).bind (U := fun tmp w _ c =>
    c = [.loadArray tmp (w.var x) none, .storeArray dst none tmp]) fun tmp => ?copied).mono ?element
  case copied =>
    refine yields_value_bind (U := fun w base _ c =>
      c = [.loadArray tmp base none, .storeArray dst none tmp]) hx fun base => ?_
    have loaded : Yields src mine (base :: ([tmp] ++ K)) (emit (.loadArray tmp base none))
        (fun _ => []) fun _ _ c => c = [.loadArray tmp base none] :=
      yields_emit trivial (by simp [Stmt.vars])
    refine (loaded.bind fun _ =>
      yields_emit (s := .storeArray dst none tmp) trivial (by simp [Stmt.vars, hd])).mono ?_
    rintro w _ _ ⟨_, _, _, rfl, rfl, rfl⟩
    rfl
  case element =>
    rintro w _ _ ⟨tmp, _, _, ⟨plain, rfl⟩, rfl, rfl⟩
    exact ⟨tmp, plain, rfl⟩

theorem yields_copyTo {lhs : Var} (hl : lhs ∈ K) (hx : mine x) :
    Yields src mine K (do emit (.copy lhs (← value src x))) (fun _ => [])
      fun w _ c => c = [.copy lhs (w.var x)] := by
  refine yields_value_bind (U := fun _ rhs _ c => c = [.copy lhs rhs]) hx fun rhs => ?_
  have hl : lhs ∈ rhs :: K := List.mem_cons_of_mem _ hl
  exact yields_emit trivial (by simpa [Stmt.vars] using hl)

theorem yields_copyTo_bind {lhs : Var} {f : Build Unit} {U : Naming → List Stmt → Prop}
    (hl : lhs ∈ K) (hx : mine x)
    (hf : ∀ K, lhs ∈ K → Yields src mine K f (fun _ => []) fun w _ => U w) :
    Yields src mine K (do
      emit (.copy lhs (← value src x))
      f) (fun _ => []) fun w _ c => ∃ c', U w c' ∧ c = .copy lhs (w.var x) :: c' := by
  refine yields_value_bind (U := fun w rhs _ c => ∃ c', U w c' ∧ c = .copy lhs rhs :: c') hx
    fun rhs => ?_
  have hl : lhs ∈ rhs :: K := List.mem_cons_of_mem _ hl
  refine ((yields_emit (s := .copy lhs rhs) trivial (by simpa [Stmt.vars] using hl)).bind
    fun _ => hf _ hl).mono ?_
  rintro w _ _ ⟨_, _, c, rfl, h, rfl⟩
  exact ⟨c, h, rfl⟩

theorem yields_append {lhs : Var} {rest : List Nat} (hl : lhs ∈ K) (hx : mine x)
    (hr : ∀ y ∈ rest, mine y) :
    Yields src mine K (append src lhs x rest) (fun _ => []) fun w _ c =>
      ∃ element : Var, element.const = none ∧
        c = appendStatements src w element lhs x rest := by
  cases rest
  case nil => exact (yields_copyTo hl hx).mono fun _ _ _ h => ⟨.absent, rfl, h⟩
  case cons y _ =>
    have hy := hr y List.mem_cons_self
    have elements : ∀ K, lhs ∈ K → Yields src mine K (elements src lhs y) (fun _ => [])
        fun w _ c => ∃ element : Var, element.const = none ∧
          c = elementStatements w element lhs y :=
      fun K hl => yields_elements hl hy
    unfold append appendStatements
    by_cases hs : src.ssa.underlyingKind (src.ssa.typeOf y) = .slice
    case pos =>
      simp only [hs, if_true]
      refine (yields_copyTo_bind hl hx fun K hl => yields_copyTo_bind hl hy elements).mono ?_
      rintro w _ _ ⟨_, ⟨_, ⟨element, plain, rfl⟩, rfl⟩, rfl⟩
      exact ⟨element, plain, rfl⟩
    case neg =>
      simp only [hs, if_false]
      refine (yields_copyTo_bind hl hx elements).mono ?_
      rintro w _ _ ⟨_, ⟨element, plain, rfl⟩, rfl⟩
      exact ⟨element, plain, rfl⟩

theorem yields_builtin {lhs : Option Var} {name : String} {args : List Nat} (hl : lhs.toList ⊆ K)
    (ha : ∀ x ∈ args, mine x) :
    Yields src mine K (builtin src lhs name args) (fun _ => []) fun w _ c =>
      ∃ fresh, c = builtinStatements src w fresh lhs name args := by
  unfold builtin
  split
  case h_1 x rest =>
    have hx := ha x List.mem_cons_self
    have hr : ∀ y ∈ rest, mine y := fun y hy => ha y (List.mem_cons_of_mem _ hy)
    cases lhs
    case some lhs =>
      refine (yields_append (hl (by simp)) hx hr).mono ?_
      rintro w _ _ ⟨element, plain, rfl⟩
      exact ⟨{ site := ⟨0, 0⟩, element, plain := ⟨rfl, plain⟩ }, rfl⟩
    case none =>
      refine ((yields_newVar _ _).bind fun lhs => yields_append (by simp) hx hr).mono ?_
      rintro w _ _ ⟨target, _, _, ⟨plain, rfl⟩, ⟨element, plain', rfl⟩, rfl⟩
      exact ⟨{ site := ⟨0, 0⟩, target, element, plain := ⟨plain, plain'⟩ }, rfl⟩
  case h_2 x y _ =>
    refine yields_value_bind (U := fun w dst _ c => ∃ fresh : Fresh,
      c = elementStatements w fresh.element dst y) (ha x (by simp)) fun dst => ?_
    refine (yields_elements (by simp) (ha y (by simp))).mono ?_
    rintro w _ _ ⟨element, plain, rfl⟩
    exact ⟨{ site := ⟨0, 0⟩, element, plain := ⟨rfl, plain⟩ }, rfl⟩
  case h_3 x _ =>
    cases lhs
    case some lhs =>
      exact (yields_copyTo (hl (by simp)) (ha x (by simp))).mono
        fun _ _ _ h => ⟨{ site := ⟨0, 0⟩ }, h⟩
    case none => exact (Yields.pure () (by simp)).mono fun _ _ _ h => ⟨{ site := ⟨0, 0⟩ }, h.right⟩
  case h_4 h₁ h₂ h₃ =>
    refine (Yields.pure () (by simp)).mono fun w _ c h => ⟨{ site := ⟨0, 0⟩ }, h.right.trans ?_⟩
    unfold builtinStatements
    split <;> simp_all

-- A call whose arguments are still to be named.
theorem yields_invoke_args {result base : Option Var} {kind : CallKind} {ref : MethodRef}
    {args : List Nat} (hk : decide (kind = .static) = base.isNone) (direct : kind ≠ .interface)
    (hr : result.toList ⊆ K) (hb : base.toList ⊆ K) (ha : ∀ x ∈ args, mine x) :
    Yields src mine K (do invoke ⟨result, kind, ref, base, ← values src args⟩) (fun _ => [])
      fun w _ c => c = [.invoke ⟨result, kind, ref, base, args.map w.var⟩] := by
  have known : ∀ xs, (Stmt.invoke ⟨result, kind, ref, base, xs⟩).vars ⊆ xs ++ K := by
    intro xs
    simp only [Stmt.vars, List.append_subset]
    exact ⟨⟨List.subset_append_of_subset_right _ hr, List.subset_append_of_subset_right _ hb⟩,
      List.subset_append_left ..⟩
  refine ((yields_values ha).bind fun xs => yields_invoke (by exact hk) direct (known xs)).mono ?_
  rintro w _ _ ⟨xs, _, _, ⟨rfl, rfl⟩, rfl, rfl⟩
  rfl

theorem yields_callFunction {result : Option Var} {fn : Nat} {args : List Nat}
    (hr : result.toList ⊆ K) (ha : ∀ x ∈ args, mine x) :
    Yields src mine K (callFunction src result fn args) (fun _ => [])
      fun w _ c => c = [.invoke (directCall src w result fn args)] := by
  unfold callFunction directCall
  cases src.isMarker fn
  case true => exact yields_invoke_args (by simp) (by simp) hr (by simp) ha
  case false =>
    simp only [Bool.false_eq_true, if_false]
    refine ((yields_methodRef src fn).bind (U := fun ref w _ c => c = [.invoke
      (match (src.ssa.function fn).recv, args with
        | some _, receiver :: rest =>
          ⟨result, .special, ref, some (w.var receiver), rest.map w.var⟩
        | _, args => ⟨result, .static, ref, none, args.map w.var⟩)]) fun ref => ?called).mono ?call
    case called =>
      cases (src.ssa.function fn).recv
      case none => exact yields_invoke_args (by simp) (by simp) hr (by simp) ha
      case some =>
        cases args
        case nil => exact yields_invoke_args (by simp) (by simp) hr (by simp) ha
        case cons receiver rest =>
          refine yields_value_bind (U := fun w base _ c => c =
            [.invoke ⟨result, .special, ref, some base, rest.map w.var⟩]) (ha receiver (by simp))
            fun base => ?_
          exact yields_invoke_args (by simp) (by simp) (fun _ hx => List.mem_cons_of_mem _ (hr hx))
            (by simp) fun x hx => ha x (List.mem_cons_of_mem _ hx)
    case call =>
      rintro w _ _ ⟨_, _, _, ⟨rfl, rfl⟩, rfl, rfl⟩
      rfl

theorem yields_callInto {r : Option Var} {call : Ssa.Call} (hr : r.toList ⊆ K)
    (hv : mine call.value) (ha : ∀ x ∈ call.args, mine x) :
    Yields src mine K (callInto src r call) (fun _ => [])
      fun w _ c => ∃ fresh, c = callStatements src w fresh r call := by
  have fresh : Fresh := { site := ⟨0, 0⟩ }
  unfold callInto callStatements
  dsimp only
  cases call.method
  case some name =>
    exact (yields_interfaceCall hr hv ha).mono fun _ _ _ h => ⟨fresh, h⟩
  case none =>
    cases (src.ssa.value call.value).kind
    case builtin => exact yields_builtin hr ha
    case function fn => exact (yields_callFunction hr ha).mono fun _ _ _ h => ⟨fresh, h⟩
    all_goals
      exact (yields_emit (s := .nop call.text) trivial (by simp [Stmt.vars])).mono
        fun _ _ _ h => ⟨fresh, h⟩

theorem yields_result {result : Option Nat} (hr : ∀ v, result = some v → mine v) :
    Yields src mine K (result.mapM (value src)) Option.toList
      fun w r c => r = result.map w.var ∧ c = [] := by
  cases result
  case none => exact .pure none (by simp)
  case some v =>
    have tail : ∀ x : Var, Yields src mine ([x] ++ K) (pure (some x)) Option.toList
        fun _ r c => r = some x ∧ c = [] := fun x => .pure (some x) (by simp)
    change Yields src mine K (value src v >>= fun x => pure (some x)) _ _
    refine ((yields_value (hr v rfl)).bind tail).mono ?_
    rintro w _ _ ⟨_, _, _, ⟨rfl, rfl⟩, ⟨rfl, rfl⟩, rfl⟩
    exact ⟨rfl, rfl⟩

theorem yields_call {result : Option Nat} {call : Ssa.Call} (hr : ∀ v, result = some v → mine v)
    (hv : mine call.value) (ha : ∀ x ∈ call.args, mine x) :
    Yields src mine K (Build.call src result call) (fun _ => [])
      fun w _ c => ∃ fresh, c = callStatements src w fresh (result.map w.var) call := by
  refine ((yields_result hr).bind fun r => yields_callInto (by simp) hv ha).mono ?_
  rintro w _ _ ⟨_, _, _, ⟨rfl, rfl⟩, ⟨fresh, rfl⟩, rfl⟩
  exact ⟨fresh, rfl⟩

theorem yields_phi {edges : List Nat} (hv : mine v) (he : ∀ e ∈ edges, mine e) :
    Yields src mine K (instr src body (.phi v edges)) (fun _ => [])
      fun w _ c => c = match commonLiteral? src edges with
        | some c => [.literal (w.var v) c]
        | none => edges.map fun e => .copy (w.var v) (w.var e) := by
  unfold instr
  dsimp only
  cases commonLiteral? src edges
  case some l => exact yields_emit₁ (s := fun a => .literal a l) hv
  case none =>
    refine yields_value_bind (U := fun w lhs _ c => c = edges.map fun e => .copy lhs (w.var e)) hv
      fun lhs => ?_
    refine (yields_forM (g := fun w e => [.copy lhs (w.var e)]) fun e h => ?copied).mono ?copies
    case copied =>
      refine yields_value_bind (U := fun _ rhs _ c => c = [.copy lhs rhs]) (he e h) fun rhs => ?_
      exact yields_emit trivial (by simp [Stmt.vars])
    case copies =>
      rintro w _ _ rfl
      exact List.map_eq_flatMap.symm

theorem yields_ret {results : List Nat} (hr : ∀ r ∈ results, mine r) :
    Yields src mine K (instr src body (.ret results)) (fun _ => [])
      fun w _ c => c = match results with
        | [] => [.ret none]
        | results => results.map fun r => .ret (w.var r) := by
  cases results
  case nil => exact yields_emit trivial (by simp [Stmt.vars])
  case cons first rest =>
    refine (yields_forM (g := fun w r => [.ret (w.var r)]) fun r h =>
      yields_emit₁ (s := fun a => .ret a) (hr r h)).mono ?_
    rintro w _ _ rfl
    exact List.map_eq_flatMap.symm

theorem yields_instr {i : Ssa.Instr} (named : ∀ v ∈ names src body i, mine v) :
    Yields src mine K (instr src body i) (fun _ => [])
      fun w _ c => ∃ fresh, c = statements src body w fresh i := by
  have fresh : Fresh := { site := ⟨0, 0⟩ }
  -- Only allocations and `append` make something up.
  have lift {x : Build Unit} {g : Naming → List Stmt}
      (h : Yields src mine K x (fun _ => []) fun w _ c => c = g w) :
      Yields src mine K x (fun _ => []) fun w _ c => ∃ _ : Fresh, c = g w :=
    h.mono fun _ _ _ h => ⟨fresh, h⟩
  have nothing : Yields src mine K (pure ()) (fun _ => []) fun _ _ c => c = [] :=
    (Yields.pure () (by simp)).mono fun _ _ _ h => h.right
  cases i
  case load v addr =>
    exact lift (yields_load (named v List.mem_cons_self)
      fun x hx => named x (List.mem_cons_of_mem _ hx))
  case store addr x =>
    exact lift (yields_store (fun y hy => named y (List.mem_cons_of_mem _ hy))
      (named x List.mem_cons_self))
  case fieldAddr v x _ | indexAddr v x _ =>
    simp only [names] at named
    unfold instr statements
    dsimp only
    split
    case isTrue => exact lift nothing
    case isFalse h =>
      rw [if_neg h] at named
      exact lift (yields_copy (named v (by simp)) (named x (by simp)))
  case debugRef => exact lift nothing
  all_goals
    have result := fun v hv => named v (List.mem_append_left _ (Option.mem_toList.mpr hv))
    have operand := fun v hv => named v (List.mem_append_right _ hv)
    simp only [Ssa.Instr.operands, Ssa.Instr.result?, List.mem_cons, List.not_mem_nil, or_false,
      forall_eq_or_imp, forall_eq, Option.some.injEq, forall_eq'] at operand result
  case phi v edges => exact lift (yields_phi result operand)
  case ret results => cases results <;> exact lift (yields_ret operand)
  case call v c    => exact yields_call result operand.left operand.right
  all_goals unfold instr statements
  case alloc | make => exact yields_alloc result _
  case makeInterface =>
    dsimp only
    split
    case isTrue  => exact lift (yields_copy result operand)
    case isFalse => exact yields_alloc result _
  case receive     => exact lift (yields_emit₂ result operand)
  case send        => exact lift (yields_emit₂ operand.left operand.right)
  case field =>
    dsimp only
    split
    case isTrue  => exact lift (yields_copy result operand)
    case isFalse => exact lift (yields_emit₂ result operand)
  case index =>
    dsimp only
    split
    case isTrue  => exact lift (yields_copy result operand.left)
    case isFalse =>
      exact lift (yields_emit₃ result operand.left operand.right)
  case lookup =>
    dsimp only
    split
    case isTrue =>
      exact lift (yields_emit₃ result operand.left operand.right)
    case isFalse => exact lift nothing
  case mapUpdate =>
    exact lift (yields_emit₃ operand.left operand.right.left operand.right.right)
  case next =>
    dsimp only
    split
    case isTrue  => exact lift nothing
    case isFalse => exact lift (yields_emit₂ result operand)
  case convert     => exact lift (yields_copy result operand.left)
  case typeAssert  => exact lift (yields_emit₂ result operand)
  case branch      => exact lift (yields_emit₁ operand)
  case panic       => exact lift (yields_emit₁ operand)
  case jump        => exact lift (yields_emit trivial (by simp [Stmt.vars]))
  case other       => exact lift nothing

end Parts
end PointsTo.Lowering
