import PointsTo.Analysis.Report
import PointsTo.Proofs.Lowering.Bodies

namespace PointsTo

theorem Program.Numbered.exists_method? {p : Program} (h : p.Numbered) {i : Nat}
    (hi : i < p.methods.length) : ∃ m, p.method? i = some m := by
  have ⟨m, hm, e⟩ := List.mem_map.mp (h.perm_range.mem_iff.mpr (List.mem_range.mpr hi))
  exact ⟨m, h.method?_eq_some_iff.mpr ⟨hm, e⟩⟩

def Ssa.Instr.isControl : Ssa.Instr → Bool
  | .ret _ | .branch _ | .jump | .panic _ => true
  | _ => false

namespace Lowering

variable {src : Source} {st st' fin : State} {fn : Nat} {m : Method}

structure Initializes (m : Method) : Prop where
  name      : m.name = globalsName
  modifiers : m.modifiers = { isStatic := true }
  body      : m.body ≠ []
  calls     : ∀ call, .invoke call ∉ m.body
  written   : Written m
  tidy      : m.Tidy

-- Parts of a method that building its body does not change.
def SameHead (m m' : Method) : Prop :=
  m'.id = m.id ∧ m'.owner = m.owner ∧ m'.name = m.name ∧ m'.modifiers = m.modifiers

theorem foldl_addCell (src : Source) (globals : List Nat) (hw : Written m)
    (hc : ∀ call, .invoke call ∉ m.body) :
    SameHead m (globals.foldl (addCell src) m) ∧ Written (globals.foldl (addCell src) m) ∧
      ∀ call, .invoke call ∉ (globals.foldl (addCell src) m).body := by
  induction globals generalizing m
  case nil => exact ⟨⟨rfl, rfl, rfl, rfl⟩, hw, hc⟩
  case cons g rest hi =>
    have allocated (name type type' : String) :
        Written ((m.addVar name type).emitAlloc (m.nextVar name type) type') :=
      (hw.addVar ..).emit (fits_alloc (by simp [Method.addVar]))
    have stored : Written (addCell src m g) :=
      (allocated ..).emit (fits_of_isPlain trivial
        (by simp [Stmt.vars, Method.addVar, Method.emitAlloc, Method.emit]))
    exact hi stored (by simpa [addCell, Method.addVar, Method.emitAlloc, Method.emit] using hc)

theorem tidy_foldl_addCell (src : Source) (globals : List Nat) (h : m.Tidy) :
    (globals.foldl (addCell src) m).Tidy :=
  .foldl (fun _ _ h => ((h.addVar ..).emit _).emit _) globals h

def cell (src : Source) (g : Nat) (site : Site) (x : Var) : List Stmt :=
  [.alloc site x (src.ssa.typeText (src.ssa.deref (src.ssa.typeOf g))),
    .storeField none (Build.globalField src g) x]

-- The statements that allocate the cells of some globals. The variables are numbered from `start`
-- on.
inductive Cells (src : Source) : (start : Nat) → List Nat → List Stmt → Prop
  | nil {start : Nat} : Cells src start [] []
  | cons {start g : Nat} {rest : List Nat} {site : Site} {x : Var} {stmts : List Stmt} :
    x.index = start → Cells src (start + 1) rest stmts →
    Cells src start (g :: rest) (cell src g site x ++ stmts)

theorem cells_foldl_addCell (src : Source) (globals : List Nat) (m : Method) :
    ∃ stmts, (globals.foldl (addCell src) m).body = m.body ++ stmts ∧
      Cells src m.vars.length globals stmts := by
  induction globals generalizing m
  case nil => exact ⟨[], by simp, .nil⟩
  case cons g rest hi =>
    have ⟨stmts, body, cells⟩ := hi (addCell src m g)
    have length : (addCell src m g).vars.length = m.vars.length + 1 := by
      simp [addCell, Method.addVar, Method.emitAlloc, Method.emit]
    let x := m.nextVar ("&" ++ (src.ssa.value g).name) (src.ssa.typeText (src.ssa.value g).type)
    have first : (addCell src m g).body = m.body ++ cell src g m.nextSite x := by
      simp [addCell, cell, x, Method.addVar, Method.emitAlloc, Method.emit, Method.nextSite,
        Ssa.Program.typeOf]
    refine ⟨cell src g m.nextSite x ++ stmts, ?_, .cons rfl (length ▸ cells)⟩
    rw [List.foldl_cons, body, first, List.append_assoc]

structure AllocatesCells (src : Source) (pkg : Nat) (globals : List Nat) (m : Method) : Prop where
  owner       : m.owner = (src.ssa.package pkg).path
  initializes : Initializes m
  cells       : ∃ start stmts, m.body = stmts ++ [.ret none] ∧ Cells src start globals stmts

theorem globalsMethod_spec (src : Source) (path : String) (globals : List Nat) (st : State) :
    (globalsMethod src path globals st).id = st.program.methods.length ∧
    (globalsMethod src path globals st).owner = path ∧
    Initializes (globalsMethod src path globals st) := by
  have ⟨r, _, _, _, he⟩ := nextMethod_eq st path globalsName { isStatic := true } globalsName
  have blank : Written (st.nextMethod path globalsName { isStatic := true } globalsName) := by
    rw [he]
    exact .blank rfl
  have empty : ∀ call, Stmt.invoke call ∉
      (st.nextMethod path globalsName { isStatic := true } globalsName).body := by
    simp [he]
  have ⟨⟨hid, howner, hname, hmod⟩, hw, hc⟩ := foldl_addCell src globals blank empty
  have tidy := tidy_foldl_addCell src globals
    (tidy_nextMethod st path globalsName { isStatic := true } globalsName)
  unfold globalsMethod
  rw [he] at hid howner hname hmod hw hc tidy ⊢
  exact ⟨hid, howner, hname, hmod, by simp [Method.emit], by simpa [Method.emit] using hc,
    hw.emit (fits_of_isPlain trivial (by simp [Stmt.vars])), tidy.emit _⟩

theorem allocatesCells_globalsMethod (src : Source) (pkg : Nat) (globals : List Nat) (st : State) :
    AllocatesCells src pkg globals
      (globalsMethod src (src.ssa.package pkg).path globals st) := by
  have ⟨_, owner, initializes⟩ := globalsMethod_spec src (src.ssa.package pkg).path globals st
  refine ⟨owner, initializes, ?_⟩
  have ⟨r, _, _, _, he⟩ := nextMethod_eq st (src.ssa.package pkg).path globalsName
    { isStatic := true } globalsName
  have ⟨stmts, body, cells⟩ := cells_foldl_addCell src globals
    (st.nextMethod (src.ssa.package pkg).path globalsName { isStatic := true } globalsName)
  refine ⟨_, stmts, ?_, cells⟩
  rw [globalsMethod, Method.emit, body, he]
  rfl

-- The methods that are added for the globals in use: one for each of the packages, with the numbers
-- that follow on those of the methods that are there.
def Initialized (src : Source) (globals : List Nat) (p : Program) (pkgs : List Nat) (p' : Program) :
    Prop :=
  ∃ ms : List Method, p'.methods.Perm (ms ++ p.methods) ∧
    ms.map Method.id = List.range' p.methods.length pkgs.length ∧
    List.Forall₂ (fun pkg m =>
      AllocatesCells src pkg (globals.filter fun g => packageOf src.ssa g = some pkg) m) pkgs ms

theorem Initialized.cons {globals pkgs : List Nat} {p p₁ p₂ : Program} {pkg : Nat} {m : Method}
    (added : p₁.methods.Perm (m :: p.methods)) (id : m.id = p.methods.length)
    (cells : AllocatesCells src pkg (globals.filter fun g => packageOf src.ssa g = some pkg) m)
    (h : Initialized src globals p₁ pkgs p₂) : Initialized src globals p (pkg :: pkgs) p₂ := by
  have ⟨ms, perm, ids, all⟩ := h
  refine ⟨m :: ms, ?perm, ?ids, .cons cells all⟩
  case perm =>
    calc List.Perm p₂.methods (ms ++ p₁.methods) := perm
      List.Perm _ (ms ++ m :: p.methods) := added.append_left ms
      List.Perm _ (m :: ms ++ p.methods) := List.perm_middle
  case ids =>
    have length := added.length_eq
    simp only [List.length_cons] at length
    simp [ids, id, length, List.range'_succ]

-- What is added after the bodies. Only the classes of packages get something.
structure Completed (src : Source) (st fin : State) : Prop where
  numbered : fin.program.Numbered
  methods  : fin.methods = st.methods
  vars     : fin.vars = st.vars
  globals  : fin.globals = st.globals
  kept     : ∀ m ∈ st.program.methods, m ∈ fin.program.methods
  new      : ∀ m ∈ fin.program.methods, m ∈ st.program.methods ∨ Initializes m
  found    : ∀ owner sub m, st.program.declared? owner sub = some m →
    fin.program.declared? owner sub = some m
  classes  : ∀ name, (∀ pkg, name ≠ (src.ssa.package pkg).path) →
    fin.program.class? name = st.program.class? name

namespace Completed

theorem refl (src : Source) (h : st.program.Numbered) : Completed src st st :=
  ⟨h, rfl, rfl, rfl, fun _ h => h, fun _ h => .inl h, fun _ _ _ h => h, fun _ _ => rfl⟩

theorem method?_eq (h : Completed src st fin) (ho : Orderly src st) (fn : Nat) :
    fin.method? fn = st.method? fn := by
  have same : fin.methodId? fn = st.methodId? fn := congrArg (List.lookup fn) h.methods
  unfold State.method?
  rw [same]
  cases hid : st.methodId? fn
  case none => rfl
  case some id =>
    have ⟨m, hm, e, _⟩ := ho.declared fn id (ho.methodId?_eq_some_iff.mp hid)
    rw [Option.bind_some, Option.bind_some, ho.numbered.method?_eq_some_iff.mpr ⟨hm, e⟩]
    exact h.numbered.method?_eq_some_iff.mpr ⟨h.kept m hm, e⟩

theorem ensureClass (h : Completed src st fin) (pkg : Nat) :
    ∃ fin', fin.ensureClass (src.ssa.package pkg).path = .ok fin' ∧ Completed src st fin' ∧
      (fin'.program.class? (src.ssa.package pkg).path).isSome ∧
      fin'.program.methods = fin.program.methods := by
  generalize hname : (src.ssa.package pkg).path = name
  unfold State.ensureClass
  split
  case isTrue hc => exact ⟨fin, rfl, h, hc, rfl⟩
  case isFalse hc =>
    have fresh : fin.program.class? name = none := by simpa using hc
    have same := Program.methods_withClass (p := fin.program) (c := { name }) rfl
    refine ⟨fin.withClass { name }, addClass_eq fresh, ?_, isSome_class?_withClass fresh, same⟩
    refine ⟨h.numbered.withClass fresh rfl, h.methods, h.vars, h.globals, same ▸ h.kept, same ▸ h.new,
      fun owner sub m hm => Program.declared?_withClass (h.found owner sub m hm), ?_⟩
    intro other hn
    have ne : other ≠ name := hname ▸ hn pkg
    exact (Program.class?_withClass_of_ne ne).trans (h.classes other hn)

theorem insertMethod (h : Completed src st fin) {pkg : Nat}
    (hc : (fin.program.class? (src.ssa.package pkg).path).isSome) (globals : List Nat) :
    Completed src st (fin.insertMethod (src.ssa.package pkg).path
      (globalsMethod src (src.ssa.package pkg).path globals fin)) := by
  generalize hpath : (src.ssa.package pkg).path = path at hc ⊢
  have ⟨hid, howner, initializes⟩ := globalsMethod_spec src path globals fin
  refine ⟨h.numbered.insertMethod hc hid howner, h.methods, h.vars, h.globals, ?kept, ?new, ?found,
    ?classes⟩
  case kept =>
    exact fun m hm => (h.numbered.mem_methods_insertMethod hc).mpr (.inr (h.kept m hm))
  case new =>
    intro m hm
    cases (h.numbered.mem_methods_insertMethod hc).mp hm
    case inl e  => exact .inr (e ▸ initializes)
    case inr hm => exact h.new m hm
  case found => exact fun owner sub m hm => Program.declared?_insertMethod (h.found owner sub m hm)
  case classes =>
    intro name hn
    exact (Program.class?_insertMethod_of_ne fun e => hn pkg (e.trans hpath.symm)).trans
      (h.classes name hn)

theorem lowerGlobals (h : Completed src st fin) (pkg : Nat) :
    ∃ fin' m, lowerGlobals src fin pkg = .ok fin' ∧ Completed src st fin' ∧
      fin'.program.methods.Perm (m :: fin.program.methods) ∧ m.id = fin.program.methods.length ∧
      AllocatesCells src pkg (st.globals.filter fun g => packageOf src.ssa g = some pkg) m := by
  have ⟨mid, hm, completed, hc, same⟩ := h.ensureClass pkg
  have ⟨hid, _⟩ := globalsMethod_spec src (src.ssa.package pkg).path
    (mid.globals.filter fun g => packageOf src.ssa g = some pkg) mid
  have cells := allocatesCells_globalsMethod src pkg
    (mid.globals.filter fun g => packageOf src.ssa g = some pkg) mid
  refine ⟨_, _, ?_, completed.insertMethod hc _,
    same ▸ Program.methods_insertMethod_perm completed.numbered.names hc, same ▸ hid,
    completed.globals ▸ cells⟩
  simp only [Lowering.lowerGlobals, hm]
  rfl

theorem foldlM (h : Completed src st fin) (pkgs : List Nat) :
    ∃ fin', pkgs.foldlM (Lowering.lowerGlobals src) fin = .ok fin' ∧ Completed src st fin' ∧
      Initialized src st.globals fin.program pkgs fin'.program := by
  induction pkgs generalizing fin
  case nil => exact ⟨fin, rfl, h, [], .refl _, rfl, .nil⟩
  case cons pkg rest hi =>
    have ⟨fin₁, m, h₁, completed, added, id, cells⟩ := h.lowerGlobals pkg
    have ⟨fin₂, h₂, completed, initialized⟩ := hi completed
    refine ⟨fin₂, ?_, completed, initialized.cons added id cells⟩
    rw [List.foldlM_cons, h₁]
    exact h₂

end Completed

section Runs

-- How a lowered program came about: `st₀` after all packages were declared, `st` after all bodies,
-- `fin` in the end.
structure Run (src : Source) (r : Result) (st₀ st fin : State) (done : List Nat) : Prop where
  declared  : Declarations src {} st₀
  functions : ∀ pkg ∈ src.ssa.roots, HasFunctions src pkg st₀
  finishes  : Relation.ReflTransGen (Finish src) st₀ st
  progress  : Progress src done st
  queue     : st.queue = []
  completed : Completed src st fin
  globals   : Initialized src st.globals st.program (usedPackages src st) fin.program
  result    : r =
    { program := fin.program
      starts := (startFunctions src.ssa).map fin.method? ++
        (List.range' st.program.methods.length (usedPackages src st).length).map fin.program.method?
      methods := fin.methods
      vars := fin.vars }

theorem lower_run (ssa : Ssa.Program) (markers : Markers) (main : mains ssa ≠ []) :
    ∃ r st₀ st fin done, lower ssa markers = .ok r ∧
      Run (source ssa markers) r st₀ st fin done := by
  have ⟨st₀, h₀, declared, functions⟩ := declareAll_grows (source ssa markers)
  have ⟨st, h₁, finishes, queue, done, progress⟩ :=
    lowerBodies_finish (progress_of_grows declared.grows) (Nat.lt_succ_self ssa.functions.length)
  have ⟨fin, h₂, completed, initialized⟩ :=
    (Completed.refl (source ssa markers) progress.orderly.numbered).foldlM
      (usedPackages (source ssa markers) st)
  refine ⟨_, st₀, st, fin, done, ?_, declared, functions, finishes, progress, queue, completed,
    initialized, rfl⟩
  unfold lower
  rw [if_neg (by simpa using main), h₀]
  change lowerBodies (source ssa markers) (ssa.functions.length + 1) st₀ >>= finish _ = _
  rw [h₁]
  change finish (source ssa markers) st = _
  simp only [finish, h₂]
  rfl

theorem run_of_lower {ssa : Ssa.Program} {markers : Markers} {r : Result}
    (h : lower ssa markers = .ok r) :
    ∃ st₀ st fin done, Run (source ssa markers) r st₀ st fin done := by
  have main : mains ssa ≠ [] := by
    intro none
    simp [lower, none] at h
  have ⟨r', st₀, st, fin, done, lowered, run⟩ := lower_run ssa markers main
  obtain rfl : r = r' := Except.ok.inj (h.symm.trans lowered)
  exact ⟨st₀, st, fin, done, run⟩

namespace Run

variable {r : Result} {st₀ : State} {done : List Nat}

theorem method?_eq (h : Run src r st₀ st fin done) (fn : Nat) : r.method? fn = st.method? fn := by
  rw [← h.completed.method?_eq h.progress.orderly, h.result]
  rfl

theorem mem_done (h : Run src r st₀ st fin done) (hm : st.method? fn = some m) :
    fn ∈ done ↔ src.hasBody fn := by
  have recorded : (st.methodId? fn).isSome := by
    have ⟨id, hid, _⟩ := Option.bind_eq_some_iff.mp hm
    exact Option.isSome_of_eq_some hid
  have := h.progress.scheduled.queued fn
  simpa [h.queue, recorded] using this

theorem length (h : Run src r st₀ st fin done) : fin.program.methods.length =
    st.program.methods.length + (usedPackages src st).length := by
  have ⟨ms, perm, ids, _⟩ := h.globals
  have added := congrArg List.length ids
  simp only [List.length_map, List.length_range'] at added
  rw [perm.length_eq, List.length_append, added, Nat.add_comm]

theorem none_not_mem_starts (h : Run src r st₀ st fin done) : none ∉ r.starts := by
  rw [h.result]
  intro hn
  cases List.mem_append.mp hn
  case inl hn =>
    have ⟨fn, hf, e⟩ := List.mem_map.mp hn
    have ⟨pkg, hp, hf⟩ := List.mem_flatMap.mp hf
    have ⟨name, _, hf⟩ := List.mem_filterMap.mp hf
    have ⟨member, hm, hf⟩ := List.exists_of_findSome?_eq_some hf
    have root : pkg ∈ src.ssa.roots := List.mem_of_mem_filter hp
    have declared : (st₀.methodId? fn).isSome := by
      split at hf
      case h_1 n fn' =>
        refine h.functions pkg root n fn ?_
        grind
      case h_2 => contradiction
    have ⟨m, hm⟩ := h.progress.orderly.exists_method?
      (Finish.isSome_methodId? h.finishes declared)
    rw [h.completed.method?_eq h.progress.orderly, hm] at e
    contradiction
  case inr hn =>
    have ⟨i, hi, e⟩ := List.mem_map.mp hn
    have hi := List.mem_range'_1.mp hi
    have ⟨m, hm⟩ := h.completed.numbered.exists_method? (i := i) (by rw [h.length]; omega)
    rw [hm] at e
    contradiction

end Run

end Runs

section Main

-- The method of a function whose body is lowered. `locals` are the variables of its values. Those
-- of values that belong to this function alone are the ones to be asked for in the result.
structure Translation (src : Source) (r : Result) (fn : Nat) (m : Method)
    (locals : List (Nat × Var)) : Prop where
  statements : Translates src locals r.method? fn m.body
  loads      : Loads src locals m.body
  written    : Written m
  bound      : ∀ v x, locals.lookup v = some x → x ∈ m.vars
  params     : ∀ v x, (Build.paramPairs m (src.ssa.function fn).params).reverse.lookup v = some x →
    locals.lookup v = some x
  recorded   : ∀ v x, (src.ssa.value v).kind.isOwn → locals.lookup v = some x →
    (∀ fn', src.hasBody fn' → src.Mentions fn' v → fn' = fn) → r.var? v = some x

-- A method that allocates the cells of globals, and belongs to no function.
def Result.IsInitializer (r : Result) (m : Method) : Prop :=
  m.name = globalsName ∧ m.modifiers = { isStatic := true } ∧ ∀ fn, r.method? fn ≠ some m

structure Complete (src : Source) (r : Result) : Prop where
  -- Each function has at most one method, which is not the method of another one.
  functions  : (r.methods.map Prod.fst).Nodup
  present    : ∀ fn id, (fn, id) ∈ r.methods →
    ∃ m ∈ r.program.methods, m.id = id ∧ r.method? fn = some m
  distinct   : ∀ fn fn' m, r.method? fn = some m → r.method? fn' = some m → fn = fn'
  origin     : ∀ m ∈ r.program.methods,
    (∃ fn, r.method? fn = some m) ∨ r.IsInitializer m ∨ m.isAbstract ∨ m.isNative
  -- Exactly these methods have statements, and the statements of functions are the translation of
  -- their instructions.
  filled     : ∀ m ∈ r.program.methods,
    m.body ≠ [] ↔ r.IsInitializer m ∨ ∃ fn, r.method? fn = some m ∧ src.hasBody fn
  translated : ∀ fn m, r.method? fn = some m → src.hasBody fn →
    ∃ locals, Translation src r fn m locals
  receivers  : ∀ m ∈ r.program.methods, ∀ call, .invoke call ∈ m.body →
    (call.kind = .static ↔ call.base = none)
  starts     : none ∉ r.starts

-- Functions that are lowered have blocks, each of which ends in a control instruction.
structure WellFormed (src : Source) : Prop where
  blocks  : ∀ fn, src.hasBody fn → (src.ssa.function fn).blocks ≠ []
  control : ∀ fn, src.hasBody fn → ∀ block ∈ (src.ssa.function fn).blocks,
    block.getLast?.any Ssa.Instr.isControl

theorem statements_ne_nil {body : List Ssa.Instr} {w : Naming} {fresh : Fresh} {i : Ssa.Instr}
    (h : i.isControl) : statements src body w fresh i ≠ [] := by
  cases i
  case ret results => cases results <;> simp [statements]
  case branch | jump | panic => simp [statements]
  all_goals contradiction

-- What nobody knows is called anything.
def naming (locals : List (Nat × Var)) (method? : Nat → Option Method) : Naming where
  var v := (locals.lookup v).getD .absent
  ref fn := ((method? fn).map Method.ref).getD ⟨"", ""⟩

theorem knows_naming (locals : List (Nat × Var)) (method? : Nat → Option Method) :
    (naming locals method?).Knows locals method? where
  var v x hv := by simp [naming, hv]
  ref fn m hm := by simp [naming, hm]

theorem Translates.exists_instr {locals : List (Nat × Var)} {method? : Nat → Option Method}
    {stmts : List Stmt} (h : Translates src locals method? fn stmts) {s : Stmt} (hs : s ∈ stmts)
    (hl : s.isGlobalLoad = false) :
    ∃ i ∈ (src.ssa.function fn).blocks.flatten, ∃ fresh,
      s ∈ statements src (src.ssa.function fn).blocks.flatten (naming locals method?) fresh i := by
  obtain ⟨chunks, rfl, hT⟩ := h
  have ⟨chunk, hc, hs⟩ := List.mem_flatten.mp hs
  have ⟨i, hi, translated⟩ := exists_of_forall₂ hT.flip hc
  have ⟨fresh, e⟩ := translated _ (knows_naming locals method?)
  exact ⟨i, hi, fresh, e ▸ List.mem_filter.mpr ⟨hs, by simp [hl]⟩⟩

theorem Translates.ne_nil {locals : List (Nat × Var)} {method? : Nat → Option Method}
    {stmts : List Stmt} (h : Translates src locals method? fn stmts) (wellFormed : WellFormed src)
    (hb : src.hasBody fn) : stmts ≠ [] := by
  have ⟨chunks, hs, hT⟩ := h
  have ⟨block, hblock⟩ := List.exists_mem_of_ne_nil _ (wellFormed.blocks fn hb)
  have ⟨i, hi, control⟩ := (Option.any_eq_true ..).mp (wellFormed.control fn hb block hblock)
  have mem : i ∈ (src.ssa.function fn).blocks.flatten :=
    List.mem_flatten.mpr ⟨block, hblock, List.mem_of_getLast? hi⟩
  have ⟨chunk, hc, translated⟩ := exists_of_forall₂ hT mem
  have ⟨fresh, e⟩ := translated _ (knows_naming locals method?)
  have some : proper chunk ≠ [] := e ▸ statements_ne_nil control
  have ⟨s, hs'⟩ := List.exists_mem_of_ne_nil _ some
  have hs' : s ∈ chunk := List.mem_of_mem_filter hs'
  rw [hs]
  exact List.ne_nil_of_mem (List.mem_flatten.mpr ⟨chunk, hc, hs'⟩)

namespace Run

variable {r : Result} {st₀ : State} {done : List Nat}

theorem lowered (h : Run src r st₀ st fin done) (hm : r.method? fn = some m)
    (hb : src.hasBody fn) : ∃ locals, Translation src r fn m locals ∧
      Holds src (Build.paramPairs m (src.ssa.function fn).params).reverse locals m.body ∧
      ∀ v x, (src.ssa.value v).kind.isOwn → locals.lookup v = some x → src.Names fn v := by
  have same : r.method? = st.method? := funext h.method?_eq
  rw [same] at hm
  have ⟨locals, lowered⟩ := h.progress.filled.lowered fn ((h.mem_done hm).mpr hb) m hm
  refine ⟨locals, ⟨same ▸ lowered.translated, lowered.loads, lowered.written, lowered.bound,
    lowered.params, fun v x own hv only => ?_⟩, lowered.holds, lowered.named⟩
  rw [Result.var?, h.result, h.completed.vars]
  exact lowered.recorded v x own hv only

theorem translation (h : Run src r st₀ st fin done) (hm : r.method? fn = some m)
    (hb : src.hasBody fn) : ∃ locals, Translation src r fn m locals := by
  have ⟨locals, translation, _⟩ := h.lowered hm hb
  exact ⟨locals, translation⟩

-- Variables are recorded for what the bodies are about.
theorem names_of_var? (h : Run src r st₀ st fin done) {v : Nat} {x : Var}
    (hx : r.var? v = some x) : ∃ fn, src.hasBody fn ∧ src.Names fn v := by
  rw [Result.var?, h.result, h.completed.vars] at hx
  have ⟨fn, hf, hv⟩ := h.progress.filled.named v x hx
  exact ⟨fn, ((h.progress.scheduled.queued fn).mp (List.mem_append_left _ hf)).left, hv⟩

-- Every method comes from a function, has no body, or was added in the end.
theorem origin (h : Run src r st₀ st fin done) (hm : m ∈ r.program.methods) :
    (∃ fn, r.method? fn = some m) ∨ (∀ fn, r.method? fn ≠ some m) ∧
      (m.body = [] ∧ (m.isAbstract ∨ m.isNative) ∨ Initializes m) := by
  by_cases hf : ∃ fn, r.method? fn = some m
  case pos => exact .inl hf
  case neg =>
    refine .inr ⟨by simpa using hf, ?_⟩
    simp only [h.method?_eq, h.progress.orderly.method?_eq_some_iff] at hf
    rw [h.result] at hm
    cases h.completed.new m hm
    case inr new => exact .inr new
    case inl old =>
      cases h.progress.orderly.bare m old
      case inr bare => exact .inl bare
      case inl hid =>
        have ⟨⟨fn, id⟩, hid, e⟩ := List.mem_map.mp hid
        exact absurd ⟨fn, e ▸ hid, old⟩ hf

theorem blank (h : Run src r st₀ st fin done) (hm : r.method? fn = some m)
    (hb : ¬ src.hasBody fn) : m.body = [] := by
  rw [h.method?_eq] at hm
  exact h.progress.filled.blank fn m hm (mt (h.mem_done hm).mp hb)

theorem body_ne_nil_iff (h : Run src r st₀ st fin done) (wellFormed : WellFormed src)
    (hm : r.method? fn = some m) : m.body ≠ [] ↔ src.hasBody fn := by
  refine ⟨fun hne => by_contra fun hb => hne (h.blank hm hb), fun hb => ?_⟩
  have ⟨locals, translation⟩ := h.translation hm hb
  exact translation.statements.ne_nil wellFormed hb

theorem body_ne_nil_iff_filled (h : Run src r st₀ st fin done) (wellFormed : WellFormed src)
    (hm : m ∈ r.program.methods) :
    m.body ≠ [] ↔ r.IsInitializer m ∨ ∃ fn, r.method? fn = some m ∧ src.hasBody fn := by
  obtain ⟨fn, hf⟩ | ⟨none, ⟨hb, bare⟩ | initializes⟩ := h.origin hm
  case inl =>
    have filled := h.body_ne_nil_iff wellFormed hf
    constructor
    case mp => exact fun hne => .inr ⟨fn, hf, filled.mp hne⟩
    case mpr =>
      rintro (initializer | ⟨fn', hf', hb⟩)
      case inl => exact absurd hf (initializer.right.right fn)
      case inr => exact (h.body_ne_nil_iff wellFormed hf').mpr hb
  case inr.inl =>
    refine iff_of_false (by simp [hb]) ?_
    rintro (⟨_, modifiers, _⟩ | ⟨fn, hf, _⟩)
    case inl => simp [Method.isAbstract, Method.isNative, modifiers] at bare
    case inr => exact none fn hf
  case inr.inr =>
    exact iff_of_true initializes.body (.inl ⟨initializes.name, initializes.modifiers, none⟩)

theorem written (h : Run src r st₀ st fin done) (hm : m ∈ r.program.methods) : Written m := by
  obtain ⟨fn, hf⟩ | ⟨_, ⟨hb, _⟩ | initializes⟩ := h.origin hm
  case inl =>
    by_cases hb : src.hasBody fn
    case pos =>
      have ⟨locals, translation⟩ := h.translation hf hb
      exact translation.written
    case neg => exact .blank (h.blank hf hb)
  case inr.inl => exact .blank hb
  case inr.inr => exact initializes.written

theorem complete (h : Run src r st₀ st fin done) (wellFormed : WellFormed src) :
    Complete src r where
  functions := by
    rw [h.result, h.completed.methods]
    exact h.progress.orderly.keys
  present := by
    intro fn id hid
    rw [h.result, h.completed.methods] at hid
    have ⟨m, hm, e, _⟩ := h.progress.orderly.declared fn id hid
    refine ⟨m, ?mem, e, ?found⟩
    case mem =>
      rw [h.result]
      exact h.completed.kept m hm
    case found =>
      rw [h.method?_eq]
      exact h.progress.orderly.method?_eq_some_iff.mpr ⟨e ▸ hid, hm⟩
  distinct := by
    intro fn fn' m hm hm'
    rw [h.method?_eq] at hm hm'
    exact h.progress.orderly.eq_of_method? hm hm'
  origin := by
    intro m hm
    obtain hf | ⟨none, ⟨_, bare⟩ | initializes⟩ := h.origin hm
    case inl     => exact .inl hf
    case inr.inl => exact .inr (.inr bare)
    case inr.inr => exact .inr (.inl ⟨initializes.name, initializes.modifiers, none⟩)
  filled := fun m hm => h.body_ne_nil_iff_filled wellFormed hm
  translated := fun fn m hm hb => h.translation hm hb
  receivers := by
    intro m hm call hc
    have matched : decide (call.kind = .static) = call.base.isNone := (h.written hm).calls call hc
    rw [← Option.isNone_iff_eq_none, ← matched, decide_eq_true_iff]
  starts := h.none_not_mem_starts

end Run

theorem analyze_ok {s : Analysis.Settings} (program : s.program.isSome) (objects : s.objects.isSome)
    (entries : none ∉ s.entries) (limits : 0 ≤ s.maxSweeps ∧ 0 ≤ s.maxSteps) :
    ∃ result, Analysis.analyze s = .ok result := by
  have ⟨p, program⟩ := Option.isSome_iff_exists.mp program
  have ⟨o, objects⟩ := Option.isSome_iff_exists.mp objects
  have limits : ¬ (s.maxSweeps < 0 ∨ s.maxSteps < 0) := by omega
  simp only [Analysis.analyze, Analysis.Settings.problem, program, objects, entries, limits,
    if_false]
  exact ⟨_, rfl⟩

-- A type with a method `get`, and a wrapper of that method, which has the same name. `main` calls
-- the wrapper, and the wrapper calls the method.
namespace Sample

def getType : Ssa.Ty where
  text       := "main.T"
  kind       := .named 0 0 [1]
  underlying := 1

def main : Ssa.Function where
  name        := "main"
  text        := "main.main"
  pkg         := some 0
  isSynthetic := false
  isNested    := false
  hasBlocks   := true
  recv        := none
  signature   := []
  blocks      := [[.alloc 0, .call (some 1) ⟨none, 6, [0], "t0.get()"⟩, .ret []]]

def get : Ssa.Function where
  name        := "get"
  text        := "(*main.T).get"
  pkg         := some 0
  isSynthetic := false
  isNested    := false
  hasBlocks   := true
  recv        := some 2
  signature   := []
  params      := [2]
  blocks      := [[.ret [2]]]

def wrapper : Ssa.Function where
  name        := "get"
  text        := "(main.T).get"
  pkg         := none
  isSynthetic := true
  isNested    := false
  hasBlocks   := true
  recv        := some 0
  signature   := []
  params      := [4]
  blocks      := [[.call (some 5) ⟨none, 3, [4], "q.get()"⟩, .ret [5]]]

def ssa : Ssa.Program where
  roots     := [0]
  packages  := [⟨"main", "main", [.function "main" 0, .type "T" 0]⟩]
  types     := [getType, ⟨"struct{}", .struct [], 1⟩, ⟨"*main.T", .pointer 0, 2⟩]
  functions := [main, get, wrapper]
  values    := [⟨"t0", 2, .reg⟩, ⟨"t1", 2, .reg⟩, ⟨"p", 2, .param⟩, ⟨"get", 2, .function 1⟩,
    ⟨"q", 2, .param⟩, ⟨"t2", 2, .reg⟩, ⟨"get", 2, .function 2⟩]

def lowered : Result :=
  match lower ssa {} with
  | .ok r => r
  | .error _ => ⟨{}, [], [], []⟩

def settings : Analysis.Settings where
  program := some lowered.program
  objects := some { allocations := [⟨⟨0, 2⟩, 1, "main.T"⟩] }
  entries := lowered.starts

theorem wellFormed : WellFormed (source ssa {}) := by
  have all : ∀ fn < 3, (ssa.function fn).blocks ≠ [] ∧
      ∀ block ∈ (ssa.function fn).blocks, block.getLast?.any Ssa.Instr.isControl := by decide
  exact ⟨fun fn hb => (all fn (lt_of_hasBody hb)).left,
    fun fn hb => (all fn (lt_of_hasBody hb)).right⟩

theorem lower_ssa : lower ssa {} = .ok lowered := by
  have ⟨r, _, _, _, _, h, _⟩ := lower_run ssa {} (by decide)
  unfold lowered
  rw [h]

theorem methods_lowered : lowered.methods = [(2, 4), (1, 3), (0, 2)] := by
  decide +kernel

end Sample

end Main
end Lowering
end PointsTo
