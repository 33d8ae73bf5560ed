import PointsTo.Proofs.Lowering.DirectCalls
import PointsTo.Proofs.Numbering

namespace PointsTo

open Analysis

-- What a converged result is about.
theorem Analysis.exists_fixedPoint {s : Settings} {result : Analysis.Result} {program : Program}
    (hp : s.program = some program) (done : analyze s = .ok result)
    (converged : result.converged) :
    ∃ p : Problem, FixedPoint p result ∧ p.program = program ∧
      s.objects = some p.scene.objects ∧ p.entries = s.entries.filterMap id := by
  cases h : s.problem
  case error e => simp [analyze, h, Except.map] at done
  case ok p =>
    have hr := run_eq_of_analyze h done
    subst hr
    refine ⟨p, fixedPoint_run (Settings.coherent h) converged, ?_⟩
    obtain ⟨program', objects', hp', ho', rfl⟩ := Settings.problem_eq h
    exact ⟨Option.some.inj (hp'.symm.trans hp), ho', rfl⟩

namespace Lowering

variable {src : Source} {st st' fin : State} {fn g : Nat} {m : Method} {r : Result}

section Cells

variable {start : Nat} {globals : List Nat} {stmts : List Stmt}

theorem Cells.le_index (h : Cells src start globals stmts) {s : Stmt} (hs : s ∈ stmts) {x : Var}
    (hx : x ∈ s.vars) : start ≤ x.index := by
  induction h
  case nil => contradiction
  case cons site y _ index _ hi =>
    cases List.mem_append.mp hs
    case inr hs => exact Nat.le_of_succ_le (hi hs)
    case inl hs =>
      obtain rfl : x = y := by
        simp only [cell, List.mem_cons, List.not_mem_nil, or_false] at hs
        rcases hs with rfl | rfl <;> simpa [Stmt.vars] using hx
      exact index.ge

theorem Cells.exists_of_store (h : Cells src start globals stmts) {ref : FieldRef} {x : Var}
    (hs : .storeField none ref x ∈ stmts) : ∃ g ∈ globals, Build.globalField src g = ref := by
  induction h
  case nil => contradiction
  case cons g _ _ _ _ _ _ hi =>
    cases List.mem_append.mp hs
    case inl hs => exact ⟨g, List.mem_cons_self, by simp_all [cell]⟩
    case inr hs =>
      obtain ⟨g', hg, e⟩ := hi hs
      exact ⟨g', List.mem_cons_of_mem _ hg, e⟩

-- Some statements allocate the cell of a global exactly once, into a variable that has no other
-- use, and store it to the static field of the global.
def CellAt (src : Source) (stmts : List Stmt) (g : Nat) (site : Site) (x : Var) : Prop :=
  ∃ before after, stmts = before ++ cell src g site x ++ after ∧
    (∀ s ∈ before ++ after, x ∉ s.vars) ∧
    ∀ y, .storeField none (Build.globalField src g) y ∉ before ++ after

theorem Cells.exists_cellAt (h : Cells src start globals stmts)
    (distinct : (globals.map (Build.globalField src)).Nodup) (hg : g ∈ globals) :
    ∃ site x, CellAt src stmts g site x := by
  induction h
  case nil => contradiction
  case cons g₀ rest site₀ x₀ stmts index cells hi =>
    have ⟨new, distinct⟩ := List.nodup_cons.mp distinct
    cases List.mem_cons.mp hg
    case inl e =>
      subst e
      refine ⟨site₀, x₀, [], stmts, rfl, fun s hs hx => ?site, fun y hy => ?stores⟩
      case site =>
        have := cells.le_index hs hx
        omega
      case stores =>
        have ⟨g', hg', e⟩ := cells.exists_of_store hy
        exact new (e ▸ List.mem_map_of_mem hg')
    case inr hg =>
      obtain ⟨site, x, before, after, rfl, unused, once⟩ := hi distinct hg
      have stored : .storeField none (Build.globalField src g) x ∈
          before ++ cell src g site x ++ after := by simp [cell]
      have ne : x ≠ x₀ := by
        have := cells.le_index stored (List.mem_singleton_self x)
        rintro rfl
        omega
      have other : Build.globalField src g ≠ Build.globalField src g₀ :=
        fun e => new (e ▸ List.mem_map_of_mem hg)
      refine ⟨site, x, cell src g₀ site₀ x₀ ++ before, after, by simp,
        fun s hs => ?site, fun y hy => ?stores⟩
      case site =>
        rw [List.append_assoc] at hs
        cases List.mem_append.mp hs
        case inr hs => exact unused s hs
        case inl hs =>
          simp only [cell, List.mem_cons, List.not_mem_nil, or_false] at hs
          rcases hs with rfl | rfl <;> simpa [Stmt.vars] using ne
      case stores =>
        rw [List.append_assoc] at hy
        cases List.mem_append.mp hy
        case inr hy => exact once y hy
        case inl hy => simp_all [cell]

theorem CellAt.ret {site : Site} {x : Var} (h : CellAt src stmts g site x) :
    CellAt src (stmts ++ [.ret none]) g site x := by
  obtain ⟨before, after, rfl, unused, once⟩ := h
  refine ⟨before, after ++ [.ret none], by simp, ?site, ?stores⟩
  case site =>
    intro s hs
    rw [← List.append_assoc] at hs
    cases List.mem_append.mp hs
    case inl hs => exact unused s hs
    case inr hs => simp [List.mem_singleton.mp hs, Stmt.vars]
  case stores =>
    intro y hy
    rw [← List.append_assoc] at hy
    cases List.mem_append.mp hy
    case inl hy => exact once y hy
    case inr hy => simp at hy

end Cells

section Tracking

variable {mine : Nat → Prop} {b b' b'' : Body}

def LoadsField (stmts : List Stmt) (ref : FieldRef) : Prop :=
  ∃ x, .loadField x none ref ∈ stmts

-- While a body is built, exactly the globals that it loads come into use.
structure Tracks (src : Source) (b b' : Body) : Prop where
  nodup  : b.shared.globals.Nodup → b'.shared.globals.Nodup
  kept   : b.shared.globals ⊆ b'.shared.globals
  body   : b.method.body ⊆ b'.method.body
  origin : ∀ g ∈ b'.shared.globals, g ∈ b.shared.globals ∨
    (∃ pkg, (src.ssa.value g).kind = .global pkg) ∧
      LoadsField b'.method.body (Build.globalField src g)
  loads  : ∀ ref, LoadsField b'.method.body ref → LoadsField b.method.body ref ∨
    ∃ g ∈ b'.shared.globals, Build.globalField src g = ref

theorem LoadsField.mono {stmts stmts' : List Stmt} {ref : FieldRef} (h : LoadsField stmts ref)
    (sub : stmts ⊆ stmts') : LoadsField stmts' ref :=
  h.imp fun _ hs => sub hs

theorem Tracks.refl (src : Source) (b : Body) : Tracks src b b :=
  ⟨id, fun _ h => h, fun _ h => h, fun _ => .inl, fun _ => .inl⟩

theorem Tracks.trans (h : Tracks src b b') (h' : Tracks src b' b'') : Tracks src b b'' where
  nodup hn := h'.nodup (h.nodup hn)
  kept := fun _ hg => h'.kept (h.kept hg)
  body := fun _ hs => h'.body (h.body hs)
  origin g hg := by
    obtain hg | new := h'.origin g hg
    case inr => exact .inr new
    case inl =>
      obtain hg | ⟨kind, loads⟩ := h.origin g hg
      case inl => exact .inl hg
      case inr => exact .inr ⟨kind, loads.mono h'.body⟩
  loads ref hl := by
    obtain hl | new := h'.loads ref hl
    case inr => exact .inr new
    case inl =>
      obtain hl | ⟨g, hg, e⟩ := h.loads ref hl
      case inl => exact .inl hl
      case inr => exact .inr ⟨g, h'.kept hg, e⟩

-- Steps that use no global add no load of one.
theorem Tracks.of_globals_eq (globals : b'.shared.globals = b.shared.globals) {chunk : List Stmt}
    (body : b'.method.body = b.method.body ++ chunk) (none : ∀ s ∈ chunk, s.isGlobalLoad = false) :
    Tracks src b b' := by
  refine ⟨globals ▸ id, globals ▸ fun _ h => h, ?body, globals ▸ fun _ => .inl,
    fun ref hl => .inl ?loads⟩
  case body =>
    rw [body]
    exact List.subset_append_left ..
  case loads =>
    obtain ⟨x, hx⟩ := hl
    rw [body] at hx
    refine ⟨x, (List.mem_append.mp hx).resolve_right fun hx => ?_⟩
    simpa [Stmt.isGlobalLoad] using none _ hx

theorem globals_useGlobal : (st.useGlobal g).globals =
    if g ∈ st.globals then st.globals else st.globals ++ [g] := by
  unfold State.useGlobal
  split
  case isTrue  => rfl
  case isFalse => rfl

theorem tracks_load {pkg : Nat} {name type : String} (hk : (src.ssa.value g).kind = .global pkg) :
    Tracks src b (b.load src g name type) := by
  have globals : (b.load src g name type).shared.globals =
      if g ∈ b.shared.globals then b.shared.globals else b.shared.globals ++ [g] :=
    globals_useGlobal
  have body : (b.load src g name type).method.body = b.method.body ++
      [.loadField (b.method.nextVar name type) none (Build.globalField src g)] := rfl
  have used : g ∈ (b.load src g name type).shared.globals := by
    rw [globals]
    split <;> simp_all
  refine ⟨?nodup, ?kept, ?body, ?origin, ?loads⟩
  case nodup =>
    intro nodup
    rw [globals]
    split
    case isTrue => exact nodup
    case isFalse hn => exact List.nodup_append.mpr ⟨nodup, List.nodup_singleton g, by grind⟩
  case kept =>
    rw [globals]
    split
    case isTrue  => exact fun _ h => h
    case isFalse => exact List.subset_append_left ..
  case body =>
    rw [body]
    exact List.subset_append_left ..
  case origin =>
    intro g' hg
    by_cases e : g' = g
    case pos => exact .inr ⟨⟨pkg, e ▸ hk⟩, b.method.nextVar name type, by simp [body, e]⟩
    case neg =>
      rw [globals] at hg
      split at hg
      case isTrue  => exact .inl hg
      case isFalse => exact .inl (by simpa [e] using hg)
  case loads =>
    rintro ref ⟨x, hx⟩
    rw [body] at hx
    cases List.mem_append.mp hx
    case inl hx => exact .inl ⟨x, hx⟩
    case inr hx => exact .inr ⟨g, used, by simp_all⟩

theorem Act.tracks (h : Act src mine b b') : Tracks src b b' := by
  cases h
  case declare step =>
    exact .of_globals_eq step.grows.keeps.globals (List.append_nil _).symm (by simp)
  case temp | hold | record => exact .of_globals_eq rfl (List.append_nil _).symm (by simp)
  case load hk              => exact tracks_load hk
  case emit s _ _ hs        => exact .of_globals_eq rfl rfl (by simpa using hs)

theorem Acts.tracks (h : Acts src mine b b') : Tracks src b b' := by
  induction h
  case refl         => exact .refl src b
  case tail step hi => exact hi.trans step.tracks

-- The globals in use are those that some function loads.
structure UsedGlobals (src : Source) (st : State) : Prop where
  nodup  : st.globals.Nodup
  origin : ∀ g ∈ st.globals, (∃ pkg, (src.ssa.value g).kind = .global pkg) ∧
    ∃ fn m, st.method? fn = some m ∧ LoadsField m.body (Build.globalField src g)
  loads  : ∀ fn m ref, st.method? fn = some m → LoadsField m.body ref →
    ∃ g ∈ st.globals, Build.globalField src g = ref

theorem UsedGlobals.of_declarations (h : Declarations src {} st) : UsedGlobals src st := by
  have none : st.globals = [] := h.grows.keeps.globals
  refine ⟨by simp [none], by simp [none], fun fn m ref hm ⟨x, hx⟩ => ?_⟩
  have blank := (progress_of_grows h.grows).filled.blank fn m hm (by simp)
  simp [blank] at hx

theorem UsedGlobals.finish (h : UsedGlobals src st) (orderly : Orderly src st)
    (f : Finish src st st') : UsedGlobals src st' := by
  cases f
  case intro fn rest m b stmts built =>
    have tracks := built.acts.tracks
    have filled : (b.shared.fill m b.method).method? fn = some b.method := by
      rw [built.method?_eq orderly, if_pos rfl]
    refine ⟨tracks.nodup h.nodup, fun g hg => ?origin, fun fn' k ref hk hl => ?loads⟩
    case origin =>
      obtain hg | ⟨kind, loads⟩ := tracks.origin g hg
      case inr => exact ⟨kind, fn, b.method, filled, loads⟩
      case inl =>
        have ⟨kind, fn', k, hk, loads⟩ := h.origin g hg
        by_cases e : fn' = fn
        case pos =>
          subst e
          obtain rfl : m = k := Option.some.inj (built.method.symm.trans hk)
          exact ⟨kind, fn', b.method, filled, loads.mono tracks.body⟩
        case neg =>
          refine ⟨kind, fn', k, ?_, loads⟩
          rw [built.method?_eq orderly, if_neg e]
          exact built.kept orderly hk
    case loads =>
      have old {fn' : Nat} {k : Method} (hk : st.method? fn' = some k) (hl : LoadsField k.body ref) :
          ∃ g ∈ b.shared.globals, Build.globalField src g = ref := by
        have ⟨g, hg, e⟩ := h.loads fn' k ref hk hl
        exact ⟨g, tracks.kept hg, e⟩
      by_cases e : fn' = fn
      case pos =>
        subst e
        obtain rfl : b.method = k := Option.some.inj (filled.symm.trans hk)
        obtain hl | new := tracks.loads ref hl
        case inl => exact old built.method hl
        case inr => exact new
      case neg =>
        obtain hk | ⟨_, blank⟩ := built.method?_of_ne orderly e hk
        case inl => exact old hk hl
        case inr =>
          obtain ⟨x, hx⟩ := hl
          simp [blank] at hx

theorem UsedGlobals.finishes (h : UsedGlobals src st) (orderly : Orderly src st)
    (f : Relation.ReflTransGen (Finish src) st st') : UsedGlobals src st' ∧ Orderly src st' := by
  induction f
  case refl => exact ⟨h, orderly⟩
  case tail step hi => exact ⟨hi.left.finish hi.right step, step.orderly hi.right⟩

theorem Run.usedGlobals {st₀ : State} {done : List Nat} (h : Run src r st₀ st fin done) :
    UsedGlobals src st :=
  ((UsedGlobals.of_declarations h.declared).finishes
    ((Orderly.empty src).grows h.declared.grows) h.finishes).left

end Tracking

-- Globals as real programs have them: packages have paths of their own, globals have names of their
-- own within their packages, and no parameter is a global.
structure WellPlaced (src : Source) : Prop where
  paths  : ∀ g g' pkg pkg', (src.ssa.value g).kind = .global pkg →
    (src.ssa.value g').kind = .global pkg' →
    (src.ssa.package pkg).path = (src.ssa.package pkg').path → pkg = pkg'
  names  : ∀ g g' pkg, (src.ssa.value g).kind = .global pkg → (src.ssa.value g').kind = .global pkg →
    (src.ssa.value g).name = (src.ssa.value g').name → g = g'
  params : ∀ fn, src.hasBody fn → ∀ v ∈ (src.ssa.function fn).params, ∀ pkg,
    (src.ssa.value v).kind ≠ .global pkg

theorem globalField_eq {pkg : Nat} (hk : (src.ssa.value g).kind = .global pkg) :
    Build.globalField src g = ⟨(src.ssa.package pkg).path, (src.ssa.value g).name⟩ := by
  simp [Build.globalField, hk]

theorem WellPlaced.eq_of_globalField {g' pkg pkg' : Nat} (placed : WellPlaced src)
    (hk : (src.ssa.value g).kind = .global pkg) (hk' : (src.ssa.value g').kind = .global pkg')
    (e : Build.globalField src g = Build.globalField src g') : g = g' := by
  rw [globalField_eq hk, globalField_eq hk'] at e
  obtain ⟨path, name⟩ := FieldRef.mk.inj e
  obtain rfl := placed.paths g g' pkg pkg' hk hk' path
  exact placed.names g g' pkg hk hk' name

section Functions

def loadedField? : Stmt → Option FieldRef
  | .loadField _ none ref => some ref
  | _ => none

theorem filterMap_loadedField? (stmts : List Stmt) :
    (stmts.filter (·.isGlobalLoad)).filterMap loadedField? = stmts.filterMap loadedField? := by
  rw [List.filterMap_filter]
  congr
  funext s
  unfold loadedField? Stmt.isGlobalLoad
  split <;> simp_all

-- No two loads of a function are about the same global.
theorem Loads.nodup {locals : List (Nat × Var)} {stmts : List Stmt} (h : Loads src locals stmts)
    (placed : WellPlaced src) : (stmts.filterMap loadedField?).Nodup := by
  have ⟨globals, nodup, loads⟩ := h
  have kinds : ∀ g ∈ globals, ∃ pkg, (src.ssa.value g).kind = .global pkg := by
    intro g hg
    have ⟨_, _, pkg, _, hk, _⟩ := exists_of_forall₂ loads hg
    exact ⟨pkg, hk⟩
  have fields : stmts.filterMap loadedField? = globals.map (Build.globalField src) := by
    rw [← filterMap_loadedField?]
    clear kinds nodup
    generalize stmts.filter (·.isGlobalLoad) = loaded at loads
    induction loads
    case nil => rfl
    case cons loaded _ hi =>
      obtain ⟨_, _, _, _, rfl⟩ := loaded
      simp [loadedField?, hi]
  rw [fields]
  refine nodup.map_on fun g hg g' hg' e => ?_
  have ⟨_, hk⟩ := kinds g hg
  have ⟨_, hk'⟩ := kinds g' hg'
  exact placed.eq_of_globalField hk hk' e

theorem not_mem_of_nodup_loadedField? {before after : List Stmt} {x : Var} {ref : FieldRef}
    (nodup : ((before ++ .loadField x none ref :: after).filterMap loadedField?).Nodup) (y : Var) :
    .loadField y none ref ∉ before ++ after := by
  intro hy
  have mem : ref ∈ (before ++ after).filterMap loadedField? :=
    List.mem_filterMap.mpr ⟨_, hy, rfl⟩
  have new : ref ∉ (before ++ after).filterMap loadedField? := by
    rw [List.filterMap_append] at nodup ⊢
    exact (List.nodup_middle.mp nodup).notMem
  exact new mem

-- A function whose body is lowered, with its method and the variables of its values.
structure Finished (src : Source) (r : Result) (fn : Nat) (m : Method)
    (locals : List (Nat × Var)) : Prop where
  hasBody  : src.hasBody fn
  declares : Declares src fn m
  body     : Translation src r fn m locals
  holds    : Holds src (Build.paramPairs m (src.ssa.function fn).params).reverse locals m.body
  named    : ∀ v x, (src.ssa.value v).kind.isOwn → locals.lookup v = some x → src.Names fn v

namespace Finished

variable {locals : List (Nat × Var)} {v : Nat}

-- The statements of an instruction are there.
theorem exists_statements (h : Finished src r fn m locals) {i : Ssa.Instr}
    (hi : i ∈ (src.ssa.function fn).blocks.flatten) :
    ∃ fresh, statements src (src.ssa.function fn).blocks.flatten (naming locals r.method?) fresh i ⊆
      m.body := by
  have ⟨chunk, sub, translated⟩ := h.body.statements.exists_chunk hi
  have ⟨fresh, e⟩ := translated _ (knows_naming locals r.method?)
  exact ⟨fresh, e ▸ sub⟩

theorem lookup_of_mem (h : Finished src r fn m locals) {s : Stmt} (hs : s ∈ m.body)
    (hv : (naming locals r.method?).var v ∈ s.vars) :
    locals.lookup v = some ((naming locals r.method?).var v) :=
  h.declares.lookup_of_mem (h.body.written.vars s hs _ hv)

end Finished

-- The translation of some instruction of the function refers to the variable of the value, whatever
-- variables are called.
def Source.Uses (src : Source) (fn v : Nat) : Prop :=
  ∃ i ∈ (src.ssa.function fn).blocks.flatten, ∀ (w : Naming) (fresh : Fresh),
    ∃ s ∈ statements src (src.ssa.function fn).blocks.flatten w fresh i, w.var v ∈ s.vars

theorem Finished.lookup_of_uses {locals : List (Nat × Var)} {v : Nat}
    (h : Finished src r fn m locals) (uses : src.Uses fn v) : ∃ x, locals.lookup v = some x := by
  have ⟨i, hi, uses⟩ := uses
  have ⟨fresh, sub⟩ := h.exists_statements hi
  have ⟨s, hs, hx⟩ := uses (naming locals r.method?) fresh
  exact ⟨_, h.lookup_of_mem (sub hs) hx⟩

-- A global is loaded once, and before its variable is used otherwise.
def LoadedOnce (stmts : List Stmt) (x : Var) (ref : FieldRef) : Prop :=
  ∃ before after, stmts = before ++ .loadField x none ref :: after ∧ (∀ s ∈ before, x ∉ s.vars) ∧
    ∀ y, .loadField y none ref ∉ before ++ after

theorem LoadedOnce.mem {stmts : List Stmt} {x : Var} {ref : FieldRef}
    (h : LoadedOnce stmts x ref) : .loadField x none ref ∈ stmts := by
  obtain ⟨before, after, rfl, _⟩ := h
  simp

theorem lookup_params_eq_none {pkg : Nat} (placed : WellPlaced src) (hb : src.hasBody fn)
    (hk : (src.ssa.value g).kind = .global pkg) :
    (Build.paramPairs m (src.ssa.function fn).params).reverse.lookup g = none := by
  cases hl : (Build.paramPairs m (src.ssa.function fn).params).reverse.lookup g
  case none => rfl
  case some x =>
    have := mem_paramPairs (List.mem_reverse.mp (mem_of_lookup hl))
    exact absurd hk (placed.params fn hb g this.left pkg)

theorem Finished.loadedOnce {locals : List (Nat × Var)} {pkg : Nat}
    (h : Finished src r fn m locals) (placed : WellPlaced src)
    (hk : (src.ssa.value g).kind = .global pkg) (uses : src.Uses fn g) :
    ∃ x, locals.lookup g = some x ∧ LoadedOnce m.body x (Build.globalField src g) := by
  have ⟨x, hx⟩ := h.lookup_of_uses uses
  have ⟨before, after, body, unused⟩ :=
    h.holds.loads g pkg x (lookup_params_eq_none placed h.hasBody hk) hk hx
  have nodup := h.body.loads.nodup placed
  rw [body] at nodup
  exact ⟨x, hx, before, after, body, unused, not_mem_of_nodup_loadedField? nodup⟩

end Functions

section Initializers

theorem nodup_eraseDups {α : Type} [DecidableEq α] (l : List α) : l.eraseDups.Nodup := by
  generalize hn : l.length = n
  induction n using Nat.strong_induction_on generalizing l
  case h n hi =>
    cases l
    case nil => exact .nil
    case cons a rest =>
      have fewer : (rest.filter fun b => !b == a).length < n := by
        have := List.length_filter_le (fun b => !b == a) rest
        simp only [List.length_cons] at hn
        omega
      rw [List.eraseDups_cons, List.nodup_cons, List.mem_eraseDups]
      exact ⟨by simp, hi _ fewer _ rfl⟩

theorem packageOf_eq_some_iff {ssa : Ssa.Program} {pkg : Nat} :
    packageOf ssa g = some pkg ↔ (ssa.value g).kind = .global pkg := by
  unfold packageOf
  split <;> simp_all

theorem lt_of_packageOf {ssa : Ssa.Program} {pkg : Nat} (h : packageOf ssa g = some pkg) :
    g < ssa.values.length := by
  by_contra hn
  have : ssa.value g = ⟨"", 0, .reg⟩ := by
    simp [Ssa.Program.value, List.getD_eq_getElem?_getD, Nat.le_of_not_lt hn]
  simp [packageOf, this] at h

theorem WellPlaced.of_forall
    (globals : ∀ g < src.ssa.values.length, ∀ g' < src.ssa.values.length,
      ∀ pkg ∈ packageOf src.ssa g, ∀ pkg' ∈ packageOf src.ssa g',
        ((src.ssa.package pkg).path = (src.ssa.package pkg').path → pkg = pkg') ∧
        (pkg = pkg' → (src.ssa.value g).name = (src.ssa.value g').name → g = g'))
    (params : ∀ fn < src.ssa.functions.length, ∀ v ∈ (src.ssa.function fn).params,
      packageOf src.ssa v = none) : WellPlaced src := by
  have global {g pkg : Nat} (hk : (src.ssa.value g).kind = .global pkg) :
      packageOf src.ssa g = some pkg ∧ g < src.ssa.values.length :=
    have hp := packageOf_eq_some_iff.mpr hk
    ⟨hp, lt_of_packageOf hp⟩
  constructor
  case paths =>
    intro g g' pkg pkg' hk hk' path
    have ⟨hp, lt⟩ := global hk
    have ⟨hp', lt'⟩ := global hk'
    exact (globals g lt g' lt' pkg hp pkg' hp').left path
  case names =>
    intro g g' pkg hk hk' name
    have ⟨hp, lt⟩ := global hk
    have ⟨hp', lt'⟩ := global hk'
    exact (globals g lt g' lt' pkg hp pkg hp').right rfl name
  case params =>
    intro fn hb v hv pkg hk
    have := params fn (lt_of_hasBody hb) v hv
    simp [(global hk).left] at this

theorem mem_usedPackages {pkg : Nat} :
    pkg ∈ usedPackages src st ↔ ∃ g ∈ st.globals, (src.ssa.value g).kind = .global pkg := by
  simp [usedPackages, mem_byPath, List.mem_eraseDups, packageOf_eq_some_iff]

theorem nodup_usedPackages (src : Source) (st : State) : (usedPackages src st).Nodup :=
  (List.mergeSort_perm ..).nodup_iff.mpr (nodup_eraseDups _)

theorem eq_of_forall₂ {α β : Type} {R : α → β → Prop} {l : List α} {l' : List β} {b b' : β}
    (h : List.Forall₂ R l l') (nodup : l.Nodup) (hb : b ∈ l') (hb' : b' ∈ l')
    (same : ∀ a ∈ l, ∀ a' ∈ l, R a b → R a' b' → a = a') : b = b' := by
  induction h
  case nil => contradiction
  case cons a c rest rest' hr hrest hi =>
    have ⟨new, nodup⟩ := List.nodup_cons.mp nodup
    have apart {d d' : β} (hd : d = c) (hd' : d' ∈ rest')
        (same : ∀ a' ∈ rest, R a d → R a' d' → a = a') : False := by
      have ⟨a', ha', hr'⟩ := exists_of_forall₂ hrest.flip hd'
      exact new (same a' ha' (hd ▸ hr) hr' ▸ ha')
    cases List.mem_cons.mp hb <;> cases List.mem_cons.mp hb'
    case inl.inl e e' => rw [e, e']
    case inl.inr e hm =>
      exact (apart e hm fun a' ha' =>
        same a List.mem_cons_self a' (List.mem_cons_of_mem _ ha')).elim
    case inr.inl hm e =>
      exact (apart e hm fun a' ha' h h' =>
        (same a' (List.mem_cons_of_mem _ ha') a List.mem_cons_self h' h).symm).elim
    case inr.inr hm hm' =>
      exact hi nodup hm hm' fun a ha a' ha' =>
        same a (List.mem_cons_of_mem _ ha) a' (List.mem_cons_of_mem _ ha')

variable {st₀ : State} {done : List Nat}

namespace Run

-- The methods that allocate cells are those that were added in the end, and the program starts with
-- all of them.
theorem exists_initializers (h : Run src r st₀ st fin done) : ∃ ms : List Method,
    List.Forall₂ (fun pkg m => AllocatesCells src pkg
      (st.globals.filter fun g => packageOf src.ssa g = some pkg) m) (usedPackages src st) ms ∧
    (∀ m, m ∈ r.program.methods ∧ r.IsInitializer m ↔ m ∈ ms) ∧ ∀ m ∈ ms, some m ∈ r.starts := by
  obtain ⟨ms, perm, ids, cells⟩ := h.globals
  have mem (m : Method) : m ∈ r.program.methods ↔ m ∈ ms ∨ m ∈ st.program.methods := by
    rw [h.result]
    exact perm.mem_iff.trans List.mem_append
  have new {m : Method} (hm : m ∈ ms) : m.id ∈ List.range' st.program.methods.length
      (usedPackages src st).length := ids ▸ List.mem_map_of_mem hm
  refine ⟨ms, cells, fun m => ⟨?listed, ?initializer⟩, ?starts⟩
  case listed =>
    rintro ⟨hm, _, modifiers, none⟩
    refine ((mem m).mp hm).resolve_right fun old => ?_
    cases h.progress.orderly.bare m old
    case inl hid =>
      obtain ⟨⟨fn, id⟩, hid, e⟩ := List.mem_map.mp hid
      refine none fn ?_
      rw [h.method?_eq]
      exact h.progress.orderly.method?_eq_some_iff.mpr ⟨e ▸ hid, old⟩
    case inr bare => simp [Method.isAbstract, Method.isNative, modifiers] at bare
  case initializer =>
    intro hm
    obtain ⟨pkg, _, allocates⟩ := exists_of_forall₂ cells.flip hm
    refine ⟨(mem m).mpr (.inl hm), allocates.initializes.name, allocates.initializes.modifiers,
      fun fn hf => ?_⟩
    rw [h.method?_eq] at hf
    have old := (h.progress.orderly.method?_eq_some_iff.mp hf).right
    have := h.progress.orderly.numbered.below m old
    have := (List.mem_range'_1.mp (new hm)).left
    omega
  case starts =>
    intro m hm
    have found : fin.program.method? m.id = some m := by
      refine h.completed.numbered.method?_eq_some_iff.mpr ⟨?_, rfl⟩
      exact perm.mem_iff.mpr (List.mem_append_left _ hm)
    rw [h.result]
    exact List.mem_append_right _ (List.mem_map.mpr ⟨m.id, new hm, found⟩)

end Run

structure InitializesPackage (src : Source) (r : Result) (pkg : Nat) (m : Method) : Prop where
  mem         : m ∈ r.program.methods
  initializer : r.IsInitializer m
  owner       : m.owner = (src.ssa.package pkg).path
  only        : ∀ k ∈ r.program.methods, r.IsInitializer k →
    k.owner = (src.ssa.package pkg).path → k = m

namespace Run

theorem exists_cell {pkg : Nat} (h : Run src r st₀ st fin done) (placed : WellPlaced src)
    (hg : g ∈ st.globals) (hk : (src.ssa.value g).kind = .global pkg) :
    ∃ k, InitializesPackage src r pkg k ∧ some k ∈ r.starts ∧
      ∃ site x, CellAt src k.body g site x := by
  have ⟨ms, cells, mem, starts⟩ := h.exists_initializers
  have ⟨k, hm, allocates⟩ := exists_of_forall₂ cells (mem_usedPackages.mpr ⟨g, hg, hk⟩)
  have ⟨known, initializer⟩ := (mem k).mpr hm
  refine ⟨k, ⟨known, initializer, allocates.owner, fun k' hk' initializer' owner' => ?only⟩,
    starts k hm, ?cell⟩
  case only =>
    refine eq_of_forall₂ cells (nodup_usedPackages src st) ((mem k').mp ⟨hk', initializer'⟩) hm ?_
    intro pkg' hp' pkg'' hp'' allocates' allocates''
    have ⟨g', _, hk'⟩ := mem_usedPackages.mp hp'
    have ⟨g'', _, hk''⟩ := mem_usedPackages.mp hp''
    refine placed.paths g' g'' pkg' pkg'' hk' hk'' ?_
    rw [← allocates'.owner, ← allocates''.owner, owner', allocates.owner]
  case cell =>
    have ⟨start, stmts, body, cells⟩ := allocates.cells
    have distinct : ((st.globals.filter fun g => packageOf src.ssa g = some pkg).map
        (Build.globalField src)).Nodup := by
      refine (h.usedGlobals.nodup.filter _).map_on fun g₁ h₁ g₂ h₂ e => ?_
      have ⟨⟨_, hk₁⟩, _⟩ := h.usedGlobals.origin g₁ (List.mem_of_mem_filter h₁)
      have ⟨⟨_, hk₂⟩, _⟩ := h.usedGlobals.origin g₂ (List.mem_of_mem_filter h₂)
      exact placed.eq_of_globalField hk₁ hk₂ e
    have here : g ∈ st.globals.filter fun g => packageOf src.ssa g = some pkg := by
      simp [hg, packageOf_eq_some_iff, hk]
    have ⟨site, x, cell⟩ := cells.exists_cellAt distinct here
    rw [body]
    exact ⟨site, x, cell.ret⟩

theorem mem_globals_of_loads {pkg : Nat} (h : Run src r st₀ st fin done) (placed : WellPlaced src)
    (hk : (src.ssa.value g).kind = .global pkg) (hm : r.method? fn = some m)
    (loads : LoadsField m.body (Build.globalField src g)) : g ∈ st.globals := by
  rw [h.method?_eq] at hm
  have ⟨g', hg', e⟩ := h.usedGlobals.loads fn m _ hm loads
  have ⟨⟨_, hk'⟩, _⟩ := h.usedGlobals.origin g' hg'
  exact placed.eq_of_globalField hk hk' e.symm ▸ hg'

theorem mem_globals_of_cell {pkg : Nat} {k : Method} {site : Site} {x : Var}
    (h : Run src r st₀ st fin done) (placed : WellPlaced src)
    (hk : (src.ssa.value g).kind = .global pkg) (known : k ∈ r.program.methods)
    (initializer : r.IsInitializer k) (cell : CellAt src k.body g site x) : g ∈ st.globals := by
  obtain ⟨ms, cells, mem, _⟩ := h.exists_initializers
  obtain ⟨pkg', _, allocates⟩ := exists_of_forall₂ cells.flip ((mem k).mp ⟨known, initializer⟩)
  obtain ⟨start, stmts, body, cells⟩ := allocates.cells
  have stored : .storeField none (Build.globalField src g) x ∈ stmts := by
    obtain ⟨before, after, e, _⟩ := cell
    have : .storeField none (Build.globalField src g) x ∈ k.body := by simp [e, Lowering.cell]
    simpa [body] using this
  obtain ⟨g', hg', e⟩ := cells.exists_of_store stored
  have hg' := List.mem_of_mem_filter hg'
  obtain ⟨⟨_, hk'⟩, _⟩ := h.usedGlobals.origin g' hg'
  exact placed.eq_of_globalField hk hk' e.symm ▸ hg'

theorem hasBody_initializer {k : Method} (h : Run src r st₀ st fin done)
    (known : k ∈ r.program.methods) (initializer : r.IsInitializer k) : k.hasBody := by
  have ⟨ms, cells, mem, _⟩ := h.exists_initializers
  have ⟨pkg, _, allocates⟩ := exists_of_forall₂ cells.flip ((mem k).mp ⟨known, initializer⟩)
  simp [Method.hasBody, Method.isAbstract, Method.isNative, initializer.right.left,
    allocates.initializes.body]

theorem reachable_initializer {k : Method} {p : Problem} {analysis : Analysis.Result} {s : Settings}
    (h : Run src r st₀ st fin done) (known : k ∈ r.program.methods)
    (initializer : r.IsInitializer k) (fixed : FixedPoint p analysis)
    (program : p.program = r.program) (entries : p.entries = s.entries.filterMap id)
    (start : s.entries = r.starts ∨ s.entries = []) : k ∈ analysis.reachable := by
  refine fixed.roots ?_
  cases start
  case inl start =>
    have ⟨ms, _, mem, starts⟩ := h.exists_initializers
    have entry : k ∈ p.entries := by
      rw [entries, start]
      exact List.mem_filterMap.mpr ⟨some k, starts k ((mem k).mp ⟨known, initializer⟩), rfl⟩
    have some : p.entries ≠ [] := List.ne_nil_of_mem entry
    simpa [Problem.roots, some] using entry
  case inr start =>
    have none : p.entries = [] := by simp [entries, start]
    simp [Problem.roots, none, program, known, h.hasBody_initializer known initializer]

theorem exists_id {k : Method} {site : Site} {x : Var} (h : Run src r st₀ st fin done)
    (known : k ∈ r.program.methods) (initializer : r.IsInitializer k)
    (cell : CellAt src k.body g site x) (markers : Markers) :
    ∃ id, (r.program.objects markers).id? site = some id := by
  have ⟨before, after, body, _⟩ := cell
  have allocated : ∃ type, .alloc site x type ∈ k.body := by
    rw [body]
    exact ⟨_, List.mem_append_left _ (List.mem_append_right _ List.mem_cons_self)⟩
  exact Option.isSome_iff_exists.mp (Program.id?_isSome_iff.mpr
    ⟨k, known, h.hasBody_initializer known initializer, x, allocated⟩)

-- The cell goes to the static field and from there to the variable of every function.
theorem cell_mem_pointees {k : Method} {site : Site} {x y : Var} {id : Int} {objects : Objects}
    {s : Settings} {analysis : Analysis.Result} (h : Run src r st₀ st fin done)
    (known : k ∈ r.program.methods) (initializer : r.IsInitializer k)
    (cell : CellAt src k.body g site x) (program : s.program = some r.program)
    (hobjects : s.objects = some objects) (start : s.entries = r.starts ∨ s.entries = [])
    (analyzed : analyze s = .ok analysis) (converged : analysis.converged)
    (reached : m ∈ analysis.reachable) (hasBody : m.hasBody)
    (loaded : .loadField y none (Build.globalField src g) ∈ m.body)
    (number : objects.id? site = some id) : id ∈ pointees analysis.facts.toSet y := by
  obtain ⟨p, fixed, hp, ho, entries⟩ := exists_fixedPoint program analyzed converged
  have ho : p.scene.objects = objects := Option.some.inj (ho.symm.trans hobjects)
  have reached' := h.reachable_initializer known initializer fixed hp entries start
  obtain ⟨before, after, body, _⟩ := cell
  have satisfied {pre post : List Stmt} {stmt : Stmt} (e : k.body = pre ++ stmt :: post) :
      Satisfies p analysis.facts.toSet (.ofStmts pre) (p.targets analysis.facts) stmt :=
    fixed.satisfied k reached' (h.hasBody_initializer known initializer) pre stmt post e
  have alloc : k.body = before ++
      .alloc site x (src.ssa.typeText (src.ssa.deref (src.ssa.typeOf g))) ::
        .storeField none (Build.globalField src g) x :: after := by
    simpa [Lowering.cell] using body
  have store : k.body = before ++
      [.alloc site x (src.ssa.typeText (src.ssa.deref (src.ssa.typeOf g)))] ++
        .storeField none (Build.globalField src g) x :: after := by
    simpa using alloc
  obtain ⟨pre, post, load⟩ := List.append_of_mem loaded
  have allocated : id ∈ pointees analysis.facts.toSet x := satisfied alloc id (ho ▸ number)
  have stored := satisfied store _ rfl allocated
  exact fixed.satisfied m reached hasBody pre _ post load _ rfl stored

end Run

-- The cells of globals. `locals` are the variables of the values of each function.
structure GlobalCells (src : Source) (r : Result) (locals : Nat → List (Nat × Var)) : Prop where
  bodies       : ∀ fn m, r.method? fn = some m → src.hasBody fn →
    Translation src r fn m (locals fn)
  -- A global that is loaded somewhere has exactly one cell, and no other global has any.
  cells        : ∀ g pkg, (src.ssa.value g).kind = .global pkg →
    ((∃ fn m, r.method? fn = some m ∧ LoadsField m.body (Build.globalField src g)) ↔
      ∃ k ∈ r.program.methods, r.IsInitializer k ∧ k.owner = (src.ssa.package pkg).path ∧
        ∃ site x, CellAt src k.body g site x)
  loads        : ∀ fn m g pkg, r.method? fn = some m → src.hasBody fn →
    (src.ssa.value g).kind = .global pkg → src.Uses fn g →
    ∃ x, (locals fn).lookup g = some x ∧ LoadedOnce m.body x (Build.globalField src g)
  initializers : ∀ fn m g pkg, (src.ssa.value g).kind = .global pkg → r.method? fn = some m →
    LoadsField m.body (Build.globalField src g) →
    ∃ k, InitializesPackage src r pkg k ∧ some k ∈ r.starts
  objects      : ∀ k ∈ r.program.methods, r.IsInitializer k → ∀ g site x,
    CellAt src k.body g site x → ∀ markers, ((r.program.objects markers).id? site).isSome
  points       : ∀ k ∈ r.program.methods, r.IsInitializer k → ∀ g pkg site x,
    (src.ssa.value g).kind = .global pkg → CellAt src k.body g site x →
    ∀ fn m, r.method? fn = some m → src.hasBody fn → src.Uses fn g →
    ∀ (s : Settings) (o : Objects) (analysis : Analysis.Result) (id : Int),
      s.program = some r.program → s.objects = some o → s.entries = r.starts →
      analyze s = .ok analysis → analysis.converged → m ∈ analysis.reachable →
      o.id? site = some id →
      ∃ y, (locals fn).lookup g = some y ∧ id ∈ pointees analysis.facts.toSet y

theorem Run.exists_finished (h : Run src r st₀ st fin done) :
    ∃ locals : Nat → List (Nat × Var), ∀ fn m, r.method? fn = some m → src.hasBody fn →
      Finished src r fn m (locals fn) := by
  have bodies : ∀ fn, ∃ locals, ∀ m, r.method? fn = some m → src.hasBody fn →
      Finished src r fn m locals := by
    intro fn
    by_cases hf : (r.method? fn).isSome ∧ src.hasBody fn
    case pos =>
      have ⟨m, hm⟩ := Option.isSome_iff_exists.mp hf.left
      have ⟨locals, body, holds, named⟩ := h.lowered hm hf.right
      refine ⟨locals, fun m' hm' _ => Option.some.inj (hm.symm.trans hm') ▸ ?_⟩
      exact ⟨hf.right, h.declares hm, body, holds, named⟩
    case neg => exact ⟨[], fun m hm hb => absurd ⟨Option.isSome_of_eq_some hm, hb⟩ hf⟩
  choose locals bodies using bodies
  exact ⟨locals, bodies⟩

theorem globals_have_cells {ssa : Ssa.Program} {markers : Markers}
    (lowered : lower ssa markers = .ok r) (placed : WellPlaced (source ssa markers)) :
    ∃ locals, GlobalCells (source ssa markers) r locals := by
  have ⟨st₀, st, fin, done, run⟩ := run_of_lower lowered
  have ⟨locals, finished⟩ := run.exists_finished
  have loads (fn : Nat) (m : Method) (g pkg : Nat) (hm : r.method? fn = some m)
      (hb : (source ssa markers).hasBody fn)
      (hk : ((source ssa markers).ssa.value g).kind = .global pkg)
      (uses : (source ssa markers).Uses fn g) :
      ∃ x, (locals fn).lookup g = some x ∧
        LoadedOnce m.body x (Build.globalField (source ssa markers) g) :=
    (finished fn m hm hb).loadedOnce placed hk uses
  refine ⟨locals, fun fn m hm hb => (finished fn m hm hb).body, ?cells, loads, ?initializers,
    ?objects, ?points⟩
  case cells =>
    intro g pkg hk
    constructor
    case mp =>
      rintro ⟨fn, m, hm, loaded⟩
      have hg := run.mem_globals_of_loads placed hk hm loaded
      have ⟨k, initializes, _, cell⟩ := run.exists_cell placed hg hk
      exact ⟨k, initializes.mem, initializes.initializer, initializes.owner, cell⟩
    case mpr =>
      rintro ⟨k, known, initializer, _, site, x, cell⟩
      have hg := run.mem_globals_of_cell placed hk known initializer cell
      have ⟨_, fn, m, hm, loaded⟩ := run.usedGlobals.origin g hg
      exact ⟨fn, m, (run.method?_eq fn).trans hm, loaded⟩
  case initializers =>
    intro fn m g pkg hk hm loaded
    have hg := run.mem_globals_of_loads placed hk hm loaded
    have ⟨k, initializes, started, _⟩ := run.exists_cell placed hg hk
    exact ⟨k, initializes, started⟩
  case objects =>
    intro k known initializer g site x cell markers
    exact Option.isSome_iff_exists.mpr (run.exists_id known initializer cell markers)
  case points =>
    intro k known initializer g pkg site x hk cell fn m hm hb uses s o analysis id program objects
      start analyzed converged reached number
    have ⟨y, hy, once⟩ := loads fn m g pkg hm hb hk uses
    exact ⟨y, hy, run.cell_mem_pointees known initializer cell program objects (.inl start) analyzed
      converged reached ((run.declares hm).hasBody once.mem) once.mem number⟩

end Initializers

-- `set` assigns to a global that `get` reads.
namespace Sample.Shared

def main : Ssa.Function where
  name        := "main"
  text        := "main.main"
  pkg         := some 0
  isSynthetic := false
  isNested    := false
  hasBlocks   := true
  recv        := none
  signature   := []
  blocks      := [[.alloc 0, .call (some 4) ⟨none, 5, [0], "set(t0)"⟩,
    .call (some 7) ⟨none, 6, [], "get()"⟩, .ret []]]

def set : Ssa.Function where
  name        := "set"
  text        := "main.set"
  pkg         := some 0
  isSynthetic := false
  isNested    := false
  hasBlocks   := true
  recv        := none
  signature   := [("p", "*int")]
  params      := [2]
  blocks      := [[.store 1 2, .ret []]]

def get : Ssa.Function where
  name        := "get"
  text        := "main.get"
  pkg         := some 0
  isSynthetic := false
  isNested    := false
  hasBlocks   := true
  recv        := none
  signature   := []
  blocks      := [[.load 3 1, .ret [3]]]

def ssa : Ssa.Program where
  roots     := [0]
  packages  := [⟨"main", "main", [.function "main" 0, .function "set" 1, .function "get" 2]⟩]
  types     := [⟨"int", .basic, 0⟩, ⟨"*int", .pointer 0, 1⟩, ⟨"**int", .pointer 1, 2⟩]
  functions := [main, set, get]
  values    := [⟨"t0", 1, .reg⟩, ⟨"g", 2, .global 0⟩, ⟨"p", 1, .param⟩, ⟨"t0", 1, .reg⟩,
    ⟨"t1", 0, .reg⟩, ⟨"set", 0, .function 1⟩, ⟨"get", 0, .function 2⟩, ⟨"t2", 1, .reg⟩]

def lowered : Result :=
  match lower ssa {} with
  | .ok r => r
  | .error _ => ⟨{}, [], [], []⟩

def settings : Settings where
  program := some lowered.program
  objects := some (lowered.program.objects {})
  entries := lowered.starts

theorem lower_ssa : lower ssa {} = .ok lowered := by
  have ⟨r, _, _, _, _, h, _⟩ := lower_run ssa {} (by decide)
  unfold lowered
  rw [h]

theorem wellPlaced : WellPlaced (source ssa {}) :=
  .of_forall (by decide) (by decide)

theorem analyze_settings : ∃ analysis m m', analyze settings = .ok analysis ∧
    analysis.converged ∧ lowered.method? 1 = some m ∧ m ∈ analysis.reachable ∧
    lowered.method? 2 = some m' ∧ m' ∈ analysis.reachable := by
  have checked : (analyze settings).toOption.any fun analysis => analysis.converged &&
      (lowered.method? 1).any (· ∈ analysis.reachable) &&
      (lowered.method? 2).any (· ∈ analysis.reachable) := by decide +kernel
  simp only [Option.any_eq_true, Bool.and_eq_true, decide_eq_true_eq] at checked
  obtain ⟨analysis, ok, ⟨converged, m, hm, reached⟩, m', hm', reached'⟩ := checked
  exact ⟨analysis, m, m', eq_ok_of_toOption ok, converged, hm, reached, hm', reached'⟩

-- `get` knows the cell of the global that it reads.
theorem cell_known : ∃ locals, GlobalCells (source ssa {}) lowered locals ∧
    ∃ analysis m x id, analyze settings = .ok analysis ∧ analysis.converged ∧
      lowered.method? 2 = some m ∧ m ∈ analysis.reachable ∧ (locals 2).lookup 1 = some x ∧
      LoadedOnce m.body x ⟨"main", "g"⟩ ∧ id ∈ pointees analysis.facts.toSet x := by
  obtain ⟨locals, cells⟩ := globals_have_cells lower_ssa wellPlaced
  obtain ⟨analysis, _, m, analyzed, converged, _, _, hm, reached⟩ := analyze_settings
  have uses : (source ssa {}).Uses 2 1 :=
    ⟨.load 3 1, by decide, fun w _ => ⟨_, List.mem_singleton_self _, by simp [Stmt.vars]⟩⟩
  obtain ⟨x, hx, once⟩ := cells.loads 2 m 1 0 hm (by decide) (by decide) uses
  obtain ⟨k, known, initializer, _, site, y, cell⟩ :=
    (cells.cells 1 0 (by decide)).mp ⟨2, m, hm, x, once.mem⟩
  obtain ⟨id, number⟩ :=
    Option.isSome_iff_exists.mp (cells.objects k known initializer 1 site y cell {})
  obtain ⟨x', hx', points⟩ := cells.points k known initializer 1 0 site y (by decide) cell 2 m hm
    (by decide) uses settings _ analysis id rfl rfl rfl analyzed converged reached number
  obtain rfl : x = x' := Option.some.inj (hx.symm.trans hx')
  exact ⟨locals, cells, analysis, m, x, id, analyzed, converged, hm, reached, hx, once, points⟩

end Sample.Shared
end Lowering
end PointsTo
