import PointsTo.Proofs.Lowering.Statements

namespace PointsTo.Lowering

variable {src : Source} {st st' : State} {fn : Nat} {m : Method} {done : List Nat}

theorem exists_of_forall₂ {α β : Type} {R : α → β → Prop} {l : List α} {l' : List β}
    (h : List.Forall₂ R l l') {a : α} (ha : a ∈ l) : ∃ b ∈ l', R a b := by
  induction h
  case nil => contradiction
  case cons hr _ hi =>
    cases List.mem_cons.mp ha
    case inl e  => exact ⟨_, List.mem_cons_self, e ▸ hr⟩
    case inr ha =>
      have ⟨b, hb, hr⟩ := hi ha
      exact ⟨b, List.mem_cons_of_mem _ hb, hr⟩

-- The values that belong to a function, as far as it mentions them.
def Source.Mentions (src : Source) (fn v : Nat) : Prop :=
  v ∈ (src.ssa.function fn).params ∨ Lowering.Mentions (src.ssa.function fn).blocks.flatten v

-- The same, without those that no statement is about.
def Source.Names (src : Source) (fn v : Nat) : Prop :=
  v ∈ (src.ssa.function fn).params ∨ ∃ i ∈ (src.ssa.function fn).blocks.flatten,
    v ∈ names src (src.ssa.function fn).blocks.flatten i

theorem Source.Names.mentions {v : Nat} (h : src.Names fn v) : src.Mentions fn v := by
  obtain param | ⟨i, hi, hv⟩ := h
  case inl => exact .inl param
  case inr => exact .inr (mentions_of_mem_names hi hv)

-- The body of a function before its first instruction: the parameters are in place.
def Body.start (src : Source) (fn : Nat) (m : Method) (st : State) : Body where
  shared := { st with vars :=
    (Build.paramPairs m (src.ssa.function fn).params).reverse ++ st.vars }
  method := m
  locals := (Build.paramPairs m (src.ssa.function fn).params).reverse

-- The statements of a method are the translation of the instructions of its function, each once and
-- in their order, in terms of the variables of values and the methods of functions.
def Translates (src : Source) (locals : List (Nat × Var)) (method? : Nat → Option Method) (fn : Nat)
    (stmts : List Stmt) : Prop :=
  ∃ chunks, stmts = chunks.flatten ∧
    List.Forall₂ (fun i chunk => ∀ w : Naming, w.Knows locals method? → ∃ fresh,
      proper chunk = statements src (src.ssa.function fn).blocks.flatten w fresh i)
      (src.ssa.function fn).blocks.flatten chunks

def KeepsRefs (f f' : Nat → Option Method) : Prop :=
  ∀ fn m, f fn = some m → ∃ m', f' fn = some m' ∧ m'.ref = m.ref

theorem Translates.mono {locals : List (Nat × Var)} {f f' : Nat → Option Method}
    {stmts : List Stmt} (h : Translates src locals f fn stmts) (refs : KeepsRefs f f') :
    Translates src locals f' fn stmts := by
  have ⟨chunks, hs, hT⟩ := h
  refine ⟨chunks, hs, hT.imp fun i chunk translated w hw => translated w ⟨hw.var, ?_⟩⟩
  intro fn m hm
  have ⟨m', hm', same⟩ := refs fn m hm
  exact (hw.ref fn m' hm').trans same

def State.fill (st : State) (m m' : Method) : State :=
  { st with program := st.program.modifyMethod m.id fun _ => m' }

-- The body of the first function in the queue, once its instructions have become `stmts`.
structure Built (src : Source) (st : State) (fn : Nat) (rest : List Nat) (m : Method) (b : Body)
    (stmts : List Stmt) : Prop where
  queue      : st.queue = fn :: rest
  method     : st.method? fn = some m
  acts       : Acts src (src.Names fn) (.start src fn m { st with queue := rest }) b
  body       : b.method.body = m.body ++ stmts
  translated : Translates src b.locals b.shared.method? fn stmts

-- The body of the first function in the queue is lowered.
inductive Finish (src : Source) : State → State → Prop
  | intro {st : State} {fn : Nat} {rest : List Nat} {m : Method} {b : Body} {stmts : List Stmt} :
    Built src st fn rest m b stmts → Finish src st (b.shared.fill m b.method)

theorem forM_bind (pairs : List (Nat × Var)) (b : Body) :
    (pairs.forM fun (v, x) => Build.bind v x : Build Unit) b = .ok ((), { b with
      shared := { b.shared with vars := pairs.reverse ++ b.shared.vars }
      locals := pairs.reverse ++ b.locals }) := by
  induction pairs generalizing b
  case nil => rfl
  case cons e rest hi =>
    have step : ((e :: rest).forM fun (v, x) => Build.bind v x : Build Unit) b =
        (rest.forM fun (v, x) => Build.bind v x : Build Unit) { b with
          shared := { b.shared with vars := e :: b.shared.vars }
          locals := e :: b.locals } := rfl
    rw [step, hi]
    simp

theorem mem_paramPairs {v : Nat} {x : Var} {params : List Nat}
    (h : (v, x) ∈ Build.paramPairs m params) : v ∈ params ∧ x ∈ m.receiver.toList ++ m.params := by
  unfold Build.paramPairs at h
  split at h
  case h_1 receiver first rest hr =>
    cases List.mem_cons.mp h
    case inl e => simp_all
    case inr h =>
      have ⟨hv, hx⟩ := List.of_mem_zip h
      simp [hv, hx]
  case h_2 =>
    have ⟨hv, hx⟩ := List.of_mem_zip h
    simp [hv, hx]

theorem mem_of_lookup {β : Type} {v : Nat} {x : β} {l : List (Nat × β)} (h : l.lookup v = some x) :
    (v, x) ∈ l := by
  have ⟨before, after, hl, _⟩ := List.lookup_eq_some_iff.mp h
  simp [hl]

theorem Orderly.start (h : Orderly src st) (fn : Nat) (m : Method) (rest : List Nat) :
    Orderly src (Body.start src fn m { st with queue := rest }).shared :=
  ⟨h.numbered, h.keys, h.ids, h.declared, h.bare⟩

theorem sound_start (h : Orderly src st) (hm : Declares src fn m) (rest : List Nat) :
    Sound src (.start src fn m { st with queue := rest }) where
  shared := h.start fn m rest
  locals _ x hv :=
    hm.vars x (mem_paramPairs (List.mem_reverse.mp (mem_of_lookup hv))).right

theorem lowerBody_finish (h : Orderly src st) {rest : List Nat} (hq : st.queue = fn :: rest)
    (hm : st.method? fn = some m) :
    ∃ st', lowerBody src fn { st with queue := rest } = .ok st' ∧ Finish src st st' := by
  have sound := sound_start h (h.declares hm) rest
  have named : ∀ i ∈ (src.ssa.function fn).blocks.flatten,
      ∀ v ∈ names src (src.ssa.function fn).blocks.flatten i, src.Names fn v :=
    fun i hi v hv => .inr ⟨i, hi, hv⟩
  have ⟨b, chunks, hr, acts, hb, hT⟩ := forM_run (K := []) (fun i hi => yields_instr (named i hi))
    sound (by simp)
  have run : Build.function src (src.ssa.function fn)
      { shared := { st with queue := rest }, method := m } = .ok ((), b) := by
    have params := forM_bind (Build.paramPairs m (src.ssa.function fn).params)
      { shared := { st with queue := rest }, method := m }
    rw [List.append_nil] at params
    exact (bind_eq (x := get) rfl).trans ((bind_eq params).trans hr)
  refine ⟨_, ?_, .intro ⟨hq, hm, acts, hb, chunks, rfl, hT⟩⟩
  have hm : State.method? { st with queue := rest } fn = some m := hm
  unfold lowerBody
  rw [hm]
  simp only [StateT.run, run]
  rfl

section Fill

variable {m' : Method}

theorem Precedes.ref (h : Precedes m m') : m'.ref = m.ref := by
  have ⟨_, _, _, e⟩ := h
  rw [e]
  rfl

theorem Precedes.consecutive (h : Precedes m m') (hm : Consecutive m.id 0 m.vars) :
    Consecutive m'.id 0 m'.vars := by
  have ⟨xs, _, hx, e⟩ := h
  subst e
  exact hm.append (by simpa using hx)

theorem Precedes.declares (h : Precedes m m') (hm : Declares src fn m) :
    Declares src fn m' := by
  have own := h.consecutive hm.own
  have ⟨xs, _, _, e⟩ := h
  subst e
  exact { hm with vars := fun x h => List.mem_append_left _ (hm.vars x h), own := own }

theorem mem_methods_fill (h : Orderly src st) (hm : st.method? fn = some m) {k : Method} :
    k ∈ (st.fill m m').program.methods ↔ k = m' ∨ k ∈ st.program.methods ∧ k ≠ m := by
  have hm := (h.method?_eq_some_iff.mp hm).right
  simp only [State.fill, Program.methods_modifyMethod, List.mem_map]
  constructor
  case mp =>
    intro ⟨k', hk, e⟩
    split at e
    case isTrue  => exact .inl e.symm
    case isFalse ne =>
      subst e
      exact .inr ⟨hk, fun e => ne (e ▸ rfl)⟩
  case mpr =>
    rintro (rfl | ⟨hk, ne⟩)
    case inl => exact ⟨m, hm, if_pos rfl⟩
    case inr => exact ⟨k, hk, if_neg fun e => ne (h.numbered.eq_of_id hk hm e)⟩

theorem Orderly.fill (h : Orderly src st) (hm : st.method? fn = some m)
    (precedes : Precedes m m') : Orderly src (st.fill m m') := by
  have ⟨hid, hmem⟩ := h.method?_eq_some_iff.mp hm
  have id_eq : m'.id = m.id := by
    have ⟨_, _, _, e⟩ := precedes
    rw [e]
  have owner_eq : m'.owner = m.owner := congrArg MethodRef.owner precedes.ref
  refine ⟨?numbered, h.keys, h.ids, ?declared, ?bare⟩
  case numbered =>
    refine h.numbered.modifyMethod fun k hk e => ⟨id_eq, ?_⟩
    rw [h.numbered.eq_of_id hk hmem e]
    exact owner_eq
  case declared =>
    intro fn' id hid'
    have ⟨k, hk, e, declares⟩ := h.declared fn' id hid'
    by_cases hkm : k = m
    case pos =>
      subst hkm
      exact ⟨m', (mem_methods_fill h hm).mpr (.inl rfl), id_eq.trans e, precedes.declares declares⟩
    case neg => exact ⟨k, (mem_methods_fill h hm).mpr (.inr ⟨hk, hkm⟩), e, declares⟩
  case bare =>
    intro k hk
    cases (mem_methods_fill h hm).mp hk
    case inl e => exact .inl (by rw [e, id_eq]; exact List.mem_map_of_mem hid)
    case inr hk => exact h.bare k hk.left

theorem method?_fill (h : Orderly src st) (hm : st.method? fn = some m)
    (precedes : Precedes m m') {fn' : Nat} :
    (st.fill m m').method? fn' = if fn' = fn then some m' else st.method? fn' := by
  have ⟨hid, _⟩ := h.method?_eq_some_iff.mp hm
  have filled := h.fill hm precedes
  have id_eq : m'.id = m.id := by
    have ⟨_, _, _, e⟩ := precedes
    rw [e]
  split
  case isTrue e =>
    subst e
    exact filled.method?_eq_some_iff.mpr ⟨id_eq ▸ hid, (mem_methods_fill h hm).mpr (.inl rfl)⟩
  case isFalse ne =>
    ext k
    rw [filled.method?_eq_some_iff, h.method?_eq_some_iff, mem_methods_fill h hm]
    have other : (fn', m.id) ∉ st.methods := fun h' =>
      ne (congrArg Prod.fst (List.inj_on_of_nodup_map h.ids h' hid rfl))
    constructor
    case mp =>
      rintro ⟨hk, rfl | hk'⟩
      case inl => exact absurd (id_eq ▸ hk) other
      case inr => exact ⟨hk, hk'.left⟩
    case mpr =>
      rintro ⟨hk, hk'⟩
      refine ⟨hk, .inr ⟨hk', ?_⟩⟩
      rintro rfl
      exact other hk

theorem keepsRefs_fill (h : Orderly src st) (hm : st.method? fn = some m)
    (precedes : Precedes m m') : KeepsRefs st.method? (st.fill m m').method? := by
  intro fn' k hk
  rw [method?_fill h hm precedes]
  split
  case isTrue e =>
    subst e
    exact ⟨m', rfl, precedes.ref.trans (congrArg Method.ref (Option.some.inj (hm.symm.trans hk)))⟩
  case isFalse => exact ⟨k, hk, rfl⟩

end Fill

section Written

-- Statements are about the variables of their method, calls go with their receivers, and sites tell
-- where their allocations stand.
structure Written (m : Method) : Prop where
  vars  : ∀ s ∈ m.body, ∀ x ∈ s.vars, x ∈ m.vars
  calls : ∀ call, .invoke call ∈ m.body → call.isStatic = call.base.isNone
  sites : ∀ (i : Nat) site lhs type, m.body[i]? = some (.alloc site lhs type) → site = ⟨i, m.id⟩

-- Each global is loaded at most once, into the variable that holds it.
def Loads (src : Source) (locals : List (Nat × Var)) (stmts : List Stmt) : Prop :=
  ∃ globals : List Nat, globals.Nodup ∧
    List.Forall₂ (fun g s => ∃ pkg x, (src.ssa.value g).kind = .global pkg ∧
      locals.lookup g = some x ∧ s = .loadField x none (Build.globalField src g))
      globals (stmts.filter (·.isGlobalLoad))

variable {mine : Nat → Prop} {b b' : Body}

theorem Written.blank (h : m.body = []) : Written m :=
  ⟨by simp [h], by simp [h], by simp [h]⟩

theorem Written.addVar (h : Written m) (name type : String) (const : Option Literal) :
    Written (m.addVar name type const) :=
  { h with vars := fun s hs x hx => List.mem_append_left _ (h.vars s hs x hx) }

theorem Written.emit (h : Written m) {s : Stmt} (fits : Fits m s) : Written (m.emit s) := by
  constructor
  case vars =>
    intro s' hs
    cases List.mem_append.mp hs
    case inl hs => exact h.vars s' hs
    case inr hs => exact List.mem_singleton.mp hs ▸ fits.vars
  case calls =>
    intro call hc
    cases List.mem_append.mp hc
    case inl hc => exact h.calls call hc
    case inr hc => exact fits.receiver call (List.mem_singleton.mp hc).symm
  case sites =>
    intro i site lhs type hi
    simp only [Method.emit, List.getElem?_append] at hi
    split at hi
    case isTrue => exact h.sites i site lhs type hi
    case isFalse hn =>
      obtain ⟨hi, hs⟩ := List.getElem?_eq_some_iff.mp hi
      have last : i = m.body.length := by simp at hi; omega
      subst last
      exact fits.site site lhs type (by simpa using hs)

theorem fits_loadGlobal {x : Var} {field : FieldRef} (hx : x ∈ m.vars) :
    Fits m (.loadField x none field) := by
  refine ⟨by simpa [Stmt.vars] using hx, ?invokes, ?allocs⟩
  case invokes => rintro call ⟨⟩
  case allocs => rintro site lhs type ⟨⟩

theorem Act.written (h : Act src mine b b') (hw : Written b.method) : Written b'.method := by
  cases h
  case declare       => exact hw
  case temp          => exact hw.addVar ..
  case hold | record => exact hw.addVar ..
  case load          => exact (hw.addVar ..).emit (fits_loadGlobal (by simp [Method.addVar]))
  case emit fits _ _ => exact hw.emit fits

theorem Acts.written (h : Acts src mine b b') (hw : Written b.method) : Written b'.method := by
  induction h
  case refl         => exact hw
  case tail step hi => exact step.written hi

theorem Loads.mono {locals locals' : List (Nat × Var)} {stmts : List Stmt}
    (h : Loads src locals stmts)
    (sub : ∀ v x, locals.lookup v = some x → locals'.lookup v = some x) :
    Loads src locals' stmts := by
  have ⟨globals, nodup, loads⟩ := h
  refine ⟨globals, nodup, loads.imp fun g s ⟨pkg, x, hk, hx, e⟩ => ?_⟩
  exact ⟨pkg, x, hk, sub g x hx, e⟩

-- A global without a variable has not been loaded before.
theorem Loads.load {locals : List (Nat × Var)} {stmts : List Stmt} {g pkg : Nat} (x : Var)
    (h : Loads src locals stmts) (fresh : locals.lookup g = none)
    (hk : (src.ssa.value g).kind = .global pkg) :
    Loads src ((g, x) :: locals) (stmts ++ [.loadField x none (Build.globalField src g)]) := by
  have ⟨globals, nodup, loads⟩ := h
  have new : g ∉ globals := by
    intro hg
    have ⟨_, _, _, _, _, hx, _⟩ := exists_of_forall₂ loads hg
    simp [fresh] at hx
  have nodup : (globals ++ [g]).Nodup :=
    List.nodup_append.mpr ⟨nodup, List.nodup_singleton g, by grind⟩
  refine ⟨globals ++ [g], nodup, ?_⟩
  rw [List.filter_append]
  refine List.rel_append (loads.imp fun g' s loaded => ?_)
    (.cons ⟨pkg, x, hk, List.lookup_cons_self, rfl⟩ .nil)
  have ⟨pkg', y, hk', hy, e⟩ := loaded
  exact ⟨pkg', y, hk', lookup_cons_of_none fresh hy, e⟩

theorem Act.loads (h : Act src mine b b') (hl : Loads src b.locals b.method.body) :
    Loads src b'.locals b'.method.body := by
  have kept := hl.mono h.advances.locals
  cases h
  case declare | temp | hold | record => exact kept
  case load fresh hk => exact hl.load _ fresh hk
  case emit s _ _ hs =>
    have ⟨globals, nodup, loads⟩ := kept
    exact ⟨globals, nodup, by simpa [Method.emit, hs] using loads⟩

theorem Acts.loads (h : Acts src mine b b') (hl : Loads src b.locals b.method.body) :
    Loads src b'.locals b'.method.body := by
  induction h
  case refl         => exact hl
  case tail step hi => exact step.loads hi

-- A static field is loaded into the variable before anything else is done with it.
def LoadedFirst (stmts : List Stmt) (x : Var) (ref : FieldRef) : Prop :=
  ∃ before after, stmts = before ++ .loadField x none ref :: after ∧ ∀ s ∈ before, x ∉ s.vars

theorem LoadedFirst.append {stmts : List Stmt} {x : Var} {ref : FieldRef}
    (h : LoadedFirst stmts x ref) (chunk : List Stmt) : LoadedFirst (stmts ++ chunk) x ref := by
  have ⟨before, after, e, unused⟩ := h
  exact ⟨before, after ++ chunk, by simp [e], unused⟩

-- The next variable of a method is not used yet.
theorem Written.nextVar_not_mem {s : Stmt} {name type : String} {const : Option Literal}
    (hw : Written m) (own : Consecutive m.id 0 m.vars) (hs : s ∈ m.body) :
    m.nextVar name type const ∉ s.vars :=
  fun hx => own.nextVar_not_mem name type const (hw.vars s hs _ hx)

-- What the variables are like that hold more values than `given`.
structure Holds (src : Source) (given locals : List (Nat × Var)) (stmts : List Stmt) : Prop where
  consts : ∀ v x, given.lookup v = none → locals.lookup v = some x →
    x.const = (src.ssa.value v).kind.literal?
  loads  : ∀ g pkg x, given.lookup g = none → (src.ssa.value g).kind = .global pkg →
    locals.lookup g = some x → LoadedFirst stmts x (Build.globalField src g)

namespace Holds

variable {given locals : List (Nat × Var)} {stmts : List Stmt} {v : Nat} {x : Var}

theorem refl (src : Source) (locals : List (Nat × Var)) (stmts : List Stmt) :
    Holds src locals locals stmts where
  consts _ _ hg hx := by
    rw [hg] at hx
    contradiction
  loads _ _ _ hg _ hx := by
    rw [hg] at hx
    contradiction

theorem append (h : Holds src given locals stmts) (chunk : List Stmt) :
    Holds src given locals (stmts ++ chunk) where
  consts := h.consts
  loads g pkg x hg hk hx := (h.loads g pkg x hg hk hx).append chunk

theorem cons (h : Holds src given locals stmts)
    (const : x.const = (src.ssa.value v).kind.literal?)
    (load : ∀ pkg, (src.ssa.value v).kind = .global pkg →
      LoadedFirst stmts x (Build.globalField src v)) :
    Holds src given ((v, x) :: locals) stmts := by
  constructor
  case consts =>
    intro v' y hg hy
    rw [List.lookup_cons] at hy
    split at hy
    case h_1 e => rw [← Option.some.inj hy, eq_of_beq e, const]
    case h_2   => exact h.consts v' y hg hy
  case loads =>
    intro g pkg y hg hk hy
    rw [List.lookup_cons] at hy
    split at hy
    case h_1 e =>
      rw [eq_of_beq e] at hk ⊢
      exact Option.some.inj hy ▸ load pkg hk
    case h_2 => exact h.loads g pkg y hg hk hy

end Holds

theorem Act.holds {given : List (Nat × Var)} (h : Act src mine b b') (hw : Written b.method)
    (own : Consecutive b.method.id 0 b.method.vars)
    (hh : Holds src given b.locals b.method.body) :
    Holds src given b'.locals b'.method.body := by
  cases h
  case declare | temp => exact hh
  case emit s _ _ _   => exact hh.append [s]
  case hold v name type const _ fixes =>
    refine hh.cons fixes.eq_literal? fun pkg hk => ?_
    rw [hk] at fixes
    cases fixes
  case record v name type _ _ isOwn =>
    refine hh.cons ?holds fun pkg hk => ?loaded
    case holds => cases hk : (src.ssa.value v).kind <;> simp_all [Ssa.ValueKind.isOwn] <;> rfl
    case loaded => simp [hk, Ssa.ValueKind.isOwn] at isOwn
  case load g pkg name type _ hk =>
    refine (hh.append _).cons ?loaded fun _ _ => ⟨b.method.body, [], rfl, ?fresh⟩
    case loaded => rw [hk]; rfl
    case fresh => exact fun s hs => hw.nextVar_not_mem own hs

theorem Acts.holds (h : Acts src mine b b') (hw : Written b.method)
    (own : Consecutive b.method.id 0 b.method.vars) :
    Holds src b.locals b'.locals b'.method.body := by
  induction h
  case refl => exact .refl ..
  case tail acts step hi =>
    have acts : Acts src mine b _ := acts
    exact step.holds (acts.written hw) (acts.advances.method.consecutive own) hi

theorem vars_load {g : Nat} {name type : String} :
    (b.load src g name type).shared.vars = b.shared.vars := by
  have := congrArg State.vars (useGlobal_eq b.shared g)
  exact this

-- A value of the function itself is left alone, or a variable for it is recorded.
theorem Act.own_cases {v : Nat} (h : Act src mine b b') (own : (src.ssa.value v).kind.isOwn) :
    (b'.locals.lookup v = b.locals.lookup v ∧
      b'.shared.vars.lookup v = b.shared.vars.lookup v) ∨
    mine v ∧ ∃ x, b'.locals.lookup v = some x ∧ b'.shared.vars.lookup v = some x := by
  cases h
  case declare step => exact .inl ⟨rfl, step.grows.keeps.vars ▸ rfl⟩
  case temp | emit  => exact .inl ⟨rfl, rfl⟩
  case hold v' _ _ _ _ other =>
    have ne : v ≠ v' := by
      rintro rfl
      simp [other.isOwn] at own
    exact .inl ⟨by simp [Body.hold, List.lookup_cons, beq_false_of_ne ne], rfl⟩
  case load g _ _ _ _ hk =>
    have ne : v ≠ g := by
      rintro rfl
      simp [hk, Ssa.ValueKind.isOwn] at own
    exact .inl ⟨by simp [Body.load, Body.hold, List.lookup_cons, beq_false_of_ne ne],
      by rw [vars_load]⟩
  case record v' name type hv' _ _ =>
    by_cases e : v = v'
    case pos =>
      subst e
      exact .inr ⟨hv', _, List.lookup_cons_self, List.lookup_cons_self⟩
    case neg =>
      exact .inl ⟨by simp [Body.record, Body.hold, List.lookup_cons, beq_false_of_ne e],
        by simp [Body.record, List.lookup_cons, beq_false_of_ne e]⟩

-- Values of the function itself are recorded where they are held.
def Recorded (src : Source) (b : Body) : Prop :=
  ∀ v x, (src.ssa.value v).kind.isOwn → b.locals.lookup v = some x → b.shared.vars.lookup v = some x

theorem Act.recorded (h : Act src mine b b') (hr : Recorded src b) : Recorded src b' := by
  intro v x own hv
  obtain ⟨hl, hs⟩ | ⟨_, y, hl, hs⟩ := h.own_cases own
  case inl =>
    rw [hl] at hv
    exact hs.trans (hr v x own hv)
  case inr =>
    obtain rfl := Option.some.inj (hl.symm.trans hv)
    exact hs

theorem Acts.recorded (h : Acts src mine b b') (hr : Recorded src b) : Recorded src b' := by
  induction h
  case refl         => exact hr
  case tail step hi => exact step.recorded hi

-- What belongs to other functions is left alone.
theorem Act.lookup_vars {v : Nat} (h : Act src mine b b') (hv : ¬ mine v) :
    b'.shared.vars.lookup v = b.shared.vars.lookup v := by
  cases h
  case declare step       => exact step.grows.keeps.vars ▸ rfl
  case temp | emit | hold => rfl
  case load               => rw [vars_load]
  case record v' _ _ hv' _ _ =>
    have ne : v ≠ v' := by
      rintro rfl
      exact hv hv'
    simp [Body.record, List.lookup_cons, beq_false_of_ne ne]

theorem Acts.lookup_vars {v : Nat} (h : Acts src mine b b') (hv : ¬ mine v) :
    b'.shared.vars.lookup v = b.shared.vars.lookup v := by
  induction h
  case refl         => rfl
  case tail step hi => exact (step.lookup_vars hv).trans hi

-- Values of the function itself are held if they are `mine`.
theorem Acts.mine_of_lookup {v : Nat} {x : Var} (h : Acts src mine b b')
    (own : (src.ssa.value v).kind.isOwn) (hx : b'.locals.lookup v = some x) :
    b.locals.lookup v = some x ∨ mine v := by
  induction h
  case refl => exact .inl hx
  case tail step hi =>
    obtain ⟨hl, _⟩ | ⟨hv, _⟩ := step.own_cases own
    case inl => exact hi (hl ▸ hx)
    case inr => exact .inr hv

end Written

section Progress

theorem lt_of_hasBody (h : src.hasBody fn) : fn < src.ssa.functions.length := by
  by_contra hn
  have : src.ssa.function fn = ⟨"", "", none, false, false, false, none, [], [], []⟩ := by
    simp [Ssa.Program.function, List.getD_eq_getElem?_getD, Nat.le_of_not_lt hn]
  simp [Source.hasBody, this] at h

-- Functions whose bodies are lowered are those taken from the queue and those still there, each of
-- them once.
structure Scheduled (src : Source) (done : List Nat) (st : State) : Prop where
  nodup  : (done ++ st.queue).Nodup
  queued : ∀ fn, fn ∈ done ++ st.queue ↔ src.hasBody fn ∧ (st.methodId? fn).isSome

namespace Scheduled

theorem length_le (h : Scheduled src done st) : done.length ≤ src.ssa.functions.length := by
  have nodup : done.Nodup := h.nodup.of_append_left
  have sub : done ⊆ List.range src.ssa.functions.length := fun fn hf =>
    List.mem_range.mpr (lt_of_hasBody ((h.queued fn).mp (List.mem_append_left _ hf)).left)
  simpa using (nodup.subperm sub).length_le

theorem pop (h : Scheduled src done st) {rest : List Nat} (hq : st.queue = fn :: rest) :
    Scheduled src (done ++ [fn]) { st with queue := rest } := by
  have same : done ++ [fn] ++ rest = done ++ st.queue := by simp [hq]
  exact ⟨same ▸ h.nodup, same ▸ h.queued⟩

theorem methodId?_declareFunction {fn' : Nat} : (declareFunction src fn st).methodId? fn' =
    if fn' = fn then some st.program.methods.length else st.methodId? fn' := by
  by_cases e : fn' = fn
  case pos => simp [declareFunction, State.methodId?, e]
  case neg => simp [declareFunction, State.methodId?, List.lookup_cons, beq_false_of_ne e, e]

theorem declareFunction (h : Scheduled src done st) (fresh : st.methodId? fn = none) :
    Scheduled src done (declareFunction src fn st) := by
  have new : fn ∉ done ++ st.queue := by
    intro hf
    have := ((h.queued fn).mp hf).right
    simp [fresh] at this
  by_cases hb : src.hasBody fn
  case pos =>
    have queue : done ++ (Lowering.declareFunction src fn st).queue = done ++ st.queue ++ [fn] := by
      simp [Lowering.declareFunction, hb]
    refine ⟨queue ▸ List.nodup_append.mpr ⟨h.nodup, List.nodup_singleton fn, ?fresh⟩,
      fun fn' => ?queued⟩
    case fresh => grind
    case queued =>
      rw [queue, methodId?_declareFunction, List.mem_append, h.queued, List.mem_singleton]
      by_cases e : fn' = fn
      case pos => simp [e, hb]
      case neg => simp [e]
  case neg =>
    have queue : done ++ (Lowering.declareFunction src fn st).queue = done ++ st.queue := by
      simp [Lowering.declareFunction, hb]
    refine ⟨queue ▸ h.nodup, fun fn' => ?_⟩
    rw [queue, methodId?_declareFunction, h.queued]
    by_cases e : fn' = fn
    case pos => simp [e, hb]
    case neg => simp [e]

theorem grow (h : Scheduled src done st) (g : Grow src st st') : Scheduled src done st' := by
  cases g
  case newClass | bare => exact ⟨h.nodup, h.queued⟩
  case function fresh  => exact h.declareFunction fresh

theorem grows (h : Scheduled src done st) (g : Grows src st st') : Scheduled src done st' := by
  induction g
  case refl         => exact h
  case tail step hi => exact hi.grow step

end Scheduled

-- The method of a function whose body is lowered. `locals` are the variables of its values; they
-- are recorded unless another function mentions the value, too.
structure Lowered (src : Source) (st : State) (fn : Nat) (m : Method) (locals : List (Nat × Var)) :
    Prop where
  written    : Written m
  bound      : ∀ v x, locals.lookup v = some x → x ∈ m.vars
  params     : ∀ v x, (Build.paramPairs m (src.ssa.function fn).params).reverse.lookup v = some x →
    locals.lookup v = some x
  recorded   : ∀ v x, (src.ssa.value v).kind.isOwn → locals.lookup v = some x →
    (∀ fn', src.hasBody fn' → src.Mentions fn' v → fn' = fn) → st.vars.lookup v = some x
  named      : ∀ v x, (src.ssa.value v).kind.isOwn → locals.lookup v = some x → src.Names fn v
  loads      : Loads src locals m.body
  holds      : Holds src (Build.paramPairs m (src.ssa.function fn).params).reverse locals m.body
  translated : Translates src locals st.method? fn m.body

theorem Lowered.mono {locals : List (Nat × Var)} (h : Lowered src st fn m locals)
    (refs : KeepsRefs st.method? st'.method?)
    (vars : ∀ v, (∀ fn', src.hasBody fn' → src.Mentions fn' v → fn' = fn) →
      st'.vars.lookup v = st.vars.lookup v) : Lowered src st' fn m locals :=
  { h with
    recorded := fun v x own hv only => (vars v only).trans (h.recorded v x own hv only)
    translated := h.translated.mono refs }

-- Methods have a body exactly when their functions have been taken from the queue, and the
-- variables of their values are recorded.
structure Filled (src : Source) (done : List Nat) (st : State) : Prop where
  blank   : ∀ fn m, st.method? fn = some m → fn ∉ done → m.body = []
  lowered : ∀ fn ∈ done, ∀ m, st.method? fn = some m → ∃ locals, Lowered src st fn m locals
  named   : ∀ v x, st.vars.lookup v = some x → ∃ fn ∈ done, src.Names fn v

-- A function that gets its method by a declaration has none before.
theorem Orderly.method?_of_grow (h : Orderly src st) (g : Grow src st st')
    (hm : st'.method? fn = some m) :
    st.method? fn = some m ∨ st.methodId? fn = none ∧
      (st.program.class? (src.owner fn)).isSome ∧ m = functionMethod src fn st ∧
      st' = Lowering.declareFunction src fn st := by
  by_cases hf : (st.methodId? fn).isSome
  case pos =>
    have ⟨m', hm'⟩ := h.exists_method? hf
    have := h.method?_grow g hm'
    exact .inl (Option.some.inj (hm.symm.trans this) ▸ hm')
  case neg =>
    have ⟨hid, hmem⟩ := (h.grow g).method?_eq_some_iff.mp hm
    have old : (fn, m.id) ∉ st.methods := fun hid =>
      hf (Option.isSome_of_eq_some (h.methodId?_eq_some_iff.mpr hid))
    cases g
    case newClass | bare => exact absurd hid old
    case function new hc fresh =>
      cases (List.mem_cons.mp hid)
      case inr hid => exact absurd hid old
      case inl e =>
        obtain ⟨rfl, hid⟩ := Prod.mk.inj e
        cases (h.numbered.mem_methods_insertMethod hc).mp hmem
        case inl e => exact .inr ⟨fresh, hc, e, rfl⟩
        case inr hmem =>
          have := h.numbered.below m hmem
          omega

theorem Orderly.method?_of_grows (h : Orderly src st) (g : Grows src st st')
    (hm : st'.method? fn = some m) :
    st.method? fn = some m ∨ st.methodId? fn = none ∧ m.body = [] := by
  induction g
  case refl => exact .inl hm
  case tail st₁ _ g step hi =>
    obtain hm | ⟨fresh, _, new, _⟩ := (h.grows g).method?_of_grow step hm
    case inl => exact hi hm
    case inr =>
      have ⟨r, xs, _, _, _, _, he⟩ := functionMethod_eq src fn st₁
      refine .inr ⟨Option.not_isSome_iff_eq_none.mp fun hf => ?_, by rw [new, he]⟩
      have := Grows.isSome_methodId? g hf
      simp [fresh] at this

structure Progress (src : Source) (done : List Nat) (st : State) : Prop where
  orderly   : Orderly src st
  scheduled : Scheduled src done st
  filled    : Filled src done st

theorem progress_of_grows (grows : Grows src {} st) : Progress src [] st where
  orderly := (Orderly.empty src).grows grows
  scheduled := (⟨.nil, by simp [State.methodId?]⟩ : Scheduled src [] {}).grows grows
  filled := by
    refine ⟨fun fn m hm _ => ?blank, by simp, fun v x hx => ?named⟩
    case blank =>
      obtain hm | ⟨_, blank⟩ := (Orderly.empty src).method?_of_grows grows hm
      case inl => simp [State.method?, State.methodId?] at hm
      case inr => exact blank
    case named =>
      have none : st.vars = [] := grows.keeps.vars
      simp [none] at hx

theorem lookup_vars_start {v : Nat} (hv : ¬ src.Names fn v) :
    (Body.start src fn m st).shared.vars.lookup v = st.vars.lookup v := by
  have none : (Build.paramPairs m (src.ssa.function fn).params).reverse.lookup v = none := by
    cases hl : (Build.paramPairs m (src.ssa.function fn).params).reverse.lookup v
    case none => rfl
    case some x =>
      have := mem_paramPairs (List.mem_reverse.mp (mem_of_lookup hl))
      exact absurd (.inl this.left) hv
  simp [Body.start, List.lookup_append, none]

theorem recorded_start : Recorded src (.start src fn m st) := by
  intro v x _ hv
  have hv : (Build.paramPairs m (src.ssa.function fn).params).reverse.lookup v = some x := hv
  simp [Body.start, List.lookup_append, hv]

theorem paramPairs_eq {m' : Method} (h : Precedes m m') (params : List Nat) :
    Build.paramPairs m' params = Build.paramPairs m params := by
  have ⟨_, _, _, e⟩ := h
  rw [e]
  rfl

namespace Built

variable {rest : List Nat} {b : Body} {stmts : List Stmt}

theorem precedes (h : Built src st fn rest m b stmts) : Precedes m b.method :=
  h.acts.advances.method

theorem shared (h : Built src st fn rest m b stmts) (orderly : Orderly src st) :
    Orderly src b.shared :=
  h.acts.orderly (orderly.start fn m rest)

theorem kept {fn' : Nat} {k : Method} (h : Built src st fn rest m b stmts)
    (orderly : Orderly src st) (hk : st.method? fn' = some k) : b.shared.method? fn' = some k :=
  h.acts.method? (orderly.start fn m rest) hk

theorem orderly (h : Built src st fn rest m b stmts) (orderly : Orderly src st) :
    Orderly src (b.shared.fill m b.method) :=
  (h.shared orderly).fill (h.kept orderly h.method) h.precedes

theorem method?_eq (h : Built src st fn rest m b stmts) (orderly : Orderly src st) (fn' : Nat) :
    (b.shared.fill m b.method).method? fn' =
      if fn' = fn then some b.method else b.shared.method? fn' :=
  method?_fill (h.shared orderly) (h.kept orderly h.method) h.precedes

theorem keepsRefs (h : Built src st fn rest m b stmts) (orderly : Orderly src st) :
    KeepsRefs b.shared.method? (b.shared.fill m b.method).method? :=
  keepsRefs_fill (h.shared orderly) (h.kept orderly h.method) h.precedes

-- Other methods are those from before, or new ones.
theorem method?_of_ne {fn' : Nat} {k : Method} (h : Built src st fn rest m b stmts)
    (orderly : Orderly src st) (ne : fn' ≠ fn)
    (hk : (b.shared.fill m b.method).method? fn' = some k) :
    st.method? fn' = some k ∨ st.methodId? fn' = none ∧ k.body = [] := by
  rw [h.method?_eq orderly, if_neg ne] at hk
  have ⟨s, grows, he⟩ := h.acts.shared
  have hk : s.method? fn' = some k := by
    rw [he] at hk
    exact hk
  exact (orderly.start fn m rest).method?_of_grows grows hk

-- What is done already stays as it is.
theorem method?_of_done {fn' : Nat} {k : Method} (h : Built src st fn rest m b stmts)
    (progress : Progress src done st) (ne : fn' ≠ fn) (hf : fn' ∈ done)
    (hk : (b.shared.fill m b.method).method? fn' = some k) : st.method? fn' = some k := by
  refine (h.method?_of_ne progress.orderly ne hk).resolve_right fun ⟨hn, _⟩ => ?_
  have := ((progress.scheduled.queued fn').mp (List.mem_append_left _ hf)).right
  simp [hn] at this

theorem not_mem_done (h : Built src st fn rest m b stmts) (scheduled : Scheduled src done st) :
    fn ∉ done := fun hf =>
  List.disjoint_of_nodup_append scheduled.nodup hf (h.queue ▸ List.mem_cons_self)

theorem scheduled (h : Built src st fn rest m b stmts) (scheduled : Scheduled src done st) :
    Scheduled src (done ++ [fn]) (b.shared.fill m b.method) := by
  have popped := scheduled.pop h.queue
  have start : Scheduled src (done ++ [fn])
      (Body.start src fn m { st with queue := rest }).shared := ⟨popped.nodup, popped.queued⟩
  have ⟨s, grows, he⟩ := h.acts.shared
  have after := start.grows grows
  rw [he]
  exact ⟨after.nodup, after.queued⟩

theorem lookup_vars {v : Nat} (h : Built src st fn rest m b stmts) (hv : ¬ src.Names fn v) :
    (b.shared.fill m b.method).vars.lookup v = st.vars.lookup v :=
  (h.acts.lookup_vars hv).trans (lookup_vars_start hv)

-- What the finished body says about its method.
theorem lowered (h : Built src st fn rest m b stmts) (orderly : Orderly src st)
    (blank : m.body = []) :
    Lowered src (b.shared.fill m b.method) fn b.method b.locals := by
  have sound := h.acts.sound (sound_start orderly (orderly.declares h.method) rest)
  have unloaded : Loads src (Body.start src fn m { st with queue := rest }).locals m.body :=
    ⟨[], .nil, by simp [blank]⟩
  refine ⟨h.acts.written (.blank blank), sound.locals, ?params, ?recorded, ?named,
    h.acts.loads unloaded, ?holds, ?translated⟩
  case params =>
    intro v x hv
    rw [paramPairs_eq h.precedes] at hv
    exact h.acts.advances.locals v x hv
  case recorded =>
    intro v x own hv _
    exact h.acts.recorded recorded_start v x own hv
  case named =>
    intro v x own hx
    obtain given | named := h.acts.mine_of_lookup own hx
    case inl => exact .inl (mem_paramPairs (List.mem_reverse.mp (mem_of_lookup given))).left
    case inr => exact named
  case holds =>
    rw [paramPairs_eq h.precedes]
    exact h.acts.holds (.blank blank) (orderly.declares h.method).own
  case translated =>
    rw [h.body, blank]
    exact h.translated.mono (h.keepsRefs orderly)

-- While a body is built, its own method stays blank; it is filled in the end.
theorem progress (h : Built src st fn rest m b stmts) (progress : Progress src done st) :
    Progress src (done ++ [fn]) (b.shared.fill m b.method) := by
  have orderly := progress.orderly
  have scheduled := h.scheduled progress.scheduled
  have new := h.not_mem_done progress.scheduled
  have hasBody : src.hasBody fn := ((scheduled.queued fn).mp (by simp)).left
  refine ⟨h.orderly orderly, scheduled, ⟨?blank, ?lowered, ?named⟩⟩
  case blank =>
    intro fn' k hk hn
    have ⟨hd, ne⟩ : fn' ∉ done ∧ fn' ≠ fn := by simpa using hn
    obtain hk | ⟨_, hk⟩ := h.method?_of_ne orderly ne hk
    case inl => exact progress.filled.blank fn' k hk hd
    case inr => exact hk
  case lowered =>
    intro fn' hf k hk
    by_cases e : fn' = fn
    case pos =>
      subst e
      rw [h.method?_eq orderly, if_pos rfl] at hk
      cases hk
      exact ⟨b.locals, h.lowered orderly (progress.filled.blank fn' m h.method new)⟩
    case neg =>
      have hf : fn' ∈ done := by simpa [e] using hf
      have ⟨locals, lowered⟩ :=
        progress.filled.lowered fn' hf k (h.method?_of_done progress e hf hk)
      refine ⟨locals, lowered.mono (fun fn'' k' hk' => ?kept) fun v only => ?recorded⟩
      case kept => exact h.keepsRefs orderly fn'' k' (h.kept orderly hk')
      case recorded => exact h.lookup_vars fun hv => e (only fn hasBody hv.mentions).symm
  case named =>
    intro v x hx
    by_cases hv : src.Names fn v
    case pos => exact ⟨fn, by simp, hv⟩
    case neg =>
      rw [h.lookup_vars hv] at hx
      have ⟨fn', hf, hv'⟩ := progress.filled.named v x hx
      exact ⟨fn', List.mem_append_left _ hf, hv'⟩

end Built

theorem Finish.orderly (f : Finish src st st') (h : Orderly src st) : Orderly src st' := by
  cases f
  case intro built => exact built.orderly h

theorem Finish.isSome_methodId? (f : Relation.ReflTransGen (Finish src) st st')
    (hf : (st.methodId? fn).isSome) : (st'.methodId? fn).isSome := by
  induction f
  case refl => exact hf
  case tail step hi =>
    cases step
    case intro b _ built =>
      have ⟨s, grows, he⟩ := built.acts.shared
      have kept : (s.methodId? fn).isSome := Grows.isSome_methodId? grows hi
      change (b.shared.methodId? fn).isSome
      rw [he]
      exact kept

theorem Progress.finish (h : Progress src done st) (f : Finish src st st') :
    ∃ fn, Progress src (done ++ [fn]) st' := by
  cases f
  case intro built => exact ⟨_, built.progress h⟩

theorem lowerBodies_finish {fuel : Nat} (h : Progress src done st)
    (enough : src.ssa.functions.length < fuel + done.length) :
    ∃ st', lowerBodies src fuel st = .ok st' ∧ Relation.ReflTransGen (Finish src) st st' ∧
      st'.queue = [] ∧ ∃ done', Progress src done' st' := by
  induction fuel generalizing st done
  case zero =>
    have := h.scheduled.length_le
    omega
  case succ fuel hi =>
    unfold lowerBodies
    split
    case h_1 hq => exact ⟨st, rfl, .refl, hq, done, h⟩
    case h_2 fn rest hq =>
      have ⟨_, hf⟩ := (h.scheduled.queued fn).mp (by simp [hq])
      have ⟨m, hm⟩ := h.orderly.exists_method? hf
      have ⟨st₁, h₁, f₁⟩ := lowerBody_finish h.orderly hq hm
      have ⟨fn', progress⟩ := h.finish f₁
      have ⟨st₂, h₂, f₂, rest⟩ := hi progress (by simp; omega)
      refine ⟨st₂, ?_, .head f₁ f₂, rest⟩
      rw [h₁]
      exact h₂

end Progress

end PointsTo.Lowering
