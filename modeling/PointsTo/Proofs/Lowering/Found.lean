import PointsTo.Proofs.Lowering.Complete

namespace PointsTo.Lowering

variable {src : Source} {st st' : State} {fn : Nat} {m m' : Method}

-- The names of the functions that are `used`, as they come from real programs. A full name contains
-- more than the name.
structure WellNamed (src : Source) (used : Nat → Prop) : Prop where
  names     : ∀ fn, used fn → (src.ssa.function fn).name ≠ ""
  texts     : ∀ fn, used fn → (src.ssa.function fn).text ≠ ""
  distinct  : ∀ fn fn', used fn → used fn' →
    (src.ssa.function fn).text = (src.ssa.function fn').text → fn = fn'
  functions : ∀ fn fn', used fn → used fn' →
    (src.ssa.function fn).text ≠ (src.ssa.function fn').name
  bare      : ∀ fn name, used fn → src.IsBare name → (src.ssa.function fn).text ≠ name
  bareNames : ∀ name, src.IsBare name → name ≠ ""

theorem WellNamed.mono {used used' : Nat → Prop} (h : WellNamed src used)
    (sub : ∀ fn, used' fn → used fn) : WellNamed src used' where
  names fn hf := h.names fn (sub fn hf)
  texts fn hf := h.texts fn (sub fn hf)
  distinct fn fn' hf hf' := h.distinct fn fn' (sub fn hf) (sub fn' hf')
  functions fn fn' hf hf' := h.functions fn fn' (sub fn hf) (sub fn' hf')
  bare fn name hf := h.bare fn name (sub fn hf)
  bareNames := h.bareNames

-- The names of all functions that have methods.
abbrev State.WellNamed (src : Source) (st : State) : Prop :=
  Lowering.WellNamed src fun fn => (st.methodId? fn).isSome

-- Methods of functions are found in their classes, and all others are called what nobody else is.
structure Found (src : Source) (st : State) : Prop where
  declared : ∀ fn m, st.method? fn = some m →
    st.program.declared? m.owner m.subsignature = some m
  others   : ∀ m ∈ st.program.methods,
    (∃ fn, st.method? fn = some m) ∨ src.IsBare m.givenSubsignature

theorem subsignature_eq {name : String} (h : m.givenSubsignature = name) (hn : name ≠ "") :
    m.subsignature = name := by
  unfold Method.subsignature
  rw [h, if_neg hn]

namespace Found

theorem empty (src : Source) : Found src {} where
  declared := by simp [State.method?, State.methodId?]
  others   := by simp [Program.methods]

-- Whoever has the full name of `fn` as subsignature is the method of `fn`.
theorem subsignature_ne_text {used : Nat → Prop} (h : Found src st) (orderly : Orderly src st)
    (named : WellNamed src used) (known : ∀ fn, (st.methodId? fn).isSome → used fn) (new : used fn)
    (fresh : st.methodId? fn = none) (hm : m ∈ st.program.methods) :
    m.subsignature ≠ (src.ssa.function fn).text := by
  intro same
  obtain ⟨fn', hf⟩ | bare := h.others m hm
  case inl =>
    have recorded : (st.methodId? fn').isSome := by
      have hid := (orderly.method?_eq_some_iff.mp hf).left
      exact Option.isSome_of_eq_some (orderly.methodId?_eq_some_iff.mpr hid)
    have used' := known fn' recorded
    cases (orderly.declares hf).subsignature
    case inl given =>
      rw [subsignature_eq given (named.names fn' used')] at same
      exact named.functions fn fn' new used' same.symm
    case inr given =>
      rw [subsignature_eq given (named.texts fn' used')] at same
      have := named.distinct fn fn' new used' same.symm
      subst this
      simp [fresh] at recorded
  case inr =>
    rw [subsignature_eq rfl (named.bareNames _ bare)] at same
    exact named.bare fn _ new bare same.symm

theorem functionMethod_fresh {used : Nat → Prop} (h : Found src st) (orderly : Orderly src st)
    (named : WellNamed src used) (known : ∀ fn, (st.methodId? fn).isSome → used fn) (new : used fn)
    (fresh : st.methodId? fn = none) :
    st.program.declared? (src.owner fn) (functionMethod src fn st).subsignature = none := by
  have ⟨r, xs, _, _, _, _, he⟩ := functionMethod_eq src fn st
  have given := congrArg Method.givenSubsignature he
  by_cases taken : (st.program.declared? (src.owner fn) (src.ssa.function fn).name).isSome
  case pos =>
    rw [if_pos taken] at given
    rw [subsignature_eq given (named.texts fn new)]
    cases hd : st.program.declared? (src.owner fn) (src.ssa.function fn).text
    case none => rfl
    case some m =>
      have ⟨c, hc, hm⟩ := Program.declared?_eq_some_iff.mp hd
      have mem := Program.mem_methods_of_class (Program.mem_classes_of_class? hc) hm
      have same : m.subsignature = (src.ssa.function fn).text := by simpa using List.find?_some hm
      exact absurd same (h.subsignature_ne_text orderly named known new fresh mem)
  case neg =>
    rw [if_neg taken] at given
    rw [subsignature_eq given (named.names fn new)]
    simpa using taken

theorem declared?_grow {owner sub : String} (g : Grow src st st')
    (hd : st.program.declared? owner sub = some m) : st'.program.declared? owner sub = some m := by
  cases g
  case newClass        => exact Program.declared?_withClass hd
  case bare | function => exact Program.declared?_insertMethod hd

theorem others_grow (h : Found src st) (orderly : Orderly src st) (g : Grow src st st')
    (hm : m ∈ st'.program.methods) :
    (∃ fn, st'.method? fn = some m) ∨ src.IsBare m.givenSubsignature := by
  have old (hm : m ∈ st.program.methods) :
      (∃ fn, st'.method? fn = some m) ∨ src.IsBare m.givenSubsignature :=
    (h.others m hm).imp_left (Exists.imp fun _ hf => orderly.method?_grow g hf)
  have grown := orderly.grow g
  cases g
  case newClass empty => exact old (Program.methods_withClass empty ▸ hm)
  case bare owner name modifiers hc hb _ =>
    obtain ⟨r, _, _, _, he⟩ := nextMethod_eq st owner name modifiers name
    cases (orderly.numbered.mem_methods_insertMethod hc).mp hm
    case inl e  => exact .inr (by rw [e, he]; exact hb)
    case inr hm => exact old hm
  case function fn hc _ =>
    cases (orderly.numbered.mem_methods_insertMethod hc).mp hm
    case inr hm => exact old hm
    case inl e =>
      obtain ⟨r, xs, _, _, _, _, he⟩ := functionMethod_eq src fn st
      refine .inl ⟨fn, grown.method?_eq_some_iff.mpr ⟨?_, hm⟩⟩
      rw [e, he]
      exact List.mem_cons_self

theorem grow (h : Found src st) (orderly : Orderly src st) (g : Grow src st st')
    (named : st'.WellNamed src) : Found src st' := by
  have known : ∀ fn, (st.methodId? fn).isSome → (st'.methodId? fn).isSome :=
    fun fn => Grows.isSome_methodId? (.single g)
  constructor
  case declared =>
    intro fn m hm
    obtain old | ⟨fresh, hc, rfl, rfl⟩ := orderly.method?_of_grow g hm
    case inl => exact declared?_grow g (h.declared fn m old)
    case inr =>
      have new : ((declareFunction src fn st).methodId? fn).isSome := by
        simp [declareFunction, State.methodId?]
      have absent := h.functionMethod_fresh orderly named known new fresh
      rw [(declares_functionMethod src fn st).owner]
      exact Program.declared?_insertMethod_self hc absent
  case others => exact fun m hm => h.others_grow orderly g hm

theorem grows (h : Found src st) (orderly : Orderly src st) (g : Grows src st st')
    (named : st'.WellNamed src) : Found src st' := by
  induction g
  case refl => exact h
  case tail g step hi =>
    have before := named.mono fun fn => Grows.isSome_methodId? (.single step)
    exact (hi before).grow (orderly.grows g) step named

-- A method keeps its reference when it gets its statements.
theorem fill (h : Found src st) (orderly : Orderly src st) (hm : st.method? fn = some m)
    (precedes : Precedes m m') : Found src (st.fill m m') := by
  have mem := (orderly.method?_eq_some_iff.mp hm).right
  have same : m'.owner = m.owner ∧ m'.subsignature = m.subsignature :=
    MethodRef.mk.inj precedes.ref
  have kept : ∀ k ∈ st.program.methods, k.id = m.id → m'.subsignature = k.subsignature := by
    intro k hk e
    rw [orderly.numbered.eq_of_id hk mem e, same.right]
  constructor
  case declared =>
    intro fn' k hk
    rw [method?_fill orderly hm precedes] at hk
    split at hk
    case isTrue =>
      cases hk
      have := Program.declared?_modifyMethod (f := fun _ => m') (h.declared fn m hm) kept
      rw [same.left, same.right]
      simpa [State.fill] using this
    case isFalse ne =>
      have other : k.id ≠ m.id := by
        intro e
        have hk' := (orderly.method?_eq_some_iff.mp hk).right
        have := orderly.numbered.eq_of_id hk' mem e
        subst this
        exact ne (orderly.eq_of_method? hk hm)
      have := Program.declared?_modifyMethod (f := fun _ => m') (h.declared fn' k hk) kept
      simpa [State.fill, other] using this
  case others =>
    intro k hk
    cases (mem_methods_fill orderly hm).mp hk
    case inl e => exact .inl ⟨fn, by rw [method?_fill orderly hm precedes, if_pos rfl, e]⟩
    case inr hk =>
      refine (h.others k hk.left).imp_left ?_
      rintro ⟨fn', hf⟩
      refine ⟨fn', ?_⟩
      have ne : fn' ≠ fn := by
        rintro rfl
        exact hk.right (Option.some.inj (hf.symm.trans hm))
      rw [method?_fill orderly hm precedes, if_neg ne, hf]

theorem finish (h : Found src st) (orderly : Orderly src st) (f : Finish src st st')
    (named : st'.WellNamed src) : Found src st' := by
  cases f
  case intro fn rest m b _ built =>
    have start : Found src (Body.start src fn m { st with queue := rest }).shared :=
      ⟨h.declared, h.others⟩
    have shared : Found src b.shared := by
      have ⟨s, grows, he⟩ := built.acts.shared
      have names : s.WellNamed src := by
        rw [he] at named
        exact named
      have found := start.grows (orderly.start fn m rest) grows names
      rw [he]
      exact ⟨found.declared, found.others⟩
    exact shared.fill (built.shared orderly) (built.kept orderly built.method) built.precedes

theorem finishes (h : Found src st) (orderly : Orderly src st)
    (f : Relation.ReflTransGen (Finish src) st st') (named : st'.WellNamed src) :
    Found src st' ∧ Orderly src st' := by
  induction f
  case refl => exact ⟨h, orderly⟩
  case tail step hi =>
    have before := named.mono fun fn => Finish.isSome_methodId? (.single step)
    have ⟨found, orderly⟩ := hi before
    exact ⟨found.finish orderly step named, step.orderly orderly⟩

end Found

theorem Run.declared? {r : Result} {st₀ fin : State} {done : List Nat}
    (h : Run src r st₀ st fin done) (named : WellNamed src fun fn => (r.method? fn).isSome)
    (hm : r.method? fn = some m) : r.program.declared? m.owner m.subsignature = some m := by
  have names : st.WellNamed src := named.mono fun fn hf => by
    have ⟨m, hm⟩ := h.progress.orderly.exists_method? hf
    rw [h.method?_eq, hm]
    rfl
  have names₀ : st₀.WellNamed src := names.mono fun fn => Finish.isSome_methodId? h.finishes
  have empty := Orderly.empty src
  have found₀ := (Found.empty src).grows empty h.declared.grows names₀
  have ⟨found, _⟩ := found₀.finishes (empty.grows h.declared.grows) h.finishes names
  rw [h.method?_eq] at hm
  rw [h.result]
  exact h.completed.found _ _ m (found.declared fn m hm)

end PointsTo.Lowering
