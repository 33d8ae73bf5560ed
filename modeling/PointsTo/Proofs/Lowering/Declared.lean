import PointsTo.Proofs.Lowering.Growth
import PointsTo.Proofs.Variables

namespace PointsTo

theorem lookup_eq_some_iff_of_nodup {α β : Type} [DecidableEq α] {l : List (α × β)} {a : α} {b : β}
    (nodup : (l.map Prod.fst).Nodup) : l.lookup a = some b ↔ (a, b) ∈ l := by
  induction l
  case nil => simp
  case cons e rest hi =>
    obtain ⟨k, b'⟩ := e
    have ⟨fresh, nodup⟩ := List.nodup_cons.mp nodup
    rw [List.lookup_cons, List.mem_cons]
    by_cases he : a = k
    case pos =>
      have other : (a, b) ∉ rest := fun hb => fresh (List.mem_map.mpr ⟨_, hb, he⟩)
      simp [he, he ▸ other, eq_comm]
    case neg => simp [beq_false_of_ne he, he, hi nodup]

namespace Lowering

variable {src : Source} {st st' : State} {fn : Nat} {m : Method}

-- The shape of the method of a function, whatever its body is.
structure Declares (src : Source) (fn : Nat) (m : Method) : Prop where
  owner        : m.owner = src.owner fn
  name         : m.name = (src.ssa.function fn).name
  modifiers    : m.modifiers = { isStatic := (src.ssa.function fn).recv.isNone }
  subsignature : m.givenSubsignature = (src.ssa.function fn).name ∨
    m.givenSubsignature = (src.ssa.function fn).text
  receiver     : m.receiver.isSome = (src.ssa.function fn).recv.isSome
  params       : m.params.length = (src.ssa.function fn).signature.length
  vars         : ∀ x ∈ m.receiver.toList ++ m.params, x ∈ m.vars
  plain        : ∀ x ∈ m.receiver.toList ++ m.params, x.const = none
  own          : Consecutive m.id 0 m.vars

theorem nextMethod_eq (st : State) (owner name : String) (modifiers : Modifiers) (sub : String) :
    ∃ r : Option Var, r.isSome = !modifiers.isStatic ∧
      Consecutive st.program.methods.length 0 r.toList ∧ (∀ x ∈ r.toList, x.const = none) ∧
      st.nextMethod owner name modifiers sub =
        { id := st.program.methods.length, owner, name, modifiers, givenSubsignature := sub,
          receiver := r, vars := r.toList } := by
  unfold State.nextMethod Program.nextMethod Method.declare
  cases hs : modifiers.isStatic
  case true  => exact ⟨none, rfl, .nil, by simp, by simp [Method.setSubsignature]⟩
  case false =>
    refine ⟨some ⟨0, some st.program.methods.length, "this", owner, none⟩, rfl,
      ⟨by simp, rfl⟩, by simp, ?_⟩
    simp [Method.setSubsignature, Method.addVar, Method.nextVar]

theorem tidy_nextMethod (st : State) (owner name : String) (modifiers : Modifiers) (sub : String) :
    (st.nextMethod owner name modifiers sub).Tidy :=
  (Method.Tidy.declare ..).setSubsignature sub

theorem functionMethod_eq (src : Source) (fn : Nat) (st : State) :
    ∃ (r : Option Var) (xs : List Var), r.isSome = (src.ssa.function fn).recv.isSome ∧
      xs.length = (src.ssa.function fn).signature.length ∧
      Consecutive st.program.methods.length 0 (r.toList ++ xs) ∧
      (∀ x ∈ r.toList ++ xs, x.const = none) ∧
      functionMethod src fn st =
        { id := st.program.methods.length, owner := src.owner fn,
          name := (src.ssa.function fn).name,
          modifiers := { isStatic := (src.ssa.function fn).recv.isNone },
          givenSubsignature :=
            if (st.program.declared? (src.owner fn) (src.ssa.function fn).name).isSome then
              (src.ssa.function fn).text
            else (src.ssa.function fn).name,
          receiver := r, params := xs, vars := r.toList ++ xs } := by
  unfold functionMethod withParams
  simp only
  generalize (if (st.program.declared? (src.owner fn) (src.ssa.function fn).name).isSome then
    (src.ssa.function fn).text else (src.ssa.function fn).name) = sub
  have ⟨r, hr, hro, hrc, he⟩ := nextMethod_eq st (src.owner fn) (src.ssa.function fn).name
    { isStatic := (src.ssa.function fn).recv.isNone } sub
  have ⟨xs, hl, hxo, hxc, hx⟩ := Method.foldl_addParam
    (fun a : (String × String) × Nat =>
      if a.1.1 = "" || a.1.1 = "_" then "p" ++ toString a.2 else a.1.1) (fun a => a.1.2)
    (src.ssa.function fn).signature.zipIdx
    (st.nextMethod (src.owner fn) (src.ssa.function fn).name
      { isStatic := (src.ssa.function fn).recv.isNone } sub)
  refine ⟨r, xs, by simpa using hr, by simpa using hl, hro.append ?_,
    List.forall_mem_append.mpr ⟨hrc, hxc⟩, hx.trans (by simp [he])⟩
  rw [he] at hxo
  simpa using hxo

theorem declares_functionMethod (src : Source) (fn : Nat) (st : State) :
    Declares src fn (functionMethod src fn st) := by
  have ⟨r, xs, hr, hl, ho, hc, he⟩ := functionMethod_eq src fn st
  rw [he]
  refine ⟨rfl, rfl, rfl, ?_, hr, hl, fun x hx => hx, hc, ho⟩
  dsimp only
  split
  case isTrue  => exact .inr rfl
  case isFalse => exact .inl rfl

theorem tidy_functionMethod (src : Source) (fn : Nat) (st : State) :
    (functionMethod src fn st).Tidy :=
  Method.Tidy.foldl (fun _ _ h => h.addParam ..) _ (tidy_nextMethod ..)

theorem Declares.not_isAbstract (h : Declares src fn m) : m.isAbstract = false := by
  simp [Method.isAbstract, h.modifiers]

theorem Declares.not_isNative (h : Declares src fn m) : m.isNative = false := by
  simp [Method.isNative, h.modifiers]

theorem Declares.hasBody (h : Declares src fn m) {s : Stmt} (hs : s ∈ m.body) : m.hasBody := by
  simp [Method.hasBody, h.not_isAbstract, h.not_isNative, List.ne_nil_of_mem hs]

-- Functions and their methods belong together one to one, and all other methods are without a body.
structure Orderly (src : Source) (st : State) : Prop where
  numbered : st.program.Numbered
  keys     : (st.methods.map Prod.fst).Nodup
  ids      : (st.methods.map Prod.snd).Nodup
  declared : ∀ fn id, (fn, id) ∈ st.methods →
    ∃ m ∈ st.program.methods, m.id = id ∧ Declares src fn m
  bare     : ∀ m ∈ st.program.methods, m.id ∈ st.methods.map Prod.snd ∨
    m.body = [] ∧ (m.isAbstract ∨ m.isNative)

namespace Orderly

theorem empty (src : Source) : Orderly src {} where
  numbered := .empty
  keys     := .nil
  ids      := .nil
  declared := by simp
  bare     := by simp [Program.methods]

theorem methodId?_eq_some_iff (h : Orderly src st) {id : Nat} :
    st.methodId? fn = some id ↔ (fn, id) ∈ st.methods :=
  lookup_eq_some_iff_of_nodup h.keys

theorem method?_eq_some_iff (h : Orderly src st) :
    st.method? fn = some m ↔ (fn, m.id) ∈ st.methods ∧ m ∈ st.program.methods := by
  unfold State.method?
  rw [Option.bind_eq_some_iff]
  constructor
  case mp =>
    intro ⟨id, hid, hm⟩
    have ⟨hm, e⟩ := h.numbered.method?_eq_some_iff.mp hm
    exact ⟨h.methodId?_eq_some_iff.mp (e ▸ hid), hm⟩
  case mpr =>
    intro ⟨hid, hm⟩
    exact ⟨m.id, h.methodId?_eq_some_iff.mpr hid, h.numbered.method?_id hm⟩

theorem declares (h : Orderly src st) (hm : st.method? fn = some m) : Declares src fn m := by
  have ⟨hid, hm⟩ := h.method?_eq_some_iff.mp hm
  have ⟨m', hm', e, declares⟩ := h.declared fn m.id hid
  exact h.numbered.eq_of_id hm' hm e ▸ declares

theorem exists_method? (h : Orderly src st) (hf : (st.methodId? fn).isSome) :
    ∃ m, st.method? fn = some m := by
  have ⟨id, hid⟩ := Option.isSome_iff_exists.mp hf
  have hid := h.methodId?_eq_some_iff.mp hid
  have ⟨m, hm, e, _⟩ := h.declared fn id hid
  exact ⟨m, h.method?_eq_some_iff.mpr ⟨e ▸ hid, hm⟩⟩

theorem eq_of_method? {fn' : Nat} (h : Orderly src st) (hm : st.method? fn = some m)
    (hm' : st.method? fn' = some m) : fn = fn' := by
  have hid := (h.method?_eq_some_iff.mp hm).left
  have hid' := (h.method?_eq_some_iff.mp hm').left
  have := List.inj_on_of_nodup_map h.ids hid hid' rfl
  exact congrArg Prod.fst this

theorem id_lt (h : Orderly src st) {id : Nat} (hid : (fn, id) ∈ st.methods) :
    id < st.program.methods.length := by
  have ⟨m, hm, e, _⟩ := h.declared fn id hid
  exact e ▸ h.numbered.below m hm

theorem newClass (h : Orderly src st) {c : Class} (fresh : st.program.class? c.name = none)
    (empty : c.methods = []) : Orderly src { st with program := st.program.withClass c } where
  numbered := h.numbered.withClass fresh empty
  keys := h.keys
  ids := h.ids
  declared := by simpa only [Program.methods_withClass empty] using h.declared
  bare := by simpa only [Program.methods_withClass empty] using h.bare

theorem addMethod (h : Orderly src st) {owner name : String} {modifiers : Modifiers}
    (hc : (st.program.class? owner).isSome) (hm : modifiers.isAbstract ∨ modifiers.isNative) :
    Orderly src (st.addMethod owner name modifiers) := by
  have ⟨r, _, _, _, he⟩ := nextMethod_eq st owner name modifiers name
  refine ⟨h.numbered.insertMethod hc (by rw [he]) (by rw [he]), h.keys, h.ids, ?declared, ?bare⟩
  case declared =>
    intro fn id hid
    have ⟨m, hm, rest⟩ := h.declared fn id hid
    exact ⟨m, (h.numbered.mem_methods_insertMethod hc).mpr (.inr hm), rest⟩
  case bare =>
    intro m hm'
    cases (h.numbered.mem_methods_insertMethod hc).mp hm'
    case inl e  => exact .inr (by rw [e, he]; exact ⟨rfl, hm⟩)
    case inr hm => exact h.bare m hm

theorem declareFunction (h : Orderly src st) (hc : (st.program.class? (src.owner fn)).isSome)
    (fresh : st.methodId? fn = none) : Orderly src (declareFunction src fn st) := by
  have ⟨r, xs, _, _, _, _, he⟩ := functionMethod_eq src fn st
  have hid : (functionMethod src fn st).id = st.program.methods.length := by rw [he]
  refine ⟨h.numbered.insertMethod hc hid (by rw [he]), ?keys, ?ids, ?declared, ?bare⟩
  case keys =>
    refine List.nodup_cons.mpr ⟨fun hf => ?_, h.keys⟩
    obtain ⟨⟨fn, id⟩, hm, rfl⟩ := List.mem_map.mp hf
    have := h.methodId?_eq_some_iff.mpr hm
    simp [fresh] at this
  case ids =>
    refine List.nodup_cons.mpr ⟨fun hn => ?_, h.ids⟩
    have ⟨⟨fn', id⟩, hm, hn⟩ := List.mem_map.mp hn
    have : id < st.program.methods.length := h.id_lt hm
    simp only at hn
    omega
  case declared =>
    intro fn' id hm
    cases List.mem_cons.mp hm
    case inl e =>
      cases e
      exact ⟨_, (h.numbered.mem_methods_insertMethod hc).mpr (.inl rfl), hid,
        declares_functionMethod src fn st⟩
    case inr hm =>
      have ⟨m, hm, rest⟩ := h.declared fn' id hm
      exact ⟨m, (h.numbered.mem_methods_insertMethod hc).mpr (.inr hm), rest⟩
  case bare =>
    intro m hm
    cases (h.numbered.mem_methods_insertMethod hc).mp hm
    case inl e  => exact .inl (by simp [Lowering.declareFunction, e, hid])
    case inr hm => exact (h.bare m hm).imp_left (List.mem_cons_of_mem _)

theorem grow (h : Orderly src st) (g : Grow src st st') : Orderly src st' := by
  cases g
  case newClass fresh empty => exact h.newClass fresh empty
  case bare hc _ hm         => exact h.addMethod hc hm
  case function hc fresh    => exact h.declareFunction hc fresh

theorem grows (h : Orderly src st) (g : Grows src st st') : Orderly src st' := by
  induction g
  case refl         => exact h
  case tail step hi => exact hi.grow step

theorem mem_methods_grow (h : Orderly src st) (g : Grow src st st')
    (hm : m ∈ st.program.methods) : m ∈ st'.program.methods := by
  cases g
  case newClass empty => simpa only [Program.methods_withClass empty] using hm
  case bare hc _ _   => exact (h.numbered.mem_methods_insertMethod hc).mpr (.inr hm)
  case function hc _ => exact (h.numbered.mem_methods_insertMethod hc).mpr (.inr hm)

theorem method?_grow (h : Orderly src st) (g : Grow src st st') (hm : st.method? fn = some m) :
    st'.method? fn = some m := by
  have ⟨hid, hm⟩ := h.method?_eq_some_iff.mp hm
  have recorded := g.keeps.ids fn m.id (h.methodId?_eq_some_iff.mpr hid)
  have hid := (h.grow g).methodId?_eq_some_iff.mp recorded
  exact (h.grow g).method?_eq_some_iff.mpr ⟨hid, h.mem_methods_grow g hm⟩

theorem method?_grows (h : Orderly src st) (g : Grows src st st') (hm : st.method? fn = some m) :
    st'.method? fn = some m := by
  induction g
  case refl           => exact hm
  case tail g step hi => exact (h.grows g).method?_grow step hi

end Orderly
end Lowering
end PointsTo
