import PointsTo.Proofs.Lowering.Numbered

namespace PointsTo

inductive Method.Edit : Method → Method → Prop
  | addVar {m : Method} {name type : String} {const : Option Literal} :
    Edit m (m.addVar name type const)
  | addParam {m : Method} {name type : String} : Edit m (m.addParam name type)
  | addInt {m : Method} {n : Int} : Edit m (m.addInt n)
  | setSubsignature {m : Method} {sub : String} : Edit m (m.setSubsignature sub)
  | emit {m : Method} {s : Stmt} : (∀ site lhs type, s ≠ .alloc site lhs type) → Edit m (m.emit s)
  | emitAlloc {m : Method} {lhs : Var} {type : String} : Edit m (m.emitAlloc lhs type)

theorem Method.Edit.id_eq {m m' : Method} (h : m.Edit m') : m'.id = m.id := by
  cases h <;> rfl

theorem Method.Edit.owner_eq {m m' : Method} (h : m.Edit m') : m'.owner = m.owner := by
  cases h <;> rfl

-- The site of an allocation is its position in the method.
def Method.Sited (m : Method) : Prop :=
  ∀ (i : Nat) (site : Site) (lhs : Var) (type : String),
    m.body[i]? = some (.alloc site lhs type) → site = ⟨i, m.id⟩

theorem Method.Sited.emit {m : Method} {s : Stmt} (h : m.Sited)
    (hs : ∀ site lhs type, s = .alloc site lhs type → site = m.nextSite) : (m.emit s).Sited := by
  intro i site lhs type hi
  simp only [Method.emit, List.getElem?_append] at hi
  split at hi
  case isTrue => exact h i site lhs type hi
  case isFalse le =>
    have ⟨last, e⟩ := List.getElem?_eq_some_iff.mp hi
    have : i = m.body.length := by
      simp only [List.length_singleton] at last
      omega
    subst this
    exact hs site lhs type (by simpa using e)

theorem Method.Edit.sited {m m' : Method} (h : m.Edit m') (hm : m.Sited) : m'.Sited := by
  cases h
  case emit hs   => exact hm.emit fun site lhs type e => absurd e (hs site lhs type)
  case emitAlloc => exact hm.emit (by simp)
  all_goals exact hm

-- A declared method has its number and its class, and no statement.
theorem Method.declare_eq {id : Nat} {owner name : String} {modifiers : Modifiers}
    {types : List String} : (declare id owner name modifiers types).id = id ∧
      (declare id owner name modifiers types).owner = owner ∧
      (declare id owner name modifiers types).body = [] := by
  have same {α : Type} (f : Method → α → Method)
      (hf : ∀ m a, (f m a).id = m.id ∧ (f m a).owner = m.owner ∧ (f m a).body = m.body)
      (l : List α) (m : Method) : (l.foldl f m).id = m.id ∧ (l.foldl f m).owner = m.owner ∧
        (l.foldl f m).body = m.body := by
    induction l generalizing m
    case nil => exact ⟨rfl, rfl, rfl⟩
    case cons a rest hi => simpa [hf] using hi (f m a)
  unfold declare
  cases modifiers.isStatic
  all_goals
    refine same _ ?_ _ _
    exact fun _ _ => ⟨rfl, rfl, rfl⟩

namespace Program

variable {p p' : Program} {c : Class} {m : Method} {name owner : String} {id : Nat}

-- Superclasses and interfaces are declared before a class refers to them, but interfaces that are
-- linked later on may lead back to the class.
inductive Built : Program → Prop
  | empty : Built {}
  | addClass {p p' : Program} {c : Class} : Built p → c.methods = [] →
    (∀ super, c.super = some super → (p.class? super).isSome) →
    (∀ i ∈ c.interfaces, (p.class? i).isSome) → p.addClass c = .ok p' → Built p'
  | link {p : Program} {name i : String} : Built p → (p.class? i).isSome → Built (p.link name i)
  | addMethod {p : Program} {owner name : String} {modifiers : Modifiers} {types : List String} :
    Built p → (p.class? owner).isSome → Built (p.addMethod owner name modifiers types)
  | editMethod {p : Program} {id : Nat} {f : Method → Method} : Built p →
    (∀ m ∈ p.methods, m.id = id → m.Edit (f m)) → Built (p.modifyMethod id f)

theorem addClass_eq_ok_iff :
    p.addClass c = .ok p' ↔ p.class? c.name = none ∧ p' = p.withClass c := by
  unfold addClass
  split
  case h_1 h => simp [h]
  case h_2 h => simp [h, withClass, eq_comm]

-- The names of the classes, each with that of its superclass. Only new classes change it.
def skeleton (p : Program) : List (String × Option String) :=
  p.classes.map fun c => (c.name, c.super)

theorem skeleton_modifyClass {f : Class → Class} (names : ∀ c, (f c).name = c.name)
    (supers : ∀ c, (f c).super = c.super) : (p.modifyClass name f).skeleton = p.skeleton := by
  unfold skeleton modifyClass
  rw [List.map_map]
  refine List.map_congr_left fun c _ => ?_
  simp only [Function.comp_apply]
  split
  case isTrue  => rw [names, supers]
  case isFalse => rfl

theorem skeleton_link {i : String} : (p.link name i).skeleton = p.skeleton :=
  skeleton_modifyClass (fun _ => rfl) fun _ => rfl

theorem skeleton_insertMethod : (p.insertMethod owner m).skeleton = p.skeleton :=
  skeleton_modifyClass (fun _ => rfl) fun _ => rfl

theorem skeleton_modifyMethod {f : Method → Method} :
    (p.modifyMethod id f).skeleton = p.skeleton := by
  unfold skeleton modifyMethod
  rw [List.map_map]
  rfl

-- Superclasses stand in front of their subclasses.
def Layered (p : Program) : Prop :=
  ∀ before name super after, p.skeleton = before ++ (name, some super) :: after →
    super ∈ before.map Prod.fst

theorem Layered.withClass (h : p.Layered)
    (declared : ∀ super, c.super = some super → (p.class? super).isSome) :
    (p.withClass c).Layered := by
  intro before name super after e
  have e : p.skeleton ++ [(c.name, c.super)] = before ++ (name, some super) :: after := by
    simpa [skeleton, Program.withClass] using e
  rcases List.eq_nil_or_concat after with rfl | ⟨after, last, rfl⟩
  case inl =>
    obtain ⟨hb, hc⟩ := List.append_inj' e rfl
    obtain ⟨k, hk, hn⟩ := class?_isSome_iff.mp (declared super (by simp_all))
    rw [← hb, ← hn]
    exact List.mem_map.mpr ⟨_, List.mem_map_of_mem hk, rfl⟩
  case inr =>
    have e : p.skeleton ++ [(c.name, c.super)] = (before ++ (name, some super) :: after) ++ [last] := by
      simpa using e
    exact h before name super after (List.append_inj' e rfl).left

theorem methods_link {i : String} : (p.link name i).methods = p.methods := by
  unfold methods link modifyClass
  rw [List.flatMap_map]
  congr 1
  funext c
  split <;> rfl

theorem names_link {i : String} :
    (p.link name i).classes.map Class.name = p.classes.map Class.name := by
  have same : (p.link name i).skeleton.map Prod.fst = p.skeleton.map Prod.fst := by
    rw [skeleton_link]
  simpa [skeleton, Function.comp_def] using same

theorem Numbered.link {i : String} (h : p.Numbered) : (p.link name i).Numbered where
  names  := by simpa only [names_link] using h.names
  ids    := by simpa only [methods_link] using h.ids
  below  := by simpa only [methods_link] using h.below
  owners := by
    intro c' hc' m hm
    have ⟨c, hc, e⟩ := List.mem_map.mp hc'
    subst e
    split at hm
    case isTrue hn  => simpa [hn] using h.owners c hc m hm
    case isFalse hn => simpa [hn] using h.owners c hc m hm

namespace Built

theorem numbered (h : p.Built) : p.Numbered := by
  induction h
  case empty => exact .empty
  case addClass empty _ _ added hi =>
    have ⟨fresh, e⟩ := addClass_eq_ok_iff.mp added
    exact e ▸ hi.withClass fresh empty
  case link hi => exact hi.link
  case addMethod hc hi => exact hi.insertMethod hc Method.declare_eq.left Method.declare_eq.right.left
  case editMethod edits hi =>
    refine hi.modifyMethod fun m hm e => ?_
    exact ⟨(edits m hm e).id_eq.trans e, (edits m hm e).owner_eq⟩

theorem layered (h : p.Built) : p.Layered := by
  induction h
  case empty => simp [Layered, skeleton]
  case addClass declared _ added hi =>
    have ⟨_, e⟩ := addClass_eq_ok_iff.mp added
    exact e ▸ hi.withClass declared
  case link hi =>
    unfold Layered
    rw [skeleton_link]
    exact hi
  case addMethod hi =>
    unfold Layered Program.addMethod
    rw [skeleton_insertMethod]
    exact hi
  case editMethod hi =>
    unfold Layered
    rw [skeleton_modifyMethod]
    exact hi

theorem sited (h : p.Built) : ∀ m ∈ p.methods, m.Sited := by
  induction h
  case empty => simp [methods]
  case addClass empty _ _ added hi =>
    obtain ⟨_, e⟩ := addClass_eq_ok_iff.mp added
    rw [e, methods_withClass empty]
    exact hi
  case link hi =>
    rw [methods_link]
    exact hi
  case addMethod built hc hi =>
    intro m hm
    cases (built.numbered.mem_methods_insertMethod hc).mp hm
    case inl e  => simp [e, nextMethod, Method.Sited, Method.declare_eq]
    case inr hm => exact hi m hm
  case editMethod edits hi =>
    rw [methods_modifyMethod]
    intro m' hm'
    obtain ⟨m, hm, e⟩ := List.mem_map.mp hm'
    subst e
    split
    case isTrue e  => exact (edits m hm e).sited (hi m hm)
    case isFalse e => exact hi m hm

end Built
end Program
end PointsTo
