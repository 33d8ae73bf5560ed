import PointsTo.Proofs.Hierarchy
import PointsTo.Proofs.NumberedCalls
import PointsTo.Proofs.Variables

namespace PointsTo

namespace Method

-- An addition to a method. Calls are checked against their receivers, other statements are not.
inductive Change where
  | newVar (name type : String) (const : Option Literal)
  | addParam (name type : String)
  | int (n : Int)
  | setSubsignature (subsignature : String)
  | emit (s : Stmt)
  | new (lhs : Var) (type : String)
  | invoke (call : Invoke)

structure Header where
  owner : String
  name : String
  modifiers : Modifiers
deriving DecidableEq

def header (m : Method) : Header :=
  ⟨m.owner, m.name, m.modifiers⟩

variable {m : Method}

theorem header_declare {id : Nat} {owner name : String} {modifiers : Modifiers}
    {types : List String} :
    (declare id owner name modifiers types).header = ⟨owner, name, modifiers⟩ := by
  have same {α : Type} {f : Method → α → Method} (hf : ∀ m a, (f m a).header = m.header)
      (l : List α) (m : Method) : (l.foldl f m).header = m.header := by
    induction l generalizing m
    case nil            => rfl
    case cons a rest hi => exact (hi _).trans (hf m a)
  unfold declare
  cases modifiers.isStatic
  all_goals
    refine same ?_ _ _
    exact fun _ _ => rfl

namespace Change

-- The method that is left behind, and what the change was rejected for.
def perform (m : Method) : Change → Method × Option ReceiverMismatch
  | newVar name type value => (m.addVar name type value, none)
  | addParam name type => (m.addParam name type, none)
  | int n => (m.addInt n, none)
  | setSubsignature subsignature => (m.setSubsignature subsignature, none)
  | emit s => (m.emit s, none)
  | new lhs type => (m.emitAlloc lhs type, none)
  | invoke call =>
    match m.emitInvoke call with
    | .ok m => (m, none)
    | .error e => (m, some e)

-- Calls that are static have no receiver, and all others have one.
theorem perform_invoke (m : Method) (call : Invoke) : (invoke call).perform m =
    if call.isStatic = call.base.isNone then (m.emit (.invoke call), none)
    else (m, some ⟨call.kind, call.method, call.base⟩) := by
  unfold perform Method.emitInvoke
  by_cases matched : call.isStatic = call.base.isNone
  case pos => simp [matched]
  case neg => simp [matched]

theorem same_perform (c : Change) :
    (c.perform m).1.id = m.id ∧ (c.perform m).1.header = m.header := by
  cases c
  case invoke call =>
    rw [perform_invoke]
    split <;> exact ⟨rfl, rfl⟩
  all_goals exact ⟨rfl, rfl⟩

theorem tidy_perform (h : m.Tidy) (c : Change) : (c.perform m).1.Tidy := by
  cases c
  case newVar          => exact h.addVar ..
  case addParam        => exact h.addParam ..
  case int             => exact h.addVar ..
  case setSubsignature => exact h.setSubsignature _
  case emit | new      => exact h.emit _
  case invoke call =>
    rw [perform_invoke]
    split
    case isTrue  => exact h.emit _
    case isFalse => exact h

theorem mismatch_of_rejected {e : ReceiverMismatch} (c : Change) (h : (c.perform m).2 = some e) :
    ∃ call : Invoke, c = .invoke call ∧ call.isStatic ≠ call.base.isNone ∧
      e = ⟨call.kind, call.method, call.base⟩ := by
  cases c
  case invoke call =>
    rw [perform_invoke] at h
    split at h
    case isTrue           => contradiction
    case isFalse mismatch => exact ⟨call, rfl, mismatch, (Option.some.inj h).symm⟩
  all_goals contradiction

end Change
end Method

def Class.bare (c : Class) : Class :=
  { c with methods := [] }

namespace Program

variable {p : Program} {c : Class} {m : Method} {name owner i : String} {id : Nat}

inductive Operation where
  | newClass (name : String) (super : Option String) (interfaces : List String)
  | newInterface (name : String) (supers : List String)
  | link (name i : String)
  | newMethod (owner name : String) (modifiers : Modifiers) (types : List String)
  | change (id : Nat) (c : Method.Change)

inductive Rejection where
  | duplicateClass (e : DuplicateClass)
  | receiverMismatch (e : ReceiverMismatch)
deriving DecidableEq

namespace Operation

def class? : Operation → Option Class
  | newClass name super interfaces => some { name, super, interfaces }
  | newInterface name supers => some { name, interfaces := supers, isInterface := true }
  | _ => none

-- The interface that a class of this name is linked to.
def link? (name : String) : Operation → Option String
  | link k i => if k = name then some i else none
  | _ => none

def header? : Operation → Option Method.Header
  | newMethod owner name modifiers _ => some ⟨owner, name, modifiers⟩
  | _ => none

def declarations (ops : List Operation) : List Class :=
  ops.filterMap class?

def links (name : String) (ops : List Operation) : List String :=
  ops.filterMap (link? name)

def headers (ops : List Operation) : List Method.Header :=
  ops.filterMap header?

def declare (p : Program) (c : Class) : Program × Option Rejection :=
  match p.addClass c with
  | .ok p => (p, none)
  | .error e => (p, some (.duplicateClass e))

-- The program that is left behind, and what the operation was rejected for.
def perform (p : Program) : Operation → Program × Option Rejection
  | newClass name super interfaces => declare p { name, super, interfaces }
  | newInterface name supers => declare p { name, interfaces := supers, isInterface := true }
  | link name i => (p.link name i, none)
  | newMethod owner name modifiers types => (p.addMethod owner name modifiers types, none)
  | change id c =>
    match p.method? id with
    | none => (p, none)
    | some m =>
      (p.modifyMethod id fun _ => (c.perform m).1, (c.perform m).2.map .receiverMismatch)

-- What the operation is about has been declared.
def Refers (p : Program) : Operation → Prop
  | newClass _ super interfaces =>
    (∀ s ∈ super, (p.class? s).isSome) ∧ ∀ i ∈ interfaces, (p.class? i).isSome
  | newInterface _ supers => ∀ i ∈ supers, (p.class? i).isSome
  | link name i => (p.class? name).isSome ∧ (p.class? i).isSome
  | newMethod owner _ _ _ => (p.class? owner).isSome
  | change id _ => (p.method? id).isSome

instance (p : Program) : (op : Operation) → Decidable (op.Refers p)
  | newClass _ super interfaces => inferInstanceAs <| Decidable <|
    (∀ s ∈ super, (p.class? s).isSome) ∧ ∀ i ∈ interfaces, (p.class? i).isSome
  | newInterface _ supers => inferInstanceAs <| Decidable <| ∀ i ∈ supers, (p.class? i).isSome
  | link name i => inferInstanceAs <| Decidable <| (p.class? name).isSome ∧ (p.class? i).isSome
  | newMethod owner _ _ _ => inferInstanceAs <| Decidable <| (p.class? owner).isSome
  | change id _ => inferInstanceAs <| Decidable <| (p.method? id).isSome

-- What an operation is to be rejected for.
inductive Conflicts (p : Program) : Operation → Rejection → Prop
  | duplicate {op : Operation} {c : Class} : op.class? = some c → (p.class? c.name).isSome →
    Conflicts p op (.duplicateClass ⟨c.name⟩)
  | mismatch {id : Nat} {call : Invoke} : call.isStatic ≠ call.base.isNone →
    Conflicts p (.change id (.invoke call)) (.receiverMismatch ⟨call.kind, call.method, call.base⟩)

inductive Step (p : Program) : Operation → Program → Prop
  | declared {op : Operation} {c : Class} : op.class? = some c → p.class? c.name = none →
    Step p op (p.withClass c)
  | duplicate {op : Operation} {c : Class} : op.class? = some c → (p.class? c.name).isSome →
    Step p op p
  | linked {name i : String} : Step p (.link name i) (p.link name i)
  | method {owner name : String} {modifiers : Modifiers} {types : List String} :
    Step p (.newMethod owner name modifiers types) (p.addMethod owner name modifiers types)
  | changed {m : Method} {c : Method.Change} : p.method? m.id = some m →
    Step p (.change m.id c) (p.modifyMethod m.id fun _ => (c.perform m).1)

variable {op : Operation}

section History

variable {ops : List Operation}

theorem declarations_concat :
    declarations (ops ++ [op]) = declarations ops ++ op.class?.toList := by
  cases h : op.class? <;> simp [declarations, h]

theorem links_concat : links name (ops ++ [op]) = links name ops ++ (op.link? name).toList := by
  cases h : op.link? name <;> simp [links, h]

theorem headers_concat : headers (ops ++ [op]) = headers ops ++ op.header?.toList := by
  cases h : op.header? <;> simp [headers, h]

theorem declarations_concat_of_none (ops : List Operation) (op : Operation)
    (h : op.class? = none) : declarations (ops ++ [op]) = declarations ops := by
  simp [declarations_concat, h]

theorem links_concat_of_none (ops : List Operation) (op : Operation) (h : op.link? name = none) :
    links name (ops ++ [op]) = links name ops := by
  simp [links_concat, h]

theorem headers_concat_of_none (ops : List Operation) (op : Operation) (h : op.header? = none) :
    headers (ops ++ [op]) = headers ops := by
  simp [headers_concat, h]

theorem link?_of_class? (h : op.class? = some c) : op.link? name = none := by
  cases op
  case link => contradiction
  all_goals rfl

theorem header?_of_class? (h : op.class? = some c) : op.header? = none := by
  cases op
  case newMethod => contradiction
  all_goals rfl

end History

theorem declare_of_none (h : p.class? c.name = none) : declare p c = (p.withClass c, none) := by
  simp [declare, addClass_eq_ok h]

theorem declare_of_isSome (h : (p.class? c.name).isSome) :
    declare p c = (p, some (.duplicateClass ⟨c.name⟩)) := by
  have ⟨k, hk⟩ := Option.isSome_iff_exists.mp h
  simp [declare, addClass, hk]

theorem perform_of_class? (h : op.class? = some c) : op.perform p = declare p c := by
  cases op
  case newClass | newInterface => exact congrArg (declare p) (Option.some.inj h)
  all_goals contradiction

theorem methods_of_class? (h : op.class? = some c) : c.methods = [] := by
  cases op
  case newClass | newInterface =>
    cases h
    rfl
  all_goals contradiction

theorem super_of_class? (h : op.class? = some c) (refers : op.Refers p) {s : String}
    (hs : c.super = some s) : (p.class? s).isSome := by
  cases op
  case newClass =>
    cases h
    exact refers.left s hs
  case newInterface =>
    cases h
    contradiction
  all_goals contradiction

theorem id_of_method? (h : p.method? id = some m) : m.id = id := by
  simpa using List.find?_some h

theorem step_declare (h : op.class? = some c) : Step p op (declare p c).1 := by
  cases hc : p.class? c.name
  case none =>
    rw [declare_of_none hc]
    exact .declared h hc
  case some k =>
    have taken : (p.class? c.name).isSome := Option.isSome_of_eq_some hc
    rw [declare_of_isSome taken]
    exact .duplicate h taken

theorem step_perform (refers : op.Refers p) : Step p op (op.perform p).1 := by
  cases op
  case newClass | newInterface => exact step_declare rfl
  case link                    => exact .linked
  case newMethod               => exact .method
  case change id c =>
    have ⟨m, hm⟩ := Option.isSome_iff_exists.mp refers
    obtain rfl := id_of_method? hm
    simp only [perform, hm]
    exact .changed hm

end Operation

open Operation CallGraph

def build (ops : List Operation) : Program :=
  ops.foldl (fun p op => (op.perform p).1) {}

theorem build_concat (ops : List Operation) (op : Operation) :
    build (ops ++ [op]) = (op.perform (build ops)).1 := by
  simp [build]

-- Each operation refers to what was declared before it.
def Admissible (ops : List Operation) : Prop :=
  ∀ n (h : n < ops.length), ops[n].Refers (build (ops.take n))

instance (ops : List Operation) : Decidable (Admissible ops) :=
  inferInstanceAs <| Decidable <| ∀ n (h : n < ops.length), ops[n].Refers (build (ops.take n))

theorem Admissible.concat {ops : List Operation} {op : Operation} (h : Admissible (ops ++ [op])) :
    Admissible ops ∧ op.Refers (build ops) := by
  constructor
  case left =>
    intro n hn
    have := h n (by simp; omega)
    rwa [List.getElem_append_left hn, List.take_append_of_le_length hn.le] at this
  case right => simpa using h ops.length (by simp)

-- What a program holds, in terms of the operations that it comes from. The first class that was
-- asked for under a name is the one that is declared; methods are numbered as they were asked for.
structure Reflects (ops : List Operation) (p : Program) : Prop where
  names   : p.classes.map Class.name = ((declarations ops).map Class.name).eraseDups
  classes : ∀ name, (p.class? name).map Class.bare =
    ((declarations ops).find? (·.name = name)).map
      fun c => { c with interfaces := c.interfaces ++ links name ops }
  methods : ∀ c ∈ p.classes, c.methods.map (fun m => (m.header, m.id)) =
    (headers ops).zipIdx.filter (·.1.owner = c.name)

-- What is needed of a program so that more can be done with it.
structure Invariant (ops : List Operation) (p : Program) : Prop where
  reflects : Reflects ops p
  numbered : p.Numbered
  layered  : p.Layered
  tidy     : ∀ m ∈ p.methods, m.Tidy
  count    : p.methods.length = (headers ops).length
  linked   : ∀ name, p.class? name = none → links name ops = []
  owned    : ∀ k ∈ headers ops, (p.class? k.owner).isSome

variable {ops : List Operation} {op : Operation}

theorem Reflects.class?_eq_none_iff (h : Reflects ops p) :
    p.class? name = none ↔ (declarations ops).find? (·.name = name) = none := by
  rw [← Option.map_eq_none_iff (f := Class.bare), h.classes, Option.map_eq_none_iff]

theorem Reflects.mem_names_iff (h : Reflects ops p) :
    name ∈ (declarations ops).map Class.name ↔ (p.class? name).isSome := by
  rw [← List.mem_eraseDups, ← h.names, class?_isSome_iff, List.mem_map]

theorem class?_link : (p.link owner i).class? name = (p.class? name).map fun c =>
    if c.name = owner then { c with interfaces := c.interfaces ++ [i] } else c := by
  unfold class? link modifyClass
  rw [List.find?_map]
  congr 2
  funext c
  simp only [Function.comp_apply]
  split <;> rfl

namespace Invariant

theorem empty : Invariant [] {} where
  reflects := ⟨rfl, fun _ => rfl, by simp⟩
  numbered := .empty
  layered  := by simp [Layered, skeleton]
  tidy     := by simp [Program.methods]
  count    := rfl
  linked   := fun _ _ => rfl
  owned    := by simp [headers]

theorem declared (h : Invariant ops p) (refers : op.Refers p) (hc : op.class? = some c)
    (fresh : p.class? c.name = none) : Invariant (ops ++ [op]) (p.withClass c) := by
  have blank := methods_of_class? hc
  have same := methods_withClass (p := p) blank
  have headers := headers_concat_of_none ops op (header?_of_class? hc)
  constructor
  case reflects =>
    have unknown := h.reflects.class?_eq_none_iff.mp fresh
    constructor
    case names =>
      have new : c.name ∉ ((declarations ops).map Class.name).eraseDups := by
        simp only [List.mem_eraseDups, h.reflects.mem_names_iff, fresh]
        exact Bool.false_ne_true
      rw [declarations_concat, hc, Option.toList_some, List.map_append, List.map_singleton,
        eraseDups_concat, appendNew_of_not_mem new, ← h.reflects.names]
      simp [Program.withClass]
    case classes =>
      intro name
      rw [declarations_concat, links_concat_of_none ops op (link?_of_class? hc), hc, List.find?_append]
      by_cases e : name = c.name
      case pos =>
        subst e
        simp [class?_withClass_self fresh, unknown, h.linked _ fresh, Class.bare, blank]
      case neg => simp [class?_withClass_of_ne e, Ne.symm e, h.reflects.classes]
    case methods =>
      intro k hk
      rw [headers]
      cases List.mem_append.mp hk
      case inl hk => exact h.reflects.methods k hk
      case inr hk =>
        obtain rfl := List.mem_singleton.mp hk
        have unowned : (Operation.headers ops).zipIdx.filter (·.1.owner = k.name) = [] := by
          refine List.filter_eq_nil_iff.mpr fun a ha e => ?_
          have := h.owned a.1 (List.fst_mem_of_mem_zipIdx ha)
          simp_all
        simp [blank, unowned]
  case numbered => exact h.numbered.withClass fresh blank
  case layered  => exact h.layered.withClass fun s hs => super_of_class? hc refers hs
  case tidy     => simpa only [same] using h.tidy
  case count    => rw [same, headers, h.count]
  case linked =>
    intro name hn
    have hn : p.class? name = none := by
      by_contra found
      obtain ⟨k, hk⟩ := Option.ne_none_iff_exists'.mp found
      simp [class?_withClass hk] at hn
    exact (links_concat_of_none ops op (link?_of_class? hc)).trans (h.linked name hn)
  case owned =>
    intro k hk
    obtain ⟨d, hd⟩ := Option.isSome_iff_exists.mp (h.owned k (headers ▸ hk))
    exact Option.isSome_of_eq_some (class?_withClass hd)

theorem duplicate (h : Invariant ops p) (hc : op.class? = some c)
    (taken : (p.class? c.name).isSome) : Invariant (ops ++ [op]) p := by
  have headers := headers_concat_of_none ops op (header?_of_class? hc)
  have links (name : String) : links name (ops ++ [op]) = links name ops :=
    links_concat_of_none ops op (link?_of_class? hc)
  refine { h with
    reflects := ?reflects
    count    := by rw [headers, h.count]
    linked   := fun name hn => (links name).trans (h.linked name hn)
    owned    := headers ▸ h.owned }
  constructor
  case names =>
    have known : c.name ∈ ((declarations ops).map Class.name).eraseDups :=
      List.mem_eraseDups.mpr (h.reflects.mem_names_iff.mpr taken)
    rw [declarations_concat, hc, Option.toList_some, List.map_append, List.map_singleton,
      eraseDups_concat, appendNew_of_mem known, h.reflects.names]
  case classes =>
    intro name
    rw [h.reflects.classes, links, declarations_concat, hc, List.find?_append]
    by_cases e : c.name = name
    case pos =>
      subst e
      have ⟨d, hd⟩ := Option.ne_none_iff_exists'.mp
        (mt h.reflects.class?_eq_none_iff.mpr (Option.ne_none_iff_isSome.mpr taken))
      rw [hd, Option.some_or]
    case neg => simp [e]
  case methods =>
    rw [headers]
    exact h.reflects.methods

theorem link (h : Invariant ops p) (declared : (p.class? owner).isSome) :
    Invariant (ops ++ [.link owner i]) (p.link owner i) := by
  have declarations := declarations_concat_of_none ops (.link owner i) rfl
  have headers := headers_concat_of_none ops (.link owner i) rfl
  constructor
  case reflects =>
    constructor
    case names => rw [names_link, declarations, h.reflects.names]
    case classes =>
      intro name
      have reflected := h.reflects.classes name
      rw [class?_link, declarations, links_concat]
      cases hc : p.class? name
      case none => simpa [hc] using reflected
      case some c =>
        obtain rfl := name_of_class? hc
        rw [hc] at reflected
        obtain ⟨d, hd, e⟩ := Option.map_eq_some_iff.mp reflected.symm
        rw [hd, Option.map_some, Option.map_some, Option.map_some, Option.some_inj]
        by_cases same : c.name = owner
        case pos =>
          have longer : ({ c with interfaces := c.interfaces ++ [i] } : Class).bare =
            { c.bare with interfaces := c.bare.interfaces ++ [i] } := rfl
          rw [if_pos same, longer, ← e]
          simp [link?, same]
        case neg =>
          rw [if_neg same, ← e]
          simp [link?, Ne.symm same]
    case methods =>
      intro k hk
      obtain ⟨c, hc, rfl⟩ := List.mem_map.mp hk
      rw [headers]
      have := h.reflects.methods c hc
      split <;> exact this
  case numbered => exact h.numbered.link
  case layered =>
    unfold Layered
    rw [skeleton_link]
    exact h.layered
  case tidy     => simpa only [methods_link] using h.tidy
  case count    => rw [methods_link, headers, h.count]
  case linked =>
    intro name hn
    have hn : p.class? name = none := by simpa [class?_link] using hn
    have other : owner ≠ name := by
      rintro rfl
      simp [hn] at declared
    simp [links_concat, link?, other, h.linked name hn]
  case owned => simpa [headers, class?_link] using h.owned

theorem addMethod {modifiers : Modifiers} {types : List String} (h : Invariant ops p)
    (declared : (p.class? owner).isSome) :
    Invariant (ops ++ [.newMethod owner name modifiers types])
      (p.addMethod owner name modifiers types) := by
  have declarations :=
    declarations_concat_of_none ops (.newMethod owner name modifiers types) rfl
  have links (k : String) :
      links k (ops ++ [.newMethod owner name modifiers types]) = links k ops :=
    links_concat_of_none ops _ rfl
  have headers : headers (ops ++ [.newMethod owner name modifiers types]) =
      headers ops ++ [⟨owner, name, modifiers⟩] := by
    simp [headers_concat, header?]
  constructor
  case reflects =>
    constructor
    case names => rw [Program.addMethod, names_insertMethod, declarations, h.reflects.names]
    case classes =>
      intro k
      rw [declarations, links, ← h.reflects.classes, Program.addMethod, class?_insertMethod,
        Option.map_map]
      congr 1
      funext c
      simp only [Function.comp_apply]
      split <;> rfl
    case methods =>
      intro k hk
      obtain ⟨c, hc, rfl⟩ := List.mem_map.mp hk
      have listed := h.reflects.methods c hc
      rw [headers, List.zipIdx_append, List.filter_append]
      by_cases e : c.name = owner
      case pos =>
        rw [if_pos e]
        simp [listed, e, ← h.count, nextMethod, Method.header_declare, Method.declare_eq]
      case neg =>
        rw [if_neg e]
        simp [listed, Ne.symm e]
  case numbered =>
    exact h.numbered.insertMethod declared Method.declare_eq.left Method.declare_eq.right.left
  case layered =>
    unfold Layered Program.addMethod
    rw [skeleton_insertMethod]
    exact h.layered
  case tidy =>
    intro m hm
    cases (h.numbered.mem_methods_insertMethod declared).mp hm
    case inl e  => exact e ▸ .declare ..
    case inr hm => exact h.tidy m hm
  case count =>
    have added := (methods_insertMethod_perm (m := p.nextMethod owner name modifiers types)
      h.numbered.names declared).length_eq
    rw [Program.addMethod, added, headers, List.length_cons, List.length_append, h.count]
    rfl
  case linked =>
    intro k hk
    have hk : p.class? k = none := by simpa [Program.addMethod, class?_insertMethod] using hk
    exact (links k).trans (h.linked k hk)
  case owned =>
    have known (k : String) : ((p.addMethod owner name modifiers types).class? k).isSome ↔
        (p.class? k).isSome := by
      simp [Program.addMethod, class?_insertMethod]
    simp only [headers, List.forall_mem_append, List.forall_mem_singleton, known]
    exact ⟨h.owned, declared⟩

theorem change (h : Invariant ops p) {c : Method.Change} (hm : p.method? m.id = some m) :
    Invariant (ops ++ [.change m.id c]) (p.modifyMethod m.id fun _ => (c.perform m).1) := by
  have ⟨mem, _⟩ := h.numbered.method?_eq_some_iff.mp hm
  have ⟨id, header⟩ := c.same_perform (m := m)
  have declarations := declarations_concat_of_none ops (.change m.id c) rfl
  have links (k : String) : links k (ops ++ [.change m.id c]) = links k ops :=
    links_concat_of_none ops _ rfl
  have headers := headers_concat_of_none ops (.change m.id c) rfl
  constructor
  case reflects =>
    constructor
    case names => rw [names_modifyMethod, declarations, h.reflects.names]
    case classes =>
      intro k
      rw [declarations, links, ← h.reflects.classes, class?_modifyMethod, Option.map_map]
      rfl
    case methods =>
      intro k hk
      obtain ⟨d, hd, rfl⟩ := List.mem_map.mp hk
      rw [headers, ← h.reflects.methods d hd, List.map_map]
      refine List.map_congr_left fun k hk => ?_
      have hk : k ∈ p.methods := mem_methods.mpr ⟨d, hd, hk⟩
      simp only [Function.comp_apply]
      split
      case isTrue e  => rw [id, header, h.numbered.eq_of_id hk mem e]
      case isFalse e => rfl
  case numbered =>
    refine h.numbered.modifyMethod fun k hk e => ⟨id, ?_⟩
    rw [h.numbered.eq_of_id hk mem e]
    exact congrArg Method.Header.owner header
  case layered =>
    unfold Layered
    rw [skeleton_modifyMethod]
    exact h.layered
  case tidy =>
    rw [methods_modifyMethod]
    refine List.forall_mem_map.mpr fun k hk => ?_
    split
    case isTrue  => exact Method.Change.tidy_perform (h.tidy m mem) c
    case isFalse => exact h.tidy k hk
  case count => rw [methods_modifyMethod, List.length_map, headers, h.count]
  case linked =>
    intro k hk
    have hk : p.class? k = none := by simpa [class?_modifyMethod] using hk
    exact (links k).trans (h.linked k hk)
  case owned => simpa [headers, class?_modifyMethod] using h.owned

theorem step {p' : Program} (h : Invariant ops p) (refers : op.Refers p) (step : Step p op p') :
    Invariant (ops ++ [op]) p' := by
  cases step
  case declared fresh hc  => exact h.declared refers hc fresh
  case duplicate taken hc => exact h.duplicate hc taken
  case linked             => exact h.link refers.left
  case method             => exact h.addMethod refers
  case changed hm         => exact h.change hm

theorem build (h : Admissible ops) : Invariant ops (build ops) := by
  induction ops using List.reverseRecOn
  case nil => exact .empty
  case append_singleton ops op hi =>
    have ⟨before, refers⟩ := h.concat
    rw [build_concat]
    exact (hi before).step refers (step_perform refers)

end Invariant

section Rejections

variable {e : Rejection}

theorem modifyMethod_eq_self {f : Method → Method}
    (h : ∀ m ∈ p.methods, m.id = id → f m = m) : p.modifyMethod id f = p := by
  have same : ∀ c ∈ p.classes, ({ c with
      methods := c.methods.map fun m => if m.id = id then f m else m } : Class) = c := by
    intro c hc
    have kept : ∀ m ∈ c.methods, (if m.id = id then f m else m) = m := by
      intro m hm
      split
      case isTrue e  => exact h m (mem_methods.mpr ⟨c, hc, hm⟩) e
      case isFalse e => rfl
    rw [List.map_congr_left kept, List.map_id']
  unfold modifyMethod
  rw [List.map_congr_left same, List.map_id']

theorem conflicts_of_class? (hc : op.class? = some c) (h : (declare p c).2 = some e) :
    op.Conflicts p e := by
  by_cases taken : (p.class? c.name).isSome
  case pos =>
    rw [declare_of_isSome taken] at h
    exact Option.some.inj h ▸ .duplicate hc taken
  case neg =>
    rw [declare_of_none (Option.not_isSome_iff_eq_none.mp taken)] at h
    contradiction

theorem conflicts_of_rejected (h : (op.perform p).2 = some e) : op.Conflicts p e := by
  cases op
  case newClass | newInterface => exact conflicts_of_class? rfl h
  case link | newMethod        => contradiction
  case change id c =>
    unfold perform at h
    dsimp only at h
    split at h
    case h_1 => contradiction
    case h_2 m hm =>
      obtain ⟨e', rejected, rfl⟩ := Option.map_eq_some_iff.mp h
      obtain ⟨call, rfl, mismatch, rfl⟩ := c.mismatch_of_rejected rejected
      exact .mismatch mismatch

-- What is rejected leaves the program as it was.
theorem perform_of_conflicts (numbered : p.Numbered) (refers : op.Refers p)
    (h : op.Conflicts p e) : op.perform p = (p, some e) := by
  cases h
  case duplicate taken hc => rw [perform_of_class? hc, declare_of_isSome taken]
  case mismatch id call mismatch =>
    have ⟨m, hm⟩ := Option.isSome_iff_exists.mp refers
    have ⟨mem, own⟩ := numbered.method?_eq_some_iff.mp hm
    have same : p.modifyMethod id (fun _ => m) = p :=
      modifyMethod_eq_self fun k hk e => numbered.eq_of_id mem hk (own.trans e.symm)
    simp [perform, hm, Method.Change.perform_invoke, mismatch, same]

end Rejections

-- The walks along the hierarchy that start at a class: along its superclasses, and through the
-- interfaces that these lead to.
structure Walks (p : Program) (c : Class) (chain : List Class) (order : List String) : Prop where
  supers   : ∀ l, p.Supers c l ↔ l = chain
  distinct : (chain.map Class.name).Nodup
  explores : Explores p.hierarchy.interfaces [] (chain.flatMap Class.interfaces) order
  found    : p.hierarchy.chain c = chain
  dispatch : ∀ sub, p.hierarchy.dispatch c sub =
    chain.findSome? fun k => (k.method? sub).filter (!·.isAbstract)
  resolve  : ∀ sub, p.hierarchy.resolve ⟨c.name, sub⟩ =
    (chain.findSome? (·.method? sub)).or (order.findSome? (p.declared? · sub))

structure Consistent (ops : List Operation) (p : Program) : Prop where
  reflects  : Reflects ops p
  distinct  : (p.classes.map Class.name).Nodup
  lookup    : ∀ name c, p.class? name = some c ↔ c ∈ p.classes ∧ c.name = name
  walks     : ∀ c ∈ p.classes, ∃ chain order, p.Walks c chain order
  listed    : (p.methods.map Method.id).Perm (List.range (headers ops).length)
  tidy      : ∀ m ∈ p.methods, m.Tidy ∧ m.vars.Nodup ∧ m.formals.Nodup
  -- An operation is rejected for its conflicts and for nothing else.
  conflicts : ∀ (op : Operation) e, op.Refers p → (op.Conflicts p e ↔ (op.perform p).2 = some e)
  unchanged : ∀ op : Operation, op.Refers p → (op.perform p).2.isSome → (op.perform p).1 = p

theorem Invariant.walks (h : Invariant ops p) (hc : c ∈ p.classes) :
    p.Walks c (p.hierarchy.chain c) (p.hierarchy.interfaceOrder c) := by
  have supers : p.Supers c (p.hierarchy.chain c) :=
    Hierarchy.supers_chain (h := p.hierarchy) h.layered hc
  refine ⟨fun l => ⟨fun other => other.unique supers, fun e => e ▸ supers⟩,
    supers.nodup h.layered h.numbered.names hc, Hierarchy.explores_interfaceOrder, rfl,
    fun _ => rfl, fun sub => ?_⟩
  have visible : p.hierarchy.class? c.name = some c :=
    (find?_eq_some_iff_of_nodup h.numbered.names).mpr ⟨hc, rfl⟩
  rw [Hierarchy.resolve_of_class? visible, Hierarchy.findSome?_superinterfaces]
  rfl

-- The program holds what was asked for and nothing else, the walks along its hierarchy come to an
-- end whatever interfaces were linked, and what is rejected changes nothing.
theorem build_consistent (h : Admissible ops) : Consistent ops (build ops) := by
  have invariant := Invariant.build h
  have numbered := invariant.numbered
  refine ⟨invariant.reflects, numbered.names, fun _ _ => find?_eq_some_iff_of_nodup numbered.names,
    fun c hc => ⟨_, _, invariant.walks hc⟩, ?listed, ?tidy, ?conflicts, ?unchanged⟩
  case listed => exact invariant.count ▸ numbered.perm_range
  case tidy =>
    intro m hm
    have tidy := invariant.tidy m hm
    exact ⟨tidy, tidy.own.nodup, tidy.nodup_formals⟩
  case conflicts =>
    intro op e refers
    refine ⟨fun conflicts => ?_, conflicts_of_rejected⟩
    rw [perform_of_conflicts numbered refers conflicts]
  case unchanged =>
    intro op refers rejected
    have ⟨e, he⟩ := Option.isSome_iff_exists.mp rejected
    rw [perform_of_conflicts numbered refers (conflicts_of_rejected he)]

-- Two interfaces that are linked in a circle, and a class that is not declared a second time, which
-- would make it a subclass of its own subclass. A call that lacks its receiver is not added either.
namespace Sample.Kinds

def operations : List Operation :=
  [.newInterface "Walker" [],
    .newInterface "Runner" ["Walker"],
    .link "Walker" "Runner",
    .newClass "Animal" none ["Runner"],
    .newClass "Dog" (some "Animal") [],
    .newClass "Animal" (some "Dog") [],
    .newMethod "Dog" "run" {} ["int"],
    .change 0 (.int 5),
    .change 0 (.invoke ⟨none, .virtual, ⟨"Dog", "run(int)"⟩, none, []⟩),
    .change 0 (.emit (.ret none))]

theorem admissible : Admissible operations := by
  decide +kernel

theorem dog_walks :
    Admissible operations ∧ Consistent operations (build operations) ∧
      (build operations).classes.map Class.name = ["Walker", "Runner", "Animal", "Dog"] ∧
      (∃ dog chain order, (build operations).class? "Dog" = some dog ∧
        (build operations).Walks dog chain order ∧ chain.map Class.name = ["Dog", "Animal"]) ∧
      (Operation.perform (build (operations.take 5)) (.newClass "Animal" (some "Dog") [])).2 =
        some (.duplicateClass ⟨"Animal"⟩) ∧
      (build operations).methods.map Method.body = [[.ret none]] := by
  have consistent := build_consistent admissible
  have names : (((declarations operations).map Class.name).eraseDups) =
      ["Walker", "Runner", "Animal", "Dog"] := by decide +kernel
  have chains : ((build operations).class? "Dog").map (fun c =>
      ((build operations).hierarchy.chain c).map Class.name) = some ["Dog", "Animal"] := by
    decide +kernel
  obtain ⟨dog, found, chain_dog⟩ := Option.map_eq_some_iff.mp chains
  have ⟨mem, _⟩ := (consistent.lookup "Dog" dog).mp found
  obtain ⟨chain, order, walks⟩ := consistent.walks dog mem
  refine ⟨admissible, consistent, consistent.reflects.names.trans names,
    ⟨dog, chain, order, found, walks, walks.found ▸ chain_dog⟩, ?_, by decide +kernel⟩
  decide +kernel

end Sample.Kinds
end Program
end PointsTo
