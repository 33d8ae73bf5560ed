import Mathlib.Data.List.Nodup
import PointsTo.Program.Method

namespace PointsTo

-- Variables of one method, numbered from `start` on.
structure Consecutive (id start : Nat) (xs : List Var) : Prop where
  owner : ∀ x ∈ xs, x.owner = some id
  index : xs.map Var.index = List.range' start xs.length

namespace Consecutive

variable {id start : Nat} {x : Var} {xs ys : List Var}

theorem nil : Consecutive id start [] :=
  ⟨by simp, rfl⟩

theorem append (hx : Consecutive id start xs) (hy : Consecutive id (start + xs.length) ys) :
    Consecutive id start (xs ++ ys) where
  owner x h := by
    cases List.mem_append.mp h
    case inl h => exact hx.owner x h
    case inr h => exact hy.owner x h
  index := by
    rw [List.map_append, hx.index, hy.index, List.length_append, List.range'_append_1]

theorem nextVar (m : Method) (name type : String) (const : Option Literal) :
    Consecutive m.id m.vars.length [m.nextVar name type const] :=
  ⟨by simp [Method.nextVar], rfl⟩

theorem index_lt (h : Consecutive id start xs) (hx : x ∈ xs) : x.index < start + xs.length := by
  have mem : x.index ∈ List.range' start xs.length := h.index ▸ List.mem_map_of_mem hx
  exact (List.mem_range'_1.mp mem).right

-- The next variable of a method is a new one.
theorem nextVar_not_mem {m : Method} (h : Consecutive m.id 0 m.vars) (name type : String)
    (const : Option Literal) : m.nextVar name type const ∉ m.vars := by
  intro hx
  have := h.index_lt hx
  simp [Method.nextVar] at this

theorem nodup (h : Consecutive id start xs) : xs.Nodup :=
  .of_map Var.index (h.index ▸ List.nodup_range')

end Consecutive

namespace Method

variable {m : Method}

-- Parameters are variables, and new ones.
theorem foldl_addParam {α : Type} (name type : α → String) (l : List α) (m : Method) :
    ∃ xs : List Var, xs.length = l.length ∧ Consecutive m.id m.vars.length xs ∧
      (∀ x ∈ xs, x.const = none) ∧ l.foldl (fun m a => m.addParam (name a) (type a)) m =
        { m with params := m.params ++ xs, vars := m.vars ++ xs } := by
  induction l generalizing m
  case nil => exact ⟨[], rfl, .nil, by simp, by simp⟩
  case cons a rest hi =>
    have ⟨xs, hl, ho, hc, he⟩ := hi (m.addParam (name a) (type a))
    have later : Consecutive m.id (m.vars.length + 1) xs := by
      simpa [addParam, addVar] using ho
    refine ⟨m.nextVar (name a) (type a) :: xs, by simp [hl],
      (Consecutive.nextVar m (name a) (type a) none).append later,
      List.forall_mem_cons.mpr ⟨rfl, hc⟩, ?_⟩
    rw [List.foldl_cons, he]
    simp [addParam, addVar]

-- The variables that receive what is passed to a method, the receiver first.
def formals (m : Method) : List Var :=
  m.receiver.toList ++ m.params

structure Tidy (m : Method) : Prop where
  receiver : m.receiver = none ↔ m.isStatic
  formals  : m.formals.Sublist m.vars
  own      : Consecutive m.id 0 m.vars

namespace Tidy

theorem nodup_formals (h : m.Tidy) : m.formals.Nodup :=
  h.own.nodup.sublist h.formals

theorem addVar (h : m.Tidy) (name type : String) (const : Option Literal) :
    (m.addVar name type const).Tidy where
  receiver := h.receiver
  formals  := h.formals.trans (List.sublist_append_left ..)
  own      := h.own.append (by simpa using Consecutive.nextVar m name type const)

theorem addParam (h : m.Tidy) (name type : String) : (m.addParam name type).Tidy := by
  refine { h.addVar name type none with formals := ?_ }
  have last : (m.addParam name type).formals = m.formals ++ [m.nextVar name type] := by
    simp [Method.formals, Method.addParam, Method.addVar]
  rw [last]
  exact h.formals.append_right _

theorem emit (h : m.Tidy) (s : Stmt) : (m.emit s).Tidy :=
  ⟨h.receiver, h.formals, h.own⟩

theorem setSubsignature (h : m.Tidy) (sub : String) : (m.setSubsignature sub).Tidy :=
  ⟨h.receiver, h.formals, h.own⟩

theorem foldl {α : Type} {f : Method → α → Method} (hf : ∀ m a, m.Tidy → (f m a).Tidy)
    (l : List α) (h : m.Tidy) : (l.foldl f m).Tidy := by
  induction l generalizing m
  case nil            => exact h
  case cons a rest hi => exact hi (hf m a h)

theorem declare (id : Nat) (owner name : String) (modifiers : Modifiers) (types : List String) :
    (Method.declare id owner name modifiers types).Tidy := by
  unfold Method.declare
  refine foldl (fun m a h => h.addParam ..) types.zipIdx ?_
  cases hs : modifiers.isStatic
  case true =>
    refine ⟨by simp [isStatic, hs], ?_, .nil⟩
    simp [Method.formals]
  case false =>
    refine ⟨by simp [Method.addVar, isStatic, hs], ?params, ?consecutive⟩
    case params => simp [Method.formals, Method.addVar]
    case consecutive => exact Consecutive.nextVar { id, owner, name, modifiers } "this" owner none

end Tidy
end Method
end PointsTo
