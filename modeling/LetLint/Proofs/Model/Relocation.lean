/-
Resolution of moved nodes. The environment and the role of a node come from the order of the parts
above it, so a moved node stands for what the node stands for, moved with it. The role stays under all
changes that keep kinds and parts.
-/
import LetLint.Proofs.Model.Lexical
import LetLint.Proofs.Tree.Relocation

namespace LetLint.Lexical

/-! ## Roles -/

section

variable {φ : Tree → Tree}

/-- The role of a part depends on kinds and parts only. -/
theorem part_map (h : Tree.Keeps φ) (role : Role) (t : Tree) (index : Nat) :
    role.part (φ t) index = role.part t index := by
  unfold Role.part
  rw [h.kind_eq, h.children_eq]
  cases t.kind with
  | invocation =>
    -- the one part whose role depends on the parts beside it
    rcases index with _ | index
    · rcases t.children with _ | ⟨a, _ | ⟨b, _ | ⟨c, ts⟩⟩⟩
      · rfl
      · rfl
      · simp [h.children_eq]
      · rfl
    · rfl
  | localDeclaration | memberAccess => rcases index with _ | _ | index <;> rfl
  | _ => rfl

theorem roleAt_map (h : Tree.Keeps φ) (above : List Crumb) : roleAt (above.map (Crumb.map φ)) = roleAt above := by
  induction above with
  | nil => rfl
  | cons crumb above ih => rw [List.map_cons, roleAt, roleAt, ih, Crumb.map, part_map h]

end

/-! ## Environments and symbols -/

/-- The environment with the spans of its symbols moved. -/
def Environment.mapSpan (f : Span → Span) (env : Environment) : Environment :=
  env.map fun b => (b.1, b.2.mapSpan f)

variable (f : Span → Span)

theorem lookup_mapSpan (name : String) (env : Environment) :
    (Environment.mapSpan f env).lookup name = (env.lookup name).map (Symbol.mapSpan f) := by
  induction env with
  | nil => rfl
  | cons b env ih =>
    show List.lookup name ((b.1, b.2.mapSpan f) :: Environment.mapSpan f env) = _
    rw [List.lookup_cons, List.lookup_cons, ih]
    split <;> rfl

theorem parameters_mapSpan (t : Tree) : parameters (t.mapSpan f) = Environment.mapSpan f (parameters t) := by
  unfold parameters
  rw [Tree.kind_mapSpan, (Tree.keeps_mapSpan f).lambdaParameters_eq]
  split
  · simp [Environment.mapSpan, Symbol.mapSpan]
  · rfl

theorem declared_mapSpan (parent : Kind) (t : Tree) :
    declared parent (t.mapSpan f) = Environment.mapSpan f (declared parent t) := by
  unfold declared
  rw [Tree.kind_mapSpan, Tree.children_mapSpan]
  rcases t.children with _ | ⟨⟨atom, span⟩ | _, ts⟩
  · cases parent.isScope <;> cases t.kind <;> rfl
  · cases atom <;> cases parent.isScope <;> cases t.kind <;> rfl
  · cases parent.isScope <;> cases t.kind <;> rfl

theorem behind_mapSpan (parent : Kind) (ts : List Tree) (env : Environment) :
    behind parent (ts.map (Tree.mapSpan f)) (Environment.mapSpan f env) =
      Environment.mapSpan f (behind parent ts env) := by
  induction ts generalizing env with
  | nil => rfl
  | cons t ts ih =>
    show behind parent (ts.map (Tree.mapSpan f)) (declared parent (t.mapSpan f) ++ Environment.mapSpan f env) = _
    have happend : declared parent (t.mapSpan f) ++ Environment.mapSpan f env =
        Environment.mapSpan f (declared parent t ++ env) := by
      rw [declared_mapSpan, Environment.mapSpan, Environment.mapSpan, ← List.map_append]
      rfl
    rw [happend, ih]
    rfl

theorem envAt_mapSpan (above : List Crumb) :
    envAt (above.map (Crumb.mapSpan f)) = Environment.mapSpan f (envAt above) := by
  induction above with
  | nil => rfl
  | cons crumb above ih =>
    have happend : parameters (crumb.parent.mapSpan f) ++ Environment.mapSpan f (envAt above) =
        Environment.mapSpan f (parameters crumb.parent ++ envAt above) := by
      rw [parameters_mapSpan, Environment.mapSpan, Environment.mapSpan, ← List.map_append]
      rfl
    simp only [List.map_cons, envAt, Crumb.mapSpan, Tree.kind_mapSpan, Tree.children_mapSpan, ← List.map_take, ih,
      happend, behind_mapSpan]

theorem choose_mapSpan (methods : List Method) (name : String) (arguments : Option Nat) :
    choose (methods.map (Method.mapSpan f)) name arguments =
      (choose methods name arguments).map (Method.mapSpan f) := by
  simp [choose, List.find?_map, Function.comp_def, Method.mapSpan, Option.map_or]

theorem methodsOf_mapSpan (t : Tree) : methodsOf (t.mapSpan f) = (methodsOf t).map (Method.mapSpan f) := by
  simp [methodsOf, List.filterMap_map, List.map_filterMap]

/-- A moved node stands for what the node stands for, moved. -/
theorem symbolAt_mapSpan (methods : List Method) (n : Node) :
    symbolAt (methods.map (Method.mapSpan f)) (n.mapSpan f) = (symbolAt methods n).map (Symbol.mapSpan f) := by
  have hmethod : ∀ arguments, (choose (methods.map (Method.mapSpan f)) n.name arguments).map Symbol.method =
      ((choose methods n.name arguments).map Symbol.method).map (Symbol.mapSpan f) := by
    intro arguments
    rw [choose_mapSpan, Option.map_map, Option.map_map]
    rfl
  unfold symbolAt
  rw [Node.name_mapSpan]
  show (roleAt (n.above.map (Crumb.map (Tree.mapSpan f)))).symbol? _ (envAt (n.above.map (Crumb.mapSpan f))) n.name = _
  rw [roleAt_map (Tree.keeps_mapSpan f), envAt_mapSpan]
  cases roleAt n.above with
  | value arguments => simp only [Role.symbol?, lookup_mapSpan, hmethod, Option.map_or]
  | member arguments => exact hmethod arguments
  | declaring => rfl

end LetLint.Lexical
