/-
Lexical scoping from the top down. `Lexical.resolve` threads an environment through a tree: a lambda
puts its parameters before it, a local declaration adds its name for the parts behind it in the same
block, and what is added inside a part is forgotten behind it. The part that a tree plays for the
tree around it says whether an identifier is a value, a member name or no reference at all, and how
many arguments it is called with.

The environment and the role of a node can also be read off the steps that lead to it. Along the way
down these are the ones that `resolve` carries.
-/
import LetLint.Model.Scoping
import LetLint.Proofs.Tree.Order

namespace LetLint.Lexical

/-! ## Resolving from the top down -/

/-- What names stand for, the innermost binding first. -/
abbrev Environment := List (String × Symbol)

/-- What a tree is for the tree around it. -/
inductive Role where
  /-- A value, with the number of arguments if it is called. -/
  | value (arguments : Option Nat)
  /-- The name behind a dot, with the number of arguments if the member is called. -/
  | member (arguments : Option Nat)
  /-- A name that declares something, or part of a type. -/
  | declaring

/-- The first method of the name with as many parameters as there are arguments, and otherwise the
first one of the name. -/
def choose (methods : List Method) (name : String) (arguments : Option Nat) : Option Method :=
  (methods.find? fun m => m.name == name && some m.parameters.length == arguments).or
    (methods.find? (·.name == name))

namespace Role

/-- What an identifier of the role stands for. -/
def symbol? (methods : List Method) (env : Environment) (name : String) : Role → Option Symbol
  | .value arguments => (env.lookup name).or ((choose methods name arguments).map .method)
  | .member arguments => (choose methods name arguments).map .method
  | .declaring => none

/-- The number of arguments, if the value is called. -/
def arguments? : Role → Option Nat
  | .value arguments => arguments
  | _ => none

/-- The role of a part, from the role of the whole. -/
def part (role : Role) (t : Tree) (index : Nat) : Role :=
  match t.kind, index, t.children with
  | .invocation, 0, [_, arguments] => .value (some arguments.children.length)
  | .memberAccess, 1, _ => .member role.arguments?
  | .qualifiedType, _, _ | .method, _, _ | .parameter, _, _ | .localDeclaration, 0, _ => .declaring
  | _, _, _ => .value none

end Role

/-- The parameters of a lambda; of equal names the first one is found. -/
def parameters (t : Tree) : Environment :=
  if t.kind.isLambda then t.lambdaParameters.map fun p => (p.parameterName, .parameter (.ofTree p)) else []

/-- What a part of a block or of the unit declares for the parts behind it. -/
def declared (parent : Kind) (t : Tree) : Environment :=
  match parent.isScope, t.kind, t.children with
  | true, .localDeclaration, .leaf (.identifier name) span :: _ => [(name, .localVar ⟨name, span⟩)]
  | _, _, _ => []

mutual

/-- The identifiers of a tree with what they stand for, in the order of the text. -/
def resolve (methods : List Method) (env : Environment) (role : Role) : Tree → List (Tree × Option Symbol)
  | t@(.leaf (.identifier name) _) => [(t, role.symbol? methods env name)]
  | .leaf _ _ => []
  | t@(.node _ _ children) => resolveParts methods role t 0 (parameters t ++ env) children

/-- The identifiers of the parts of a tree from an index on. -/
def resolveParts (methods : List Method) (role : Role) (whole : Tree) (index : Nat) (env : Environment) :
    List Tree → List (Tree × Option Symbol)
  | [] => []
  | t :: ts =>
    resolve methods env (role.part whole index) t ++
      resolveParts methods role whole (index + 1) (declared whole.kind t ++ env) ts

end

/-- The methods that a document declares, in their order. -/
def methodsOf (t : Tree) : List Method := t.children.filterMap Method.ofTree?

/-! ## Along the steps to a node -/

/-- The environment behind some parts. -/
def behind (parent : Kind) (ts : List Tree) (env : Environment) : Environment :=
  ts.foldl (fun env t => declared parent t ++ env) env

/-- The environment at the end of some steps down, the last step first. -/
def envAt : List Crumb → Environment
  | [] => []
  | crumb :: above =>
    behind crumb.parent.kind (crumb.parent.children.take crumb.index) (parameters crumb.parent ++ envAt above)

/-- The role at the end of some steps down, the last step first. -/
def roleAt : List Crumb → Role
  | [] => .value none
  | crumb :: above => (roleAt above).part crumb.parent crumb.index

/-- What a node stands for, by the steps that lead to it. -/
def symbolAt (methods : List Method) (n : Node) : Option Symbol :=
  (roleAt n.above).symbol? methods (envAt n.above) n.name

/-- The identifiers among a node and its descendants, with what they stand for. -/
def identifiersAt (methods : List Method) (n : Node) : List (Tree × Option Symbol) :=
  (n.withDescendants.filter (·.kind = .identifier)).map fun m => (m.tree, symbolAt methods m)

variable {methods : List Method} {n : Node}

theorem behind_append_one (parent : Kind) (ts : List Tree) (t : Tree) (env : Environment) :
    behind parent (ts ++ [t]) env = declared parent t ++ behind parent ts env := List.foldl_concat ..

/-- The parts of a node are resolved one after the other, each where its own steps lead. -/
theorem resolveParts_eq (hparts : ∀ m ∈ n.children,
      resolve methods (envAt m.above) (roleAt m.above) m.tree = identifiersAt methods m) :
    ∀ (before ts : List Tree), n.tree.children = before ++ ts →
      resolveParts methods (roleAt n.above) n.tree before.length
          (behind n.tree.kind before (parameters n.tree ++ envAt n.above)) ts =
        (ts.mapIdx fun i t => (⟨t, ⟨n.tree, before.length + i⟩ :: n.above⟩ : Node)).flatMap (identifiersAt methods)
  | _, [], _ => by simp [resolveParts]
  | before, t :: ts, hsplit => by
    have hget : n.tree.children[before.length]? = some t := by rw [hsplit]; simp
    have hmem : (⟨t, ⟨n.tree, before.length⟩ :: n.above⟩ : Node) ∈ n.children :=
      Node.mem_children_iff.2 ⟨before.length, hget, rfl⟩
    have htake : n.tree.children.take before.length = before := by rw [hsplit]; simp
    have hfirst := hparts _ hmem
    simp only [envAt, roleAt, htake] at hfirst
    have hrest := resolveParts_eq hparts (before ++ [t]) ts (by rw [hsplit]; simp)
    rw [List.length_append, List.length_singleton, behind_append_one] at hrest
    rw [resolveParts, hfirst, hrest, List.mapIdx_cons, List.flatMap_cons]
    simp only [Nat.add_zero, Nat.add_assoc, Nat.add_comm 1]

theorem identifiersAt_of_ne (hk : n.kind ≠ .identifier) :
    identifiersAt methods n = n.children.flatMap (identifiersAt methods) := by
  unfold identifiersAt
  rw [Node.withDescendants, List.filter_cons_of_neg (by simpa using hk), Node.descendants_eq, List.filter_flatMap,
    List.map_flatMap]

/-- Resolving from the top down gives each identifier what its own steps say, if identifiers are
leaves. -/
theorem resolve_eq (methods : List Method) (hleaf : ∀ m ∈ n.withDescendants, m.kind = .identifier →
      m.tree = .leaf (.identifier m.name) m.span) :
    resolve methods (envAt n.above) (roleAt n.above) n.tree = identifiersAt methods n := by
  induction n using Node.induction with
  | step n ih =>
    by_cases hk : n.kind = .identifier
    · have ht := hleaf n (by simp [Node.withDescendants]) hk
      have hnil : n.children = [] := by
        have hch := Node.map_tree_children n
        rw [ht] at hch
        exact List.map_eq_nil_iff.1 hch
      have hone : identifiersAt methods n = [(n.tree, symbolAt methods n)] := by
        simp [identifiersAt, Node.withDescendants, Node.descendants_eq, hnil, hk]
      rw [hone, ht, resolve]
      rfl
    · rw [identifiersAt_of_ne hk]
      have hparts : ∀ m ∈ n.children, resolve methods (envAt m.above) (roleAt m.above) m.tree =
          identifiersAt methods m := by
        intro m hm
        refine ih m hm fun d hd => hleaf d ?_
        rw [Node.withDescendants, Node.descendants_eq]
        exact List.mem_cons_of_mem _ (List.mem_flatMap.2 ⟨m, hm, hd⟩)
      have hall := resolveParts_eq hparts [] n.tree.children rfl
      simp only [List.length_nil, Nat.zero_add] at hall
      refine Eq.trans ?_ hall
      rcases ht : n.tree with ⟨atom, span⟩ | ⟨kind, span, children⟩
      · -- a leaf that is no identifier
        cases atom with
        | identifier name => exact absurd (by unfold Node.kind; rw [ht]; rfl) hk
        | _ => simp [resolve, Tree.children, resolveParts]
      · rw [resolve]
        rfl

end LetLint.Lexical
