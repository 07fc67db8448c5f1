/-
Trees whose bytes are moved. A function on spans moves a tree by moving every span of it and keeping
all else, and so it moves nodes and symbols. Whatever is found in a tree without comparing spans is
found in the moved tree as well, moved: all that follows from kinds and parts, the types and the
methods.
-/
import LetLint.Model.Basic
import LetLint.Proofs.Tree.Keeping

namespace LetLint

/-! ## Trees -/

namespace Tree

mutual

/-- The tree with every span moved. -/
def mapSpan (f : Span → Span) : Tree → Tree
  | .leaf atom span => .leaf atom (f span)
  | .node kind span children => .node kind (f span) (mapSpanAll f children)

/-- The trees with every span moved. -/
def mapSpanAll (f : Span → Span) : List Tree → List Tree
  | [] => []
  | t :: ts => t.mapSpan f :: mapSpanAll f ts

end

variable (f : Span → Span) (t : Tree)

theorem mapSpanAll_eq (ts : List Tree) : mapSpanAll f ts = ts.map (mapSpan f) := by
  induction ts with
  | nil => rfl
  | cons t ts ih => rw [mapSpanAll, ih, List.map_cons]

@[simp] theorem kind_mapSpan : (t.mapSpan f).kind = t.kind := by cases t <;> rfl

@[simp] theorem span_mapSpan : (t.mapSpan f).span = f t.span := by cases t <;> rfl

@[simp] theorem name?_mapSpan : (t.mapSpan f).name? = t.name? := by
  rcases t with ⟨atom, _⟩ | _
  · cases atom <;> rfl
  · rfl

@[simp] theorem children_mapSpan : (t.mapSpan f).children = t.children.map (mapSpan f) := by
  cases t with
  | leaf _ _ => rfl
  | node _ _ ts => exact mapSpanAll_eq f ts

mutual

/-- If all spans stay, the tree stays. -/
theorem mapSpan_self : ∀ t : Tree, (t.mapSpan fun span => span) = t
  | .leaf _ _ => rfl
  | .node _ _ ts => by rw [mapSpan, mapSpanAll_self ts]

theorem mapSpanAll_self : ∀ ts : List Tree, mapSpanAll (fun span => span) ts = ts
  | [] => rfl
  | t :: ts => by rw [mapSpanAll, mapSpan_self t, mapSpanAll_self ts]

end

/-- A moved tree has the kind and the parts of the tree. -/
theorem keeps_mapSpan : Keeps (mapSpan f) := ⟨kind_mapSpan f, children_mapSpan f⟩

@[simp] theorem parameterType?_mapSpan : (t.mapSpan f).parameterType? = t.parameterType?.map (mapSpan f) :=
  (keeps_mapSpan f).parameterType?_eq t

@[simp] theorem parameterName_mapSpan : (t.mapSpan f).parameterName = t.parameterName := by
  unfold parameterName parameterIdentifier?
  rw [(keeps_mapSpan f).lastChild?_eq, (keeps_mapSpan f).bind_ofKind?]
  cases t.lastChild?.bind (ofKind? .identifier) <;> simp

end Tree

/-! ## Types and symbols -/

namespace TypeRef

open LetLint.Tree

mutual

/-- The type that a tree spells does not depend on spans. -/
@[simp] theorem ofTree_mapSpan (f : Span → Span) : ∀ t : Tree, ofTree (t.mapSpan f) = ofTree t
  | .leaf _ _ => by simp [mapSpan, ofTree]
  | .node _ _ ts => by
    have hnames : (mapSpanAll f ts).filterMap name? = ts.filterMap name? := by
      rw [mapSpanAll_eq, List.filterMap_map]
      congr 1
      funext t
      exact name?_mapSpan f t
    simp [mapSpan, ofTree, hnames, argumentsOf_mapSpanAll f ts]

theorem argumentsOf_mapSpanAll (f : Span → Span) : ∀ ts : List Tree, argumentsOf (mapSpanAll f ts) = argumentsOf ts
  | [] => rfl
  | .leaf _ _ :: ts => by
    simp [mapSpanAll, mapSpan, argumentsOf, argumentsOf_mapSpanAll f ts]
  | .node kind _ types :: ts => by
    rw [mapSpanAll, mapSpan]
    cases kind <;> simp [argumentsOf, argumentsOf_mapSpanAll f ts, typesOf_mapSpanAll f types]

theorem typesOf_mapSpanAll (f : Span → Span) : ∀ ts : List Tree, typesOf (mapSpanAll f ts) = typesOf ts
  | [] => rfl
  | t :: ts => by simp [mapSpanAll, typesOf, ofTree_mapSpan f t, typesOf_mapSpanAll f ts]

end

end TypeRef

/-- The parameter with its span moved. -/
def Parameter.mapSpan (f : Span → Span) (p : Parameter) : Parameter := { p with span := f p.span }

/-- The method with its span and those of its parameters moved. -/
def Method.mapSpan (f : Span → Span) (m : Method) : Method :=
  { m with parameters := m.parameters.map (Parameter.mapSpan f), span := f m.span }

/-- The local with its span moved. -/
def LocalVar.mapSpan (f : Span → Span) (v : LocalVar) : LocalVar := { v with span := f v.span }

/-- The symbol with all its spans moved. -/
def Symbol.mapSpan (f : Span → Span) : Symbol → Symbol
  | .method m => .method (m.mapSpan f)
  | .localVar v => .localVar (v.mapSpan f)
  | .parameter p => .parameter (p.mapSpan f)

@[simp] theorem Parameter.ofTree_mapSpan (f : Span → Span) (t : Tree) :
    Parameter.ofTree (t.mapSpan f) = (Parameter.ofTree t).mapSpan f := by
  simp [Parameter.ofTree, Parameter.mapSpan, Function.comp_def]

@[simp] theorem Method.ofTree?_mapSpan (f : Span → Span) (t : Tree) :
    Method.ofTree? (t.mapSpan f) = (Method.ofTree? t).map (Method.mapSpan f) := by
  unfold Method.ofTree? Tree.methodIdentifier? Tree.returnType?
  have hkeeps := Tree.keeps_mapSpan f
  rw [Tree.kind_mapSpan, Tree.children_mapSpan, hkeeps.find?_kind, hkeeps.firstChild?_eq, hkeeps.bind_ofKind?,
    hkeeps.methodParameters_eq, Tree.span_mapSpan]
  split
  · generalize t.children.find? _ = name
    generalize t.firstChild?.bind _ = type
    cases name with
    | none => rfl
    | some name =>
      rcases hname : name.name? with _ | spelled
      · simp [hname]
      · cases type with
        | none => simp [hname]
        | some type => simp [hname, Method.mapSpan, Function.comp_def]
  · rfl

/-! ## Nodes -/

/-- The step with the spans of the tree above moved. -/
def Crumb.mapSpan (f : Span → Span) (c : Crumb) : Crumb := ⟨c.parent.mapSpan f, c.index⟩

namespace Node

/-- The node with all spans moved, those above it as well. -/
def mapSpan (f : Span → Span) (n : Node) : Node := ⟨n.tree.mapSpan f, n.above.map (Crumb.mapSpan f)⟩

variable (f : Span → Span) (n : Node)

@[simp] theorem tree_mapSpan : (n.mapSpan f).tree = n.tree.mapSpan f := rfl

@[simp] theorem kind_mapSpan : (n.mapSpan f).kind = n.kind := Tree.kind_mapSpan f n.tree

@[simp] theorem span_mapSpan : (n.mapSpan f).span = f n.span := Tree.span_mapSpan f n.tree

@[simp] theorem name_mapSpan : (n.mapSpan f).name = n.name := by
  unfold name
  rw [tree_mapSpan, Tree.name?_mapSpan]

/-- A moved node has the kind and the parts of the node. -/
theorem keeps_mapSpan : Keeps (mapSpan f) := (Tree.keeps_mapSpan f).map_node

@[simp] theorem index_mapSpan : (n.mapSpan f).index = n.index := (Tree.keeps_mapSpan f).index_eq n

end Node

end LetLint
