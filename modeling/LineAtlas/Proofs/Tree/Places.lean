import LineAtlas.Proofs.Tree.Forest

/-!
# Places of classes

A class stands at the top of the file, in a slot of another class, or in the body of a
function. In a sound tree no class has two places, every place has a class of its kind, and
no function has two places either.
-/

namespace LineAtlas

namespace ClassShape

/-- Nested classes. -/
def nested : ClassShape → List ClassId
  | .named shape => shape.nested
  | _ => []

/-- The companion object. -/
def companion : ClassShape → List ClassId
  | .named shape => shape.companion.toList
  | _ => []

/-- The holder of the bodies of interface methods. -/
def holder : ClassShape → List ClassId
  | .named shape => shape.defaultImpls.toList
  | _ => []

/-- The classes in the slots of a class. -/
def children (s : ClassShape) : List ClassId := s.nested ++ s.companion ++ s.holder

/-- A shape without the classes in its slots. -/
def bare : ClassShape → ClassShape
  | .named shape => .named { shape with nested := [], companion := none, defaultImpls := none }
  | shape => shape

/-- The shape of a class with a name of its own. -/
def IsNamed (s : ClassShape) : Prop := ∃ shape, s = .named shape

/-- The shape of a local class. -/
def IsLocal (s : ClassShape) : Prop := ∃ kind origin, s = .localClass kind origin

/-- The shape of a file's top level. -/
def IsFacade (s : ClassShape) : Prop := ∃ init, s = .facade init

/-- A local class has no initializer. -/
theorem IsLocal.initializers_eq_nil {s : ClassShape} (h : s.IsLocal) : s.initializers = [] := by
  obtain ⟨kind, origin, rfl⟩ := h
  rfl

/-- A facade has no slots. -/
theorem IsFacade.children_eq_nil {s : ClassShape} (h : s.IsFacade) : s.children = [] := by
  obtain ⟨init, rfl⟩ := h
  rfl

/-- Only the slots of a shape go with them. -/
theorem exists_named_of_bare {s : ClassShape} {shape : NamedShape} (h : s.bare = .named shape) :
    ∃ own, s = .named own ∧ own.declaredName = shape.declaredName ∧
      own.isObject = shape.isObject ∧ own.companionName = shape.companionName := by
  cases s with
  | named own =>
    obtain rfl := ClassShape.named.inj h
    exact ⟨own, rfl, rfl, rfl, rfl⟩
  | localClass kind origin => simp [bare] at h
  | facade init => simp [bare] at h
  | defaultImpls => simp [bare] at h

/-- A class with a name of its own has no initializer of a file's top level. -/
theorem IsNamed.initializers_eq_nil {s : ClassShape} (h : s.IsNamed) : s.initializers = [] := by
  obtain ⟨shape, rfl⟩ := h
  rfl

end ClassShape

namespace SourceTree

/-- All places of classes: facades, the top level, slots of classes, and function bodies. -/
def classPlaces (t : SourceTree) : List ClassId :=
  t.facades ++ t.topLevel ++ t.classes.flatMap (·.shape.children)
    ++ t.functions.flatMap FunctionNode.classes

/-- The classes of a tree have at most one place each, and it fits them. -/
structure PlacesClasses (t : SourceTree) : Prop where
  /-- No class has two places. -/
  classesNodup : t.classPlaces.Nodup
  /-- Every place has a class of the tree. -/
  classesBound : ∀ c ∈ t.classPlaces, c < t.classes.length
  /-- Facades stand for the top level of a file. -/
  facade : ∀ c ∈ t.facades, ∀ node, t.class? c = some node → node.shape.IsFacade
  /-- Classes at the top level have names of their own. -/
  topLevel : ∀ c ∈ t.topLevel, ∀ node, t.class? c = some node → node.shape.IsNamed
  /-- Nested classes and companion objects have names of their own. -/
  nested : ∀ owner ∈ t.classes, ∀ c ∈ owner.shape.nested ++ owner.shape.companion, ∀ node,
    t.class? c = some node → node.shape.IsNamed
  /-- Holders of bodies are such. -/
  holder : ∀ owner ∈ t.classes, ∀ c ∈ owner.shape.holder, ∀ node,
    t.class? c = some node → node.shape = .defaultImpls
  /-- Classes in function bodies are local. -/
  localClass : ∀ f ∈ t.functions, ∀ c ∈ f.classes, ∀ node,
    t.class? c = some node → node.shape.IsLocal

end SourceTree

end LineAtlas
