import GraphQL.Document.Basic

/-!
Comparing documents. Floats compare as numbers: both zeros are equal, and NaN
differs from itself, so a document with NaN in it equals no document.
-/

namespace GraphQL

mutual

/-- Two literals are the same. -/
def Literal.same : Literal → Literal → Bool
  | .var a, .var b => a == b
  | .int a p, .int b q => a == b && p == q
  | .float a p, .float b q => a == b && p == q
  | .string a p, .string b q => a == b && p == q
  | .bool a p, .bool b q => a == b && p == q
  | .null p, .null q => p == q
  | .enum a, .enum b => a == b
  | .list as p, .list bs q => sameItems as bs && p == q
  | .object as p, .object bs q => sameFields as bs && p == q
  | _, _ => false

/-- Two lists of literals are the same. -/
def Literal.sameItems : List Literal → List Literal → Bool
  | [], [] => true
  | a :: as, b :: bs => a.same b && sameItems as bs
  | _, _ => false

/-- The fields of two object literals are the same, in the same order. -/
def Literal.sameFields : List (Name × Literal) → List (Name × Literal) → Bool
  | [], [] => true
  | (m, a) :: as, (n, b) :: bs => m == n && a.same b && sameFields as bs
  | _, _ => false

end

instance : BEq Literal := ⟨Literal.same⟩

instance : BEq Argument := ⟨fun a b => a.name == b.name && a.value == b.value && a.pos == b.pos⟩

mutual

/-- Two selections are the same. -/
def Selection.same : Selection → Selection → Bool
  | .field ⟨a, m, as, none, p⟩, .field ⟨b, n, bs, none, q⟩ => a == b && m == n && as == bs && p == q
  | .field ⟨a, m, as, some ⟨xs, r⟩, p⟩, .field ⟨b, n, bs, some ⟨ys, s⟩, q⟩ =>
    a == b && m == n && as == bs && sameList xs ys && r == s && p == q
  | .spread a, .spread b => a == b
  | .inline ⟨a, ⟨xs, r⟩, p⟩, .inline ⟨b, ⟨ys, s⟩, q⟩ => a == b && sameList xs ys && r == s && p == q
  | _, _ => false

/-- Two lists of selections are the same. -/
def Selection.sameList : List Selection → List Selection → Bool
  | [], [] => true
  | x :: xs, y :: ys => x.same y && sameList xs ys
  | _, _ => false

end

instance : BEq SelectionSet := ⟨fun a b => Selection.sameList a.selections b.selections && a.pos == b.pos⟩

instance : BEq VariableDefinition :=
  ⟨fun a b => a.name == b.name && a.default? == b.default? && a.pos == b.pos⟩

instance : BEq Operation :=
  ⟨fun a b => a.kind == b.kind && a.name == b.name && a.variableDefinitions == b.variableDefinitions &&
    a.selectionSet == b.selectionSet && a.pos == b.pos⟩

instance : BEq FragmentDefinition :=
  ⟨fun a b => a.name == b.name && a.typeCondition == b.typeCondition &&
    a.selectionSet == b.selectionSet && a.pos == b.pos⟩

/-- Two definitions are the same. -/
def Definition.same : Definition → Definition → Bool
  | .operation a, .operation b => a == b
  | .fragment a, .fragment b => a == b
  | _, _ => false

instance : BEq Definition := ⟨Definition.same⟩

instance : BEq Document := ⟨fun a b => a.definitions == b.definitions⟩

end GraphQL
