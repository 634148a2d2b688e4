import GraphQL.Json.Shape

/-!
Positions in a query document. Lines and columns count from one; line zero
means that no parser has set the position.
-/

namespace GraphQL

/-- A position in a document. -/
structure Position where
  line : UInt32
  column : UInt32
deriving DecidableEq, Inhabited

namespace Position

/-- The position of a node that no parser has placed. -/
def unknown : Position := ⟨0, 0⟩

/-- No parser has set the position. -/
def isUnknown (p : Position) : Bool := p.line == 0

/-- Line and column with a colon between them. -/
def display (p : Position) : String := s!"{p.line}:{p.column}"

/-- Reading order: by line, then by column. -/
def le (p q : Position) : Bool := p.line < q.line || p.line == q.line && p.column ≤ q.column

/-- The encoding of a position. -/
def toJson (p : Position) : Json :=
  .object [("line", .int p.line.toNat), ("column", .int p.column.toNat)]

/-- The position that a value encodes. -/
def ofJson? (value : Json) : Option Position := do
  let [line, column] ← value.fields? ["line", "column"] | none
  return ⟨← Json.required? Json.uint32? line, ← Json.required? Json.uint32? column⟩

end Position

end GraphQL
