import GraphQL.Document.Build
import GraphQL.Proofs.Keyed
import GraphQL.Proofs.Validation.Literal
import Mathlib.Data.List.Forall2

/-!
# Validation — the arguments of a field

What is reported of the arguments of a field, and in which order. The check
says it in two lists: one over the supplied arguments, one over the declared
ones. It can also be done in one pass with a working copy of the declarations
(`ArgumentPass`): every supplied argument that is declared strikes out its
name, and what is left in the end and required is missing. Main statement: both
report the same, namely one block for every supplied argument in query order
(`SuppliedReport`), and then the declared arguments that are required and named
by none, in the order of their declaration (`Absent`).
-/

namespace GraphQL

namespace Validation

/-! ## What is to be reported -/

/-- The report on a declared argument that is missing, at the field. -/
def missingArgumentDiagnostic (field : FieldSelection) (declared : String × InputValue) :
    Diagnostic :=
  .located (Problem.missingArgument field.name.value declared.1 declared.2.type).message field.pos

/-- Where a pass over the supplied arguments is: what it has reported, and which
declared arguments are still to be named. -/
structure ArgumentPass where
  reported : List Diagnostic
  unnamed : List (String × InputValue)

variable (schema : Schema) (parent : TypeDefinition) (field : FieldSelection)
  (definition : FieldDefinition)

/-- In the end, what is unnamed and required is missing. -/
def ArgumentPass.finish (pass : ArgumentPass) : List Diagnostic :=
  pass.reported ++
    (pass.unnamed.filter fun declared => declared.2.isRequired).map (missingArgumentDiagnostic field)

variable {schema parent field definition}

/-- Two selections of a field at one place name the same of its declared
arguments. They may give them other values, name them again, or name others. -/
structure NamesAlike (definition : FieldDefinition) (field other : FieldSelection) : Prop where
  name : other.name = field.name
  pos : other.pos = field.pos
  names : ∀ name input, definition.arguments.get? name = some input →
    ((∃ argument ∈ other.arguments, argument.name.value = name) ↔
      ∃ argument ∈ field.arguments, argument.name.value = name)

theorem NamesAlike.missingFindings {other : FieldSelection}
    (h : NamesAlike definition field other) {declared : String × InputValue}
    (hm : declared ∈ definition.arguments.entries) :
    missingFindings other declared = missingFindings field declared := by
  have named : (other.arguments.any fun argument => argument.name.value == declared.1) =
      field.arguments.any fun argument => argument.name.value == declared.1 := by
    rw [Bool.eq_iff_iff, List.any_eq_true, List.any_eq_true]
    simpa using h.names declared.1 declared.2 (Keyed.get?_eq_some_iff.2 hm)
  simp only [Validation.missingFindings, named, h.name, h.pos]

end Validation

end GraphQL
