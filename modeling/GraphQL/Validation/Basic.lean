import GraphQL.Fragment.Report
import GraphQL.Validation.Selection
import GraphQL.Validation.Widening

/-!
Validating a document against a schema. The outcome holds one diagnostic for
each problem, in the order of the walk, and the widened document if some
integer literal stands for a float. A document that needs no widening is
passed on as it is.
-/

namespace GraphQL

/-- The outcome of validating a document. -/
structure Validated where
  diagnostics : List Diagnostic
  /-- The document with its literals widened, if some literal has to be. -/
  widened? : Option Document

/-- Validates a document. -/
def Schema.validate (schema : Schema) (document : Document) : Validated :=
  let findings := Validation.documentFindings schema document
  ⟨findings.filterMap Finding.diagnostic?,
    if findings.any Finding.isCoercion then some (Validation.widenDocument schema document) else none⟩

/-- The diagnostics of a document, none if it is valid. -/
def Schema.diagnose (schema : Schema) (document : Document) : List Diagnostic :=
  (schema.validate document).diagnostics

/-- The document as validation leaves it. -/
def Schema.normalize (schema : Schema) (document : Document) : Document :=
  (schema.validate document).widened?.getD document

/-- Everything wrong with a document: its fragments first, then its operations. -/
def Schema.check (schema : Schema) (document : Document) : List Diagnostic :=
  document.fragmentProblems ++ schema.diagnose document

end GraphQL
