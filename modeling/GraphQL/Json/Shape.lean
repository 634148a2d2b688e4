import GraphQL.Json.Basic

/-!
The two shapes that encodings use. A structure is an object, in which unknown
members are ignored and a known one may stand only once, or an array of its
fields in order, of which some at the end may be missing. A variant is an
object with one member, named for the alternative. The parts found are smaller
than the whole, so that decoders may recurse into them.
-/

namespace GraphQL.Json

/-- A value that is smaller than another. -/
abbrev Part (whole : Json) := { part : Json // sizeOf part < sizeOf whole }

/-- The first member with a name. -/
def memberPart (name : String) : (members : List (String × Json)) → Option (Part (.object members))
  | [] => none
  | (other, value) :: members =>
    if name = other then some ⟨value, by simp; omega⟩
    else (memberPart name members).map fun ⟨part, h⟩ => ⟨part, by simp at h ⊢; omega⟩

/-- Every item, in order. -/
def itemParts : (items : List Json) → List (Part (.array items))
  | [] => []
  | item :: items =>
    ⟨item, by simp; omega⟩ :: (itemParts items).map fun ⟨part, h⟩ => ⟨part, by simp at h ⊢; omega⟩

/-- The fields of a structure in the order of their names; a missing one is `none`. -/
def fields? (names : List String) : (value : Json) → Option (List (Option (Part value)))
  | .object members =>
    if names.all fun name => (members.map Prod.fst).count name ≤ 1 then
      some (names.map fun name => memberPart name members)
    else none
  | .array items =>
    if items.length ≤ names.length then
      some ((itemParts items).map some ++ List.replicate (names.length - items.length) none)
    else none
  | _ => none

/-- The alternative that a variant names, and what it holds. -/
def variant? : (value : Json) → Option (String × Part value)
  | .object [(tag, body)] => some (tag, ⟨body, by simp; omega⟩)
  | _ => none

/-- A field that may be missing or null. -/
def optional? {α : Type} {whole : Json} (decode : Json → Option α) : Option (Part whole) → Option (Option α)
  | none => some none
  | some ⟨.null, _⟩ => some none
  | some ⟨value, _⟩ => (decode value).map some

/-- A field that may be missing but not null. -/
def defaulted? {α : Type} {whole : Json} (decode : Json → Option α) (missing : α) :
    Option (Part whole) → Option α
  | none => some missing
  | some ⟨value, _⟩ => decode value

/-- A field that must be there. -/
def required? {α : Type} {whole : Json} (decode : Json → Option α) : Option (Part whole) → Option α
  | none => none
  | some ⟨value, _⟩ => decode value

/-- An optional value; `null` stands for none. -/
def ofOption {α : Type} (encode : α → Json) : Option α → Json
  | none => .null
  | some value => encode value

/-- An unsigned 32-bit integer. -/
def uint32? : Json → Option UInt32
  | .int n => if 0 ≤ n ∧ n < UInt32.size then some (UInt32.ofNat n.toNat) else none
  | _ => none

/-- A signed 64-bit integer. -/
def int64? : Json → Option Int64
  | .int n => if Int64.minValue.toInt ≤ n ∧ n ≤ Int64.maxValue.toInt then some (Int64.ofInt n) else none
  | _ => none

/-- A double; an integer is rounded to one. -/
def float? : Json → Option Float
  | .int n => some (Float.ofInt n)
  | .float x => some x
  | _ => none

/-- An array whose items are all of one kind. -/
def list? {α : Type} (decode : Json → Option α) : Json → Option (List α)
  | .array items => items.mapM decode
  | _ => none

end GraphQL.Json
