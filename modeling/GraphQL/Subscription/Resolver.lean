import GraphQL.Keyed
import GraphQL.Subscription.RootField
import GraphQL.Text.Quoted

/-!
Resolvers: where the values of a root field come from. A resolver gives a feed
for a root field: how its setup goes, and what each pull for a value finds.
While the run waits for either, the subscription may be cancelled or the peer
may go away; and the peer may go away when the run has sent what it found,
before it waits again. A registry is a resolver that asks another by the
field's name. A field that a resolver does not know has a feed too, whose setup
fails.
-/

namespace GraphQL.Subscription

/-- Why a resolver has no values or no more values. -/
inductive ResolverError where
  | message (text : String)
  | notFound (field : String)
deriving DecidableEq

/-- The text of a resolver error. -/
def ResolverError.text : ResolverError → String
  | .message text => text
  | .notFound field => "No resolver registered for field \"" ++ field ++ "\""

/-- One wait for a result: what else happens in it, and the result, none if it never comes. -/
structure Moment (α : Type) where
  cancels : Bool
  disconnects : Bool
  result : Option α
  /-- The peer goes away behind what is done about the result, before the next wait. -/
  leaves : Bool := false

/-- What a pull for a value finds. -/
inductive Pull where
  | value (value : Json)
  | failed (error : ResolverError)
  | ended

/-- The values of a root field: the setup, then one moment for each pull; the feed ends behind the last. -/
structure Feed where
  setup : Moment (Except ResolverError Unit)
  pulls : List (Moment Pull)

/-- The feed of a field that is not known: its setup fails. -/
def Feed.unknown (field : RootField) : Feed :=
  ⟨⟨false, false, some (.error (.notFound field.name)), false⟩, []⟩

/-- A resolver; it has no source of values for a field that it does not know. -/
abbrev Resolver := RootField → Option Feed

namespace Resolver

/-- The resolver has a source of values for a field. -/
def knows (resolver : Resolver) (field : RootField) : Bool := (resolver field).isSome

/-- What a resolver answers when it is asked for a field. -/
def feed (resolver : Resolver) (field : RootField) : Feed := (resolver field).getD (.unknown field)

end Resolver

/-- Resolvers by field name. -/
abbrev Registry := Keyed Resolver

namespace Registry

/-- The registry of some resolvers, of which the last for a field counts. -/
def ofList (entries : List (String × Resolver)) : Registry := Keyed.ofList entries

/-- The resolver that asks the one registered for the field. -/
def resolver (registry : Registry) : Resolver := fun field =>
  (registry.get? field.name).bind fun resolver => resolver field

/-- A resolver is registered for a field. -/
def contains (registry : Registry) (name : String) : Bool := (registry.get? name).isSome

/-- The names of the registered fields in the order of their code points. -/
def fieldNames (registry : Registry) : List String :=
  registry.keys.mergeSort fun a b => decide (a ≤ b)

/-- A text for people that lists the registered fields. -/
def description (registry : Registry) : String :=
  "ResolverRegistry \x7b fields: " ++ Text.quotedList registry.fieldNames ++ " \x7d"

end Registry

end GraphQL.Subscription
