import GraphQL.Proofs.Json.Shape
import GraphQL.Proofs.Schema.Written
import GraphQL.Schema.Encoding

/-!
# Schemas — encoding and decoding

What a schema is encoded as decodes to the schema, with every map and every
list in its order, if its references have a written form: the text of any other
reference is not read as that reference. Main statement: a schema that has been
loaded has such references and all built-in types, so loading its encoding
gives the same schema again.
-/

namespace GraphQL

open Json

/-! ## Texts, names and maps -/

theorem Json.nullable?_optionalText (text : Option String) :
    nullable? string? (optionalText text) = some text :=
  nullable?_ofOption fun _ _ => ⟨by simp, rfl⟩

theorem Json.complete_optionalText (text : Option String) : (optionalText text).complete = true :=
  complete_ofOption fun _ _ => rfl

theorem Json.names?_ofNames (names : List String) : names? (ofNames names) = some names :=
  list?_map fun _ _ => rfl

theorem Json.complete_ofNames (names : List String) : (ofNames names).complete = true := by
  rw [ofNames, complete, completeItems_iff]
  intro item hm
  obtain ⟨name, -, rfl⟩ := List.mem_map.1 hm
  rfl

theorem TypeRef.ofJson?_display {type : TypeRef} (h : type.isWritten = true) :
    TypeRef.ofJson? (.string type.display) = some type :=
  TypeRef.ofText?_display h

section Maps

variable {α : Type} {encode : α → Json} {decode : Json → Option α} {m : Keyed α}

/-- A map is read as it was written, in its order. -/
theorem Keyed.ofJson?_toJson (h : ∀ x ∈ m.values, decode (encode x) = some x) :
    Keyed.ofJson? decode (m.toJson encode) = some m := by
  rw [Keyed.toJson, Keyed.ofJson?, mapM_map_eq_some, Option.map_some, Keyed.ofList_entries]
  intro entry hm
  rw [h entry.2 (List.mem_map_of_mem hm), Option.map_some]

theorem Keyed.complete_toJson (h : ∀ x ∈ m.values, (encode x).complete = true) :
    (m.toJson encode).complete = true := by
  rw [Keyed.toJson, complete, completeMembers_iff]
  intro member hm
  obtain ⟨entry, he, rfl⟩ := List.mem_map.1 hm
  exact h entry.2 (List.mem_map_of_mem he)

end Maps

/-! ## Fields and values -/

attribute [local simp] complete completeMembers

theorem InputValue.ofJson?_object {name description type default? : Json} {n : String}
    {d t : Option String} {r : TypeRef} (hn : name.string? = some n)
    (hd : nullable? string? description = some d) (hr : TypeRef.ofJson? type = some r)
    (ht : nullable? string? default? = some t) :
    InputValue.ofJson? (.object [("name", name), ("description", description), ("type", type),
      ("defaultValue", default?)]) = some ⟨n, d, r, t⟩ := by
  simp [InputValue.ofJson?, fields?_object, Keyed.find, hn, hd, hr, ht]

theorem InputValue.ofJson?_toJson {input : InputValue} (h : input.isWritten = true) :
    InputValue.ofJson? input.toJson = some input :=
  InputValue.ofJson?_object rfl (nullable?_optionalText _) (TypeRef.ofJson?_display h)
    (nullable?_optionalText _)

theorem InputValue.complete_toJson (input : InputValue) : input.toJson.complete = true := by
  simp [InputValue.toJson, complete_optionalText]

theorem FieldDefinition.ofJson?_object
    {name description type arguments deprecated reason : Json} {n : String} {d w : Option String}
    {r : TypeRef} {as : Keyed InputValue} {b : Bool} (hn : name.string? = some n)
    (hd : nullable? string? description = some d) (hr : TypeRef.ofJson? type = some r)
    (ha : Keyed.ofJson? InputValue.ofJson? arguments = some as)
    (hb : deprecated.bool? = some b) (hw : nullable? string? reason = some w) :
    FieldDefinition.ofJson? (.object [("name", name), ("description", description),
      ("type", type), ("arguments", arguments), ("deprecated", deprecated),
      ("deprecationReason", reason)]) = some ⟨n, d, r, as, b, w⟩ := by
  simp [FieldDefinition.ofJson?, fields?_object, Keyed.find, hn, hd, hr, ha, hb, hw]

theorem FieldDefinition.ofJson?_toJson {field : FieldDefinition} (h : field.isWritten = true) :
    FieldDefinition.ofJson? field.toJson = some field := by
  obtain ⟨hr, ha⟩ := Bool.and_eq_true_iff.1 h
  exact FieldDefinition.ofJson?_object rfl (nullable?_optionalText _)
    (TypeRef.ofJson?_display hr)
    (Keyed.ofJson?_toJson fun input hi => InputValue.ofJson?_toJson (List.all_eq_true.1 ha input hi))
    rfl (nullable?_optionalText _)

theorem FieldDefinition.complete_toJson (field : FieldDefinition) :
    field.toJson.complete = true := by
  simp [FieldDefinition.toJson, complete_optionalText,
    Keyed.complete_toJson fun input _ => InputValue.complete_toJson input]

theorem EnumValue.ofJson?_object {name description deprecated reason : Json} {n : String}
    {d w : Option String} {b : Bool} (hn : name.string? = some n)
    (hd : nullable? string? description = some d) (hb : deprecated.bool? = some b)
    (hw : nullable? string? reason = some w) :
    EnumValue.ofJson? (.object [("name", name), ("description", description),
      ("deprecated", deprecated), ("deprecationReason", reason)]) = some ⟨n, d, b, w⟩ := by
  simp [EnumValue.ofJson?, fields?_object, Keyed.find, hn, hd, hb, hw]

theorem EnumValue.ofJson?_toJson (value : EnumValue) :
    EnumValue.ofJson? value.toJson = some value :=
  EnumValue.ofJson?_object rfl (nullable?_optionalText _) rfl (nullable?_optionalText _)

theorem EnumValue.complete_toJson (value : EnumValue) : value.toJson.complete = true := by
  simp [EnumValue.toJson, complete_optionalText]

/-! ## Types -/

namespace TypeDefinition

section Object

variable {kind name description : Json} {n : String} {d : Option String}
  (hn : name.string? = some n) (hd : nullable? string? description = some d)

include hn hd

theorem scalarOfJson?_object :
    scalarOfJson? (.object [("kind", kind), ("name", name), ("description", description)]) =
      some (.scalar ⟨n, d⟩) := by
  simp [scalarOfJson?, fields?_object, Keyed.find, hn, hd]

theorem objectOfJson?_object {fields interfaces : Json} {fs : Keyed FieldDefinition}
    {is : List String} (hf : Keyed.ofJson? FieldDefinition.ofJson? fields = some fs)
    (hi : names? interfaces = some is) :
    objectOfJson? (.object [("kind", kind), ("name", name), ("description", description),
      ("fields", fields), ("implements", interfaces)]) = some (.object ⟨n, d, fs, is⟩) := by
  simp [objectOfJson?, fields?_object, Keyed.find, hn, hd, hf, hi]

theorem interfaceOfJson?_object {fields interfaces : Json} {fs : Keyed FieldDefinition}
    {is : List String} (hf : Keyed.ofJson? FieldDefinition.ofJson? fields = some fs)
    (hi : names? interfaces = some is) :
    interfaceOfJson? (.object [("kind", kind), ("name", name), ("description", description),
      ("fields", fields), ("implements", interfaces)]) = some (.interface ⟨n, d, fs, is⟩) := by
  simp [interfaceOfJson?, fields?_object, Keyed.find, hn, hd, hf, hi]

theorem unionOfJson?_object {members : Json} {ms : List String}
    (hm : names? members = some ms) :
    unionOfJson? (.object [("kind", kind), ("name", name), ("description", description),
      ("members", members)]) = some (.union ⟨n, d, ms⟩) := by
  simp [unionOfJson?, fields?_object, Keyed.find, hn, hd, hm]

theorem enumOfJson?_object {values : Json} {vs : List EnumValue}
    (hv : list? EnumValue.ofJson? values = some vs) :
    enumOfJson? (.object [("kind", kind), ("name", name), ("description", description),
      ("values", values)]) = some (.enum ⟨n, d, vs⟩) := by
  simp [enumOfJson?, fields?_object, Keyed.find, hn, hd, hv]

theorem inputObjectOfJson?_object {fields : Json} {fs : Keyed InputValue}
    (hf : Keyed.ofJson? InputValue.ofJson? fields = some fs) :
    inputObjectOfJson? (.object [("kind", kind), ("name", name), ("description", description),
      ("fields", fields)]) = some (.inputObject ⟨n, d, fs⟩) := by
  simp [inputObjectOfJson?, fields?_object, Keyed.find, hn, hd, hf]

end Object

/-- The kind of a type is found again. -/
theorem kindAndRest?_toJson (type : TypeDefinition) :
    kindAndRest? type.toJson = some (type.kind.name, type.toJson) := by
  cases type <;> simp [kindAndRest?, toJson, members]

theorem complete_toJson (type : TypeDefinition) : type.toJson.complete = true := by
  have fields : ∀ fields : Keyed FieldDefinition,
      (fields.toJson FieldDefinition.toJson).complete = true :=
    fun fields => Keyed.complete_toJson fun field _ => field.complete_toJson
  have inputs : ∀ fields : Keyed InputValue, (fields.toJson InputValue.toJson).complete = true :=
    fun fields => Keyed.complete_toJson fun input _ => input.complete_toJson
  have values : ∀ values : List EnumValue,
      completeItems (values.map EnumValue.toJson) = true := by
    intro values
    rw [completeItems_iff]
    intro item hm
    obtain ⟨value, -, rfl⟩ := List.mem_map.1 hm
    exact value.complete_toJson
  cases type <;>
    simp [toJson, members, complete_optionalText, complete_ofNames, fields, inputs, values]

/-- What a type is encoded as decodes to it, if its references are written. -/
theorem ofJson?_toJson {type : TypeDefinition} (h : type.isWritten = true) :
    TypeDefinition.ofJson? type.toJson = some type := by
  rw [TypeDefinition.ofJson?, if_pos type.complete_toJson, kindAndRest?_toJson]
  cases type with
  | scalar type => exact scalarOfJson?_object rfl (nullable?_optionalText _)
  | object type =>
    exact objectOfJson?_object rfl (nullable?_optionalText _)
      (Keyed.ofJson?_toJson fun field hf =>
        FieldDefinition.ofJson?_toJson (List.all_eq_true.1 h field hf)) (names?_ofNames _)
  | interface type =>
    exact interfaceOfJson?_object rfl (nullable?_optionalText _)
      (Keyed.ofJson?_toJson fun field hf =>
        FieldDefinition.ofJson?_toJson (List.all_eq_true.1 h field hf)) (names?_ofNames _)
  | union type => exact unionOfJson?_object rfl (nullable?_optionalText _) (names?_ofNames _)
  | enum type =>
    exact enumOfJson?_object rfl (nullable?_optionalText _)
      (list?_map fun value _ => EnumValue.ofJson?_toJson value)
  | inputObject type =>
    exact inputObjectOfJson?_object rfl (nullable?_optionalText _)
      (Keyed.ofJson?_toJson fun input hi =>
        InputValue.ofJson?_toJson (List.all_eq_true.1 h input hi))

end TypeDefinition

/-! ## Schemas -/

namespace Schema

variable {schema : Schema}

theorem ofJson?_object {query mutation subscription types : Json} {q m s : Option String}
    {ts : Keyed TypeDefinition} (hq : nullable? string? query = some q)
    (hm : nullable? string? mutation = some m) (hs : nullable? string? subscription = some s)
    (ht : Keyed.ofJson? TypeDefinition.ofJson? types = some ts) :
    Schema.ofJson? (.object [("queryType", query), ("mutationType", mutation),
      ("subscriptionType", subscription), ("types", types)]) = some ⟨q, m, s, ts⟩ := by
  simp [Schema.ofJson?, fields?_object, Keyed.find, hq, hm, hs, ht]

/-- What a schema is encoded as decodes to it, if its references are written. -/
theorem IsWritten.ofJson?_toJson (h : schema.IsWritten) :
    Schema.ofJson? schema.toJson = some schema :=
  ofJson?_object (nullable?_optionalText _) (nullable?_optionalText _) (nullable?_optionalText _)
    (Keyed.ofJson?_toJson fun type ht => TypeDefinition.ofJson?_toJson (h type ht))

end Schema

/-! ## Nesting -/

attribute [local simp] within membersWithin

theorem Json.within_optionalText (text : Option String) (levels : Nat) :
    (optionalText text).within (levels + 1) = optionalText text := by
  cases text <;> rfl

theorem Json.within_ofNames (names : List String) (levels : Nat) :
    (ofNames names).within (levels + 2) = ofNames names := by
  rw [ofNames, within, itemsWithin_eq_self]
  intro item hm
  obtain ⟨name, -, rfl⟩ := List.mem_map.1 hm
  rfl

theorem Keyed.within_toJson {α : Type} {encode : α → Json} {levels : Nat}
    (h : ∀ x, (encode x).within levels = encode x) (m : Keyed α) :
    (m.toJson encode).within (levels + 1) = m.toJson encode := by
  rw [Keyed.toJson, within, membersWithin_eq_self]
  intro member hm
  obtain ⟨entry, -, rfl⟩ := List.mem_map.1 hm
  exact h entry.2

theorem InputValue.within_toJson (levels : Nat) (input : InputValue) :
    input.toJson.within (levels + 2) = input.toJson := by
  simp [InputValue.toJson, within_optionalText]

theorem FieldDefinition.within_toJson (levels : Nat) (field : FieldDefinition) :
    field.toJson.within (levels + 4) = field.toJson := by
  have arguments := Keyed.within_toJson (InputValue.within_toJson levels) field.arguments
  simp [FieldDefinition.toJson, within_optionalText, arguments]

theorem EnumValue.within_toJson (levels : Nat) (value : EnumValue) :
    value.toJson.within (levels + 2) = value.toJson := by
  simp [EnumValue.toJson, within_optionalText]

theorem TypeDefinition.within_toJson (levels : Nat) (type : TypeDefinition) :
    type.toJson.within (levels + 6) = type.toJson := by
  have fields := Keyed.within_toJson (FieldDefinition.within_toJson levels)
  have inputs := Keyed.within_toJson (InputValue.within_toJson (levels + 2))
  have values : ∀ values : List EnumValue,
      itemsWithin (levels + 4) (values.map EnumValue.toJson) = values.map EnumValue.toJson := by
    intro values
    apply itemsWithin_eq_self
    intro item hm
    obtain ⟨value, -, rfl⟩ := List.mem_map.1 hm
    exact value.within_toJson (levels + 2)
  cases type <;>
    simp [TypeDefinition.toJson, members, within_optionalText, within_ofNames, fields, inputs,
      values]

/-- The encoding of a schema is nested eight levels deep at most. -/
theorem Schema.within_toJson (levels : Nat) (schema : Schema) :
    schema.toJson.within (levels + 8) = schema.toJson := by
  have types := Keyed.within_toJson (TypeDefinition.within_toJson levels) schema.types
  simp [Schema.toJson, within_optionalText, types]

/-- A text that is the encoding of a schema with all built-in types is loaded as the schema. -/
theorem Schema.IsWritten.ofText? {schema : Schema} (h : schema.IsWritten)
    (hb : schema.HasBuiltins) {text : String} (ht : Json.read? text = some schema.toJson) :
    Schema.ofText? text = some schema := by
  have hw : Json.readWithin? text = some schema.toJson := by
    rw [Json.readWithin?, ht, Option.map_some]
    exact congrArg some (schema.within_toJson 119)
  rw [Schema.ofText?, hw, Option.bind_some, h.ofJson?_toJson, Option.map_some, hb.withBuiltins]

/-! ## Loading again -/

/-- **A schema that is loaded is loaded again from its encoding**, the same in every order.
Loading keeps what is decoded and brings the missing built-in types to the end, so there is
nothing left to register. -/
theorem Schema.loaded_again {text : String} {schema : Schema}
    (h : Schema.ofText? text = some schema) :
    Schema.ofJson? schema.toJson = some schema ∧
      (∀ again, Json.read? again = some schema.toJson → Schema.ofText? again = some schema) ∧
      schema.withBuiltins = schema ∧
      ∃ decoded, (Json.readWithin? text).bind Schema.ofJson? = some decoded ∧
        schema.queryType = decoded.queryType ∧ schema.mutationType = decoded.mutationType ∧
        schema.subscriptionType = decoded.subscriptionType ∧
        schema.types.entries = decoded.types.entries ++
          (Introspection.builtinTypes.filter fun type => (decoded.type? type.name).isNone).map
            fun type => (type.name, type) := by
  have hw := Schema.isWritten_of_ofText? h
  obtain ⟨decoded, hd, rfl⟩ := Option.map_eq_some_iff.1 h
  have hb := decoded.hasBuiltins_withBuiltins
  exact ⟨hw.ofJson?_toJson, fun again ha => hw.ofText? hb ha, hb.withBuiltins, decoded, hd,
    decoded.queryType_withBuiltins, decoded.mutationType_withBuiltins,
    decoded.subscriptionType_withBuiltins, decoded.entries_withBuiltins⟩

/-- A schema text with blanks in a reference, and with a type under a built-in key. -/
def keyedText : String :=
  "\x7b\"types\":\x7b\"Query\":\x7b\"kind\":\"OBJECT\",\"fields\":\x7b\"a\":\x7b\"name\":\"b\"," ++
    "\"type\":\"[ ID! ]\"\x7d\x7d\x7d,\"ID\":\x7b\"kind\":\"UNION\",\"name\":\"Key\",\"members\":[]\x7d\x7d\x7d"

/-- The text is loaded; the type under the built-in key stays, and the other built-in types
come behind it. -/
theorem keyedText_loaded_again :
    ∃ schema, Schema.ofText? keyedText = some schema ∧
      (schema.types.entries.take 3).map (fun entry => (entry.1, entry.2.name)) =
        [("Query", ""), ("ID", "Key"), ("Int", "Int")] ∧
      Schema.ofJson? schema.toJson = some schema ∧ schema.withBuiltins = schema := by
  have loaded : (Schema.ofText? keyedText).map (fun schema =>
      (schema.types.entries.take 3).map fun entry => (entry.1, entry.2.name)) =
        some [("Query", ""), ("ID", "Key"), ("Int", "Int")] := by
    decide +kernel
  obtain ⟨schema, hs, ht⟩ := Option.map_eq_some_iff.1 loaded
  obtain ⟨hj, -, hb, -⟩ := Schema.loaded_again hs
  exact ⟨schema, hs, ht, hj, hb⟩

end GraphQL
