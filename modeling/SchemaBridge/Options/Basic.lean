import SchemaBridge.Json.Basic

/-!
# Compile options

The options that shape a compiled document.

## Main definitions

* `DocumentOptions` : the options, with their defaults.
* `DocumentOptions.toJson` : the options as a JSON object.
-/

namespace SchemaBridge

/-- The options that shape a compiled document. -/
structure DocumentOptions where
  /-- The `$schema` of the document. -/
  schemaUri : Option String := none
  /-- What generated definition names start with; a number follows. -/
  defStem : String := "schema"
  /-- A definition is named after the title of its node, if the title can be a name. -/
  nameDefsFromTitle : Bool := true
  /-- Nodes that lie deeper compile to the empty schema. -/
  maxDepth : Nat := 256
  /-- The format of dates. -/
  dateFormat : String := "date-time"
  deriving DecidableEq, Repr

namespace DocumentOptions

instance : Inhabited DocumentOptions := ⟨{}⟩

/-- The options as a JSON object. -/
def toJson (options : DocumentOptions) : Json :=
  .object
    [("schema_uri", options.schemaUri.elim .null .string), ("def_prefix", .string options.defStem),
      ("name_defs_from_title", .bool options.nameDefsFromTitle),
      ("max_depth", .ofNat options.maxDepth), ("date_format", .string options.dateFormat)]

end DocumentOptions

end SchemaBridge
