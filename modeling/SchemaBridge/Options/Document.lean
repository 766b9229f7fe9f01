import SchemaBridge.Json.Decode
import SchemaBridge.Options.Basic
import SchemaBridge.Options.Error

/-!
# Options in JSON text

Options are a record of which every field may be missing. A name that is no option is an error, so
that a misspelt one is noticed.
-/

namespace SchemaBridge.DocumentOptions

/-- The names of the options, in order. -/
def names : List String :=
  ["schema_uri", "def_prefix", "name_defs_from_title", "max_depth", "date_format"]

/-- The reader of options; what is missing has its default. -/
def read : Decode.Reader DocumentOptions := fun source => do
  let standard : DocumentOptions := {}
  let found ← Decode.fields false names source
  return {
    schemaUri := ← Decode.field found "schema_uri" (Decode.optional Decode.text)
      (some standard.schemaUri)
    defStem := ← Decode.field found "def_prefix" Decode.text (some standard.defStem)
    nameDefsFromTitle := ← Decode.field found "name_defs_from_title" Decode.truth
      (some standard.nameDefsFromTitle)
    maxDepth := ← Decode.field found "max_depth" Decode.natural (some standard.maxDepth)
    dateFormat := ← Decode.field found "date_format" Decode.text (some standard.dateFormat) }

/-- The options of a JSON text. -/
def ofJsonText (text : String) : Except OptionsError DocumentOptions :=
  match (Source.read? text).bind read with
  | some options => .ok options
  | none => .error .json

end SchemaBridge.DocumentOptions
