/-!
# Errors in options

Why options could not be loaded.
-/

namespace SchemaBridge

/-- Why options could not be loaded. -/
inductive OptionsError where
  /-- The JSON text is not one of options. -/
  | json
  /-- The YAML text is not one of options. -/
  | yaml
  /-- A variable cannot be used. -/
  | variable (name reason : String)
  deriving DecidableEq, Repr

/-- The sentence about a variable that cannot be used. -/
def OptionsError.variableMessage (name reason : String) : String :=
  "invalid value for " ++ name ++ ": " ++ reason

end SchemaBridge
