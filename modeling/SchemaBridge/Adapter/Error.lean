/-!
# Adapter errors

What an adapter may raise while it answers questions about a node or runs its vendor's validator.

## Main definitions

* `VendorError` : the three causes, each with the vendor that raised it.
* `VendorError.display` : the full sentence.
* `VendorError.message` : the text for a validation issue.
-/

namespace SchemaBridge

/-- An error raised by an adapter. -/
inductive VendorError where
  /-- The node is structurally broken. -/
  | malformed (vendor reason : String)
  /-- The adapter does not offer the operation. -/
  | unsupported (vendor operation : String)
  /-- The vendor's validator raised instead of returning a result. -/
  | native (vendor message : String)
  deriving DecidableEq, Repr

namespace VendorError

/-- The vendor that raised the error. -/
def vendor : VendorError → String
  | malformed vendor _ => vendor
  | unsupported vendor _ => vendor
  | native vendor _ => vendor

/-- The full sentence. -/
def display : VendorError → String
  | malformed vendor reason => "malformed " ++ vendor ++ " schema: " ++ reason
  | unsupported vendor operation => vendor ++ " adapter does not support " ++ operation
  | native vendor message => vendor ++ " validator raised: " ++ message

/-- The text for a validation issue: a vendor's own message as it is, else the full sentence. -/
def message : VendorError → String
  | native _ message => message
  | error => error.display

end VendorError

end SchemaBridge
