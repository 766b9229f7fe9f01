import SchemaBridge.Adapter.Error

/-!
# Compile failures

Why a node is given up and compiles to the empty schema: its adapter raised an error, or it stands
under more modifiers than the depth limit allows. The two are told apart even if an adapter raises
an error of the same wording, so that a run which reached no limit can be recognized.

## Main definitions

* `CompileFailure` : the two causes.
* `CompileFailure.error` : the error that is reported.
-/

namespace SchemaBridge

/-- Why a node is given up. -/
inductive CompileFailure where
  /-- An adapter raised an error. -/
  | raised (error : VendorError)
  /-- There are more modifiers than the limit allows; the vendor is that of the next one. -/
  | endless (vendor : String)
  deriving DecidableEq, Repr

/-- The error that is reported for a failure. -/
def CompileFailure.error : CompileFailure → VendorError
  | raised error => error
  | endless vendor => .malformed vendor "modifier chain does not reach a terminal node"

end SchemaBridge
