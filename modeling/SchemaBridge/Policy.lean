/-!
# Resolve policies

How a registry treats a node that several adapters claim.
-/

namespace SchemaBridge

/-- How a registry treats a node that several adapters claim. In either case the first adapter
answers. -/
inductive ClaimPolicy where
  /-- The other adapters are not asked. -/
  | firstMatch
  /-- The other adapters that claim the node are reported. -/
  | warnOnAmbiguity
  deriving DecidableEq, Repr

namespace ClaimPolicy

/-- The name of a policy in configurations. -/
def name : ClaimPolicy → String
  | firstMatch => "first_match"
  | warnOnAmbiguity => "warn_on_ambiguity"

/-- The name of a policy in diagnostics. -/
def title : ClaimPolicy → String
  | firstMatch => "FirstMatch"
  | warnOnAmbiguity => "WarnOnAmbiguity"

/-- The policy of a name in configurations. -/
def ofName? : String → Option ClaimPolicy
  | "first_match" => some firstMatch
  | "warn_on_ambiguity" => some warnOnAmbiguity
  | _ => none

end ClaimPolicy

end SchemaBridge
