import SchemaBridge.Fluent.Validation

/-!
# The adapter of fluent schemas

The answers for fluent nodes. A modifier answers with the node that it wraps, a deferred layer with
the node that it stands for; every structural question is answered by the kind that it is about, and
with nothing by the other kinds. A question about a node of another vendor is an error where the
answer may be one.

## Main definitions

* `Fluent.adapter` : the adapter.

## Main results

* `Fluent.holds_iff` : exactly one predicate holds of a fluent node.
-/

namespace SchemaBridge.Fluent

variable {γ : Type}

/-- The kind of a fluent node; any other node is malformed. -/
def kindOf (schema : Schema γ) : Answer (Kind γ (Schema γ)) :=
  match schema.payload.fluent? with
  | some layer => pure layer.kind
  | none => Adapter.fail (.malformed vendor "node is not a fluent schema")

/-- The kind of a node, if it is fluent. -/
def kind? (schema : Schema γ) : Option (Kind γ (Schema γ)) :=
  schema.payload.fluent?.map Fluent.kind

/-- What is set on the layer of a node, if it is fluent. -/
def details? (schema : Schema γ) : Option Details := schema.payload.fluent?.map Fluent.details

/-- The predicate holds of the node. -/
def holds (predicate : TypePredicate) (schema : Schema γ) : Bool :=
  (kind? schema).any fun kind => kind.predicate = predicate

/-- The node that a modifier wraps or stands for. -/
def Kind.inner (scope : Scope γ) : Kind γ (Schema γ) → Answer (Option (Schema γ))
  | .optional inner | .nullable inner | .defaulted inner _ | .caught inner _
  | .refined inner _ _ | .branded inner _ | .transformed inner _ => pure (some inner)
  | .deferred target => some <$> scope.target target
  | _ => pure none

/-- The adapter of fluent schemas, given what slots and getters stand for. -/
def adapter (scope : Scope γ) : Adapter (Payload γ) where
  vendor := vendor
  claims schema := schema.payload.fluent?.isSome
  holds := holds
  inner schema := do (← kindOf schema).inner scope
  entries schema := do
    match ← kindOf schema with
    | .object entries => return entries
    | _ => return []
  element schema := do
    match ← kindOf schema with
    | .array element => return some element
    | _ => return none
  options schema := do
    match ← kindOf schema with
    | .union options => return options
    | _ => return []
  literal schema :=
    match kind? schema with
    | some (.literal value) => some value
    | _ => none
  values schema :=
    match kind? schema with
    | some (.enumeration values) => values
    | _ => []
  positions schema := do
    match ← kindOf schema with
    | .tuple items _ => return items
    | _ => return []
  rest schema := do
    match ← kindOf schema with
    | .tuple _ rest => return rest
    | _ => return none
  recordKey schema := do
    match ← kindOf schema with
    | .record key _ => return some key
    | _ => return none
  recordValue schema := do
    match ← kindOf schema with
    | .record _ value => return some value
    | _ => return none
  mapKey schema := do
    match ← kindOf schema with
    | .map key _ => return some key
    | _ => return none
  mapValue schema := do
    match ← kindOf schema with
    | .map _ value => return some value
    | _ => return none
  member schema := do
    match ← kindOf schema with
    | .set element => return some element
    | _ => return none
  parts schema := do
    match ← kindOf schema with
    | .intersection parts => return parts
    | _ => return []
  awaited schema := do
    match ← kindOf schema with
    | .promise inner => return some inner
    | _ => return none
  className schema :=
    match kind? schema with
    | some (.instanceOf className) => some className
    | _ => none
  constraints schema := ((details? schema).map (·.constraints)).filter fun c => !c.isEmpty
  description schema := (details? schema).bind (·.description)
  title schema := (details? schema).bind (·.title)
  default schema :=
    match kind? schema with
    | some (.defaulted _ value) | some (.caught _ value) => some value
    | _ => none
  examples schema := ((details? schema).map (·.examples)).getD []
  isDeprecated schema := (details? schema).any (·.deprecated)
  validate := validate scope
  asyncValidate := validate scope

/-- Exactly one predicate holds of a fluent node: that of its kind. -/
theorem holds_iff {schema : Schema γ} {layer : Layer γ}
    (h : schema.payload = .fluent layer) (predicate : TypePredicate) :
    holds predicate schema = true ↔ predicate = layer.kind.predicate := by
  simp only [holds, kind?, h, Payload.fluent?, Option.map_some, Option.any_some,
    decide_eq_true_eq]
  exact eq_comm

end SchemaBridge.Fluent
