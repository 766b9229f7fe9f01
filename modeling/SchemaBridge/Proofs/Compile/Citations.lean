import SchemaBridge.Proofs.Compile.Naming
import SchemaBridge.Proofs.Compile.References
import SchemaBridge.Proofs.Compile.Required
import SchemaBridge.Proofs.Plan.Answers

/-!
# Definitions are referred to

A node only gets a definition because it was referred to: some call answered with a reference to it.
What a call answers goes into the answer of the call that makes it, with its references, unless that
call has no use for it. So each definition is referred to from the root of the document, or else a
schema that refers to it was thrown away on the way up.

## Main definitions

* `Call.Discards` : a call has no use for the answer of a call that it makes.

## Main results

* `Call.Spawns.cites_or_discards` : one call passes on the references that it gets, or discards
  them.
* `Call.Within.cites_or_discards` : so does a whole run.
* `Registry.definition_cited_or_discarded` : every definition is referred to, or a reference to it
  was thrown away.
-/

namespace SchemaBridge

open Chain Ledger Compile Plan Draft07

variable {π : Type}

namespace Call

/-- A call has no use for the answer of a call that it makes for a part: its own node is given up,
since another question about its structure is answered with an error, or the structure drops it. -/
inductive Discards (context : CompileContext π) : Call π → Call π → Prop where
  | givenUp {levels : Nat} {node base part : Node π} {adapter baseAdapter : Adapter π}
      {layers : List (PeeledLayer π)} {isOptional : Bool} {modifier : Option Modifier}
      {ids : List Identity} {shape : Shape} {s t u : Ledger} {failure : CompileFailure}
      (new : node.id ∉ s.active) (claims : (context.registry.resolve node).value = some adapter)
      (peels : Peels context node adapter (resolved context ⟨levels + 1, node, s⟩) layers isOptional
        (.ok (.base base baseAdapter modifier)) ids t)
      (seen : baseAdapter.shape? base = some shape)
      (visits : Visits (Compile.node context levels)
        (Structure.ofShape context.options base baseAdapter shape) (noted base baseAdapter ids t)
        part u)
      (fails : (Structure.carryOut (Compile.node context levels)
        (Structure.ofShape context.options base baseAdapter shape)
        (noted base baseAdapter ids t)).1 = .error failure) :
      Discards context ⟨levels + 1, node, s⟩ ⟨levels, part, u⟩
  | dropped {levels : Nat} {node base part : Node π} {adapter baseAdapter : Adapter π}
      {layers : List (PeeledLayer π)} {isOptional : Bool} {modifier : Option Modifier}
      {ids : List Identity} {shape : Shape} {s t u : Ledger}
      (new : node.id ∉ s.active) (claims : (context.registry.resolve node).value = some adapter)
      (peels : Peels context node adapter (resolved context ⟨levels + 1, node, s⟩) layers isOptional
        (.ok (.base base baseAdapter modifier)) ids t)
      (seen : baseAdapter.shape? base = some shape)
      (drops : Structure.Drops (Compile.node context levels) base baseAdapter shape
        (noted base baseAdapter ids t) part u) :
      Discards context ⟨levels + 1, node, s⟩ ⟨levels, part, u⟩

variable {context : CompileContext π} {root call inner : Call π} {name : String}

/-- A call cites what the calls that it makes cite, unless it discards their answers. -/
theorem Spawns.cites_or_discards (h : Spawns context call inner)
    (cites : Cites (inner.answer context).toJson name) :
    Cites (call.answer context).toJson name ∨ Discards context call inner := by
  obtain @⟨levels, node, base, part, adapter, baseAdapter, layers, isOptional, modifier, ids, shape,
    s, t, u, new, claims, peels, seen, visits⟩ := h
  have compiled : Structure.compile context (Compile.node context levels) base baseAdapter
      (noted base baseAdapter ids t) = Structure.carryOut (Compile.node context levels)
        (Structure.ofShape context.options base baseAdapter shape)
        (noted base baseAdapter ids t) := by
    rw [Structure.compile, seen]
  have result := concludes new claims peels
  generalize answer context ⟨levels + 1, node, s⟩ = c, after context ⟨levels + 1, node, s⟩ = v
    at result ⊢
  cases result with
  | broken runs =>
    exact .inr (.givenUp new claims peels seen visits
      (congrArg Prod.fst (compiled.symm.trans runs)))
  | success atEnd =>
    cases atEnd with
    | built runs =>
      rcases Structure.cites_of_ran ⟨visits, compiled.symm.trans runs⟩ cites with cites | drops
      · refine .inl (Assembly.cites_schema ?_)
        rwa [wrap_body, Assembly.addLayer_body]
      · exact .inr (.dropped new claims peels seen drops)

/-- What a call of a run cites is cited by the run, unless an answer that cites it is discarded. -/
theorem Within.cites_or_discards (h : Within context root call)
    (cites : Cites (call.answer context).toJson name) :
    Cites (root.answer context).toJson name ∨ ∃ outer inner, Within context root outer ∧
      Discards context outer inner ∧ Cites (inner.answer context).toJson name := by
  induction h with
  | refl => exact .inl cites
  | tail within last ih =>
    rcases last.cites_or_discards cites with cites' | discards
    · exact ih cites'
    · exact .inr ⟨_, _, within, discards, cites⟩

theorem cites_refSchema (name : String) : Cites (.object (refSchema name)) name :=
  ⟨_, .refl _, rfl⟩

/-- A call that comes upon a node in progress refers to it. -/
theorem Meets.cites {id : Identity} (h : Meets context id call)
    (trusted : Trusted context root call.books) :
    ∃ name, Table.get? (after context call).names id = some name ∧
      Cites (call.answer context).toJson name := by
  cases h with
  | here same active =>
    subst same
    obtain ⟨name, named, reference⟩ := answer_of_active trusted active
    refine ⟨name, named, ?_⟩
    rw [NodeSchema.toJson, reference]
    exact cites_refSchema name
  | @inside levels node again adapter s t layers isOptional ids new claims peels same =>
    subst same
    have atStart := trusted_resolved trusted
    have opened := peels.opened atStart.toSound
    obtain ⟨last, -, -, active⟩ := peels.lastEntered
    obtain ⟨-, -, name, _, named, reference⟩ := refer_keeps (atStart.opened opened) active
    refine ⟨name, ?_⟩
    have result := concludes new claims peels
    generalize Call.answer context ⟨levels + 1, node, s⟩ = c,
      after context ⟨levels + 1, node, s⟩ = u at result ⊢
    obtain ⟨atEnd⟩ := result
    cases atEnd
    refine ⟨named, Assembly.cites_schema ?_⟩
    rw [wrap_body, reference]
    exact cites_refSchema name

end Call

namespace Registry

variable (registry : Registry π) (options : DocumentOptions) (node : Node π) (supply : Nat)

/-- A document cites what its root cites. -/
theorem cites_document {root : Json.Fields} (defs : Table String Json.Fields) (tidy : Tidy root)
    {name : String} (h : Cites (.object root) name) :
    Cites (Compile.document options root defs) name := by
  obtain ⟨fields, whole, same⟩ := root_document options defs tidy
  rcases cites_cases h with refers | ⟨keyword, value, part, mem, isPart, cites⟩
  · refine ⟨_, .refl _, ?_⟩
    rw [RefersTo, get?_document options defs tidy (by decide)]
    exact refers
  · rw [whole]
    exact cites_of_part (List.mem_of_mem_filter (same ▸ mem)) isPart cites

/-- Every definition of a document is referred to from its root, or a schema that refers to it was
thrown away during the compilation. -/
theorem definition_cited_or_discarded {name : String}
    (defined : Table.has (definitions (registry.compile options node supply).1.value) name = true) :
    Cites (registry.compile options node supply).1.value name ∨
      ∃ call inner, Call.Within ⟨registry, options⟩ (rootCall options node supply) call ∧
        Call.Discards ⟨registry, options⟩ call inner ∧
        Cites (inner.answer ⟨registry, options⟩).toJson name := by
  have start : Trusted ⟨registry, options⟩ (rootCall options node supply)
      (rootCall options node supply).books := trusted_start _ _ supply
  have books := registry.trusted_books options node supply
  rw [registry.definitions_compile] at defined
  obtain ⟨id, named⟩ := (books.used name).1 (books.defined name defined)
  obtain ⟨call, within, meets⟩ : ∃ call, Call.Within ⟨registry, options⟩
      (rootCall options node supply) call ∧ Call.Meets ⟨registry, options⟩ id call :=
    (Call.accounts .refl start id name named).resolve_left nofun
  obtain ⟨atCall, -, after⟩ := within.keeps start
  obtain ⟨name', named', cites⟩ := meets.cites atCall
  obtain rfl : name' = name :=
    Option.some.inj ((after.names id name' named').symm.trans named)
  refine (within.cites_or_discards cites).imp_left fun cites => ?_
  rw [registry.value_compile]
  exact cites_document options _ (registry.schema_root options node supply (tidy_invariant _ _))
    cites

/-! ### A record whose keys are the record -/

/-- A record whose keys are the record itself, by a slot, and whose values are texts. -/
def ownKeys : Schema Empty :=
  Call.plainNode 0
    (.record (Call.plainNode 1 (.deferred (.slot "tree"))) (Call.plainNode 2 .string))

/-- The document of a record whose keys are the record itself. -/
def ownKeysDocument : Json :=
  ((Call.slotContext ownKeys).registry.compile {} ownKeys 10).1.value

/-- What the document says at its root and in its definition: the schema of keys is left out, since
a reference restricts no keys. -/
private def ownKeysBody : Json.Fields :=
  [("type", .string "object"), ("additionalProperties", .object [("type", .string "string")])]

private theorem ownKeysDocument_eq :
    ownKeysDocument = Compile.document {} ownKeysBody [("schema0", ownKeysBody)] := rfl

private theorem definitions_ownKeys : definitions ownKeysDocument = [("schema0", ownKeysBody)] := by
  rw [ownKeysDocument_eq]
  exact definitions_document {} _ (tidy_of_keys _ rfl (by decide))

/-- No reference stands in the document. -/
private theorem not_refers_ownKeys {schema : Json} (inside : InDocument ownKeysDocument schema)
    (name : String) : ¬ RefersTo schema name := by
  have body : ClosedEntries (fun _ => False) ownKeysBody := by
    refine closedEntries_cons (.of_inert (by decide) (by decide)) (closedEntries_singleton
      (Structure.closedEntry_one (by decide) (closedEntries_singleton ?_)))
    exact .of_inert (by decide) (by decide)
  intro refers
  rcases inside with inRoot | ⟨_, definition, mem, inDefinition⟩
  · rw [ownKeysDocument_eq] at inRoot
    obtain ⟨-, -, none⟩ := closed_document {} _ body _ _ inRoot refers
    exact none
  · rw [definitions_ownKeys] at mem
    obtain ⟨rfl, rfl⟩ := Prod.mk.inj (List.mem_singleton.1 mem)
    obtain ⟨-, -, none⟩ := closed_of_entries body _ _ inDefinition refers
    exact none

/-- The record has a definition, but nothing in its document refers to it. -/
theorem ownKeys_orphan : Table.has (definitions ownKeysDocument) "schema0" = true ∧
    ∀ schema, InDocument ownKeysDocument schema → ¬ RefersTo schema "schema0" := by
  refine ⟨?_, fun schema inside => not_refers_ownKeys inside _⟩
  rw [definitions_ownKeys]
  rfl

/-- The schema that refers to the record was thrown away. -/
theorem ownKeys_discards : Table.has (definitions ownKeysDocument) "schema0" = true ∧
    ∃ call inner, Call.Within (Call.slotContext ownKeys) (Call.slotCall ownKeys) call ∧
      Call.Discards (Call.slotContext ownKeys) call inner ∧
      Cites (inner.answer (Call.slotContext ownKeys)).toJson "schema0" := by
  have defined : Table.has (definitions ownKeysDocument) "schema0" = true := by
    rw [definitions_ownKeys]
    rfl
  refine ⟨defined, (definition_cited_or_discarded (Call.slotContext ownKeys).registry {} ownKeys 10
    defined).resolve_left ?_⟩
  rintro ⟨schema, inside, refers⟩
  exact not_refers_ownKeys (.inl inside) _ refers

end Registry

end SchemaBridge
