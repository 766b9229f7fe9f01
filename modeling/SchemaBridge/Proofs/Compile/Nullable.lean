import SchemaBridge.Proofs.Compile.Shadowing
import SchemaBridge.Proofs.Draft07.Reading

/-!
# A null branch adds `null` and nothing else

The null branch of a nullable node goes around its structure and its constraints. What the node
accepts without it is still accepted, with the same constraints, and of all other values only `null`
is. The two schemas differ in more than the branch: a reference that has annotations moves under a
keyword of its own only if there is no null branch around it. This changes nothing, since a schema
whose only keyword is `allOf` with one branch accepts what the branch does.

## Main definitions

* `Call.Starts` : the structures that the assemblies of a run are started from.

## Main results

* `Assembly.accepts_schema_nullable_iff` : what a null branch adds to an assembly.
* `Registry.accepts_nullable_iff` : what it adds to the assemblies of a run.
-/

namespace SchemaBridge

open Draft07

variable {π : Type}

namespace Assembly

variable {f : Assembly} (reading : Reading) {data : Json}

/-- A reference with its constraints accepts the same as the constraints beside the reference moved
under a keyword of its own, also where it stays in place. -/
theorem accepts_constrained_of_reference (h : Unshadowed f.body) {value : Json}
    (found : Table.get? f.body "$ref" = some value) :
    reading.Accepts (.object f.constrained) data ↔ reading.Accepts (.object
      (writeConstraints f.constraints f.bounds [("allOf", .array [.object f.body])])) data := by
  rcases constrained_cases h with ⟨plain, -⟩ | ⟨_, -, ⟨nothing, same, -⟩ | same⟩
  · cases plain.symm.trans found
  · rw [same, nothing]
    exact reading.accepts_moved_iff.symm
  · rw [same]

/-- The constraints of an assembly accept the same whether or not there is a null branch around
them. -/
theorem accepts_constrained_iff (h : Unshadowed f.body) :
    reading.Accepts (.object { f with nullable := true }.constrained) data ↔
      reading.Accepts (.object { f with nullable := false }.constrained) data := by
  cases found : Table.get? f.body "$ref" with
  | none =>
    rw [constrained_of_plain (f := { f with nullable := true }) found,
      constrained_of_plain (f := { f with nullable := false }) found]
  | some value =>
    exact
      (accepts_constrained_of_reference reading (f := { f with nullable := true }) h found).trans
        (accepts_constrained_of_reference reading (f := { f with nullable := false }) h found).symm

/-- Without a null branch a schema accepts what the structure with its constraints accepts. -/
theorem accepts_schema_of_solid (h : Unshadowed f.body) (solid : f.nullable = false) :
    reading.Accepts (.object f.schema) data ↔ reading.Accepts (.object f.constrained) data := by
  rw [schema, solid, if_neg Bool.false_ne_true]
  rcases plain_constrained_or h with plain | ⟨-, bare⟩
  · exact reading.accepts_write_iff f.annotations plain
  · rw [Annotations.write_of_isEmpty (bare.resolve_left (by simp [solid]))]

/-- A null branch adds `null`, and nothing else, to what a schema accepts. -/
theorem accepts_schema_nullable_iff (h : Unshadowed f.body) :
    reading.Accepts (.object { f with nullable := true }.schema) data ↔
      data = .null ∨ reading.Accepts (.object { f with nullable := false }.schema) data := by
  rw [accepts_schema_of_solid reading (f := { f with nullable := false }) h rfl,
    ← accepts_constrained_iff reading h, schema, if_pos rfl,
    reading.accepts_write_iff _ (get?_orNull_of_ne _ (by decide)), reading.accepts_orNull_iff]

end Assembly

open Chain Ledger Compile

namespace Call

variable {context : CompileContext π} {root call part : Call π}

/-- The call for a part that a base stands for is one of the calls for parts. -/
theorem StandsFor.spawns (h : StandsFor context call part) : Spawns context call part := by
  obtain ⟨new, claims, peels, ⟨seen, gives⟩ | ⟨seen, gives⟩⟩ := h
  all_goals exact .intro new claims peels seen (.ask gives .here)

/-- The structures that the assemblies of a run are started from: that of the base of a chain, what
a call has answered for a part, a reference to a name, or nothing. -/
inductive Starts (context : CompileContext π) (root : Call π) : Json.Fields → Prop where
  | shaped {call : Call π} {layers : List (PeeledLayer π)} {base : Node π} {baseAdapter : Adapter π}
      {core : Assembly} (within : Within context root call)
      (compiles : CompilesBase context call layers base baseAdapter core) :
      Starts context root core.body
  | embedded {call : Call π} (within : Within context root call) :
      Starts context root (call.answer context).schema
  | reference (name : String) : Starts context root (refSchema name)
  | anything : Starts context root []

/-- The structure of a base has no reference, or is what the call for a part has answered. -/
theorem CompilesBase.body_cases {layers : List (PeeledLayer π)} {base : Node π}
    {baseAdapter : Adapter π} {core : Assembly}
    (h : CompilesBase context call layers base baseAdapter core) :
    Table.get? core.body "$ref" = none ∨
      ∃ part, Spawns context call part ∧ core.body = (part.answer context).schema := by
  obtain ⟨new, claims, peels, runs⟩ := h
  rw [Assembly.addLayer_body]
  rcases Structure.own_or_embeds runs with ⟨plain, -⟩ | ⟨part, next, embeds⟩
  · exact .inl plain
  · have stands : StandsFor context _ _ := .intro new claims peels embeds
    refine .inr ⟨_, stands.spawns, ?_⟩
    rw [Structure.compile_of_embeds embeds] at runs
    obtain rfl := Except.ok.inj (Prod.mk.inj runs).1
    rfl

end Call

namespace Registry

open Call

/-- Nothing stands beside a reference in a structure that an assembly is started from. -/
theorem unshadowed_of_starts (registry : Registry π) (options : DocumentOptions) (node : Node π)
    (supply : Nat) {body : Json.Fields}
    (starts : Starts ⟨registry, options⟩ (rootCall options node supply) body) :
    Unshadowed body := by
  have answered {call : Call π}
      (within : Within ⟨registry, options⟩ (rootCall options node supply) call) :
      Unshadowed (call.answer ⟨registry, options⟩).schema :=
    (schema_answer (unshadowed_invariant ⟨registry, options⟩ _) fun _ inside =>
      registry.answers_books options node supply (within.trans inside)).here
  cases starts with
  | shaped within compiles =>
    rcases compiles.body_cases with plain | ⟨part, spawns, same⟩
    · exact unshadowed_of_plain plain
    · rw [same]
      exact answered (within.tail spawns)
  | embedded within => exact answered within
  | reference name => exact unshadowed_reference _
  | anything => exact unshadowed_of_plain rfl

/-- Whatever layers have added to a structure of a run: with a null branch the schema accepts
`null`, and else what it accepts without. This holds under every reading of schemas, so in
particular for acceptance, whatever references stand for. -/
theorem accepts_nullable_iff (registry : Registry π) (options : DocumentOptions) (node : Node π)
    (supply : Nat) {f : Assembly}
    (starts : Starts ⟨registry, options⟩ (rootCall options node supply) f.body) (reading : Reading)
    (data : Json) : reading.Accepts (.object { f with nullable := true }.schema) data ↔
      data = .null ∨ reading.Accepts (.object { f with nullable := false }.schema) data :=
  Assembly.accepts_schema_nullable_iff reading
    (registry.unshadowed_of_starts options node supply starts)

/-- A reference with a lower bound and a title. -/
def boundedReference : Assembly where
  body := refSchema "Name"
  bounds := .length
  constraints := lowerBound 1
  annotations := { title := some "Short" }

/-- The reference accepts `null` if there is a null branch around it, whatever it refers to. -/
theorem boundedReference_accepts_null :
    Starts slotlessContext (slotCall (boundedText (lowerBound 1))) boundedReference.body ∧
      Accepts (named []) { boundedReference with nullable := true }.schema .null := by
  have starts : Starts slotlessContext (slotCall (boundedText (lowerBound 1)))
      boundedReference.body := .reference "Name"
  have accepts := accepts_nullable_iff slotlessContext.registry {} (boundedText (lowerBound 1)) 10
    starts (acceptance (named [])) .null
  exact ⟨starts, acceptance_accepts_iff.1 (accepts.2 (.inl rfl))⟩

end Registry

end SchemaBridge
