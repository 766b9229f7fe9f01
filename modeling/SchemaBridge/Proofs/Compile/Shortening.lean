import SchemaBridge.Proofs.Compile.Widening
import SchemaBridge.Proofs.Fluent.Unfolding
import SchemaBridge.Proofs.Plain.Documents

/-!
# Documents that are cut off

The document of an acyclic schema that is cut off at a depth limit accepts whatever the whole
document accepts, if no cut leaves out what is used of an answer beside its schema. Without this
condition it does not: an entry that is cut off is listed as required, even if it is optional.

## Main results

* `Call.tells_of_plain` : the condition holds of schemas without optional layers and constraints.
* `Registry.documentAccepts_of_deeper` : a document that is cut off accepts what the whole one does.
* `Fluent.optionalEntry_narrows` : an optional entry that is cut off.
-/

namespace SchemaBridge

open Draft07 Chain Ledger Compile

variable {π : Type}

/-! ### Acyclic schemas under another limit -/

/-- The limit does not show in what stands below a node. -/
theorem Acyclic.deepened {context : CompileContext π} {root : Arrival π} (h : Acyclic context root)
    (limit : Nat) : Acyclic (context.deepened limit) root := by
  have below {a b : Arrival π} (below : Arrival.Below (context.deepened limit) a b) :
      Arrival.Below context a b := by
    cases below with
    | inside claims wrapped le gives => exact .inside claims wrapped le gives
    | part claims bare seen offers =>
      refine .part claims bare seen ?_
      dsimp only [CompileContext.deepened] at offers
      rwa [Structure.ofShape_deepened] at offers
  refine ⟨fun a reaches adapter claims => ?_, fun a b reaches further => ?_⟩
  · obtain ⟨inner, structures⟩ := h.grows a (reaches.lift id fun _ _ => below) adapter claims
    refine ⟨inner, fun shape seen => ?_⟩
    dsimp only [CompileContext.deepened]
    rw [Structure.ofShape_deepened]
    exact structures shape seen
  · exact h.loopless a b (reaches.lift id fun _ _ => below) (further.lift id fun _ _ => below)

/-! ### Schemas without side results -/

namespace Call

variable {context : CompileContext π}

/-- Nothing is left out in a run on a schema without optional layers and constraints. -/
theorem tells_of_plain {root : Call π} (idle : root.books.active = [])
    (trusted : Trusted context root root.books)
    (plain : ∀ node, Relation.ReflTransGen (Leads context.registry) root.node node → ∀ adapter,
      (context.registry.resolve node).value = some adapter →
        adapter.modifier? node ≠ some .optional ∧ adapter.constraints node = none) :
    Tells context root := by
  have reached {call : Call π} (within : Within context root call) :
      Relation.ReflTransGen (Leads context.registry) root.node call.node := by
    obtain ⟨path, follows⟩ := within.follows idle trusted
    exact (Enters.self call).reached follows
  constructor
  · intro call entries within compiles entry mem hasOptional
    have spawns := compiles.spawns ((Table.lastEntries_sublist entries).subset mem)
    have start := reached (within.tail spawns)
    clear mem spawns
    generalize entry.2.node = node, entry.2.books.supply = supply at hasOptional start
    induction hasOptional with
    | here claims wrapped => exact absurd wrapped (plain _ start _ claims).1
    | inside claims wrapped gives _ ih =>
      exact ih (start.tail (.inside claims wrapped ⟨_, congrArg Prod.fst gives⟩))
  · intro call within _ set
    exfalso
    have start := reached within
    generalize call.node = node at set start
    induction set with
    | here claims set => cases (plain _ start _ claims).2.symm.trans set
    | inside claims wrapped gives _ ih => exact ih (start.tail (.inside claims wrapped gives))

end Call

/-! ### Documents -/

namespace Registry

variable {registry : Registry π} {options : DocumentOptions} {node : Node π} {supply : Nat}

/-- The document of a node accepts what the root's answer accepts under the definitions that the
books have at the end. -/
theorem documentAccepts_compile_iff {data : Json} :
    DocumentAccepts (registry.compile options node supply).1.value data ↔
      Accepts (named (registry.books options node supply).definitions)
        ((rootCall options node supply).answer ⟨registry, options⟩).schema data := by
  rw [value_compile]
  exact documentAccepts_iff options
    (registry.schema_root options node supply (tidy_invariant _ _)) _

/-- A document that is cut off at a limit accepts whatever the document accepts that a limit does
not cut off, if no cut leaves out what is used of an answer beside its schema. -/
theorem documentAccepts_of_deeper (acyclic : Acyclic ⟨registry, options⟩ ⟨supply, node⟩)
    (settled : SameUnfolding registry node node) {limit : Nat}
    (whole : ∀ event ∈ (registry.compile { options with maxDepth := limit } node supply).1.events,
      event.reachesLimit = false)
    (tells : Call.Tells ⟨registry, options⟩ (rootCall options node supply)) {data : Json}
    (accepted : DocumentAccepts
      (registry.compile { options with maxDepth := limit } node supply).1.value data) :
    DocumentAccepts (registry.compile options node supply).1.value data := by
  obtain ⟨nodes, respects, related⟩ := settled
  obtain ⟨unnamed, undefined⟩ := registry.bare_books options node supply acyclic
  obtain ⟨unnamed', undefined'⟩ := registry.bare_books { options with maxDepth := limit } node
    supply (acyclic.deepened limit)
  have beside : Call.Beside ⟨registry, options⟩ limit nodes (rootCall options node supply)
      (rootCall { options with maxDepth := limit } node supply) :=
    { respects, unnamed, unnamed', tells
      trusted := trusted_start _ _ supply
      trusted' := trusted_start _ _ supply
      unlimited' := registry.not_limited _ node supply whole }
  rw [documentAccepts_compile_iff, undefined'] at accepted
  rw [documentAccepts_compile_iff, undefined]
  exact (beside.wider .refl .refl related).schema.accepts_of_accepts accepted

end Registry

/-! ### An entry that is cut off -/

namespace Fluent

open Call Registry

/-- No slot is defined. -/
def slotless : Scope Empty := ⟨fun _ => none, nofun⟩

/-- An object whose only entry is a layer around a text. -/
def oneEntry (around : Schema Empty → Kind Empty (Schema Empty)) : Schema Empty :=
  plainNode 0 (.object [("a", plainNode 1 (around (plainNode 2 .string)))])

section

variable {around : Schema Empty → Kind Empty (Schema Empty)}
  (held : (around (plainNode 2 .string)).nodes = [plainNode 2 .string])
include held

private theorem oneEntry_below {node inner : Schema Empty} (below : Below slotless node inner) :
    (node = oneEntry around → inner = plainNode 1 (around (plainNode 2 .string))) ∧
      (node = plainNode 1 (around (plainNode 2 .string)) → inner = plainNode 2 .string) ∧
      node ≠ plainNode 2 .string := by
  cases below with
  | held seen mem =>
    refine ⟨?_, ?_, ?_⟩
    all_goals
      rintro rfl
      obtain rfl := Option.some.inj seen
    · exact List.mem_singleton.1 mem
    · exact List.mem_singleton.1 (held ▸ mem)
    · cases mem
  | deferred seen isDeferred =>
    refine ⟨?_, ?_, ?_⟩
    all_goals
      rintro rfl
      obtain rfl := Option.some.inj seen
    · cases isDeferred
    · have isDeferred : around (plainNode 2 .string) = _ := isDeferred
      rw [isDeferred] at held
      cases held
    · cases isDeferred

private theorem oneEntry_nodes {node : Schema Empty}
    (reaches : Reaches slotless (oneEntry around) node) :
    node = oneEntry around ∨ node = plainNode 1 (around (plainNode 2 .string)) ∨
      node = plainNode 2 .string := by
  induction reaches with
  | refl => exact .inl rfl
  | tail _ below ih =>
    obtain ⟨ofRoot, ofEntry, ofText⟩ := oneEntry_below held below
    rcases ih with same | same | same
    · exact .inr (.inl (ofRoot same))
    · exact .inr (.inr (ofEntry same))
    · exact absurd same ofText

private theorem oneEntry_plain (node : Schema Empty)
    (reaches : Reaches slotless (oneEntry around) node) : node.payload.description? = none := by
  rcases oneEntry_nodes held reaches with rfl | rfl | rfl <;> rfl

private theorem oneEntry_acyclic (options : DocumentOptions) (supply : Nat) :
    Acyclic ⟨standard slotless .firstMatch, options⟩ ⟨supply, oneEntry around⟩ := by
  refine acyclic_of_loopless (oneEntry_plain held) options supply (fun target => ?_)
    fun a b reaches further => ?_
  · cases target with
    | slot name => exact fun _ => Nat.le_refl _
    | getter build => cases build
  · have increases : a.id.index < b.id.index ∧ Reaches slotless (oneEntry around) b := by
      have step {a b : Schema Empty} (reaches : Reaches slotless (oneEntry around) a)
          (below : Below slotless a b) : a.id.index < b.id.index := by
        obtain ⟨ofRoot, ofEntry, ofText⟩ := oneEntry_below held below
        rcases oneEntry_nodes held reaches with same | same | same
        · rw [same, ofRoot same]
          exact Nat.zero_lt_one
        · rw [same, ofEntry same]
          exact Nat.lt_succ_self 1
        · exact absurd same ofText
      induction further with
      | single below => exact ⟨step reaches below, reaches.tail below⟩
      | tail _ below ih => exact ⟨Nat.lt_trans ih.1 (step ih.2 below), ih.2.tail below⟩
    intro same
    rw [same] at increases
    exact Nat.lt_irrefl _ increases.1

private theorem oneEntry_sameUnfolding :
    SameUnfolding (standard slotless .firstMatch) (oneEntry around) (oneEntry around) := by
  refine sameUnfolding_self (oneEntry_plain held) ?_
  rintro node reaches layer target seen isDeferred
  exfalso
  rcases oneEntry_nodes held reaches with rfl | rfl | rfl
  all_goals obtain rfl := Payload.fluent.inj seen
  · cases isDeferred
  · have isDeferred : around (plainNode 2 .string) = _ := isDeferred
    rw [isDeferred] at held
    cases held
  · cases isDeferred

end

/-- An object with a list of texts, whose elements are cut off, accepts what it accepts without the
cut. -/
theorem listEntry_accepts :
    DocumentAccepts ((standard slotless .firstMatch).compile { maxDepth := 2 } (oneEntry .array)
        3).1.value (.object [("a", .array [.string "x"])]) ∧
      DocumentAccepts ((standard slotless .firstMatch).compile { maxDepth := 1 } (oneEntry .array)
        3).1.value (.object [("a", .array [.string "x"])]) := by
  have accepted : DocumentAccepts ((standard slotless .firstMatch).compile { maxDepth := 2 }
      (oneEntry .array) 3).1.value (.object [("a", .array [.string "x"])]) := by
    rw [documentAccepts_compile_iff]
    have root : ((rootCall { maxDepth := 2 } (oneEntry .array) 3).answer
        ⟨standard slotless .firstMatch, { maxDepth := 2 }⟩).schema = Structure.object [("a",
          ⟨Structure.typed "array" ++ [("items", .object (Structure.typed "string"))], false,
            .items⟩)] := rfl
    rw [root, accepts_object]
    refine ⟨_, rfl, fun entry isLast => ?_⟩
    obtain rfl := List.mem_singleton.1 isLast
    refine ⟨fun value found => ?_, fun _ => rfl⟩
    obtain rfl := Option.some.inj found
    refine (accepts_array (some ⟨Structure.typed "string", false, .length⟩)).2 ⟨_, rfl, ?_⟩
    rintro _ ⟨⟩ item mem
    obtain rfl := List.mem_singleton.1 mem
    exact (accepts_typed "string").2 rfl
  refine ⟨accepted, documentAccepts_of_deeper (oneEntry_acyclic rfl _ 3)
    (oneEntry_sameUnfolding rfl) ?_
    (tells_of_plain rfl (trusted_start _ _ 3) fun node leads adapter claims => ?_) accepted⟩
  · have reports : ((standard slotless .firstMatch).compile { maxDepth := 2 } (oneEntry .array)
        3).1.events = [] := by decide +kernel
    intro event mem
    rw [reports] at mem
    cases mem
  · have reaches := reaches_of_leads (oneEntry_plain rfl) leads
    rcases oneEntry_nodes rfl reaches with rfl | rfl | rfl
    all_goals
      obtain rfl := Option.some.inj claims
      exact ⟨by decide, rfl⟩

/-- An object whose optional entry is cut off does not accept an object without the entry, although
it accepts that without the cut. -/
theorem optionalEntry_narrows :
    Acyclic ⟨standard slotless .firstMatch, { maxDepth := 2 }⟩ ⟨3, oneEntry .optional⟩ ∧
      (∀ event ∈ ((standard slotless .firstMatch).compile { maxDepth := 2 } (oneEntry .optional)
        3).1.events, event.reachesLimit = false) ∧
      DocumentAccepts ((standard slotless .firstMatch).compile { maxDepth := 2 }
        (oneEntry .optional) 3).1.value (.object []) ∧
      ¬ DocumentAccepts ((standard slotless .firstMatch).compile { maxDepth := 0 }
        (oneEntry .optional) 3).1.value (.object []) := by
  refine ⟨oneEntry_acyclic rfl _ 3, ?_, ?_, ?_⟩
  · have reports : ((standard slotless .firstMatch).compile { maxDepth := 2 } (oneEntry .optional)
        3).1.events = [] := by decide +kernel
    intro event mem
    rw [reports] at mem
    cases mem
  · rw [documentAccepts_compile_iff]
    have root : ((rootCall { maxDepth := 2 } (oneEntry .optional) 3).answer
        ⟨standard slotless .firstMatch, { maxDepth := 2 }⟩).schema = Structure.object [("a",
          ⟨Structure.typed "string", true, .length⟩)] := rfl
    rw [root, accepts_object]
    refine ⟨_, rfl, fun entry isLast => ?_⟩
    obtain rfl := List.mem_singleton.1 isLast
    exact ⟨nofun, nofun⟩
  · rw [documentAccepts_compile_iff]
    have root : ((rootCall { maxDepth := 0 } (oneEntry .optional) 3).answer
        ⟨standard slotless .firstMatch, { maxDepth := 0 }⟩).schema =
          Structure.object [("a", .empty)] := rfl
    rw [root, accepts_object]
    rintro ⟨_, ⟨⟩, accepted⟩
    cases (accepted ("a", .empty) (List.mem_singleton_self _)).2 rfl

end Fluent

end SchemaBridge
