import Mathlib.Data.List.Nodup
import SchemaBridge.Fluent.Adapter
import SchemaBridge.Proofs.Compile.References
import SchemaBridge.Proofs.Table.LastEntries

/-!
# Keys that must be present

An object lists those keys as required whose last entry is not optional. Whether an entry is
optional is found out by the call that compiles it, on the way along its modifiers. A call that is
cut short does not come to the end of that way: because its node is in progress, because a node in
progress stands inside its chain, or because of a limit. The list is the right one exactly if no
such call leaves out an optional layer.

## Main definitions

* `Chain.HasOptional` : some layer of a node is optional.
* `Call.CutShort` : a call does not come to the end of the chain of its node.
* `Call.CompilesObject` : a call compiles an object, with one call for each of its entries.
* `Call.mandatory` : the keys whose last entry has no optional layer.

## Main results

* `Call.isOptional_iff` : what a call that is not cut short says about optional layers.
* `Call.required_iff` : when an object lists exactly its mandatory keys.
-/

namespace SchemaBridge

variable {π : Type}

open Chain Ledger Compile CompileM Stateful

/-! ### Optional layers -/

/-- Some layer of a node is optional, when its layers are unwrapped one after the other from this
moment on. -/
inductive Chain.HasOptional (registry : Registry π) : Nat → Node π → Prop where
  | here {supply : Nat} {node : Node π} {adapter : Adapter π}
      (claims : (registry.resolve node).value = some adapter)
      (wrapped : adapter.modifier? node = some .optional) : HasOptional registry supply node
  | inside {supply next : Nat} {node inner : Node π} {adapter : Adapter π} {modifier : Modifier}
      (claims : (registry.resolve node).value = some adapter)
      (wrapped : adapter.modifier? node = some modifier)
      (gives : adapter.inner node supply = (.ok (some inner), next))
      (rest : HasOptional registry next inner) : HasOptional registry supply node

namespace Chain

variable {registry : Registry π} {supply : Nat} {node : Node π} {adapter : Adapter π}

/-- The layer of a node, or one inside it, is optional. -/
theorem hasOptional_iff (claims : (registry.resolve node).value = some adapter) :
    HasOptional registry supply node ↔ ∃ modifier, adapter.modifier? node = some modifier ∧
      (modifier = .optional ∨ ∃ inner next, adapter.inner node supply = (.ok (some inner), next) ∧
        HasOptional registry next inner) := by
  constructor
  · rintro (⟨claims', wrapped⟩ | ⟨claims', wrapped, gives, rest⟩)
    all_goals
      obtain rfl := Option.some.inj (claims.symm.trans claims')
    · exact ⟨_, wrapped, .inl rfl⟩
    · exact ⟨_, wrapped, .inr ⟨_, _, gives, rest⟩⟩
  · rintro ⟨modifier, wrapped, rfl | ⟨inner, next, gives, rest⟩⟩
    · exact .here claims wrapped
    · exact .inside claims wrapped gives rest

/-- A node that nobody claims has no layers. -/
theorem not_hasOptional_of_unclaimed (nobody : (registry.resolve node).value = none) :
    ¬ HasOptional registry supply node := by
  rintro (⟨claims, _⟩ | ⟨claims, _, _, _⟩) <;> cases nobody.symm.trans claims

/-- A chain is cut off: at a node in progress, or because there is no room for the next layer. -/
def IsCut (stop : Except CompileFailure (ChainEnd π)) : Prop :=
  (∃ again, stop = .ok (.reentered again)) ∨ ∃ vendor, stop = .error (.endless vendor)

/-- Peeling only notes optional layers that there are, and it notes one if there is one, unless the
chain is cut off before it. -/
theorem peel_isOptional (context : CompileContext π) (room : Nat) (peeled : Peeled π)
    (claims : (context.registry.resolve node).value = some adapter) (s : Ledger) :
    ∃ noted : Bool,
      (peel context room peeled node adapter s).1.1.isOptional = (peeled.isOptional || noted) ∧
      (noted = true → HasOptional context.registry s.supply node) ∧
      (HasOptional context.registry s.supply node →
        noted = true ∨ IsCut (peel context room peeled node adapter s).1.2) := by
  rw [hasOptional_iff claims]
  induction room, peeled, node, adapter, s using peel_induct context with
  | base plain runs => exact ⟨false, by simp [runs, plain]⟩
  | endless wrapped runs => exact ⟨false, by simp [runs, IsCut]⟩
  | @failed room peeled node adapter s modifier supply error wrapped answer runs =>
    simp only [wrapped, answer, runs, Option.some.injEq, exists_eq_left']
    refine ⟨decide (modifier = .optional), rfl, fun h => .inl (of_decide_eq_true h), ?_⟩
    rintro (rfl | ⟨_, _, same, _⟩)
    · exact .inl rfl
    · cases same
  | @hollow room peeled node adapter s modifier supply wrapped answer runs =>
    simp only [wrapped, answer, runs, Option.some.injEq, exists_eq_left']
    refine ⟨decide (modifier = .optional), rfl, fun h => .inl (of_decide_eq_true h), ?_⟩
    rintro (rfl | ⟨_, _, same, _⟩)
    · exact .inl rfl
    · cases same
  | @reentered room peeled node inner adapter s modifier supply wrapped answer again runs =>
    simp only [wrapped, answer, runs, Option.some.injEq, exists_eq_left']
    exact ⟨decide (modifier = .optional), rfl, fun h => .inl (of_decide_eq_true h),
      fun _ => .inr (.inl ⟨inner, rfl⟩)⟩
  | @unclaimed room peeled node inner adapter s modifier supply wrapped answer new nobody runs =>
    simp only [wrapped, answer, runs, Option.some.injEq, exists_eq_left']
    refine ⟨decide (modifier = .optional), rfl, fun h => .inl (of_decide_eq_true h), ?_⟩
    rintro (rfl | ⟨_, _, same, rest⟩)
    · exact .inl rfl
    · cases same
      exact absurd rest (not_hasOptional_of_unclaimed nobody)
  | @layer room peeled node inner adapter next s modifier supply wrapped answer new claims'
      runs ih =>
    simp only [wrapped, answer, runs, Option.some.injEq, exists_eq_left']
    obtain ⟨noted, flag, sound, complete⟩ := ih claims'
    rw [← hasOptional_iff claims'] at sound complete
    refine ⟨decide (modifier = .optional) || noted, ?_, ?_, ?_⟩
    · rw [flag]
      simp [entering, noteModifier, push, Bool.or_assoc]
    · rw [Bool.or_eq_true, decide_eq_true_eq]
      exact Or.imp_right fun h => ⟨inner, supply, rfl, sound h⟩
    · rintro (rfl | ⟨inner', next', same, rest⟩)
      · exact .inl rfl
      · cases same
        exact (complete rest).imp_left fun h => by simp [h]

end Chain

/-! ### Calls that are cut short -/

namespace Call

variable {context : CompileContext π} {call : Call π}

/-- A call does not come to the end of the chain of its node. -/
inductive CutShort (context : CompileContext π) : Call π → Prop where
  /-- The node is in progress. -/
  | inProgress {call : Call π} (active : call.node.id ∈ call.books.active) : CutShort context call
  /-- The node lies too deep. -/
  | tooDeep {node : Node π} {s : Ledger} : CutShort context ⟨0, node, s⟩
  /-- The chain of the node is cut off. -/
  | chain {levels : Nat} {node : Node π} {adapter : Adapter π} {s t : Ledger}
      {layers : List (PeeledLayer π)} {isOptional : Bool}
      {stop : Except CompileFailure (ChainEnd π)} {ids : List Identity}
      (claims : (context.registry.resolve node).value = some adapter)
      (peels : Peels context node adapter (resolved context ⟨levels + 1, node, s⟩) layers isOptional
        stop ids t) (cut : IsCut stop) : CutShort context ⟨levels + 1, node, s⟩

/-- What a call says about optional layers is true, and complete unless the call is cut short. -/
private theorem isOptional_spec (call : Call π) :
    ((call.answer context).isOptional = true →
      HasOptional context.registry call.books.supply call.node) ∧
    (HasOptional context.registry call.books.supply call.node →
      (call.answer context).isOptional = true ∨ CutShort context call) := by
  cases call.begins context with
  | inProgress active =>
    rw [answer, node_of_active active]
    exact ⟨fun h => absurd h Bool.false_ne_true, fun _ => .inr (.inProgress active)⟩
  | tooDeep new =>
    rw [answer, Compile.node, step_none context new]
    exact ⟨fun h => absurd h Bool.false_ne_true, fun _ => .inr .tooDeep⟩
  | unclaimed new nobody =>
    rw [answer, Compile.node, step_of_unclaimed context new nobody]
    exact ⟨fun h => absurd h Bool.false_ne_true,
      fun h => absurd h (not_hasOptional_of_unclaimed nobody)⟩
  | @claimed levels node adapter s new claims =>
    have told : ∀ {layers isOptional stop ids t}, Peels context node adapter
        (resolved context ⟨levels + 1, node, s⟩) layers isOptional stop ids t →
        (isOptional = true → HasOptional context.registry s.supply node) ∧
        (HasOptional context.registry s.supply node →
          isOptional = true ∨ CutShort context ⟨levels + 1, node, s⟩) := by
      intro layers isOptional stop ids t peels
      obtain ⟨noted, flag, sound, complete⟩ := peel_isOptional context context.options.maxDepth
        ⟨[], [node.id], false⟩ claims (beginWork node (resolved context ⟨levels + 1, node, s⟩)).2
      rw [peels.runs] at flag complete
      obtain rfl : isOptional = noted := flag
      exact ⟨sound, fun h => (complete h).imp_right fun cut => .chain claims peels cut⟩
    have result := @outcome π context levels node adapter s new claims
    generalize answer context ⟨levels + 1, node, s⟩ = c, after context ⟨levels + 1, node, s⟩ = u
      at result
    cases result with
    | success peels | givenUp peels | broken peels => exact told peels

/-- A call that says that some layer is optional is right. -/
theorem hasOptional_of_isOptional (h : (call.answer context).isOptional = true) :
    HasOptional context.registry call.books.supply call.node :=
  (isOptional_spec call).1 h

/-- A call that is not cut short says whether some layer is optional. -/
theorem isOptional_iff (whole : ¬ CutShort context call) :
    (call.answer context).isOptional = true ↔
      HasOptional context.registry call.books.supply call.node :=
  ⟨hasOptional_of_isOptional, fun h => ((isOptional_spec call).2 h).resolve_right whole⟩

/-! ### Objects -/

/-- The calls for the entries of an object, made one after the other. -/
def entryCalls (context : CompileContext π) (levels : Nat) :
    List (String × Node π) → Ledger → List (String × Call π)
  | [], _ => []
  | (key, node) :: rest, s =>
    (key, ⟨levels, node, s⟩) :: entryCalls context levels rest (after context ⟨levels, node, s⟩)

/-- A call compiles the object at the end of the chain of its node, with these calls for its
entries. -/
inductive CompilesObject (context : CompileContext π) : Call π → List (String × Call π) → Prop where
  | intro {levels supply : Nat} {node base : Node π} {adapter baseAdapter : Adapter π}
      {layers : List (PeeledLayer π)} {isOptional : Bool} {modifier : Option Modifier}
      {ids : List Identity} {s t : Ledger} {entries : List (String × Node π)}
      (new : node.id ∉ s.active) (claims : (context.registry.resolve node).value = some adapter)
      (peels : Peels context node adapter (resolved context ⟨levels + 1, node, s⟩) layers isOptional
        (.ok (.base base baseAdapter modifier)) ids t)
      (seen : baseAdapter.shape? base = some .object)
      (gives : baseAdapter.entries base t.supply = (.ok entries, supply)) :
      CompilesObject context ⟨levels + 1, node, s⟩
        (entryCalls context levels entries { noted base baseAdapter ids t with supply })

/-- The calls for entries compile them. -/
theorem carryOut_entries (context : CompileContext π) (levels : Nat)
    (entries : List (String × Node π)) (s : Ledger) :
    ∃ t, Structure.carryOut (Compile.node context levels) (Plan.entries entries) s =
      (.ok ((entryCalls context levels entries s).map fun entry =>
        (entry.1, entry.2.answer context)), t) := by
  induction entries generalizing s with
  | nil => exact ⟨s, rfl⟩
  | cons entry rest ih =>
    obtain ⟨key, node⟩ := entry
    obtain ⟨t, carried⟩ := ih (after context ⟨levels, node, s⟩)
    refine ⟨t, ?_⟩
    rw [Plan.entries, Structure.carryOut_bind_of_ok (t := after context ⟨levels, node, s⟩)
      (a := answer context ⟨levels, node, s⟩) _ rfl, Structure.carryOut_bind_of_ok _ carried]
    rfl

/-- The structure of an object is made of the answers of the calls for its entries. -/
theorem compile_object {levels supply : Nat} {base : Node π} {adapter : Adapter π} {s : Ledger}
    {entries : List (String × Node π)} (seen : adapter.shape? base = some .object)
    (gives : adapter.entries base s.supply = (.ok entries, supply)) :
    ∃ t, Structure.compile context (Compile.node context levels) base adapter s =
      (.ok
        { body := Structure.object ((entryCalls context levels entries { s with supply }).map
            fun entry => (entry.1, entry.2.answer context)),
          bounds := .properties }, t) := by
  obtain ⟨t, carried⟩ := carryOut_entries context levels entries { s with supply }
  refine ⟨t, ?_⟩
  rw [Structure.compile, seen]
  exact (Structure.carryOut_ask_of_ok _ _ gives).trans (Structure.carryOut_bind_of_ok _ carried)

end Call

namespace Compile

/-- The schema of a value beside the null branch of a nullable node. -/
def besideNull (schema : Json.Fields) : Json.Fields :=
  match Table.get? schema "anyOf" with
  | some (.array (.object inner :: _)) => inner
  | _ => schema

/-- The keyword that lists keys, if there are any. -/
def listing (keys : List String) : Option Json :=
  if keys.isEmpty then none else some (.ofStrings keys)

end Compile

namespace Structure

theorem get?_required_object (entries : List (String × NodeSchema)) :
    Table.get? (object entries) "required" = listing (required entries) := by
  unfold object listing
  dsimp only
  split <;> rfl

theorem get?_object_of_ne (entries : List (String × NodeSchema)) {keyword : String}
    (other : keyword ∉ ["type", "properties", "required"]) :
    Table.get? (object entries) keyword = none := by
  simp only [List.mem_cons, List.not_mem_nil, or_false, not_or] at other
  obtain ⟨h₁, h₂, h₃⟩ := other
  unfold object
  dsimp only
  split <;> simp [typed, Table.get?_cons, Ne.symm h₁, Ne.symm h₂, Ne.symm h₃]

end Structure

namespace Assembly

/-- A schema without alternatives becomes the first of two. -/
theorem orNull_of_plain {schema : Json.Fields} (plain : Table.get? schema "anyOf" = none) :
    orNull schema = [("anyOf", .array [.object schema, nullSchema])] := by
  unfold orNull
  split
  · cases plain
  · rfl

/-- An object says the same about its keys after constraints and annotations have been added. -/
theorem get?_required_schema {f : Assembly} {entries : List (String × NodeSchema)}
    (isObject : f.body = Structure.object entries) :
    Table.get? (besideNull f.schema) "required" = listing (Structure.required entries) := by
  have plain : Table.has f.body "$ref" = false := by
    rw [isObject, Table.has, Structure.get?_object_of_ne entries (by decide)]
    rfl
  have kept {keyword : String} (other : keyword ∉ Constraints.keywords) :
      Table.get? f.constrained keyword = Table.get? (Structure.object entries) keyword := by
    rw [constrained, plain, Bool.false_and, if_neg Bool.false_ne_true,
      get?_writeConstraints_of_notMem _ _ _ other, isObject]
  have noAnyOf : Table.get? f.constrained "anyOf" = none := by
    rw [kept (by decide), Structure.get?_object_of_ne entries (by decide)]
  rw [besideNull, schema, Annotations.get?_write _ _ (by decide)]
  cases f.nullable with
  | false =>
    rw [if_neg Bool.false_ne_true, noAnyOf, Annotations.get?_write _ _ (by decide),
      kept (by decide), Structure.get?_required_object]
  | true =>
    rw [if_pos rfl, orNull_of_plain noAnyOf, Table.get?_cons, if_pos rfl, kept (by decide),
      Structure.get?_required_object]

end Assembly

namespace Call

variable {context : CompileContext π} {call : Call π} {entries : List (String × Call π)}

/-- The structure of a compiled object is made of the answers that its call gets. -/
theorem CompilesObject.body (h : CompilesObject context call entries) :
    ∃ f : Assembly, (call.answer context).schema = f.schema ∧
      f.body = Structure.object (entries.map fun entry => (entry.1, entry.2.answer context)) := by
  obtain @⟨levels, supply, node, base, adapter, baseAdapter, layers, isOptional, modifier,
    ids, s, t, entries, new, claims, peels, seen, gives⟩ := h
  obtain ⟨u, compiled⟩ := @compile_object π context levels supply base baseAdapter
    (noted base baseAdapter ids t) entries seen gives
  rw [answer_of_core new claims peels (.built compiled)]
  exact ⟨_, rfl, (wrap_body _ _).trans (Assembly.addLayer_body _ _ _ _)⟩

open scoped Classical in
/-- The keys whose last entry has no optional layer, in the order of the last entries. -/
noncomputable def mandatory (registry : Registry π) (entries : List (String × Call π)) :
    List String :=
  Table.keys ((Table.lastEntries entries).filter fun entry =>
    ¬ HasOptional registry entry.2.books.supply entry.2.node)

/-- An object lists every mandatory key as required, each once and in order. It lists no other key,
exactly if every call for a last entry which is cut short has met an optional layer before that, if
there is one at all. -/
theorem required_iff (h : CompilesObject context call entries) :
    ∃ keys, Table.get? (besideNull (call.answer context).schema) "required" = listing keys ∧
      keys.Nodup ∧ (mandatory context.registry entries).Sublist keys ∧
      (keys = mandatory context.registry entries ↔ ∀ entry ∈ Table.lastEntries entries,
        CutShort context entry.2 →
          HasOptional context.registry entry.2.books.supply entry.2.node →
            (entry.2.answer context).isOptional = true) := by
  classical
  obtain ⟨f, schema, isObject⟩ := h.body
  let listed := (Table.lastEntries entries).filter fun entry => !(entry.2.answer context).isOptional
  have distinct := Table.nodup_keys_lastEntries entries
  have keysEq : Structure.required (entries.map fun entry => (entry.1, entry.2.answer context)) =
      Table.keys listed := by
    rw [Structure.required_eq, Table.lastEntries_map fun c : Call π => c.answer context,
      List.filter_map, Table.keys, List.map_map]
    rfl
  refine ⟨Table.keys listed, ?_, ?_, ?_, ?_⟩
  · rw [schema, Assembly.get?_required_schema isObject, keysEq]
  · exact distinct.sublist (List.filter_sublist.map _)
  · refine List.Sublist.map _ (List.monotone_filter_right _ fun entry bare => ?_)
    rw [decide_eq_true_eq] at bare
    rw [Bool.not_eq_true', Bool.eq_false_iff]
    exact fun isOptional => bare (hasOptional_of_isOptional isOptional)
  · constructor
    · intro same entry mem _ hasOptional
      by_contra silent
      have isListed : entry.1 ∈ Table.keys listed :=
        List.mem_map_of_mem (List.mem_filter.2 ⟨mem, by simpa using silent⟩)
      rw [same] at isListed
      obtain ⟨other, isOther, sameKey⟩ := List.mem_map.1 isListed
      obtain ⟨isLast, bare⟩ := List.mem_filter.1 isOther
      obtain rfl : other = entry := List.inj_on_of_nodup_map distinct isLast mem sameKey
      exact of_decide_eq_true bare hasOptional
    · intro met
      refine congrArg Table.keys (List.filter_congr fun entry mem => ?_)
      rw [Bool.eq_iff_iff, decide_eq_true_eq, Bool.not_eq_true', ← Bool.not_eq_true]
      refine not_congr ⟨hasOptional_of_isOptional, fun hasOptional => ?_⟩
      by_cases cut : CutShort context entry.2
      · exact met entry mem cut hasOptional
      · exact (isOptional_iff cut).2 hasOptional

/-! ### A repeated key, and an object inside an optional layer -/

/-- A fluent node without details that only refers to slots. -/
def plainNode (index : Nat) (kind : Fluent.Kind Empty (Schema Empty)) : Schema Empty :=
  ⟨⟨index⟩, "polyschema_mock::fluent::Fluent", .fluent { kind }⟩

/-- Fluent nodes under default options, where the slot `tree` stands for a node. -/
def slotContext (tree : Schema Empty) : CompileContext (Payload Empty) where
  registry := ⟨[Fluent.adapter ⟨fun name => if name = "tree" then some tree else none, nofun⟩],
    .firstMatch⟩
  options := {}

/-- An object whose key `a` is first an entry that must be present, and then one that may be
absent. -/
def repeatedKey : Schema Empty :=
  plainNode 0 (.object [("a", plainNode 1 .string), ("b", plainNode 2 .string),
    ("a", plainNode 3 (.optional (plainNode 1 .string)))])

/-- A tree with at most one branch, which may be empty: an optional object whose entry is the
tree. -/
def optionalTree : Schema Empty :=
  plainNode 0 (.optional (plainNode 1 (.object [("next", plainNode 2 (.deferred (.slot "tree")))])))

/-- The call that compiles a document over fluent nodes. -/
def slotCall (tree : Schema Empty) : Call (Payload Empty) := Registry.rootCall {} tree 10

/-- Of a repeated key the last entry counts. -/
theorem repeatedKey_required : ∃ entries,
    CompilesObject (slotContext repeatedKey) (slotCall repeatedKey) entries ∧
      Table.get? (besideNull ((slotCall repeatedKey).answer (slotContext repeatedKey)).schema)
        "required" = some (.ofStrings ["b"]) ∧
      ∃ keys, Table.get?
          (besideNull ((slotCall repeatedKey).answer (slotContext repeatedKey)).schema) "required" =
          listing keys ∧
        keys.Nodup ∧ (mandatory (slotContext repeatedKey).registry entries).Sublist keys ∧
        (keys = mandatory (slotContext repeatedKey).registry entries ↔
          ∀ entry ∈ Table.lastEntries entries, CutShort (slotContext repeatedKey) entry.2 →
            HasOptional (slotContext repeatedKey).registry entry.2.books.supply entry.2.node →
              (entry.2.answer (slotContext repeatedKey)).isOptional = true) := by
  have objects : CompilesObject (slotContext repeatedKey) (slotCall repeatedKey) _ :=
    .intro (t := _) (by decide) rfl
      ⟨rfl, .base rfl, Nat.zero_le _, by decide, by decide, rfl, ⟨_, rfl, rfl⟩,
        ⟨_, [], rfl⟩⟩ rfl rfl
  exact ⟨_, objects, rfl, required_iff objects⟩

/-- The tree lists its entry as required, although the chain of the entry comes to the optional
layer of the tree: the call for the entry is cut short at the tree, which is in progress. -/
theorem optionalTree_required : ∃ entries,
    CompilesObject (slotContext optionalTree) (slotCall optionalTree) entries ∧
      mandatory (slotContext optionalTree).registry entries = [] ∧
      Table.get? (besideNull ((slotCall optionalTree).answer (slotContext optionalTree)).schema)
        "required" = some (.ofStrings ["next"]) := by
  have objects : CompilesObject (slotContext optionalTree) (slotCall optionalTree) _ :=
    .intro (t := _) (by decide) rfl
      ⟨rfl, .layer rfl ⟨0, rfl⟩ rfl (.base rfl), by decide, by decide, by decide, rfl,
        ⟨_, rfl, rfl⟩, ⟨_, [], rfl⟩⟩ rfl rfl
  refine ⟨_, objects, congrArg Table.keys (List.filter_eq_nil_iff.2 fun entry mem => ?_), rfl⟩
  obtain rfl := List.mem_singleton.1 mem
  have hasOptional (supply : Nat) : HasOptional (slotContext optionalTree).registry supply
      (plainNode 2 (.deferred (.slot "tree"))) := .inside rfl rfl rfl (.here rfl rfl)
  simpa using hasOptional _

end Call

end SchemaBridge
