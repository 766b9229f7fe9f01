import SchemaBridge.Proofs.Compile.Bounds
import SchemaBridge.Proofs.Compile.Walks

/-!
# Bounds beside a reference

A node that is met again while it is in progress is referred to, and the reference has a family of
keywords for bounds before the schema that it refers to is known. The family is noted when the
layers of a chain have been taken off: that of the shape of the base, for every node of the chain.
It stays noted until work on the chain ends. So a reference has the family of the schema that it
refers to, unless the base stands for what is inside it: then its schema has the family of that
part, and the reference that of plain values.

## Main definitions

* `Chain.AssembledAt` : what the nodes of a chain compile to.

## Main results

* `Call.Spawns.families_eq`, `Call.Within.families_eq` : the families of nodes in progress stay.
* `Registry.reference_bounds_iff` : when a reference has the family of what it refers to.
-/

namespace SchemaBridge

open Chain Ledger Compile Plan

variable {π : Type}

/-! ### The nodes of a chain -/

/-- What a node of a chain compiles to: the base to its structure, another one to the layers from it
inwards. -/
inductive Chain.AssembledAt (layers : List (PeeledLayer π)) (base : Node π) (core : Assembly) :
    Identity → Assembly → Prop where
  | base : AssembledAt layers base core base.id core
  | layer {outer inner : List (PeeledLayer π)} {layer : PeeledLayer π}
      (split : layers = outer ++ layer :: inner) :
      AssembledAt layers base core layer.node.id (wrap (layer :: inner) core)

section AssembledAt

variable {layers : List (PeeledLayer π)} {base : Node π} {core f : Assembly} {id : Identity}

/-- The nodes of a chain compile to schemas of one family. -/
theorem Chain.AssembledAt.bounds_eq (h : AssembledAt layers base core id f) :
    f.bounds = core.bounds := by
  cases h with
  | base => rfl
  | layer => exact wrap_bounds _ _

/-- Work is started on every node of a chain. -/
theorem Compile.Peels.mem_of_assembledAt {context : CompileContext π} {node : Node π}
    {adapter baseAdapter : Adapter π} {modifier : Option Modifier} {isOptional : Bool}
    {ids : List Identity} {s t : Ledger}
    (h : Peels context node adapter s layers isOptional
      (.ok (.base base baseAdapter modifier)) ids t)
    (assembled : AssembledAt layers base core id f) : id ∈ ids := by
  obtain ⟨_, rfl, rfl⟩ := h.lastEntered
  cases assembled with
  | base => exact List.mem_append_right _ (List.mem_singleton_self _)
  | layer split =>
    rw [split]
    exact List.mem_append_left _ (List.mem_map_of_mem (by simp))

end AssembledAt

/-! ### Families of nodes in progress -/

/-- The family of a base is noted for the nodes of its chain, and for no others. -/
theorem Compile.get?_families_noted (base : Node π) (adapter : Adapter π) (ids : List Identity)
    (t : Ledger) (id : Identity) : Table.get? (noted base adapter ids t).families id =
      if id ∈ ids then some (Structure.family adapter base) else Table.get? t.families id := by
  change Table.get? (ids.foldl (fun families id =>
    Table.put families id (Structure.family adapter base)) t.families) id = _
  generalize t.families = families
  induction ids generalizing families with
  | nil => rfl
  | cons first rest ih =>
    rw [List.foldl_cons, ih, Table.get?_put]
    by_cases later : id ∈ rest
    · rw [if_pos later, if_pos (List.mem_cons_of_mem _ later)]
    · by_cases same : first = id
      · rw [if_neg later, if_pos same, if_pos (List.mem_cons.2 (.inl same.symm))]
      · have other : id ∉ first :: rest := fun mem =>
          (List.mem_cons.1 mem).elim (fun same' => same same'.symm) later
        rw [if_neg later, if_neg same, if_neg other]

namespace Call

variable {context : CompileContext π} {root outer call inner : Call π} {id : Identity}

/-- A call that is made for a part finds the nodes in progress, and their families, as they were. -/
theorem Spawns.families_eq (h : Spawns context call inner) (within : Within context root call)
    (trusted : Trusted context root call.books) (active : id ∈ call.books.active) :
    id ∈ inner.books.active ∧
      Table.get? inner.books.families id = Table.get? call.books.families id := by
  obtain ⟨new, claims, peels, seen, visits⟩ := h
  have frame := frame_of_visits new claims within trusted peels seen visits
  have other := fun mem => peels.fresh id mem active
  obtain ⟨supply, events, rfl⟩ := peels.books
  constructor
  · rw [frame.active]
    exact List.mem_append_right _ active
  · rw [frame.families, get?_families_noted, if_neg other]
    rfl

/-- So does every call that it makes in turn. -/
theorem Within.families_eq (h : Within context call inner) (within : Within context root call)
    (trusted : Trusted context root root.books) (active : id ∈ call.books.active) :
    id ∈ inner.books.active ∧
      Table.get? inner.books.families id = Table.get? call.books.families id := by
  induction h with
  | refl => exact ⟨active, rfl⟩
  | tail before last ih =>
    obtain ⟨active', same⟩ := ih
    have atCall := (Within.keeps (within.trans before) trusted).1
    obtain ⟨active'', same'⟩ := last.families_eq (within.trans before) atCall active'
    exact ⟨active'', same'.trans same⟩

/-- A call that comes upon a node in progress answers with the family that is noted for it. -/
theorem Meets.bounds_eq (h : Meets context id call) (trusted : Trusted context root call.books) :
    (call.answer context).bounds = (Table.get? call.books.families id).getD .value := by
  cases h with
  | here same active =>
    subst same
    obtain ⟨-, -, -, -, name, answer, -⟩ := refer_spec context call.node trusted.toSound active
    obtain ⟨levels, node, s⟩ := call
    have result := @node_of_active π context levels node s active
    rw [Call.answer, result, answer]
    rfl
  | @inside levels node again adapter s t layers isOptional ids new claims peels same =>
    subst same
    have atStart := (trusted_resolved trusted).toSound
    have opened := peels.opened atStart
    obtain ⟨last, -, -, active⟩ := peels.lastEntered
    obtain ⟨-, -, -, -, name, answer, -⟩ := refer_spec context again (opened.sound atStart) active
    rw [answer_of_core new claims peels .looped, wrap_bounds, answer]
    obtain ⟨supply, events, rfl⟩ := peels.books
    rfl

/-! ### References into a chain -/

variable {layers : List (PeeledLayer π)} {base : Node π} {baseAdapter : Adapter π}
    {core f : Assembly}

/-- In the calls that a call makes, the nodes of its chain have the family of the shape of its base.
-/
theorem CompilesBase.families_eq (h : CompilesBase context outer layers base baseAdapter core)
    (assembled : AssembledAt layers base core id f) (spawns : Spawns context outer inner)
    (within : Within context root outer) (trusted : Trusted context root outer.books) :
    id ∈ inner.books.active ∧
      Table.get? inner.books.families id = some (Structure.family baseAdapter base) := by
  obtain ⟨new, claims, peels, runs⟩ := h
  obtain ⟨-, claims', peels', seen, visits⟩ := spawns
  obtain ⟨rfl, rfl, rfl, rfl, rfl, rfl, rfl⟩ := peels_base_unique claims peels claims' peels'
  have own := peels.mem_of_assembledAt assembled
  have frame := frame_of_visits new claims within trusted peels seen visits
  constructor
  · rw [frame.active]
    obtain ⟨supply, events, rfl⟩ := peels.books
    exact List.mem_append_left _ (List.mem_reverse.2 own)
  · rw [frame.families, get?_families_noted, if_pos own]

/-- A call has the family of the shape of its base, unless the base stands for a part of another
family. -/
theorem CompilesBase.bounds_eq_iff (h : CompilesBase context outer layers base baseAdapter core) :
    (outer.answer context).bounds = core.bounds ∧
      (Structure.family baseAdapter base = core.bounds ↔
        ∀ part, StandsFor context outer part → (part.answer context).bounds = .value) := by
  obtain @⟨levels, node, base, adapter, baseAdapter, layers, isOptional, modifier, ids, s, t, u,
    assembly, new, claims, peels, runs⟩ := h
  constructor
  · rw [answer_of_core new claims peels (.built runs)]
    exact wrap_bounds _ _
  rw [Assembly.addLayer_bounds]
  have embedded {part : Node π} {next : Nat}
      (embeds : Structure.Embeds baseAdapter base (noted base baseAdapter ids t).supply part next) :
      Structure.family baseAdapter base = .value ∧ assembly.bounds =
        (answer context
          ⟨levels, part, { noted base baseAdapter ids t with supply := next }⟩).bounds := by
    have runs' := (Structure.compile_of_embeds embeds).symm.trans runs
    obtain rfl := Except.ok.inj (Prod.mk.inj runs').1
    exact ⟨Structure.family_of_embeds embeds, rfl⟩
  constructor
  · rintro same part ⟨_, claims', peels', embeds⟩
    obtain ⟨-, -, rfl, rfl, -, rfl, rfl⟩ := peels_base_unique claims peels claims' peels'
    obtain ⟨isValue, bounds⟩ := embedded embeds
    rw [← bounds, ← same, isValue]
  · intro ofParts
    rcases Structure.own_or_embeds runs with ⟨-, bounds⟩ | ⟨part, next, embeds⟩
    · exact bounds.symm
    · obtain ⟨isValue, bounds⟩ := embedded embeds
      rw [isValue, bounds, ofParts _ (.intro new claims peels embeds)]

/-- The call that compiles the base of a chain does not come upon the nodes of the chain itself. -/
theorem CompilesBase.not_meets (h : CompilesBase context outer layers base baseAdapter core)
    (assembled : AssembledAt layers base core id f) : ¬ Meets context id outer := by
  obtain ⟨new, claims, peels, runs⟩ := h
  have own := peels.mem_of_assembledAt assembled
  intro meets
  cases meets with
  | here _ active => exact peels.fresh id own active
  | inside _ claims' peels' _ =>
    obtain rfl := Option.some.inj (claims.symm.trans claims')
    cases (peels.unique peels').2.2.1

end Call

namespace Registry

open Call

/-- A reference to a node of a chain has the family of the shape of its base. This is the family of
what the node compiles to exactly if the base does not stand for a part of another family. -/
theorem reference_bounds_iff (registry : Registry π) (options : DocumentOptions) (node : Node π)
    (supply : Nat) {outer ref : Call π} {layers : List (PeeledLayer π)} {base : Node π}
    {baseAdapter : Adapter π} {core f : Assembly} {id : Identity}
    (within : Within ⟨registry, options⟩ (rootCall options node supply) outer)
    (compiles : CompilesBase ⟨registry, options⟩ outer layers base baseAdapter core)
    (assembled : AssembledAt layers base core id f) (inside : Within ⟨registry, options⟩ outer ref)
    (meets : Meets ⟨registry, options⟩ id ref) :
    (ref.answer ⟨registry, options⟩).bounds = Structure.family baseAdapter base ∧
      (outer.answer ⟨registry, options⟩).bounds = f.bounds ∧
      ((ref.answer ⟨registry, options⟩).bounds = f.bounds ↔ ∀ part,
        StandsFor ⟨registry, options⟩ outer part →
          (part.answer ⟨registry, options⟩).bounds = .value) := by
  have start : Trusted ⟨registry, options⟩ (rootCall options node supply)
      (rootCall options node supply).books := trusted_start _ _ supply
  have atOuter := (Within.keeps within start).1
  obtain ⟨bounds, same⟩ := compiles.bounds_eq_iff
  have referred : (ref.answer ⟨registry, options⟩).bounds = Structure.family baseAdapter base := by
    rcases Relation.ReflTransGen.cases_head inside with rfl | ⟨inner, spawns, rest⟩
    · exact absurd meets (compiles.not_meets assembled)
    · obtain ⟨active, noted⟩ := compiles.families_eq assembled spawns within atOuter
      obtain ⟨-, still⟩ := Within.families_eq rest (within.tail spawns) start active
      rw [meets.bounds_eq (Within.keeps ((within.tail spawns).trans rest) start).1, still, noted]
      rfl
  rw [referred, assembled.bounds_eq]
  exact ⟨rfl, bounds, same⟩

/-! ### A list of itself, and one inside a promise -/

/-- The reference of a list of itself has the family of the list. -/
theorem selfList_reference_bounds : ∃ core ref,
    CompilesBase ⟨selfList, {}⟩ (rootCall {} ⟨⟨0⟩, "list", ()⟩ 1) [] ⟨⟨0⟩, "list", ()⟩
        (selfList.adapters.head (by decide)) core ∧
      Within ⟨selfList, {}⟩ (rootCall {} ⟨⟨0⟩, "list", ()⟩ 1) ref ∧
      Meets ⟨selfList, {}⟩ ⟨0⟩ ref ∧ (ref.answer ⟨selfList, {}⟩).bounds = core.bounds := by
  have peels : Peels ⟨selfList, {}⟩ ⟨⟨0⟩, "list", ()⟩ (selfList.adapters.head (by decide))
      (resolved ⟨selfList, {}⟩ (rootCall {} ⟨⟨0⟩, "list", ()⟩ 1)) [] false
      (.ok (.base ⟨⟨0⟩, "list", ()⟩ (selfList.adapters.head (by decide)) none)) [⟨0⟩] _ :=
    ⟨rfl, .base rfl, by decide, by decide, by decide, rfl, ⟨_, rfl, rfl⟩, ⟨_, [], rfl⟩⟩
  have compiles : CompilesBase ⟨selfList, {}⟩ (rootCall {} ⟨⟨0⟩, "list", ()⟩ 1) [] _ _ _ :=
    .intro (by decide) rfl peels rfl
  have spawns : Spawns ⟨selfList, {}⟩ (rootCall {} ⟨⟨0⟩, "list", ()⟩ 1) _ :=
    .intro (by decide) rfl peels rfl (.ask rfl .here)
  obtain ⟨-, -, same⟩ := reference_bounds_iff selfList {} _ 1 .refl compiles .base (.single spawns)
    (.here rfl (by decide))
  refine ⟨_, _, compiles, .single spawns, .here rfl (by decide), same.2 fun part stands => ?_⟩
  obtain ⟨supply, next, ⟨seen, _⟩ | ⟨seen, _⟩⟩ := compiles.embeds stands <;> cases seen

/-- The fluent adapter where the slot `tree` stands for a node. -/
def slotAdapter (tree : Schema Empty) : Adapter (Payload Empty) :=
  Fluent.adapter ⟨fun name => if name = "tree" then some tree else none, nofun⟩

/-- A deferred layer around a promise, with a lower bound. -/
def boundedSlot : Schema Empty :=
  ⟨⟨2⟩, "polyschema_mock::fluent::Fluent", .fluent {
    kind := .deferred (.slot "tree"), details := { constraints := lowerBound 3 } }⟩

/-- A promise of a list whose elements are the promise again, at least three of them. -/
def promisedList : Schema Empty :=
  plainNode 0 (.promise (plainNode 1 (.array boundedSlot)))

/-- The reference to a promise of a list has the family of plain values, and the promise that of
lists. -/
theorem promisedList_reference_bounds : ∃ core ref,
    CompilesBase (slotContext promisedList) (slotCall promisedList) [] promisedList
        (slotAdapter promisedList) core ∧
      Within (slotContext promisedList) (slotCall promisedList) ref ∧
      Meets (slotContext promisedList) promisedList.id ref ∧
      (ref.answer (slotContext promisedList)).bounds = .value ∧ core.bounds = .items := by
  have peels : Peels (slotContext promisedList) promisedList (slotAdapter promisedList)
      (resolved (slotContext promisedList) (slotCall promisedList)) [] false
      (.ok (.base promisedList (slotAdapter promisedList) none)) [⟨0⟩] _ :=
    ⟨rfl, .base rfl, by decide, by decide, by decide, rfl, ⟨_, rfl, rfl⟩, ⟨_, [], rfl⟩⟩
  let atList : Ledger := { start 10 with active := [⟨0⟩], families := [(⟨0⟩, .value)] }
  let atSlot : Ledger :=
    { start 10 with active := [⟨1⟩, ⟨0⟩], families := [(⟨0⟩, .value), (⟨1⟩, .items)] }
  have promise : Spawns (slotContext promisedList) (slotCall promisedList)
      ⟨256, plainNode 1 (.array boundedSlot), atList⟩ :=
    .intro (by decide) rfl peels rfl (.ask rfl .here)
  have list : Spawns (slotContext promisedList) ⟨256, plainNode 1 (.array boundedSlot), atList⟩
      ⟨255, boundedSlot, atSlot⟩ :=
    .intro (by decide) rfl
      ⟨rfl, .base rfl, by decide, by decide, by decide, rfl, ⟨_, rfl, rfl⟩, ⟨_, [], rfl⟩⟩ rfl
      (.ask rfl .here)
  have reentered : Meets (slotContext promisedList) promisedList.id ⟨255, boundedSlot, atSlot⟩ :=
    .inside (by decide) rfl
      ⟨rfl, .reentered rfl ⟨0, rfl⟩, by decide, by decide, by decide, rfl, ⟨_, rfl, rfl, by decide⟩,
        ⟨_, [], rfl⟩⟩ rfl
  exact ⟨_, _, .intro (by decide) rfl peels rfl, .head promise (.single list), reentered, rfl, rfl⟩

end Registry

end SchemaBridge
