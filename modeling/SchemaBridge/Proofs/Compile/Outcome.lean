import SchemaBridge.Compile.Document
import SchemaBridge.Proofs.Chain.Unwrapping
import SchemaBridge.Proofs.Ledger.Work

/-!
# How the compilation of a node goes

Everything that the compilation of a claimed node can do, said once: its layers are peeled off, the
node at the end of the chain is compiled by its shape, referred to or passed over, and the layers
are laid on again while the schemas of named nodes are stored; or it is given up, because of the
chain or because of the structure. What is proved of compilation follows from this case distinction.

## Main definitions

* `Chain.wrap`, `Chain.wrapped` : layers laid on an assembly, and the schema at each of them.
* `Compile.Peels` : the layers are peeled off.
* `Compile.Core` : the assembly at the end of a chain.
* `Compile.Outcome` : the ways in which the compilation of a claimed node goes.
* `Compile.Concludes` : those of them that are left when its layers have been peeled off.

## Main results

* `Compile.claimed_outcome` : there are no other ways.
* `Compile.Outcome.concludes` : which way it is, by how the layers were peeled off.
-/

namespace SchemaBridge

variable {π : Type}

open CompileM Stateful

theorem Assembly.addLayer_body (f : Assembly) (adapter : Adapter π) (node : Node π)
    (modifier : Option Modifier) : (f.addLayer adapter node modifier).body = f.body := by
  unfold addLayer
  dsimp only
  split <;> rfl

namespace Chain

/-- Layers, from the outside in, laid on an assembly. -/
def wrap (layers : List (PeeledLayer π)) (core : Assembly) : Assembly :=
  layers.foldr (fun layer f => f.addLayer layer.adapter layer.node (some layer.modifier)) core

/-- Layers leave the structure alone. -/
theorem wrap_body (layers : List (PeeledLayer π)) (core : Assembly) :
    (wrap layers core).body = core.body := by
  induction layers with
  | nil => rfl
  | cons layer rest ih =>
    rw [← ih]
    exact Assembly.addLayer_body (wrap rest core) layer.adapter layer.node (some layer.modifier)

/-- The schema at each layer, the innermost first. -/
def wrapped : List (PeeledLayer π) → Assembly → List (Identity × Json.Fields)
  | [], _ => []
  | layer :: rest, core =>
    wrapped rest core ++ [(layer.node.id, (wrap (layer :: rest) core).schema)]

theorem wrapped_map_fst (layers : List (PeeledLayer π)) (core : Assembly) :
    (wrapped layers core).map Prod.fst = (layers.map (·.node.id)).reverse := by
  induction layers with
  | nil => rfl
  | cons layer rest ih => simp [wrapped, ih]

/-- A stored schema is that of the layers from its node inwards. -/
theorem mem_wrapped_iff {layers : List (PeeledLayer π)} {core : Assembly} {id : Identity}
    {schema : Json.Fields} :
    (id, schema) ∈ wrapped layers core ↔
      ∃ outer layer inner, layers = outer ++ layer :: inner ∧ layer.node.id = id ∧
        (wrap (layer :: inner) core).schema = schema := by
  induction layers with
  | nil => simp [wrapped]
  | cons first rest ih =>
    simp only [wrapped, List.mem_append, ih, List.mem_singleton, Prod.mk.injEq]
    constructor
    · rintro (⟨outer, layer, inner, rfl, same, eq⟩ | ⟨rfl, rfl⟩)
      · exact ⟨first :: outer, layer, inner, rfl, same, eq⟩
      · exact ⟨[], first, rest, rfl, rfl, rfl⟩
    · rintro ⟨outer, layer, inner, split, same, eq⟩
      cases outer with
      | nil =>
        obtain ⟨rfl, rfl⟩ := List.cons_eq_cons.1 split
        exact .inr ⟨same.symm, eq.symm⟩
      | cons _ outer =>
        obtain ⟨rfl, rfl⟩ := List.cons_eq_cons.1 split
        exact .inl ⟨outer, layer, inner, rfl, same, eq⟩

/-- The schemas that are stored along a chain, from the inside out: that of the base, and those of
the layers. -/
def storedAlong (layers : List (PeeledLayer π)) (stop : ChainEnd π) (core : Assembly) :
    List (Identity × Json.Fields) :=
  match stop with
  | .base node _ _ => (node.id, core.schema) :: wrapped layers core
  | .reentered _ | .unclaimed => wrapped layers core

end Chain

namespace Compile

open Chain Ledger

/-! ### Laying layers on again -/

theorem rewrapAll_append (core : Assembly) (first second : List (PeeledLayer π)) (s : Ledger) :
    rewrapAll core (first ++ second) s =
      rewrapAll (rewrapAll core first s).1 second (rewrapAll core first s).2 := by
  induction first generalizing core s with
  | nil => rfl
  | cons layer rest ih => exact ih _ _

/-- Laying layers on again stores the schema at each of them. -/
theorem rewrapAll_apply (core : Assembly) (layers : List (PeeledLayer π)) (s : Ledger) :
    rewrapAll core layers.reverse s = (wrap layers core,
      { s with definitions := stored s.names s.definitions (wrapped layers core) }) := by
  induction layers with
  | nil => rfl
  | cons layer rest ih =>
    rw [List.reverse_cons, rewrapAll_append, ih, wrapped, stored_append]
    change ((wrap (layer :: rest) core),
      (define layer.node.id (wrap (layer :: rest) core).schema _).2) = _
    rw [define_apply]

/-! ### The ways in which compilation goes -/

/-- The layers of a node are peeled off: where they end, the nodes that work is started on, and the
books after it. -/
structure Peels (context : CompileContext π) (node : Node π) (adapter : Adapter π) (s : Ledger)
    (layers : List (PeeledLayer π)) (isOptional : Bool)
    (stop : Except CompileFailure (ChainEnd π)) (ids : List Identity) (t : Ledger) : Prop where
  runs : peel context context.options.maxDepth ⟨[], [node.id], false⟩ node adapter
    (beginWork node s).2 = ((⟨layers.reverse, ids, isOptional⟩, stop), t)
  unwraps : Unwraps context.registry node adapter layers isOptional stop
  short : layers.length ≤ context.options.maxDepth
  nodup : ids.Nodup
  fresh : ∀ id ∈ ids, id ∉ s.active
  /-- The node itself comes first. -/
  head : ids.head? = some node.id
  lastEntered : ∃ last, ids = layers.map (·.node.id) ++ last ∧ LastEntered t.active last stop
  books : ∃ supply events, t =
    { s with active := ids.reverse ++ s.active, supply, events := events ++ s.events }

theorem Peels.opened {context : CompileContext π} {node : Node π} {adapter : Adapter π}
    {s t : Ledger} {layers : List (PeeledLayer π)} {isOptional : Bool}
    {stop : Except CompileFailure (ChainEnd π)} {ids : List Identity}
    (h : Peels context node adapter s layers isOptional stop ids t) (sound : Sound s) :
    Opened ids s t := by
  obtain ⟨supply, events, rfl⟩ := h.books
  exact opened_of_sound sound h.fresh supply events

/-- The layers of a node can only be peeled off in one way. -/
theorem Peels.unique {context : CompileContext π} {node : Node π} {adapter : Adapter π}
    {s t t' : Ledger} {layers layers' : List (PeeledLayer π)} {isOptional isOptional' : Bool}
    {stop stop' : Except CompileFailure (ChainEnd π)} {ids ids' : List Identity}
    (h : Peels context node adapter s layers isOptional stop ids t)
    (h' : Peels context node adapter s layers' isOptional' stop' ids' t') :
    layers = layers' ∧ isOptional = isOptional' ∧ stop = stop' ∧ ids = ids' ∧ t = t' := by
  obtain ⟨peeled, books⟩ := Prod.mk.inj (h.runs.symm.trans h'.runs)
  obtain ⟨taken, atEnd⟩ := Prod.mk.inj peeled
  obtain ⟨layers, ids, isOptional⟩ := Peeled.mk.inj taken
  exact ⟨List.reverse_injective layers, isOptional, atEnd, ids, books⟩

/-- The books when the family of a base has been noted for the nodes of its chain. -/
def noted (node : Node π) (adapter : Adapter π) (ids : List Identity) (s : Ledger) : Ledger :=
  (noteFamily (((adapter.shape? node).map Shape.bounds).getD .value) ids s).2

/-- The assembly at the end of a chain, and the books after it. -/
inductive Core (context : CompileContext π) (child : Node π → CompileM NodeSchema)
    (ids : List Identity) (s : Ledger) : ChainEnd π → Assembly → Ledger → Prop where
  /-- The base is compiled by its shape. -/
  | built {node : Node π} {adapter : Adapter π} {modifier : Option Modifier} {assembly : Assembly}
      {t : Ledger} (runs : Structure.compile context child node adapter (noted node adapter ids s) =
        (.ok assembly, t)) :
      Core context child ids s (.base node adapter modifier)
        (assembly.addLayer adapter node modifier) t
  /-- The node in progress is referred to. -/
  | looped {node : Node π} :
      Core context child ids s (.reentered node)
        { body := (refer context node s).1.1, bounds := (refer context node s).1.2 }
        (refer context node s).2
  /-- The node that nobody claims accepts anything. -/
  | unclaimed : Core context child ids s .unclaimed .any s

/-- The ways in which the compilation of a claimed node goes. -/
inductive Outcome (context : CompileContext π) (child : Node π → CompileM NodeSchema)
    (node : Node π) (adapter : Adapter π) (s : Ledger) : NodeSchema → Ledger → Prop where
  /-- The layers are laid on what is at their end. -/
  | success {layers : List (PeeledLayer π)} {isOptional : Bool} {stop : ChainEnd π}
      {ids : List Identity} {t u : Ledger} {core : Assembly}
      (peels : Peels context node adapter s layers isOptional (.ok stop) ids t)
      (atEnd : Core context child ids t stop core u) :
      Outcome context child node adapter s
        ⟨(wrap layers core).schema, isOptional, (wrap layers core).bounds⟩
        (finished ids (storedAlong layers stop core) u)
  /-- The chain has no end. -/
  | givenUp {layers : List (PeeledLayer π)} {isOptional : Bool} {failure : CompileFailure}
      {ids : List Identity} {t : Ledger}
      (peels : Peels context node adapter s layers isOptional (.error failure) ids t) :
      Outcome context child node adapter s ⟨[], isOptional, .value⟩ (lost ids failure t)
  /-- The structure of the base cannot be compiled. -/
  | broken {layers : List (PeeledLayer π)} {isOptional : Bool} {base : Node π}
      {baseAdapter : Adapter π} {modifier : Option Modifier} {ids : List Identity} {t u : Ledger}
      {failure : CompileFailure}
      (peels : Peels context node adapter s layers isOptional
        (.ok (.base base baseAdapter modifier)) ids t)
      (runs : Structure.compile context child base baseAdapter (noted base baseAdapter ids t) =
        (.error failure, u)) :
      Outcome context child node adapter s ⟨[], isOptional, .value⟩ (lost ids failure u)

/-- What compilation answers and leaves in the books, once the layers of a node have been peeled
off. -/
inductive Concludes (context : CompileContext π) (child : Node π → CompileM NodeSchema)
    (layers : List (PeeledLayer π)) (isOptional : Bool) (ids : List Identity) (t : Ledger) :
    Except CompileFailure (ChainEnd π) → NodeSchema → Ledger → Prop where
  /-- The layers are laid on what is at their end. -/
  | success {stop : ChainEnd π} {core : Assembly} {u : Ledger}
      (atEnd : Core context child ids t stop core u) :
      Concludes context child layers isOptional ids t (.ok stop)
        ⟨(wrap layers core).schema, isOptional, (wrap layers core).bounds⟩
        (finished ids (storedAlong layers stop core) u)
  /-- The chain has no end. -/
  | givenUp {failure : CompileFailure} :
      Concludes context child layers isOptional ids t (.error failure) ⟨[], isOptional, .value⟩
        (lost ids failure t)
  /-- The structure of the base cannot be compiled. -/
  | broken {base : Node π} {baseAdapter : Adapter π} {modifier : Option Modifier} {u : Ledger}
      {failure : CompileFailure}
      (runs : Structure.compile context child base baseAdapter (noted base baseAdapter ids t) =
        (.error failure, u)) :
      Concludes context child layers isOptional ids t (.ok (.base base baseAdapter modifier))
        ⟨[], isOptional, .value⟩ (lost ids failure u)

/-- The way in which compilation goes is the one that the peeling of its node has led to. -/
theorem Outcome.concludes {context : CompileContext π} {child : Node π → CompileM NodeSchema}
    {node : Node π} {adapter : Adapter π} {s t v : Ledger} {c : NodeSchema}
    {layers : List (PeeledLayer π)} {isOptional : Bool}
    {stop : Except CompileFailure (ChainEnd π)} {ids : List Identity}
    (h : Outcome context child node adapter s c v)
    (peels : Peels context node adapter s layers isOptional stop ids t) :
    Concludes context child layers isOptional ids t stop c v := by
  cases h with
  | success peels' atEnd =>
    obtain ⟨rfl, rfl, rfl, rfl, rfl⟩ := peels.unique peels'
    exact .success atEnd
  | givenUp peels' =>
    obtain ⟨rfl, rfl, rfl, rfl, rfl⟩ := peels.unique peels'
    exact .givenUp
  | broken peels' runs =>
    obtain ⟨rfl, rfl, rfl, rfl, rfl⟩ := peels.unique peels'
    exact .broken runs

/-- Peeling a node that is not in progress. -/
theorem peels_of_peel (context : CompileContext π) (node : Node π) (adapter : Adapter π)
    {s : Ledger} (new : node.id ∉ s.active) :
    ∃ layers isOptional stop ids t, Peels context node adapter s layers isOptional stop ids t := by
  obtain ⟨layers, isOptional, stop, more, last, supply, events, unwraps, short, result, nodup,
    fresh, ids, lastEntered⟩ :=
    peel_spec context context.options.maxDepth ⟨[], [node.id], false⟩ node adapter
      (s := (beginWork node s).2) List.mem_cons_self
  rw [beginWork_apply] at result fresh lastEntered
  refine ⟨layers, isOptional, stop, node.id :: more, { s with
    active := more.reverse ++ node.id :: s.active, supply := supply, events := events ++ s.events },
    ?_, unwraps, short, ?_, ?_, rfl, ⟨last, ids, lastEntered⟩, supply, events, ?_⟩
  · simpa [beginWork_apply] using result
  · exact List.nodup_cons.2 ⟨fun h => fresh _ h List.mem_cons_self, nodup⟩
  · intro id h
    rcases List.mem_cons.1 h with rfl | h
    · exact new
    · exact fun old => fresh id h (List.mem_cons_of_mem _ old)
  · simp

/-- What has been taken off a node that was not in progress, if peeling came to this. -/
theorem peels_of_runs {context : CompileContext π} {node : Node π} {adapter : Adapter π}
    {s t : Ledger} (new : node.id ∉ s.active) {layers : List (PeeledLayer π)} {isOptional : Bool}
    {stop : Except CompileFailure (ChainEnd π)} {ids : List Identity}
    (runs : peel context context.options.maxDepth ⟨[], [node.id], false⟩ node adapter
      (beginWork node s).2 = ((⟨layers.reverse, ids, isOptional⟩, stop), t)) :
    Peels context node adapter s layers isOptional stop ids t := by
  obtain ⟨layers', isOptional', stop', ids', t', peels⟩ := peels_of_peel context node adapter new
  obtain ⟨answers, rfl⟩ := Prod.mk.inj (peels.runs.symm.trans runs)
  obtain ⟨taken, rfl⟩ := Prod.mk.inj answers
  obtain ⟨reversed, rfl, rfl⟩ := Peeled.mk.inj taken
  obtain rfl := List.reverse_injective reversed
  exact peels

/-- What follows the attempt at the assembly of a node: an assembly is the answer, and a failure
gives the node up. -/
private def conclude (ids : List Identity) (isOptional : Bool) :
    Except CompileFailure Assembly → CompileM NodeSchema
  | .ok assembly => do
    endWork ids
    return ⟨assembly.schema, isOptional, assembly.bounds⟩
  | .error failure => do
    endWork ids
    report (.givenUp failure)
    abandon ids
    return { NodeSchema.empty with isOptional }

private theorem conclude_error (ids : List Identity) (isOptional : Bool) (failure : CompileFailure)
    (s : Ledger) :
    conclude ids isOptional (.error failure) s =
      (⟨[], isOptional, .value⟩, lost ids failure s) := by
  rw [conclude, bind_apply, endWork_apply, bind_apply, report_apply, bind_apply, abandon_apply]
  rfl

private theorem claimed_of_peel {context : CompileContext π} {child : Node π → CompileM NodeSchema}
    {node : Node π} {adapter : Adapter π} {s t : Ledger} {peeled : Peeled π}
    {stop : Except CompileFailure (ChainEnd π)}
    (h : peel context context.options.maxDepth ⟨[], [node.id], false⟩ node adapter
      (beginWork node s).2 = ((peeled, stop), t)) :
    claimed context child node adapter s =
      conclude peeled.entered peeled.isOptional (finish context child peeled stop t).1
        (finish context child peeled stop t).2 := by
  rw [claimed, bind_apply, bind_apply, h]
  dsimp only
  rw [bind_apply, run_apply, bind_apply]
  cases (finish context child peeled stop t).1 <;> rfl

/-- The assembly at the end of a chain, and the layers on it. -/
private theorem finish_of_core {context : CompileContext π} {child : Node π → CompileM NodeSchema}
    {layers : List (PeeledLayer π)} {ids : List Identity} {isOptional : Bool} {stop : ChainEnd π}
    {s t : Ledger} {assembly : Assembly}
    (h : core context child ids stop s = (.ok assembly, t)) :
    finish context child ⟨layers.reverse, ids, isOptional⟩ (.ok stop) s =
      (.ok (wrap layers assembly),
        { t with definitions := stored t.names t.definitions (wrapped layers assembly) }) := by
  rw [finish, bind_of_ok _ h, lift_apply, rewrapAll_apply]

/-- The compilation of a claimed node that is not in progress goes in one of these ways. -/
theorem claimed_outcome (context : CompileContext π) (child : Node π → CompileM NodeSchema)
    (node : Node π) (adapter : Adapter π) {s : Ledger} (new : node.id ∉ s.active) :
    Outcome context child node adapter s (claimed context child node adapter s).1
      (claimed context child node adapter s).2 := by
  obtain ⟨layers, isOptional, stop, ids, t, peels⟩ := peels_of_peel context node adapter new
  rw [claimed_of_peel peels.runs]
  cases stop with
  | error failure =>
    rw [finish, throw_apply, conclude_error]
    exact .givenUp peels
  | ok stop =>
    cases stop with
    | base base baseAdapter modifier =>
      have noting : (ExceptT.lift (noteFamily (((baseAdapter.shape? base).map Shape.bounds).getD
          .value) ids) : ExceptT CompileFailure CompileM Unit) t =
          (.ok (), noted base baseAdapter ids t) := rfl
      rcases runs : Structure.compile context child base baseAdapter (noted base baseAdapter ids t)
        with ⟨failure | assembly, u⟩
      · have failed : finish context child ⟨layers.reverse, ids, isOptional⟩
            (.ok (.base base baseAdapter modifier)) t = (.error failure, u) := by
          refine bind_of_error _ ?_
          exact (bind_of_ok _ noting).trans (bind_of_error _ runs)
        rw [failed, conclude_error]
        exact .broken peels runs
      · let whole := assembly.addLayer baseAdapter base modifier
        have atEnd : core context child ids (.base base baseAdapter modifier) t = (.ok whole,
            { u with definitions := stored u.names u.definitions [(base.id, whole.schema)] }) := by
          refine (bind_of_ok _ noting).trans ((bind_of_ok _ runs).trans ?_)
          refine bind_of_ok (a := ()) _ ?_
          rw [lift_apply, complete, define_apply]
        rw [finish_of_core atEnd]
        exact .success peels (.built runs)
    | reentered again =>
      have atEnd : core context child ids (.reentered again) t = (.ok
          { body := (refer context again t).1.1, bounds := (refer context again t).1.2 },
          (refer context again t).2) := rfl
      rw [finish_of_core atEnd]
      exact .success peels .looped
    | unclaimed =>
      have atEnd : core context child ids .unclaimed t = (.ok .any, t) := rfl
      rw [finish_of_core atEnd]
      exact .success peels .unclaimed

/-! ### Steps -/

section Steps

variable (context : CompileContext π) {child : Node π → CompileM NodeSchema}
  (child? : Option (Node π → CompileM NodeSchema)) {node : Node π} {s : Ledger}

/-- A node in progress is referred to. -/
theorem step_of_active (active : node.id ∈ s.active) :
    step context child? node s = (.required (refer context node s).1.1 (refer context node s).1.2,
      (refer context node s).2) := by
  unfold step
  rw [bind_apply, isActive_apply]
  dsimp only
  rw [if_pos (List.contains_iff_mem.2 active)]
  rfl

/-- A node that lies too deep compiles to the empty schema. -/
theorem step_none (new : node.id ∉ s.active) :
    step context none node s = (.empty, { s with
      events := .tooDeep context.options.maxDepth node.typeName :: s.events }) := by
  rw [step, bind_apply, isActive_apply]
  dsimp only
  rw [if_neg fun h => new (List.contains_iff_mem.1 h)]
  rfl

/-- A node that nobody claims compiles to the empty schema. -/
theorem step_of_unclaimed (new : node.id ∉ s.active)
    (nobody : (context.registry.resolve node).value = none) :
    step context (some child) node s = (.empty, { s with
      events := .unclaimed node.typeName ::
        (context.registry.resolve node).events.reverse ++ s.events }) := by
  rw [step, bind_apply, isActive_apply]
  dsimp only
  rw [if_neg fun h => new (List.contains_iff_mem.1 h), bind_apply, resolve_apply, nobody]
  rfl

/-- A claimed node is compiled by its adapter. -/
theorem step_of_claimed {adapter : Adapter π} (new : node.id ∉ s.active)
    (claims : (context.registry.resolve node).value = some adapter) :
    step context (some child) node s = claimed context child node adapter { s with
      events := (context.registry.resolve node).events.reverse ++ s.events } := by
  rw [step, bind_apply, isActive_apply]
  dsimp only
  rw [if_neg fun h => new (List.contains_iff_mem.1 h), bind_apply, resolve_apply, claims]

end Steps

end Compile

end SchemaBridge
