import SchemaBridge.Proofs.Compile.Outcome

/-!
# What nodes compile to

The answers of the compilation of a node, described without books: relative to the names that nodes
have, to whether the depth limit may have cut anything short, and to the answers of parts. A
description only says which answers there can be. It holds for every compilation that knows the
names and more, so that the definitions and the root of a document can all be described by the names
at the end.

## Main definitions

* `Compile.AtEnd` : the assemblies at the end of a chain.
* `Compile.Builds`, `Compile.Refers` : the answers of a node that is compiled itself, and of one
  that is referred to instead.
* `Compile.SchemaInvariant` : a property of schemas that compilation keeps.

## Main results

* `Compile.Builds.mono` : what holds for names holds for more names.
* `Compile.Builds.schema` : what compilation keeps holds of the answer of a node.
* `Compile.Builds.of_layer`, `Compile.Builds.of_base` : the answers of the nodes inside a chain.
-/

namespace SchemaBridge

variable {π : Type}

/-- The depth limit has cut something short. -/
def Ledger.Limited (s : Ledger) : Prop := ∃ event ∈ s.events, event.reachesLimit = true

theorem Ledger.Grows.limited {s t : Ledger} (h : Ledger.Grows s t) (cut : s.Limited) :
    t.Limited := by
  obtain ⟨event, mem, reaches⟩ := cut
  exact ⟨event, h.events.subset mem, reaches⟩

namespace Compile

open Chain Plan

/-- The assemblies at the end of a chain, given the nodes that are come to and the answers of
parts. -/
inductive AtEnd (context : CompileContext π) (names : Table Identity String)
    (enters : Node π → Prop) (compiles : Node π → NodeSchema → Prop) :
    ChainEnd π → Assembly → Prop where
  /-- The base is compiled by its shape. -/
  | shaped {node : Node π} {adapter : Adapter π} {modifier : Option Modifier} {shape : Shape}
      {assembly : Assembly} (seen : adapter.shape? node = some shape)
      (yields : Yields compiles (Structure.ofShape context.options node adapter shape) assembly) :
      AtEnd context names enters compiles (.base node adapter modifier)
        (assembly.addLayer adapter node modifier)
  /-- The base has no shape. -/
  | shapeless {node : Node π} {adapter : Adapter π} {modifier : Option Modifier}
      (unseen : adapter.shape? node = none) :
      AtEnd context names enters compiles (.base node adapter modifier)
        (Assembly.any.addLayer adapter node modifier)
  /-- The node in progress has a name. -/
  | reentered {node : Node π} {name : String} {bounds : BoundsFamily}
      (entered : enters node) (named : Table.get? names node.id = some name) :
      AtEnd context names enters compiles (.reentered node)
        { body := Ledger.refSchema name, bounds }
  /-- Nobody claims the node. -/
  | unclaimed : AtEnd context names enters compiles .unclaimed .any

/-- The answers of a node that is compiled itself, given the nodes that are come to and the answers
of parts. -/
inductive Builds (context : CompileContext π) (names : Table Identity String) (limited : Prop)
    (enters : Node π → Prop) (compiles : Node π → NodeSchema → Prop) :
    Node π → NodeSchema → Prop where
  /-- The node lies too deep. -/
  | tooDeep {node : Node π} (cut : limited) :
      Builds context names limited enters compiles node .empty
  /-- Nobody claims the node. -/
  | unclaimed {node : Node π} (nobody : (context.registry.resolve node).value = none) :
      Builds context names limited enters compiles node .empty
  /-- The layers are laid on what is at their end. -/
  | whole {node : Node π} {adapter : Adapter π} {layers : List (PeeledLayer π)} {isOptional : Bool}
      {stop : ChainEnd π} {core : Assembly}
      (claimed : (context.registry.resolve node).value = some adapter)
      (unwraps : Unwraps context.registry node adapter layers isOptional (.ok stop))
      (atEnd : AtEnd context names enters compiles stop core) :
      Builds context names limited enters compiles node
        ⟨(wrap layers core).schema, isOptional, (wrap layers core).bounds⟩
  /-- The node is given up, along its chain or because of the structure at the end. -/
  | failed {node : Node π} {adapter : Adapter π} {layers : List (PeeledLayer π)} {isOptional : Bool}
      {stop : Except CompileFailure (ChainEnd π)}
      (claimed : (context.registry.resolve node).value = some adapter)
      (unwraps : Unwraps context.registry node adapter layers isOptional stop)
      (cut : ∀ vendor, stop = .error (.endless vendor) → limited)
      (atBase : ∀ last, stop = .ok last → ∃ base baseAdapter modifier,
        last = .base base baseAdapter modifier) :
      Builds context names limited enters compiles node ⟨[], isOptional, .value⟩

/-- A reference to a node that has a name. -/
def Refers (names : Table Identity String) (node : Node π) (c : NodeSchema) : Prop :=
  ∃ name bounds, Table.get? names node.id = some name ∧
    c = .required (Ledger.refSchema name) bounds

section Mono

variable {context : CompileContext π} {names more : Table Identity String} {limited cut : Prop}
  {enters : Node π → Prop} {compiles : Node π → NodeSchema → Prop}

theorem AtEnd.mono
    (kept : ∀ id name, Table.get? names id = some name → Table.get? more id = some name)
    {stop : ChainEnd π} {core : Assembly} (h : AtEnd context names enters compiles stop core) :
    AtEnd context more enters compiles stop core := by
  cases h with
  | shaped seen yields => exact .shaped seen yields
  | shapeless unseen => exact .shapeless unseen
  | reentered entered named => exact .reentered entered (kept _ _ named)
  | unclaimed => exact .unclaimed

/-- What holds for names holds for more names. -/
theorem Builds.mono
    (kept : ∀ id name, Table.get? names id = some name → Table.get? more id = some name)
    (wider : limited → cut) {node : Node π} {c : NodeSchema}
    (h : Builds context names limited enters compiles node c) :
    Builds context more cut enters compiles node c := by
  cases h with
  | tooDeep h => exact .tooDeep (wider h)
  | unclaimed nobody => exact .unclaimed nobody
  | whole claimed unwraps atEnd => exact .whole claimed unwraps (atEnd.mono kept)
  | failed claimed unwraps h atBase =>
    exact .failed claimed unwraps (fun vendor same => wider (h vendor same)) atBase

theorem Refers.mono
    (kept : ∀ id name, Table.get? names id = some name → Table.get? more id = some name)
    {node : Node π} {c : NodeSchema} (h : Refers names node c) : Refers more node c := by
  obtain ⟨name, bounds, named, rfl⟩ := h
  exact ⟨name, bounds, kept _ _ named, rfl⟩

end Mono

section Invariants

/-- A property of schemas that compilation keeps: it holds of the empty schema and of references to
names, and is passed on from parts to structures and from structures to what layers make of them. -/
structure SchemaInvariant (context : CompileContext π) (names : Table Identity String)
    (P : Json.Fields → Prop) : Prop where
  empty : P []
  reference : ∀ id name, Table.get? names id = some name → P (Ledger.refSchema name)
  structured : ∀ (node : Node π) adapter shape assembly, Yields (fun _ c => P c.schema)
    (Structure.ofShape context.options node adapter shape) assembly → P assembly.body
  layered : ∀ f : Assembly, P f.body → P f.schema

variable {context : CompileContext π} {names : Table Identity String} {limited : Prop}
  {P : Json.Fields → Prop} {enters : Node π → Prop} {compiles : Node π → NodeSchema → Prop}
  {node : Node π} {c : NodeSchema}

theorem Refers.schema (kept : SchemaInvariant context names P) (h : Refers names node c) :
    P c.schema := by
  obtain ⟨name, bounds, named, rfl⟩ := h
  exact kept.reference _ _ named

theorem Builds.schema (kept : SchemaInvariant context names P)
    (parts : ∀ node c, compiles node c → P c.schema)
    (h : Builds context names limited enters compiles node c) : P c.schema := by
  cases h with
  | tooDeep | unclaimed | failed => exact kept.empty
  | whole _ _ atEnd =>
    refine kept.layered _ ?_
    rw [wrap_body]
    cases atEnd with
    | shaped _ yields =>
      rw [Assembly.addLayer_body]
      exact kept.structured _ _ _ _ (yields.mono parts)
    | shapeless =>
      rw [Assembly.addLayer_body]
      exact kept.empty
    | reentered _ named => exact kept.reference _ _ named
    | unclaimed => exact kept.empty

end Invariants

section Inside

variable {context : CompileContext π} {names : Table Identity String} {limited : Prop}
  {enters : Node π → Prop} {compiles : Node π → NodeSchema → Prop} {node : Node π}
  {adapter : Adapter π} {isOptional : Bool}

/-- The schema at a layer is an answer of the node of the layer. -/
theorem Builds.of_layer {outer inner : List (PeeledLayer π)} {layer : PeeledLayer π}
    {stop : ChainEnd π} {core : Assembly}
    (claimed : (context.registry.resolve node).value = some adapter)
    (unwraps : Unwraps context.registry node adapter (outer ++ layer :: inner) isOptional
      (.ok stop)) (atEnd : AtEnd context names enters compiles stop core) :
    ∃ c, Builds context names limited enters compiles layer.node c ∧
      c.schema = (wrap (layer :: inner) core).schema := by
  obtain ⟨isOptional', unwraps', claimed'⟩ := unwraps.inside claimed
  exact ⟨_, .whole claimed' unwraps' atEnd, rfl⟩

/-- The schema at the base is an answer of the base. -/
theorem Builds.of_base {layers : List (PeeledLayer π)} {base : Node π} {baseAdapter : Adapter π}
    {modifier : Option Modifier} {core : Assembly}
    (claimed : (context.registry.resolve node).value = some adapter)
    (unwraps : Unwraps context.registry node adapter layers isOptional
      (.ok (.base base baseAdapter modifier)))
    (atEnd : AtEnd context names enters compiles (.base base baseAdapter modifier) core) :
    ∃ c, Builds context names limited enters compiles base c ∧ c.schema = core.schema := by
  obtain ⟨isOptional', unwraps', claimed'⟩ := unwraps.atBase claimed
  exact ⟨_, .whole claimed' unwraps' atEnd, rfl⟩

end Inside

end Compile

end SchemaBridge
