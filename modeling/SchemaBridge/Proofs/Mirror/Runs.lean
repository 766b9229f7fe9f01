import SchemaBridge.Compile.Document
import SchemaBridge.Proofs.Mirror.Books

/-!
# Identities never show

A compilation uses identities to tell whether it has met a node before, and for nothing else. So two
graphs that mirror each other have the same documents, with the same definitions under the same
names in the same order: run side by side, the two compilations take the same steps on partners, and
their books say the same about partners after every step.

## Main definitions

* `PeeledLayer.Mirrors`, `Peeled.Mirrors`, `ChainEnd.Mirrors`, `PeelsAlike` : chains over partners.
* `PartsMirror` : compilations of parts that come to the same for partners.

## Main results

* `Chain.peel_mirrors` : the same layers are taken off partners.
* `Compile.node_mirrors` : partners are compiled to the same schema, on books that mirror each
  other.
* `Registry.document_eq_of_mirrors` : graphs that mirror each other have the same documents.
-/

namespace SchemaBridge

variable {σ π π' : Type} [Preorder σ] {W : Correspondence σ π π'} {stage later : σ}

/-! ### Layers -/

/-- Two layers are of the same modifier, and belong to partners that are seen in the same way. -/
structure PeeledLayer.Mirrors (W : Correspondence σ π π') (stage : σ) (layer : PeeledLayer π)
    (layer' : PeeledLayer π') : Prop where
  nodes : W.nodes stage layer.node layer'.node
  adapters : Adapter.Mirrors W.toPairing stage layer.adapter layer'.adapter layer.node layer'.node
  modifier : layer.modifier = layer'.modifier

/-- The same has been taken off two partners. -/
structure Peeled.Mirrors (W : Correspondence σ π π') (stage : σ) (peeled : Peeled π)
    (peeled' : Peeled π') : Prop where
  layers : List.Forall₂ (PeeledLayer.Mirrors W stage) peeled.layers peeled'.layers
  entered : List.Forall₂ (W.ids stage) peeled.entered peeled'.entered
  isOptional : peeled.isOptional = peeled'.isOptional

/-- Two chains end in the same way: at partners, or at nodes that nobody claims. -/
inductive ChainEnd.Mirrors (W : Correspondence σ π π') (stage : σ) :
    ChainEnd π → ChainEnd π' → Prop where
  | base {n : Node π} {n' : Node π'} {adapter : Adapter π} {adapter' : Adapter π'}
      (modifier : Option Modifier) (nodes : W.nodes stage n n')
      (adapters : Adapter.Mirrors W.toPairing stage adapter adapter' n n') :
      Mirrors W stage (.base n adapter modifier) (.base n' adapter' modifier)
  | reentered {n : Node π} {n' : Node π'} (nodes : W.nodes stage n n') :
      Mirrors W stage (.reentered n) (.reentered n')
  | unclaimed : Mirrors W stage .unclaimed .unclaimed

theorem PeeledLayer.Mirrors.mono {layer : PeeledLayer π} {layer' : PeeledLayer π'}
    (h : Mirrors W stage layer layer') (le : stage ≤ later) : Mirrors W later layer layer' :=
  ⟨W.nodes_mono le h.nodes, h.adapters.mono le, h.modifier⟩

theorem Peeled.Mirrors.mono {peeled : Peeled π} {peeled' : Peeled π'}
    (h : Mirrors W stage peeled peeled') (le : stage ≤ later) : Mirrors W later peeled peeled' :=
  ⟨h.layers.imp fun _ _ same => same.mono le,
    h.entered.imp fun _ _ => Correspondence.ids_mono le, h.isOptional⟩

theorem Peeled.Mirrors.noteModifier {peeled : Peeled π} {peeled' : Peeled π'}
    (h : Mirrors W stage peeled peeled') (modifier : Modifier) :
    Mirrors W stage (Chain.noteModifier peeled modifier) (Chain.noteModifier peeled' modifier) :=
  { h with isOptional := congrArg (· || decide (modifier = .optional)) h.isOptional }

theorem Peeled.Mirrors.push {peeled : Peeled π} {peeled' : Peeled π'} {n : Node π} {n' : Node π'}
    {adapter : Adapter π} {adapter' : Adapter π'} (h : Mirrors W stage peeled peeled')
    (nodes : W.nodes stage n n')
    (adapters : Adapter.Mirrors W.toPairing stage adapter adapter' n n') (modifier : Modifier) :
    Mirrors W stage (Chain.push peeled ⟨n, adapter, modifier⟩)
      (Chain.push peeled' ⟨n', adapter', modifier⟩) :=
  { h with layers := .cons ⟨nodes, adapters, rfl⟩ h.layers }

theorem Peeled.Mirrors.enter {peeled : Peeled π} {peeled' : Peeled π'} {n : Node π} {n' : Node π'}
    (h : Mirrors W stage peeled peeled') (nodes : W.nodes stage n n') :
    Mirrors W stage { peeled with entered := peeled.entered ++ [n.id] }
      { peeled' with entered := peeled'.entered ++ [n'.id] } :=
  { h with entered := List.rel_append h.entered (.cons (Correspondence.ids_of_nodes nodes) .nil) }

theorem ChainEnd.Mirrors.mono {stop : ChainEnd π} {stop' : ChainEnd π'}
    (h : Mirrors W stage stop stop') (le : stage ≤ later) : Mirrors W later stop stop' := by
  cases h with
  | base modifier nodes adapters => exact .base modifier (W.nodes_mono le nodes) (adapters.mono le)
  | reentered nodes => exact .reentered (W.nodes_mono le nodes)
  | unclaimed => exact .unclaimed

open CompileM Correspondence Ledger

variable {context : CompileContext π} {context' : CompileContext π'} {n : Node π} {n' : Node π'}
  {adapter : Adapter π} {adapter' : Adapter π'}

/-- The same has been taken off two partners, and their chains end in the same way. -/
def PeelsAlike (W : Correspondence σ π π') (stage : σ)
    (r : Peeled π × Except CompileFailure (ChainEnd π))
    (r' : Peeled π' × Except CompileFailure (ChainEnd π')) : Prop :=
  Peeled.Mirrors W stage r.1 r'.1 ∧ Concur (ChainEnd.Mirrors W stage) r.2 r'.2

private theorem peeled_mirrors {peeled : Peeled π} {peeled' : Peeled π'}
    {stop : Except CompileFailure (ChainEnd π)} {stop' : Except CompileFailure (ChainEnd π')}
    (off : Peeled.Mirrors W stage peeled peeled')
    (ends : Concur (ChainEnd.Mirrors W stage) stop stop') :
    CompileM.Mirrors W stage (PeelsAlike W) (pure (peeled, stop)) (pure (peeled', stop')) :=
  pure_mirrors fun _ le => ⟨off.mono le, ends.imp fun _ _ same => same.mono le⟩

/-- The same layers are taken off partners, and the chains end in the same way. -/
theorem Chain.peel_mirrors (contexts : CompileContext.Mirrors W context context') (room : Nat)
    {peeled : Peeled π} {peeled' : Peeled π'} (off : Peeled.Mirrors W stage peeled peeled')
    (nodes : W.nodes stage n n')
    (adapters : Adapter.Mirrors W.toPairing stage adapter adapter' n n') :
    CompileM.Mirrors W stage (PeelsAlike W) (peel context room peeled n adapter)
      (peel context' room peeled' n' adapter') := by
  induction room generalizing stage peeled peeled' n n' adapter adapter' with
  | zero =>
    rw [peel, peel, ← adapters.modifier]
    cases adapter.modifier? n with
    | none => exact peeled_mirrors off (.given (.base none nodes adapters))
    | some modifier => exact peeled_mirrors off (.failed _ _)
  | succ room ih =>
    rw [peel, peel, ← adapters.modifier]
    cases adapter.modifier? n with
    | none => exact peeled_mirrors off (.given (.base none nodes adapters))
    | some modifier =>
      have noted := off.noteModifier modifier
      -- Where the answers are, there may be new nodes; what was known before still holds.
      refine Mirrors.bind (ask_mirrors adapters.inner) fun asked le r r' both => ?_
      have noted := noted.mono le
      have nodes := W.nodes_mono le nodes
      have adapters := adapters.mono le
      cases both with
      | failed => exact peeled_mirrors noted (.failed _ _)
      | given found =>
        cases found with
        | none => exact peeled_mirrors noted (.given (.base _ nodes adapters))
        | @some inner inner' inside =>
          have pushed := noted.push nodes adapters modifier
          refine (isActive_mirrors inside).bind ?_
          rintro seen le again _ rfl
          have inside := W.nodes_mono le inside
          cases again with
          | true => exact peeled_mirrors (pushed.mono le) (.given (.reentered inside))
          | false =>
            refine (beginWork_mirrors inside).bind fun begun le' _ _ _ => ?_
            have inside := W.nodes_mono le' inside
            have entered := (pushed.mono (le.trans le')).enter inside
            refine (resolve_mirrors contexts inside).bind fun resolved le next next' claims => ?_
            cases claims with
            | none =>
              exact (report_mirrors _ _).bind fun reported le' _ _ _ =>
                peeled_mirrors (entered.mono (le.trans le')) (.given .unclaimed)
            | some alike => exact ih (entered.mono le) (W.nodes_mono le inside) alike

/-! ### Structures -/

/-- The compilations of parts come to the same schema for partners, on books that mirror each
other. -/
def PartsMirror (W : Correspondence σ π π') (child : Node π → CompileM NodeSchema)
    (child' : Node π' → CompileM NodeSchema) : Prop :=
  ∀ stage n n', W.nodes stage n n' → CompileM.Mirrors W stage (fun _ => Eq) (child n) (child' n')

variable {child : Node π → CompileM NodeSchema} {child' : Node π' → CompileM NodeSchema}

/-- Plans that go the same way keep books mirroring each other, if the compilations of their parts
do. -/
theorem Structure.carryOut_mirrors {α α' : Type} {related : σ → α → α' → Prop} {plan : Plan π α}
    {plan' : Plan π' α'} (children : PartsMirror W child child')
    (h : Plan.Mirrors W.toPairing stage related plan plan')
    (mono : ∀ stage later, stage ≤ later → ∀ a a', related stage a a' → related later a a') :
    MirrorsAttempt W stage related (carryOut child plan) (carryOut child' plan') := by
  induction h with
  | done h => exact .pure fun later le => mono _ later le _ _ h
  | ask answers _ ih =>
    exact (ask_mirrors answers).bind fun later le a a' given => ih later le a a' given mono
  | compile parts _ ih =>
    refine (lift_mirrors (children _ _ _ parts)).bind ?_
    rintro later le c _ rfl
    exact ih later le c mono

/-- The structures of partners are compiled to the same assembly. -/
theorem Structure.compile_mirrors (contexts : CompileContext.Mirrors W context context')
    (children : PartsMirror W child child')
    (h : Adapter.Mirrors W.toPairing stage adapter adapter' n n') :
    MirrorsAttempt W stage (fun _ => Eq) (compile context child n adapter)
      (compile context' child' n' adapter') := by
  rw [compile, compile, ← h.shape, ← contexts.options]
  cases adapter.shape? n with
  | none =>
    exact (lift_mirrors (report_mirrors _ _)).bind fun _ _ _ _ _ => .pure fun _ _ => rfl
  | some shape =>
    exact carryOut_mirrors children (ofShape_mirrors context.options h shape)
      fun _ _ _ _ _ same => same

namespace Compile

/-! ### Compilations -/

theorem core_mirrors (contexts : CompileContext.Mirrors W context context')
    (children : PartsMirror W child child')
    {entered entered' : List Identity} (ids : List.Forall₂ (W.ids stage) entered entered')
    {stop : ChainEnd π} {stop' : ChainEnd π'} (ends : ChainEnd.Mirrors W stage stop stop') :
    MirrorsAttempt W stage (fun _ => Eq) (core context child entered stop)
      (core context' child' entered' stop') := by
  cases ends with
  | unclaimed => exact .pure fun _ _ => rfl
  | reentered nodes =>
    refine (lift_mirrors (refer_mirrors contexts nodes)).bind ?_
    rintro later - reference _ rfl
    exact .pure fun _ _ => rfl
  | base modifier nodes adapters =>
    rw [core, core, ← adapters.shape]
    refine (lift_mirrors (noteFamily_mirrors _ ids)).bind fun noted le _ _ _ => ?_
    refine (Structure.compile_mirrors contexts children (adapters.mono le)).bind ?_
    rintro built le' assembly _ rfl
    rw [Assembly.addLayer_mirrors adapters]
    exact (lift_mirrors (complete_mirrors (W.nodes_mono (le.trans le') nodes) _)).bind
      fun _ _ _ _ _ => .pure fun _ _ => rfl

theorem rewrap_mirrors (assembly : Assembly) {layer : PeeledLayer π} {layer' : PeeledLayer π'}
    (h : PeeledLayer.Mirrors W stage layer layer') (le : stage ≤ later) :
    CompileM.Mirrors W later (fun _ => Eq) (rewrap assembly layer) (rewrap assembly layer') := by
  rw [rewrap, rewrap, ← h.modifier, Assembly.addLayer_mirrors h.adapters]
  exact (complete_mirrors (W.nodes_mono le h.nodes) _).bind fun _ _ _ _ _ =>
    pure_mirrors fun _ _ => rfl

theorem rewrapAll_mirrors (assembly : Assembly) {layers : List (PeeledLayer π)}
    {layers' : List (PeeledLayer π')}
    (h : List.Forall₂ (PeeledLayer.Mirrors W stage) layers layers') :
    CompileM.Mirrors W stage (fun _ => Eq) (rewrapAll assembly layers)
      (rewrapAll assembly layers') := by
  suffices from_stage : ∀ later, stage ≤ later → ∀ assembly, CompileM.Mirrors W later (fun _ => Eq)
      (rewrapAll assembly layers) (rewrapAll assembly layers') from from_stage _ le_rfl assembly
  induction h with
  | nil => exact fun _ _ _ => pure_mirrors fun _ _ => rfl
  | cons first _ ih =>
    intro later le assembly
    refine (rewrap_mirrors assembly first le).bind ?_
    rintro laid le' assembly _ rfl
    exact ih laid (le.trans le') assembly

/-- What is put together for partners is the same, or both are given up. -/
theorem finish_mirrors (contexts : CompileContext.Mirrors W context context')
    (children : PartsMirror W child child')
    {peeled : Peeled π} {peeled' : Peeled π'} (off : Peeled.Mirrors W stage peeled peeled')
    {stop : Except CompileFailure (ChainEnd π)} {stop' : Except CompileFailure (ChainEnd π')}
    (ends : Concur (ChainEnd.Mirrors W stage) stop stop') :
    MirrorsAttempt W stage (fun _ => Eq) (finish context child peeled stop)
      (finish context' child' peeled' stop') := by
  cases ends with
  | failed failure failure' => exact throw_mirrors failure failure'
  | given ends =>
    refine (core_mirrors contexts children off.entered ends).bind ?_
    rintro later le assembly _ rfl
    exact lift_mirrors (rewrapAll_mirrors assembly (off.mono le).layers)

/-- Partners that are not in progress are compiled to the same schema. -/
theorem claimed_mirrors (contexts : CompileContext.Mirrors W context context')
    (children : PartsMirror W child child')
    (nodes : W.nodes stage n n')
    (adapters : Adapter.Mirrors W.toPairing stage adapter adapter' n n') :
    CompileM.Mirrors W stage (fun _ => Eq) (claimed context child n adapter)
      (claimed context' child' n' adapter') := by
  rw [claimed, claimed, ← contexts.options]
  refine (beginWork_mirrors nodes).bind fun begun le _ _ _ => ?_
  have nodes := W.nodes_mono le nodes
  have off : Peeled.Mirrors W begun ⟨[], [n.id], false⟩ ⟨[], [n'.id], false⟩ :=
    ⟨.nil, .cons (ids_of_nodes nodes) .nil, rfl⟩
  refine (Chain.peel_mirrors contexts _ off nodes (adapters.mono le)).bind ?_
  rintro taken - ⟨peeled, stop⟩ ⟨peeled', stop'⟩ ⟨off, ends⟩
  refine Mirrors.bind (finish_mirrors contexts children off ends) fun built le r r' both => ?_
  have off := off.mono le
  refine (endWork_mirrors off.entered).bind fun ended le _ _ _ => ?_
  cases both with
  | failed failure failure' =>
    refine (report_mirrors _ _).bind fun reported le' _ _ _ => ?_
    refine (abandon_mirrors (off.mono (le.trans le')).entered).bind fun _ _ _ _ _ => ?_
    exact pure_mirrors fun _ _ => by rw [off.isOptional]
  | given same =>
    subst same
    exact pure_mirrors fun _ _ => by rw [off.isOptional]

/-- One step of two compilations: partners come to the same schema if their parts do. -/
theorem step_mirrors (contexts : CompileContext.Mirrors W context context')
    {child? : Option (Node π → CompileM NodeSchema)}
    {child?' : Option (Node π' → CompileM NodeSchema)}
    (children : Option.Rel (PartsMirror W) child? child?')
    (nodes : W.nodes stage n n') :
    CompileM.Mirrors W stage (fun _ => Eq) (step context child? n) (step context' child?' n') := by
  refine (isActive_mirrors nodes).bind ?_
  rintro seen le again _ rfl
  have nodes := W.nodes_mono le nodes
  cases again with
  | true =>
    refine (refer_mirrors contexts nodes).bind ?_
    rintro later - reference _ rfl
    exact pure_mirrors fun _ _ => rfl
  | false =>
    cases children with
    | none => exact (report_mirrors _ _).bind fun _ _ _ _ _ => pure_mirrors fun _ _ => rfl
    | some children =>
      refine (resolve_mirrors contexts nodes).bind fun resolved le' adapter? adapter?' claims => ?_
      cases claims with
      | none => exact (report_mirrors _ _).bind fun _ _ _ _ _ => pure_mirrors fun _ _ => rfl
      | some alike => exact claimed_mirrors contexts children (W.nodes_mono le' nodes) alike

/-- Partners are compiled to the same schema, on books that mirror each other. -/
theorem node_mirrors (contexts : CompileContext.Mirrors W context context') (levels : Nat)
    (nodes : W.nodes stage n n') :
    CompileM.Mirrors W stage (fun _ => Eq) (node context levels n) (node context' levels n') := by
  induction levels generalizing stage n n' with
  | zero => exact step_mirrors contexts .none nodes
  | succ levels ih => exact step_mirrors contexts (.some fun _ _ _ related => ih related) nodes

end Compile

namespace Registry

/-- Graphs that mirror each other have the same documents, whatever the identities of their nodes
are, and whatever identities the nodes get that are built on the way. -/
theorem document_eq_of_mirrors {registry : Registry π} {registry' : Registry π'}
    (registries : Mirrors W registry registry') (options : DocumentOptions)
    (roots : W.nodes stage n n') {supply supply' : Nat}
    (supplies : W.supplies stage supply supply') :
    (registry.compile options n supply).1.value =
      (registry'.compile options n' supply').1.value := by
  have contexts : CompileContext.Mirrors W ⟨registry, options⟩ ⟨registry', options⟩ :=
    ⟨registries, rfl⟩
  have start : Ledger.Mirrors W stage (.start supply) (.start supply') :=
    ⟨.nil, .nil, .nil, rfl, rfl, rfl, supplies⟩
  obtain ⟨_, -, root, books⟩ :=
    Compile.node_mirrors contexts (options.maxDepth + 1) roots stage le_rfl _ _ start
  exact congrArg₂ (Compile.document options) (congrArg NodeSchema.schema root) books.definitions

/-- A vendor whose nodes are all objects that hold themselves and a node that is built for them. So
many identities are left out whenever a node is built. -/
def tower (gap : Nat) : Adapter Unit where
  vendor := "tower"
  claims _ := true
  holds predicate _ := predicate = .shape .object
  entries n supply :=
    (.ok [("self", n), ("next", ⟨⟨supply + gap⟩, "floor", ()⟩)], supply + gap + 1)

/-- Nodes of towers are partners if their identities are paired. -/
def towers : Correspondence Renaming Unit Unit :=
  .byContents (fun _ _ _ => True) fun _ _ _ _ => trivial

private theorem tower_mirrors (gap gap' : Nat) :
    Mirrors towers ⟨[tower gap], .firstMatch⟩ ⟨[tower gap'], .firstMatch⟩ := by
  intro r n n' partners
  change Option.Rel _ (some (tower gap)) (some (tower gap'))
  refine .some ?_
  have nothing {r : Renaming} : Answer.Mirrors towers.toPairing r
      (fun later => Option.Rel (towers.nodes later)) (pure none) (pure none) :=
    Answer.pure_mirrors fun _ _ => .none
  have empty {r : Renaming} : Answer.Mirrors towers.toPairing r
      (fun later => List.Forall₂ (towers.nodes later)) (pure []) (pure []) :=
    Answer.pure_mirrors fun _ _ => .nil
  refine ⟨rfl, rfl, rfl, rfl, rfl, rfl, rfl, rfl, rfl, rfl, rfl, nothing, ?_, nothing, empty, empty,
    nothing, nothing, nothing, nothing, nothing, nothing, empty, nothing⟩
  intro now le supply supply' below
  obtain ⟨later, from_now, built, below⟩ := Renaming.exists_built below
    (Nat.le_add_right supply gap) (Nat.le_add_right supply' gap')
  have partners := towers.nodes_mono (le.trans from_now) partners
  exact ⟨later, from_now, .given (.cons ⟨rfl, partners⟩ (.cons ⟨rfl, built, trivial⟩ .nil)), below⟩

/-- Towers have the same document wherever the identities start, and whichever are left out. -/
theorem towers_agree :
    (compile ⟨[tower 0], .firstMatch⟩ { maxDepth := 2 } ⟨⟨0⟩, "floor", ()⟩ 1).1.value =
      (compile ⟨[tower 3], .firstMatch⟩ { maxDepth := 2 } ⟨⟨7⟩, "floor", ()⟩ 40).1.value := by
  let start : Renaming := ⟨fun _ _ => False, fun _ _ _ h => h.elim, fun _ _ _ h => h.elim⟩
  have unpaired : start.Below 0 0 := fun _ _ h => h.elim
  obtain ⟨roots, -, paired, below⟩ :=
    Renaming.exists_built unpaired (Nat.zero_le 0) (Nat.zero_le 7)
  have supplies : towers.supplies roots 1 40 := by
    intro i i' h
    obtain ⟨lt, lt'⟩ := below i i' h
    exact ⟨lt, Nat.lt_of_lt_of_le lt' (by decide)⟩
  exact document_eq_of_mirrors (tower_mirrors 0 3) { maxDepth := 2 } ⟨paired, trivial⟩ supplies

end Registry

end SchemaBridge
