import SchemaBridge.Proofs.Chain.Families
import SchemaBridge.Proofs.Compile.Entries
import SchemaBridge.Proofs.Compile.Limits
import SchemaBridge.Proofs.Compile.Walks

/-!
# Calls that are cut off

A run with a small limit is compared with one that reaches no limit, call by call. A call that is
cut off answers with the empty schema, which is wider than any other one, and what is built around
it is wider in turn. But a call that is cut off also says of its node that it is not optional, and
that its bounds belong to no family; an object around it then requires an entry that may be absent,
and constraints are written under other keywords. Where this does not happen, all answers of the run
that is cut off are wider.

Neither run gives a name to a node here, so no node in progress is met and no answer is a reference.

## Main definitions

* `Call.Tells` : no cut of a run leaves out what is used of an answer beside its schema.
* `Call.Beside` : a run, and one that reaches no limit on a node of the same unfolding.

## Main results

* `Call.Within.hasFamily` : a call only tells the family that its node has.
* `Call.Beside.structure` : the structure of a base is wider if the answers for its parts are.
* `Call.Beside.wider` : every call has a wider answer than that of the other run.
-/

namespace SchemaBridge

open Draft07 Chain Ledger Compile Plan

variable {π : Type}

/-- A structure is an assembly to which nothing has been added. -/
theorem Structure.bare_of_compile {context : CompileContext π}
    {child : Node π → CompileM NodeSchema} {node : Node π} {adapter : Adapter π} {s t : Ledger}
    {assembly : Assembly} (runs : compile context child node adapter s = (.ok assembly, t)) :
    ∃ body bounds, assembly = { body, bounds } := by
  rw [compile] at runs
  cases seen : adapter.shape? node with
  | none =>
    rw [seen] at runs
    exact ⟨[], .value, (Except.ok.inj (Prod.mk.inj runs).1).symm⟩
  | some shape =>
    rw [seen] at runs
    exact Assembly.bare_of_yields (yields_of_carryOut runs)

/-- A structure has no constraints yet. -/
theorem Structure.constraints_of_compile {context : CompileContext π}
    {child : Node π → CompileM NodeSchema} {node : Node π} {adapter : Adapter π} {s t : Ledger}
    {assembly : Assembly} (runs : compile context child node adapter s = (.ok assembly, t)) :
    assembly.constraints = .empty := by
  obtain ⟨body, bounds, rfl⟩ := bare_of_compile runs
  rfl

namespace Call

variable {context : CompileContext π} {root call : Call π}

/-! ### Runs without names -/

section Unnamed

variable (within : Within context root call) (trusted : Trusted context root root.books)
  (unnamed : (root.after context).names = [])
include within trusted unnamed

/-- In a run without names no node in progress is met again. -/
theorem Within.not_meets (id : Identity) : ¬ Meets context id call := by
  intro meets
  obtain ⟨atCall, -, later⟩ := within.keeps trusted
  obtain ⟨name, named⟩ := named_of_meets meets atCall
  have atEnd := later.names id name named
  rw [unnamed] at atEnd
  cases atEnd

/-- In a run without names no answer is a reference. -/
theorem Within.answer_plain : Table.get? (call.answer context).schema "$ref" = none := by
  have closed := schema_answer (closed_invariant context (root.after context).names)
    fun inner further => Within.answers (within.trans further) trusted
  by_contra reference
  obtain ⟨value, found⟩ := Option.ne_none_iff_exists'.1 reference
  obtain ⟨name, -, id, named⟩ := closed_of_entries closed _ value (.refl _) found
  rw [unnamed] at named
  cases named

/-- A call only tells the family that its node has. -/
theorem Within.hasFamily {family : BoundsFamily} (told : (call.answer context).bounds = family)
    (known : family ≠ .value) : HasFamily context.registry call.node family := by
  induction call using induct context with
  | step call ih =>
    have answers := within.answers trusted
    rw [Answers, Makes, unnamed] at answers
    obtain ⟨name, bounds, named, -⟩ | makes := answers
    · cases named
    · generalize call.answer context = c at told makes
      cases makes with
      | tooDeep | unclaimed | failed => exact absurd told.symm known
      | @whole adapter layers isOptional stop core claims unwraps atEnd =>
        rw [wrap_bounds] at told
        cases atEnd with
        | unclaimed => exact absurd told.symm known
        | reentered _ named => cases named
        | shapeless =>
          rw [Assembly.addLayer_bounds] at told
          exact absurd told.symm known
        | @shaped base baseAdapter modifier shape assembly seen yields =>
          rw [Assembly.addLayer_bounds] at told
          obtain ⟨claimed, bare⟩ := unwraps.bare_base claims
          refine unwraps.hasFamily claims ?_
          have inside {part : Node π} {c : NodeSchema} (hands : Hands context call part c)
              (told : c.bounds = family) : HasFamily context.registry part family := by
            obtain ⟨inner, spawns, rfl, rfl⟩ := hands
            exact ih inner spawns (within.tail spawns) told
          subst told
          cases Structure.consists_of_yields yields with
          | promise gives compiled => exact .awaited claimed bare seen gives (inside compiled rfl)
          | only gives compiled => exact .only claimed bare seen gives (inside compiled rfl)
          | literal | noValues | enumeration | union | intersection => exact absurd rfl known
          | date | typed | anything | nothing | tuple | object | array | set | record | map =>
            exact .shape claimed bare seen

/-- If a run has no names and reaches no limit either, every call on a claimed node comes to the end
of its chain. -/
theorem Within.peels_whole (unlimited : ¬ (root.after context).Limited) {adapter : Adapter π}
    (claims : (context.registry.resolve call.node).value = some adapter) :
    ∃ levels node s, call = ⟨levels + 1, node, s⟩ ∧ node.id ∉ s.active ∧
      ∃ layers isOptional stop ids t, Peels context node adapter
        (resolved context ⟨levels + 1, node, s⟩) layers isOptional stop ids t ∧ ¬ IsCut stop := by
  have whole : ¬ (call.after context).Limited :=
    fun cut => unlimited ((within.keeps trusted).2.2.limited cut)
  have unmet := within.not_meets trusted unnamed
  have new : call.node.id ∉ call.books.active := fun active => unmet _ (.here rfl active)
  obtain ⟨levels, node, s, rfl, layers, isOptional, stop, ids, t, peels, ends⟩ :=
    exists_peels new claims whole
  refine ⟨levels, node, s, rfl, new, layers, isOptional, stop, ids, t, peels, ?_⟩
  rintro (⟨again, rfl⟩ | ⟨vendor, rfl⟩)
  · exact unmet _ (.inside new claims peels rfl)
  · exact ends vendor rfl

end Unnamed

/-! ### What a cut may leave out -/

/-- No cut of a run leaves out what is used of the answer beside its schema: the entries of objects
that have an optional layer are said to be optional, and constraints are written under the keywords
of the family that a node has. -/
structure Tells (context : CompileContext π) (root : Call π) : Prop where
  flags : ∀ call entries, Within context root call → CompilesObject context call entries →
    ∀ entry ∈ Table.lastEntries entries,
      HasOptional context.registry entry.2.books.supply entry.2.node →
        (entry.2.answer context).isOptional = true
  families : ∀ call, Within context root call → (call.answer context).schema ≠ [] →
    HasConstraints context.registry call.node → ∀ family, family ≠ .value →
      HasFamily context.registry call.node family → (call.answer context).bounds = family

/-! ### Two runs -/

/-- A run of a compilation, and one with another limit on a node of the same unfolding. No node is
named in either of them, the second one reaches no limit, and what the first one cuts off does not
leave out anything that is used of an answer beside its schema. -/
structure Beside (context : CompileContext π) (limit : Nat) (nodes : Node π → Node π → Prop)
    (root root' : Call π) : Prop where
  respects : context.registry.Respects nodes
  trusted : Trusted context root root.books
  trusted' : Trusted (context.deepened limit) root' root'.books
  unnamed : (root.after context).names = []
  unnamed' : (root'.after (context.deepened limit)).names = []
  unlimited' : ¬ (root'.after (context.deepened limit)).Limited
  tells : Tells context root

section

variable {nodes : Node π → Node π → Prop} {limit : Nat} {targets : Targets}
  {root root' : Call π}
  (beside : Beside context limit nodes root root')
include beside

section Structures

variable {levels levels' : Nat} {node node' base base' : Node π}
  {adapter adapter' baseAdapter baseAdapter' : Adapter π} {layers layers' : List (PeeledLayer π)}
  {isOptional isOptional' : Bool} {modifier modifier' : Option Modifier}
  {ids ids' : List Identity} {s s' t t' u : Ledger} {assembly : Assembly}
  (within : Within context root ⟨levels + 1, node, s⟩)
  (new : node.id ∉ s.active) (claims : (context.registry.resolve node).value = some adapter)
  (new' : node'.id ∉ s'.active)
  (claims' : ((context.deepened limit).registry.resolve node').value = some adapter')
  (parts : ∀ inner inner', Spawns context ⟨levels + 1, node, s⟩ inner →
    Spawns (context.deepened limit) ⟨levels' + 1, node', s'⟩ inner' → nodes inner.node inner'.node →
      NodeSchema.Wider targets (inner.answer context) (inner'.answer (context.deepened limit)))

section Bases

variable (peels : Peels context node adapter (resolved context ⟨levels + 1, node, s⟩) layers
    isOptional (.ok (.base base baseAdapter modifier)) ids t)
  (peels' : Peels (context.deepened limit) node' adapter'
    (resolved (context.deepened limit) ⟨levels' + 1, node', s'⟩) layers' isOptional'
    (.ok (.base base' baseAdapter' modifier')) ids' t')
  (alike : Adapter.Alike nodes baseAdapter baseAdapter' base base')
include within new claims new' claims' parts peels peels' alike

/-- The structure of an object is wider than in the second run, if the calls for its entries have
wider answers: the keys that it lists are those of entries without an optional layer. -/
theorem Beside.object (seen : baseAdapter.shape? base = some .object)
    (runs : Structure.compile context (Compile.node context levels) base baseAdapter
      (noted base baseAdapter ids t) = (.ok assembly, u)) :
    ∃ assembly' u', Structure.compile (context.deepened limit)
        (Compile.node (context.deepened limit) levels') base' baseAdapter'
        (noted base' baseAdapter' ids' t') = (.ok assembly', u') ∧
      assembly.Wider targets assembly' := by
  have seen' := alike.shape.symm.trans seen
  obtain ⟨entries, supply, given⟩ := entries_of_compile seen runs
  obtain ⟨entries', next, given', related⟩ :=
    alike.entries.exists_right ⟨_, congrArg Prod.fst given⟩ t'.supply
  obtain ⟨v, written⟩ := @compile_object π context levels supply base baseAdapter
    (noted base baseAdapter ids t) entries seen given
  obtain ⟨v', written'⟩ := @compile_object π (context.deepened limit) levels' next base'
    baseAdapter' (noted base' baseAdapter' ids' t') entries' seen' given'
  obtain rfl := Except.ok.inj (Prod.mk.inj (runs.symm.trans written)).1
  refine ⟨_, v', written', widens_object ?_, .inl rfl, rfl, rfl, rfl⟩
  let widerCalls (inner inner' : Call π) : Prop := nodes inner.node inner'.node ∧
    NodeSchema.Wider targets (inner.answer context) (inner'.answer (context.deepened limit))
  have calls : List.Forall₂ (fun a b => a.1 = b.1 ∧ widerCalls a.2 b.2)
      (Table.lastEntries (entryCalls context levels entries
        { noted base baseAdapter ids t with supply }))
      (Table.lastEntries (entryCalls (context.deepened limit) levels' entries'
        { noted base' baseAdapter' ids' t' with supply := next })) :=
    Table.lastEntries_forall₂ (entryCalls_forall₂ related
      fun part v part' v' related visits visits' => parts _ _
        (.intro new claims peels seen (visits_object given visits))
        (.intro new' claims' peels' seen' (visits_object given' visits')) related)
  rw [Table.lastEntries_map, Table.lastEntries_map, List.forall₂_map_left_iff,
    List.forall₂_map_right_iff]
  refine ((List.forall₂_and_left ..).2 ⟨fun entry mem => mem, calls⟩).imp ?_
  rintro entry entry' ⟨mem, same, related, wider⟩
  refine ⟨same, wider.schema, fun isOptional => ?_⟩
  exact beside.tells.flags _ _ within (.intro new claims peels seen given) entry mem
    ((hasOptional_of_isOptional isOptional).alike beside.respects related _)

/-- The structure at the end of a chain is wider than in the second run, if the calls for the parts
have wider answers. -/
theorem Beside.structure
    (runs : Structure.compile context (Compile.node context levels) base baseAdapter
      (noted base baseAdapter ids t) = (.ok assembly, u)) :
    ∃ assembly' u', Structure.compile (context.deepened limit)
        (Compile.node (context.deepened limit) levels') base' baseAdapter'
        (noted base' baseAdapter' ids' t') = (.ok assembly', u') ∧
      assembly.Wider targets assembly' := by
  cases seen : baseAdapter.shape? base with
  | none =>
    have unseen' := alike.shape.symm.trans seen
    rw [Structure.compile, seen] at runs
    obtain rfl := Except.ok.inj (Prod.mk.inj runs).1
    refine ⟨.any, _, by rw [Structure.compile, unseen']; rfl, ?_⟩
    exact ⟨.refl rfl, .inl rfl, rfl, rfl, rfl⟩
  | some shape =>
    have seen' := alike.shape.symm.trans seen
    by_cases isObject : shape = .object
    · subst isObject
      exact beside.object within new claims new' claims' parts peels peels' alike seen runs
    · have spawns {part : Node π} {v : Ledger} :=
        @Spawns.intro π context levels node base part adapter baseAdapter layers isOptional modifier
          ids shape s t v new claims peels seen
      have spawns' {part : Node π} {v : Ledger} :=
        @Spawns.intro π (context.deepened limit) levels' node' base' part adapter' baseAdapter'
          layers' isOptional' modifier' ids' shape s' t' v new' claims' peels' seen'
      rw [Structure.compile, seen] at runs
      rw [Structure.compile, seen']
      dsimp only [CompileContext.deepened] at spawns' ⊢
      rw [Structure.ofShape_deepened] at spawns' ⊢
      exact Structure.carryOut_follows (Structure.ofShape_follows context.options alike isObject)
        runs fun part v part' v' related visits visits' =>
          parts _ _ (spawns visits) (spawns' visits') related

end Bases

include within new claims new' claims' parts

/-- What is at the end of a chain is wider than in the second run. Its constraints are those of the
base. -/
theorem Beside.core {stop last : ChainEnd π} {core : Assembly}
    (peels : Peels context node adapter (resolved context ⟨levels + 1, node, s⟩) layers isOptional
      (.ok stop) ids t)
    (peels' : Peels (context.deepened limit) node' adapter'
      (resolved (context.deepened limit) ⟨levels' + 1, node', s'⟩) layers' isOptional' (.ok last)
      ids' t')
    (ends : Plain.EndsAlike nodes stop last)
    (atEnd : Core context (Compile.node context levels) ids t stop core u) :
    (∃ core' u', Core (context.deepened limit) (Compile.node (context.deepened limit) levels')
        ids' t' last core' u' ∧ core.Wider targets core') ∧
      (core.constraints = .empty ∨ ∃ base baseAdapter modifier,
        Except.ok stop = (.ok (.base base baseAdapter modifier) : Except CompileFailure _) ∧
          HasConstraints context.registry base) := by
  cases ends with
  | @base base base' baseAdapter baseAdapter' modifier alike =>
    cases atEnd with
    | @built _ _ _ assembly _ runs =>
      obtain ⟨assembly', u', runs', wider⟩ :=
        beside.structure within new claims new' claims' parts peels peels' alike runs
      refine ⟨⟨_, u', .built runs', wider.addLayer alike modifier⟩, ?_⟩
      refine (assembly.constraints_addLayer_cases baseAdapter base modifier
        (Structure.constraints_of_compile runs)).imp_right ?_
      rintro ⟨c, set, nonempty⟩
      exact ⟨base, baseAdapter, modifier, rfl,
        .here (peels.unwraps.bare_base claims).1 set nonempty⟩
  | unclaimed =>
    cases atEnd
    exact ⟨⟨_, _, .unclaimed, .refl rfl, .inl rfl, rfl, rfl, rfl⟩, .inl rfl⟩

end Structures

/-- Answers of two calls are wider if the assemblies are that they are made of: the keywords under
which constraints are written are the same, since the family of the bounds is told if there are any.
-/
theorem Beside.answer {call call' : Call π} (within : Within context root call)
    (within' : Within (context.deepened limit) root' call') (related : nodes call.node call'.node)
    {f f' : Assembly} {isOptional isOptional' : Bool} (wider : f.Wider targets f')
    (made : call.answer context = ⟨f.schema, isOptional, f.bounds⟩)
    (made' : call'.answer (context.deepened limit) = ⟨f'.schema, isOptional', f'.bounds⟩)
    (set : f.constraints = .empty ∨ HasConstraints context.registry call.node) :
    NodeSchema.Wider targets (call.answer context) (call'.answer (context.deepened limit)) := by
  have plain' := within'.answer_plain beside.trusted' beside.unnamed'
  have told := @Within.hasFamily π (context.deepened limit) root' call' within' beside.trusted'
    beside.unnamed' f'.bounds
  have families := beside.tells.families call within
  rw [made] at families ⊢
  rw [made'] at plain' told ⊢
  refine ⟨?_, wider.bounds⟩
  by_cases empty : f.schema = []
  · rw [empty]
    exact widens_nil plain'
  refine wider.schema (set.imp_right fun set => ?_)
  refine wider.bounds.elim id fun unknown => ?_
  by_contra differs
  have known : f'.bounds ≠ .value := fun same => differs (unknown.trans same.symm)
  exact differs (families empty set _ known ((told rfl known).alike beside.respects related))

/-- Every call has a wider answer than a call of the second run for a related node. -/
theorem Beside.wider {call call' : Call π} (within : Within context root call)
    (within' : Within (context.deepened limit) root' call')
    (related : nodes call.node call'.node) :
    NodeSchema.Wider targets (call.answer context) (call'.answer (context.deepened limit)) := by
  induction call using induct context generalizing call' with
  | step call ih =>
    have lost {isOptional : Bool} (cut : call.answer context = ⟨[], isOptional, .value⟩) :
        NodeSchema.Wider targets (call.answer context) (call'.answer (context.deepened limit)) := by
      rw [cut]
      exact ⟨widens_nil (within'.answer_plain beside.trusted' beside.unnamed'), .inr rfl⟩
    have unmet := within.not_meets beside.trusted beside.unnamed
    cases call.begins context with
    | inProgress active => exact absurd (.here rfl active) (unmet _)
    | tooDeep new => exact lost (by rw [Call.answer, Compile.node, step_none context new]; rfl)
    | unclaimed new nobody =>
      exact lost (by rw [Call.answer, Compile.node, step_of_unclaimed context new nobody]; rfl)
    | @claimed levels node adapter s new claims =>
      obtain ⟨adapter', claims', alike⟩ := beside.respects.exists_right related claims
      obtain ⟨levels', node', s', rfl, new', layers', isOptional', stop', ids', t', peels',
        uncut⟩ := within'.peels_whole beside.trusted' beside.unnamed' beside.unlimited' claims'
      have result := @outcome π context levels node adapter s new claims
      generalize made : Call.answer context ⟨levels + 1, node, s⟩ = c,
        after context ⟨levels + 1, node, s⟩ = u at result
      cases result with
      | givenUp | broken => exact made ▸ lost made
      | @success layers isOptional stop ids t u core peels atEnd =>
        have straight (again : Node π) : stop ≠ .reentered again := by
          rintro rfl
          exact unmet _ (.inside new claims peels rfl)
        obtain ⟨last, rfl, ends, wrapped⟩ :=
          peels.unwraps.alike beside.respects alike peels'.unwraps straight uncut
        have parts (inner inner' : Call π) (spawns : Spawns context ⟨levels + 1, node, s⟩ inner)
            (spawns' : Spawns (context.deepened limit) ⟨levels' + 1, node', s'⟩ inner')
            (related : nodes inner.node inner'.node) :=
          ih inner spawns (within.tail spawns) (within'.tail spawns') related
        obtain ⟨⟨core', u', atEnd', wider⟩, set⟩ :=
          beside.core within new claims new' claims' parts peels peels' ends atEnd
        rw [← made]
        exact beside.answer within within' related (wrapped _ _ wider) made
          (answer_of_core new' claims' peels' atEnd') (peels.unwraps.hasConstraints claims set)

end

end Call

end SchemaBridge
