import SchemaBridge.Proofs.Compile.Required
import SchemaBridge.Proofs.Plan.Widening

/-!
# What stands in a chain

The chain of a node and that of a node that is seen alike go the same way, as far as neither of them
is cut off. So whatever is found along a chain is a property of what is seen of the node: whether
some layer is optional, whether constraints are set, and under which family of keywords bounds are
written.

## Main definitions

* `Chain.HasConstraints` : constraints are set along the chain of a node.
* `Chain.HasFamily` : bounds of a node are written under the keywords of a family.

## Main results

* `Chain.Unwraps.alike` : the chains of nodes that are seen alike.
* `Chain.HasOptional.alike`, `Chain.HasFamily.alike` : what is found along them.
-/

namespace SchemaBridge

variable {π : Type} {nodes : Node π → Node π → Prop} {registry : Registry π}
  {adapter adapter' : Adapter π} {node node' : Node π}

/-! ### Related nodes -/

/-- A node that is related to a claimed one is claimed by an adapter that sees it alike. -/
theorem Registry.Respects.exists_left (respects : registry.Respects nodes)
    (related : nodes node node') (claims : (registry.resolve node').value = some adapter') :
    ∃ adapter, (registry.resolve node).value = some adapter ∧
      Adapter.Alike nodes adapter adapter' node node' := by
  have both := respects node node' related
  rw [claims] at both
  generalize (registry.resolve node).value = found at both
  cases both with
  | some alike => exact ⟨_, rfl, alike⟩

/-- A node that a claimed one is related to is claimed by an adapter that sees it alike. -/
theorem Registry.Respects.exists_right (respects : registry.Respects nodes)
    (related : nodes node node') (claims : (registry.resolve node).value = some adapter) :
    ∃ adapter', (registry.resolve node').value = some adapter' ∧
      Adapter.Alike nodes adapter adapter' node node' := by
  have both := respects node node' related
  rw [claims] at both
  generalize (registry.resolve node').value = found at both
  cases both with
  | some alike => exact ⟨_, rfl, alike⟩

theorem Registry.Respects.alike (respects : registry.Respects nodes) (related : nodes node node')
    (claims : (registry.resolve node).value = some adapter)
    (claims' : (registry.resolve node').value = some adapter') :
    Adapter.Alike nodes adapter adapter' node node' := by
  have both := respects node node' related
  rw [claims, claims'] at both
  cases both with
  | some alike => exact alike

theorem Registry.Respects.claimed_iff (respects : registry.Respects nodes)
    (related : nodes node node') :
    (registry.resolve node).value = none ↔ (registry.resolve node').value = none := by
  have both := respects node node' related
  generalize (registry.resolve node).value = x, (registry.resolve node').value = y at both
  cases both <;> simp

theorem Assembly.addLayer_constraints (f : Assembly) (adapter : Adapter π) (node : Node π)
    (modifier : Option Modifier) : (f.addLayer adapter node modifier).constraints =
      (adapter.constraints node).elim f.constraints f.constraints.coveredBy := by
  unfold addLayer
  dsimp only
  split <;> rfl

/-- A layer sets constraints of its own, or leaves an assembly without constraints as it is. -/
theorem Assembly.constraints_addLayer_cases (f : Assembly) (adapter : Adapter π) (node : Node π)
    (modifier : Option Modifier) (free : f.constraints = .empty) :
    (f.addLayer adapter node modifier).constraints = .empty ∨
      ∃ c, adapter.constraints node = some c ∧ c ≠ .empty := by
  rw [addLayer_constraints, free]
  cases set : adapter.constraints node with
  | none => exact .inl rfl
  | some c =>
    by_cases empty : c = .empty
    · exact .inl (by rw [empty]; rfl)
    · exact .inr ⟨c, rfl, empty⟩

namespace Chain

/-! ### Chains of nodes that are seen alike -/

/-- A chain that has an end goes the same way as that of a node that is seen alike, unless this one
is cut off. -/
theorem Unwraps.alike {targets : Draft07.Targets} (respects : registry.Respects nodes)
    (alike : Adapter.Alike nodes adapter adapter' node node')
    {layers layers' : List (PeeledLayer π)} {isOptional isOptional' : Bool} {stop : ChainEnd π}
    {stop' : Except CompileFailure (ChainEnd π)}
    (h : Unwraps registry node adapter layers isOptional (.ok stop))
    (h' : Unwraps registry node' adapter' layers' isOptional' stop')
    (straight : ∀ again, stop ≠ .reentered again) (uncut : ¬ IsCut stop') :
    ∃ last, stop' = .ok last ∧ Plain.EndsAlike nodes stop last ∧
      ∀ f f', Assembly.Wider targets f f' →
        Assembly.Wider targets (wrap layers f) (wrap layers' f') := by
  generalize ending : Except.ok stop = last at h
  induction h generalizing node' adapter' layers' isOptional' with
  | base plain =>
    obtain rfl := Except.ok.inj ending
    have plain' := alike.modifier.symm.trans plain
    cases h' with
    | base => exact ⟨_, rfl, .base none alike, fun _ _ wider => wider⟩
    | endless wrapped | failed wrapped | hollow wrapped | reentered wrapped | unclaimed wrapped
    | layer wrapped => cases plain'.symm.trans wrapped
  | endless | failed => cases ending
  | hollow wrapped gives =>
    obtain rfl := Except.ok.inj ending
    have wrapped' := alike.modifier.symm.trans wrapped
    cases h' with
    | base plain => cases plain.symm.trans wrapped'
    | endless => exact absurd (.inr ⟨_, rfl⟩) uncut
    | failed _ fails => exact absurd fails (alike.inner.not_fails gives _)
    | hollow wrapped'' =>
      obtain rfl := Option.some.inj (wrapped'.symm.trans wrapped'')
      exact ⟨_, rfl, .base _ alike, fun _ _ wider => wider⟩
    | reentered _ gives' | unclaimed _ gives' | layer _ gives' =>
      cases alike.inner.partners gives gives'
  | reentered => exact absurd (Except.ok.inj ending) (straight _)
  | unclaimed wrapped gives nobody =>
    obtain rfl := Except.ok.inj ending
    have wrapped' := alike.modifier.symm.trans wrapped
    cases h' with
    | base plain => cases plain.symm.trans wrapped'
    | endless => exact absurd (.inr ⟨_, rfl⟩) uncut
    | failed _ fails => exact absurd fails (alike.inner.not_fails gives _)
    | hollow _ gives' => cases alike.inner.partners gives gives'
    | reentered => exact absurd (.inl ⟨_, rfl⟩) uncut
    | unclaimed wrapped'' =>
      obtain rfl := Option.some.inj (wrapped'.symm.trans wrapped'')
      exact ⟨_, rfl, .unclaimed, fun _ _ wider => wider.addLayer alike _⟩
    | layer _ gives' claimed =>
      cases alike.inner.partners gives gives' with
      | some related => cases ((respects.claimed_iff related).1 nobody).symm.trans claimed
  | layer wrapped gives claimed rest ih =>
    have wrapped' := alike.modifier.symm.trans wrapped
    cases h' with
    | base plain => cases plain.symm.trans wrapped'
    | endless => exact absurd (.inr ⟨_, rfl⟩) uncut
    | failed _ fails => exact absurd fails (alike.inner.not_fails gives _)
    | hollow _ gives' => cases alike.inner.partners gives gives'
    | reentered => exact absurd (.inl ⟨_, rfl⟩) uncut
    | unclaimed _ gives' nobody =>
      cases alike.inner.partners gives gives' with
      | some related => cases ((respects.claimed_iff related).2 nobody).symm.trans claimed
    | layer wrapped'' gives' claimed' rest' =>
      obtain rfl := Option.some.inj (wrapped'.symm.trans wrapped'')
      cases alike.inner.partners gives gives' with
      | some related =>
        obtain ⟨last, same, ends, wider⟩ :=
          ih (respects.alike related claimed claimed') rest' ending
        exact ⟨last, same, ends, fun f f' h => (wider f f' h).addLayer alike _⟩

/-- A node that is seen like one that has an optional layer has one too. -/
theorem HasOptional.alike (respects : registry.Respects nodes) {supply' : Nat}
    (h : HasOptional registry supply' node') (related : nodes node node') (supply : Nat) :
    HasOptional registry supply node := by
  induction h generalizing node supply with
  | here claims wrapped =>
    obtain ⟨adapter, claims', alike⟩ := respects.exists_left related claims
    exact .here claims' (alike.modifier.trans wrapped)
  | inside claims wrapped gives _ ih =>
    obtain ⟨adapter, claims', alike⟩ := respects.exists_left related claims
    obtain ⟨inner, next, given, inside⟩ := alike.inner.exists_left ⟨_, by rw [gives]⟩ supply
    cases inside with
    | some inside => exact .inside claims' (alike.modifier.trans wrapped) given (ih inside next)

/-! ### Constraints and families -/

/-- Some layer of a node sets constraints, or the node at the end of its layers does. -/
inductive HasConstraints (registry : Registry π) : Node π → Prop where
  | here {node : Node π} {adapter : Adapter π} {c : Constraints}
      (claims : (registry.resolve node).value = some adapter)
      (set : adapter.constraints node = some c) (nonempty : c ≠ .empty) :
      HasConstraints registry node
  | inside {node inner : Node π} {adapter : Adapter π} {modifier : Modifier}
      (claims : (registry.resolve node).value = some adapter)
      (wrapped : adapter.modifier? node = some modifier)
      (gives : Answer.Gives (adapter.inner node) (some inner))
      (rest : HasConstraints registry inner) : HasConstraints registry node

/-- The bounds of a node are written under the keywords of a family: that of the shape at the end of
its layers, or of what is inside a promise or a union of one option there. -/
inductive HasFamily (registry : Registry π) : Node π → BoundsFamily → Prop where
  | shape {node : Node π} {adapter : Adapter π} {shape : Shape}
      (claims : (registry.resolve node).value = some adapter)
      (bare : adapter.modifier? node = none ∨ Answer.Gives (adapter.inner node) none)
      (seen : adapter.shape? node = some shape) : HasFamily registry node shape.bounds
  | inside {node inner : Node π} {adapter : Adapter π} {modifier : Modifier} {family : BoundsFamily}
      (claims : (registry.resolve node).value = some adapter)
      (wrapped : adapter.modifier? node = some modifier)
      (gives : Answer.Gives (adapter.inner node) (some inner))
      (rest : HasFamily registry inner family) : HasFamily registry node family
  | awaited {node inner : Node π} {adapter : Adapter π} {family : BoundsFamily}
      (claims : (registry.resolve node).value = some adapter)
      (bare : adapter.modifier? node = none ∨ Answer.Gives (adapter.inner node) none)
      (seen : adapter.shape? node = some .promise)
      (gives : Answer.Gives (adapter.awaited node) (some inner))
      (rest : HasFamily registry inner family) : HasFamily registry node family
  | only {node option : Node π} {adapter : Adapter π} {family : BoundsFamily}
      (claims : (registry.resolve node).value = some adapter)
      (bare : adapter.modifier? node = none ∨ Answer.Gives (adapter.inner node) none)
      (seen : adapter.shape? node = some .union)
      (gives : Answer.Gives (adapter.options node) [option])
      (rest : HasFamily registry option family) : HasFamily registry node family

/-- A node that is seen like another one has the same family. -/
theorem HasFamily.alike (respects : registry.Respects nodes) {family : BoundsFamily}
    (h : HasFamily registry node' family) (related : nodes node node') :
    HasFamily registry node family := by
  have bareAlike {node node' : Node π} {adapter adapter' : Adapter π}
      (alike : Adapter.Alike nodes adapter adapter' node node')
      (bare : adapter'.modifier? node' = none ∨ Answer.Gives (adapter'.inner node') none) :
      adapter.modifier? node = none ∨ Answer.Gives (adapter.inner node) none := by
    refine bare.imp alike.modifier.trans fun gives => ?_
    obtain ⟨inner, t, given, related⟩ := alike.inner.exists_left gives 0
    cases related with
    | none => exact ⟨0, by rw [given]⟩
  induction h generalizing node with
  | shape claims bare seen =>
    obtain ⟨adapter, claims', alike⟩ := respects.exists_left related claims
    exact .shape claims' (bareAlike alike bare) (alike.shape.trans seen)
  | inside claims wrapped gives _ ih =>
    obtain ⟨adapter, claims', alike⟩ := respects.exists_left related claims
    obtain ⟨inner, t, given, inside⟩ := alike.inner.exists_left gives 0
    cases inside with
    | some inside =>
      exact .inside claims' (alike.modifier.trans wrapped) ⟨0, by rw [given]⟩ (ih inside)
  | awaited claims bare seen gives _ ih =>
    obtain ⟨adapter, claims', alike⟩ := respects.exists_left related claims
    obtain ⟨inner, t, given, inside⟩ := alike.awaited.exists_left gives 0
    cases inside with
    | some inside =>
      exact .awaited claims' (bareAlike alike bare) (alike.shape.trans seen) ⟨0, by rw [given]⟩
        (ih inside)
  | only claims bare seen gives _ ih =>
    obtain ⟨adapter, claims', alike⟩ := respects.exists_left related claims
    obtain ⟨options, t, given, inside⟩ := alike.options.exists_left gives 0
    obtain _ | ⟨inside, ⟨⟩⟩ := inside
    exact .only claims' (bareAlike alike bare) (alike.shape.trans seen) ⟨0, by rw [given]⟩
      (ih inside)

/-- Constraints of the layers of a node, and of what is at their end, are constraints of the node.
-/
theorem Unwraps.hasConstraints (claims : (registry.resolve node).value = some adapter)
    {layers : List (PeeledLayer π)} {isOptional : Bool} {stop : Except CompileFailure (ChainEnd π)}
    (h : Unwraps registry node adapter layers isOptional stop) {core : Assembly}
    (atCore : core.constraints = .empty ∨ ∃ base baseAdapter modifier,
      stop = .ok (.base base baseAdapter modifier) ∧ HasConstraints registry base) :
    (wrap layers core).constraints = .empty ∨ HasConstraints registry node := by
  have addLayer {f : Assembly} {node : Node π} {adapter : Adapter π} {modifier : Option Modifier}
      (claims : (registry.resolve node).value = some adapter) (free : f.constraints = .empty) :
      (f.addLayer adapter node modifier).constraints = .empty ∨ HasConstraints registry node := by
    rcases f.constraints_addLayer_cases adapter node modifier free with free | ⟨c, set, nonempty⟩
    · exact .inl free
    · exact .inr (.here claims set nonempty)
  have atOther (other : ∀ base baseAdapter modifier, stop ≠ .ok (.base base baseAdapter modifier)) :
      core.constraints = .empty :=
    atCore.resolve_right fun ⟨_, _, _, same, _⟩ => other _ _ _ same
  induction h with
  | base | hollow =>
    refine atCore.imp_right ?_
    rintro ⟨base, baseAdapter, modifier, same, set⟩
    obtain ⟨rfl, -, -⟩ := ChainEnd.base.inj (Except.ok.inj same)
    exact set
  | endless | failed => exact .inl (atOther nofun)
  | reentered | unclaimed => exact addLayer claims (atOther nofun)
  | layer wrapped gives claimed _ ih =>
    rcases ih claimed atCore atOther with free | set
    · exact addLayer claims free
    · exact .inr (.inside claims wrapped gives set)

/-- The family of what is at the end of the layers of a node is that of the node. -/
theorem Unwraps.hasFamily {base : Node π} {baseAdapter : Adapter π} {layers : List (PeeledLayer π)}
    {isOptional : Bool} {modifier : Option Modifier}
    (claims : (registry.resolve node).value = some adapter)
    (h : Unwraps registry node adapter layers isOptional (.ok (.base base baseAdapter modifier)))
    {family : BoundsFamily} (atBase : HasFamily registry base family) :
    HasFamily registry node family := by
  generalize ending : Except.ok (ChainEnd.base base baseAdapter modifier) = stop at h
  induction h with
  | base | hollow =>
    obtain ⟨rfl, -, -⟩ := ChainEnd.base.inj (Except.ok.inj ending)
    exact atBase
  | endless | failed | reentered | unclaimed => cases ending
  | layer wrapped gives claimed _ ih => exact .inside claims wrapped gives (ih claimed ending)

/-- Layers leave the family of the bounds alone. -/
theorem wrap_bounds (layers : List (PeeledLayer π)) (core : Assembly) :
    (wrap layers core).bounds = core.bounds := by
  induction layers with
  | nil => rfl
  | cons layer rest ih =>
    rw [← ih]
    exact Assembly.addLayer_bounds (wrap rest core) layer.adapter layer.node (some layer.modifier)

end Chain

end SchemaBridge
