import SchemaBridge.Proofs.Compile.Walks
import SchemaBridge.Proofs.Fluent.Outputs
import SchemaBridge.Proofs.Vendors

/-!
# Inside the modifiers of fluent nodes

A fluent modifier either holds the node inside or stands for it. The compiler asks for that node,
and the validator goes on to it, each in its own way: what they find is the same node, or two that a
getter has built and that are alike. So what the validator says about a modifier is what it says
about the node that the compiler finds inside.

## Main results

* `Fluent.inner_adapter` : what the adapter answers for a modifier.
* `Fluent.Passes.inside` : what a modifier passes is passed inside.
* `Fluent.absence_inside`, `Fluent.exists_inner_of_absence` : an entry that may be absent.
-/

namespace SchemaBridge.Fluent

variable {γ : Type} {scope : Scope γ} {node inner : Schema γ} {layer : Layer γ}

theorem fluent?_eq_some_iff {payload : Payload γ} :
    payload.fluent? = some layer ↔ payload = .fluent layer := by
  cases payload <;> simp [Payload.fluent?]

/-- A modifier holds the node inside, or stands for it. -/
theorem inner_adapter (scope : Scope γ) (seen : node.payload = .fluent layer) {modifier : Modifier}
    (isModifier : layer.kind.predicate = .modifier modifier) :
    (∃ part, layer.kind.nodes = [part] ∧
        ∀ supply, (adapter scope).inner node supply = (.ok (some part), supply)) ∨
      ∃ target, layer.kind = .deferred target ∧ ∀ supply, (adapter scope).inner node supply =
        ((scope.target target supply).1.map some, (scope.target target supply).2) := by
  obtain ⟨id, typeName, payload⟩ := node
  obtain ⟨kind, details⟩ := layer
  dsimp only at seen
  subst seen
  cases kind with
  | optional | nullable | defaulted | caught | refined | branded | transformed =>
    exact .inl ⟨_, rfl, fun _ => rfl⟩
  | deferred target =>
    refine .inr ⟨target, rfl, fun supply => ?_⟩
    have mapped : (adapter scope).inner ⟨id, typeName, .fluent ⟨.deferred target, details⟩⟩ =
        scope.target target >>= fun other => pure (some other) :=
      (bind_pure_comp some (scope.target target)).symm
    rw [mapped]
    rcases given : scope.target target supply with ⟨error | other, next⟩
    · exact Stateful.bind_of_error _ given
    · exact Stateful.bind_of_ok _ given
  | _ => cases isModifier

/-- The node inside a modifier is held by the layer, or the layer stands for it. -/
theorem inside_cases (seen : node.payload = .fluent layer) {modifier : Modifier}
    (isModifier : layer.kind.predicate = .modifier modifier)
    (gives : Answer.Gives ((adapter scope).inner node) (some inner)) :
    layer.kind.nodes = [inner] ∨
      ∃ target, layer.kind = .deferred target ∧ Answer.Gives (scope.target target) inner := by
  obtain ⟨supply, gives⟩ := gives
  rcases inner_adapter scope seen isModifier with
    ⟨part, nodes, always⟩ | ⟨target, isDeferred, always⟩
  · rw [always] at gives
    obtain rfl := Option.some.inj (Except.ok.inj gives)
    exact .inl nodes
  · refine .inr ⟨target, isDeferred, supply, ?_⟩
    rw [always] at gives
    cases given : (scope.target target supply).1 with
    | error =>
      rw [given] at gives
      cases gives
    | ok other =>
      rw [given] at gives
      obtain rfl := Option.some.inj (Except.ok.inj gives)
      rfl

/-- The node inside a modifier is below it. -/
theorem below_of_inner (seen : node.payload = .fluent layer) {modifier : Modifier}
    (isModifier : layer.kind.predicate = .modifier modifier)
    (gives : Answer.Gives ((adapter scope).inner node) (some inner)) : Below scope node inner := by
  have seen' := fluent?_eq_some_iff.2 seen
  rcases inside_cases seen isModifier gives with nodes | ⟨target, isDeferred, gives⟩
  · exact .held seen' (nodes ▸ List.mem_singleton_self _)
  · exact .deferred seen' isDeferred gives

/-- The parts that the compiler asks for are nodes that the kind holds. -/
theorem mem_nodes_of_extracts (seen : node.payload = .fluent layer) {shape : Shape}
    (extracts : (adapter scope).Extracts node shape inner) : inner ∈ layer.kind.nodes := by
  obtain ⟨id, typeName, payload⟩ := node
  obtain ⟨kind, details⟩ := layer
  dsimp only at seen
  subst seen
  cases extracts with
  | awaited gives | element gives | member gives =>
    cases kind <;> obtain ⟨_, ⟨⟩⟩ := gives
    exact List.mem_singleton_self _
  | option gives mem | conjunct gives mem =>
    cases kind <;> obtain ⟨_, ⟨⟩⟩ := gives <;> first | exact mem | cases mem
  | position gives mem =>
    cases kind <;> obtain ⟨_, ⟨⟩⟩ := gives <;> exact List.mem_append_left _ mem
  | rest gives =>
    cases kind <;> obtain ⟨_, ⟨⟩⟩ := gives
    exact List.mem_append_right _ (List.mem_singleton_self _)
  | entry gives mem =>
    cases kind <;> obtain ⟨_, ⟨⟩⟩ := gives <;> first | exact List.mem_map_of_mem mem | cases mem
  | recordKey gives | mapKey gives =>
    cases kind <;> obtain ⟨_, ⟨⟩⟩ := gives
    exact List.mem_cons_self
  | recordValue gives | mapValue gives =>
    cases kind <;> obtain ⟨_, ⟨⟩⟩ := gives
    exact List.mem_cons_of_mem _ (List.mem_singleton_self _)

/-- A modifier passes what is passed inside it, or `null` if it admits that. -/
theorem Passes.inside (steady : Alike scope node node) (seen : node.payload = .fluent layer)
    {modifier : Modifier} (isModifier : layer.kind.predicate = .modifier modifier)
    (ordinary : layer.kind.isOrdinary = true)
    (gives : Answer.Gives ((adapter scope).inner node) (some inner)) {room : Nat}
    {data output : Json} (passes : Passes scope (room + 1) node data output) :
    modifier = .nullable ∧ data = .null ∨ ∃ output', Passes scope room inner data output' := by
  have seen' := fluent?_eq_some_iff.2 seen
  rw [Passes, seen'] at passes
  obtain ⟨allowed, -⟩ := passes
  rcases inside_cases seen isModifier gives with nodes | ⟨target, isDeferred, s, gives⟩
  · cases kind : layer.kind with
    | optional part | branded part _ =>
      rw [kind] at allowed nodes
      obtain rfl := List.singleton_injective nodes
      exact .inr ⟨output, allowed⟩
    | refined part =>
      rw [kind] at allowed nodes
      obtain rfl := List.singleton_injective nodes
      exact .inr ⟨output, allowed.1⟩
    | transformed part =>
      rw [kind] at allowed nodes
      obtain rfl := List.singleton_injective nodes
      obtain ⟨before, passes, -⟩ := allowed
      exact .inr ⟨before, passes⟩
    | nullable part =>
      rw [kind] at allowed nodes isModifier
      obtain rfl := List.singleton_injective nodes
      exact allowed.imp (fun null => ⟨(TypePredicate.modifier.inj isModifier).symm, null.1⟩)
        fun passes => ⟨output, passes⟩
    | defaulted | caught => 
      rw [kind] at ordinary
      cases ordinary
    | deferred => 
      rw [kind] at nodes
      cases nodes
    | _ => 
      rw [kind] at isModifier
      cases isModifier
  · rw [isDeferred] at allowed
    obtain ⟨other, given, passes⟩ := allowed
    have alike := steady.of_deferred seen' isDeferred 0 s
    have given' : (scope.target target 0).1 = .ok other := given
    rw [given', gives] at alike
    exact .inr ⟨output, Alike.passes alike passes⟩

/-- An entry that may be absent is optional at once, or what is inside may be absent. -/
theorem absence_inside (steady : Alike scope node node) (seen : node.payload = .fluent layer)
    {modifier : Modifier} (isModifier : layer.kind.predicate = .modifier modifier)
    (ordinary : layer.kind.isOrdinary = true)
    (gives : Answer.Gives ((adapter scope).inner node) (some inner)) {room : Nat}
    (skips : Walk.absence scope (room + 1) node = .ok .skip) :
    modifier = .optional ∨ Walk.absence scope room inner = .ok .skip := by
  have seen' := fluent?_eq_some_iff.2 seen
  rw [Walk.absence, seen'] at skips
  dsimp only at skips
  rcases inside_cases seen isModifier gives with nodes | ⟨target, isDeferred, s, gives⟩
  · cases kind : layer.kind with
    | optional =>
      rw [kind] at isModifier
      exact .inl (TypePredicate.modifier.inj isModifier).symm
    | nullable part | branded part _ | refined part | transformed part =>
      rw [kind] at skips nodes
      obtain rfl := List.singleton_injective nodes
      exact .inr skips
    | defaulted | caught =>
      rw [kind] at ordinary
      cases ordinary
    | deferred =>
      rw [kind] at nodes
      cases nodes
    | _ =>
      rw [kind] at isModifier
      cases isModifier
  · rw [isDeferred] at skips
    dsimp only at skips
    have alike := steady.of_deferred seen' isDeferred 0 s
    have targetOf : Walk.targetOf scope target = (scope.target target 0).1 := rfl
    rw [targetOf] at skips
    cases given : (scope.target target 0).1 with
    | error =>
      rw [given] at skips
      cases skips
    | ok other =>
      rw [given] at skips alike
      rw [gives] at alike
      exact .inr ((Alike.absence alike room).symm.trans skips)

/-- There is something inside a modifier, whenever it is asked for, if it is known what becomes of
an absent entry. -/
theorem exists_inner_of_absence (steady : Alike scope node node)
    (seen : node.payload = .fluent layer) {modifier : Modifier}
    (isModifier : layer.kind.predicate = .modifier modifier) {room : Nat} {absence : Absence}
    (known : Walk.absence scope (room + 1) node = .ok absence) (supply : Nat) :
    ∃ part next, (adapter scope).inner node supply = (.ok (some part), next) := by
  have seen' := fluent?_eq_some_iff.2 seen
  rcases inner_adapter scope seen isModifier with
    ⟨part, -, always⟩ | ⟨target, isDeferred, always⟩
  · exact ⟨part, supply, always supply⟩
  · rw [always]
    have alike := steady.of_deferred seen' isDeferred 0 supply
    rw [Walk.absence, seen'] at known
    dsimp only at known
    rw [isDeferred] at known
    have targetOf : Walk.targetOf scope target = (scope.target target 0).1 := rfl
    dsimp only at known
    rw [targetOf] at known
    cases given : (scope.target target 0).1 with
    | error =>
      rw [given] at known
      cases known
    | ok other =>
      rw [given] at alike
      cases given' : (scope.target target supply).1 with
      | error =>
        rw [given'] at alike
        cases alike
      | ok part => exact ⟨part, _, rfl⟩

/-- A structural kind is never absent. -/
theorem absence_ne_skip (seen : node.payload = .fluent layer) {shape : Shape}
    (isShape : layer.kind.predicate = .shape shape) (ordinary : layer.kind.isOrdinary = true)
    (room : Nat) : Walk.absence scope room node ≠ .ok .skip := by
  have seen' := fluent?_eq_some_iff.2 seen
  cases room with
  | zero => exact nofun
  | succ room =>
    intro skips
    rw [Walk.absence, seen'] at skips
    obtain ⟨kind, details⟩ := layer
    cases kind <;> cases isShape <;> first | (cases ordinary; done) | cases skips

/-- Where the compiler goes on from a node that is no description is below the node. -/
theorem below_of_leads {policy : ClaimPolicy} (plain : node.payload.description? = none)
    (leads : Leads (Registry.standard scope policy) node inner) : Below scope node inner := by
  cases leads with
  | inside claims wrapped gives =>
    obtain ⟨rfl, layer, seen⟩ := Registry.exists_layer_of_claimed claims plain
    exact below_of_inner seen ((modifier?_eq_some_iff seen).1 wrapped) gives
  | part claims _ isShape extracts =>
    obtain ⟨rfl, layer, seen⟩ := Registry.exists_layer_of_claimed claims plain
    exact .held (fluent?_eq_some_iff.2 seen)
      (mem_nodes_of_extracts seen extracts)

/-- Where the compiler comes to from a node is reached from it, if nothing there is a
description. -/
theorem reaches_of_leads {policy : ClaimPolicy}
    (plain : ∀ other, Reaches scope node other → other.payload.description? = none)
    (leads : Relation.ReflTransGen (Leads (Registry.standard scope policy)) node inner) :
    Reaches scope node inner := by
  induction leads with
  | refl => exact .refl
  | tail _ leads ih => exact ih.tail (below_of_leads (plain _ ih) leads)

/-- The nodes that a run comes to are reached from its root, if none of these is a description. -/
theorem reaches_of_enters {policy : ClaimPolicy} {options : DocumentOptions} {root : Schema γ}
    {supply : Nat} (plain : ∀ node, Reaches scope root node → node.payload.description? = none)
    {call : Call (Payload γ)} (within : Call.Within ⟨Registry.standard scope policy, options⟩
      (Registry.rootCall options root supply) call)
    (enters : Call.Enters ⟨Registry.standard scope policy, options⟩ call node) :
    Reaches scope root node := by
  obtain ⟨path, follows⟩ := within.follows rfl (Compile.trusted_start _ _ supply)
  exact reaches_of_leads plain (enters.reached follows)

end SchemaBridge.Fluent
