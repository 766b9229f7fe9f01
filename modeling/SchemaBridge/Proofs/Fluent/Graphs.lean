import Mathlib.Data.List.Forall2
import Mathlib.Data.Option.Defs
import Mathlib.Logic.Relation
import SchemaBridge.Fluent.Adapter
import SchemaBridge.Proofs.Plan.Outcome

/-!
# Graphs of fluent schemas

The nodes below a fluent node are those that its kind holds and those that a deferred layer stands
for. A getter builds new nodes each time, so that what it stands for is only determined up to
identities: two nodes are alike if they have the same layers over nodes that are alike, however far
one goes down. A node is steady if it is alike to itself, that is, if each getter below it builds
the same schema every time. With slots alone every node is steady.

## Main definitions

* `Fluent.Below`, `Fluent.Reaches` : the nodes below a node, one step and any number of steps.
* `Fluent.Alike` : nodes that differ in identities only.

## Main results

* `Fluent.Alike.layers` : nodes that are alike have layers over nodes that are alike.
* `Fluent.Alike.of_reaches` : what is reached from a steady node is steady.
* `Fluent.alike_of_isEmpty` : without getters nodes are steady.
-/

namespace SchemaBridge.Fluent

variable {γ ν : Type}

/-! ### Nodes below a node -/

namespace Kind

/-- The nodes that a kind holds. -/
def nodes : Kind γ ν → List ν
  | .object entries => entries.map Prod.snd
  | .array inner | .set inner | .promise inner | .optional inner | .nullable inner
  | .defaulted inner _ | .caught inner _ | .refined inner _ _ | .branded inner _
  | .transformed inner _ => [inner]
  | .tuple items rest => items ++ rest.toList
  | .union parts | .intersection parts => parts
  | .record key value | .map key value => [key, value]
  | _ => []

/-- The kind neither holds a node nor stands for one. -/
def isLeaf : Kind γ ν → Bool
  | .object _ | .array _ | .set _ | .promise _ | .optional _ | .nullable _ | .defaulted _ _
  | .caught _ _ | .refined _ _ _ | .branded _ _ | .transformed _ _ | .tuple _ _ | .union _
  | .intersection _ | .record _ _ | .map _ _ | .deferred _ => false
  | _ => true

/-- The node for the items at a position of a tuple is one of those that the tuple holds. -/
theorem mem_nodes_tuple {positions : List ν} {rest : Option ν} {i : Nat} {part : ν}
    (isPart : positions[i]?.or rest = some part) :
    part ∈ (tuple positions rest : Kind γ ν).nodes := by
  rcases Option.or_eq_some_iff.1 isPart with isPosition | ⟨-, isRest⟩
  · exact List.mem_append_left _ (List.mem_of_getElem? isPosition)
  · exact List.mem_append_right _ (Option.mem_toList.2 isRest)

theorem nodes_eq_nil {kind : Kind γ ν} (isLeaf : kind.isLeaf = true) : kind.nodes = [] := by
  cases kind <;> first | rfl | cases isLeaf

end Kind

/-- The second node is held by the layer of the first, or the layer stands for it. -/
inductive Below (scope : Scope γ) : Schema γ → Schema γ → Prop where
  | held {node inner : Schema γ} {layer : Layer γ} (seen : node.payload.fluent? = some layer)
      (mem : inner ∈ layer.kind.nodes) : Below scope node inner
  | deferred {node inner : Schema γ} {layer : Layer γ} {target : Deferred γ}
      (seen : node.payload.fluent? = some layer) (isDeferred : layer.kind = .deferred target)
      (gives : Answer.Gives (scope.target target) inner) : Below scope node inner

/-- The second node is below the first, or is that node. -/
def Reaches (scope : Scope γ) : Schema γ → Schema γ → Prop := Relation.ReflTransGen (Below scope)

/-! ### Nodes that are alike -/

/-- Two answers are nodes that are related, or the same error. -/
def AnswersAlike (related : Schema γ → Schema γ → Prop) :
    Except VendorError (Schema γ) → Except VendorError (Schema γ) → Prop
  | .ok a, .ok b => related a b
  | .error error, .error error' => error = error'
  | _, _ => False

/-- Two kinds are the same but for the nodes, which are related one by one. -/
inductive KindsAlike (scope : Scope γ) (related : Schema γ → Schema γ → Prop) :
    Kind γ (Schema γ) → Kind γ (Schema γ) → Prop where
  | leaf {kind : Kind γ (Schema γ)} (isLeaf : kind.isLeaf = true) :
      KindsAlike scope related kind kind
  | object {entries entries' : List (String × Schema γ)}
      (parts : List.Forall₂ (fun a b => a.1 = b.1 ∧ related a.2 b.2) entries entries') :
      KindsAlike scope related (.object entries) (.object entries')
  | array {a b : Schema γ} (part : related a b) : KindsAlike scope related (.array a) (.array b)
  | set {a b : Schema γ} (part : related a b) : KindsAlike scope related (.set a) (.set b)
  | tuple {items items' : List (Schema γ)} {rest rest' : Option (Schema γ)}
      (parts : List.Forall₂ related items items') (others : Option.Rel related rest rest') :
      KindsAlike scope related (.tuple items rest) (.tuple items' rest')
  | union {options options' : List (Schema γ)} (parts : List.Forall₂ related options options') :
      KindsAlike scope related (.union options) (.union options')
  | intersection {all all' : List (Schema γ)} (parts : List.Forall₂ related all all') :
      KindsAlike scope related (.intersection all) (.intersection all')
  | record {key key' value value' : Schema γ} (keys : related key key')
      (values : related value value') :
      KindsAlike scope related (.record key value) (.record key' value')
  | map {key key' value value' : Schema γ} (keys : related key key')
      (values : related value value') : KindsAlike scope related (.map key value) (.map key' value')
  | promise {a b : Schema γ} (part : related a b) :
      KindsAlike scope related (.promise a) (.promise b)
  | optional {a b : Schema γ} (part : related a b) :
      KindsAlike scope related (.optional a) (.optional b)
  | nullable {a b : Schema γ} (part : related a b) :
      KindsAlike scope related (.nullable a) (.nullable b)
  | defaulted {a b : Schema γ} (value : Json) (part : related a b) :
      KindsAlike scope related (.defaulted a value) (.defaulted b value)
  | caught {a b : Schema γ} (value : Json) (part : related a b) :
      KindsAlike scope related (.caught a value) (.caught b value)
  | refined {a b : Schema γ} (message message' : String) (holds : Json → Bool)
      (part : related a b) :
      KindsAlike scope related (.refined a message holds) (.refined b message' holds)
  | branded {a b : Schema γ} (name name' : String) (part : related a b) :
      KindsAlike scope related (.branded a name) (.branded b name')
  | transformed {a b : Schema γ} (apply : Json → Json) (part : related a b) :
      KindsAlike scope related (.transformed a apply) (.transformed b apply)
  | deferred {target target' : Deferred γ}
      (answers : ∀ s t, AnswersAlike related (scope.target target s).1 (scope.target target' t).1) :
      KindsAlike scope related (.deferred target) (.deferred target')

/-- Two layers have the same constraints and kinds that are the same but for the nodes. -/
structure LayersAlike (scope : Scope γ) (related : Schema γ → Schema γ → Prop)
    (a b : Layer γ) : Prop where
  constraints : a.details.constraints = b.details.constraints
  kinds : KindsAlike scope related a.kind b.kind

/-- Two nodes have the same layers as far as one goes down: some relation between them is kept on
the way. Nodes of other vendors are alike. -/
def Alike (scope : Scope γ) (a b : Schema γ) : Prop :=
  ∃ related : Schema γ → Schema γ → Prop, related a b ∧ ∀ a b, related a b →
    Option.Rel (LayersAlike scope related) a.payload.fluent? b.payload.fluent?

variable {scope : Scope γ}

theorem AnswersAlike.mono {related more : Schema γ → Schema γ → Prop}
    (weaker : ∀ a b, related a b → more a b) {x y : Except VendorError (Schema γ)}
    (h : AnswersAlike related x y) : AnswersAlike more x y := by
  cases x <;> cases y
  · exact h
  · exact h
  · exact h
  · exact weaker _ _ h

theorem KindsAlike.mono {related more : Schema γ → Schema γ → Prop}
    (weaker : ∀ a b, related a b → more a b) {kind kind' : Kind γ (Schema γ)}
    (h : KindsAlike scope related kind kind') : KindsAlike scope more kind kind' := by
  cases h with
  | leaf isLeaf => exact .leaf isLeaf
  | object parts => exact .object (parts.imp fun _ _ same => ⟨same.1, weaker _ _ same.2⟩)
  | array part => exact .array (weaker _ _ part)
  | set part => exact .set (weaker _ _ part)
  | tuple parts others =>
    refine .tuple (parts.imp weaker) ?_
    cases others with
    | some part => exact .some (weaker _ _ part)
    | none => exact .none
  | union parts => exact .union (parts.imp weaker)
  | intersection parts => exact .intersection (parts.imp weaker)
  | record keys values => exact .record (weaker _ _ keys) (weaker _ _ values)
  | map keys values => exact .map (weaker _ _ keys) (weaker _ _ values)
  | promise part => exact .promise (weaker _ _ part)
  | optional part => exact .optional (weaker _ _ part)
  | nullable part => exact .nullable (weaker _ _ part)
  | defaulted value part => exact .defaulted value (weaker _ _ part)
  | caught value part => exact .caught value (weaker _ _ part)
  | refined message message' holds part => exact .refined message message' holds (weaker _ _ part)
  | branded name name' part => exact .branded name name' (weaker _ _ part)
  | transformed apply part => exact .transformed apply (weaker _ _ part)
  | deferred answers => exact .deferred fun s t => (answers s t).mono weaker

/-- Nodes that are alike have layers over nodes that are alike. -/
theorem Alike.layers {a b : Schema γ} (h : Alike scope a b) :
    Option.Rel (LayersAlike scope (Alike scope)) a.payload.fluent? b.payload.fluent? := by
  obtain ⟨related, first, kept⟩ := h
  have layers := kept a b first
  generalize a.payload.fluent? = x, b.payload.fluent? = y at layers ⊢
  cases layers with
  | none => exact .none
  | some same =>
    exact .some ⟨same.constraints, same.kinds.mono fun a b first => ⟨related, first, kept⟩⟩

/-! ### Steady nodes -/

/-- The nodes of kinds that are alike are related one by one. -/
theorem KindsAlike.nodes {related : Schema γ → Schema γ → Prop} {kind kind' : Kind γ (Schema γ)}
    (h : KindsAlike scope related kind kind') : List.Forall₂ related kind.nodes kind'.nodes := by
  cases h with
  | leaf isLeaf =>
    rw [kind.nodes_eq_nil isLeaf]
    exact .nil
  | object parts =>
    exact List.forall₂_map_left_iff.2
      (List.forall₂_map_right_iff.2 (parts.imp fun _ _ same => same.2))
  | tuple parts others =>
    refine List.rel_append parts ?_
    cases others with
    | some part => exact .cons part .nil
    | none => exact .nil
  | union parts | intersection parts => exact parts
  | record keys values | map keys values => exact .cons keys (.cons values .nil)
  | array part | set part | promise part | optional part | nullable part | defaulted _ part
  | caught _ part | refined _ _ _ part | branded _ _ part | transformed _ part =>
    exact .cons part .nil
  | deferred => exact .nil

/-- What is below a steady node is steady. -/
theorem Alike.of_below {node inner : Schema γ} (steady : Alike scope node node)
    (below : Below scope node inner) : Alike scope inner inner := by
  have layers := steady.layers
  cases below with
  | held seen mem =>
    rw [seen] at layers
    obtain ⟨same⟩ := layers
    exact List.forall₂_same.1 same.kinds.nodes inner mem
  | deferred seen isDeferred gives =>
    rw [seen] at layers
    obtain ⟨same⟩ := layers
    have kinds := same.kinds
    rw [isDeferred] at kinds
    obtain ⟨s, given⟩ := gives
    cases kinds with
    | leaf isLeaf => cases isLeaf
    | deferred answers =>
      have answers := answers s s
      rwa [given] at answers

/-- What is reached from a steady node is steady. -/
theorem Alike.of_reaches {node inner : Schema γ} (steady : Alike scope node node)
    (reaches : Reaches scope node inner) : Alike scope inner inner := by
  induction reaches with
  | refl => exact steady
  | tail _ below ih => exact ih.of_below below

/-- Whatever a steady deferred layer stands for at two times is alike. -/
theorem Alike.of_deferred {node : Schema γ} (steady : Alike scope node node) {layer : Layer γ}
    {target : Deferred γ} (seen : node.payload.fluent? = some layer)
    (isDeferred : layer.kind = .deferred target) (s t : Nat) :
    AnswersAlike (Alike scope) (scope.target target s).1 (scope.target target t).1 := by
  have layers := steady.layers
  rw [seen] at layers
  obtain ⟨same⟩ := layers
  have kinds := same.kinds
  rw [isDeferred] at kinds
  cases kinds with
  | leaf isLeaf => cases isLeaf
  | deferred answers => exact answers s t

/-- Without getters every node is steady: equality is kept on the way down. -/
theorem alike_of_isEmpty [IsEmpty γ] (node : Schema γ) : Alike scope node node := by
  refine ⟨Eq, rfl, ?_⟩
  rintro node _ rfl
  cases node.payload.fluent? with
  | none => exact .none
  | some layer =>
    refine .some ⟨rfl, ?_⟩
    have lists (nodes : List (Schema γ)) : List.Forall₂ Eq nodes nodes :=
      List.forall₂_same.2 fun _ _ => rfl
    cases layer.kind with
    | object entries => exact .object (List.forall₂_same.2 fun _ _ => ⟨rfl, rfl⟩)
    | tuple items rest =>
      refine .tuple (lists items) ?_
      cases rest with
      | none => exact .none
      | some rest => exact .some rfl
    | union options => exact .union (lists options)
    | intersection parts => exact .intersection (lists parts)
    | array => exact .array rfl
    | set => exact .set rfl
    | record => exact .record rfl rfl
    | map => exact .map rfl rfl
    | promise => exact .promise rfl
    | optional => exact .optional rfl
    | nullable => exact .nullable rfl
    | defaulted => exact .defaulted _ rfl
    | caught => exact .caught _ rfl
    | refined => exact .refined _ _ _ rfl
    | branded => exact .branded _ _ rfl
    | transformed => exact .transformed _ rfl
    | deferred target =>
      cases target with
      | slot name =>
        refine .deferred fun s t => ?_
        rw [Scope.target]
        cases scope.slots name <;> exact rfl
      | getter build => exact isEmptyElim build
    | _ => exact .leaf rfl

end SchemaBridge.Fluent
