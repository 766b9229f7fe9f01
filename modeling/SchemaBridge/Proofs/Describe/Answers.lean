import SchemaBridge.Proofs.Compile.Acceptance
import SchemaBridge.Proofs.Describe.Passing
import SchemaBridge.Proofs.Plain.Documents
import SchemaBridge.Proofs.Plain.Freshness
import SchemaBridge.Proofs.Vendors

/-!
# What the adapter of descriptions answers

The documents of the nodes that an answer gives, and that all of these nodes are new. So
descriptions are acyclic, and the run that compiles one gives no node a name.

## Main definitions

* `Describe.IsDescription` : a node holds a document.

## Main results

* `Describe.gives_inner`, `Describe.gives_entries`, … : the documents of the nodes in an answer.
* `Describe.anew_adapter` : all nodes that the adapter answers with are new.
* `Describe.names_books` : in the run on a description no node has a name.
-/

namespace SchemaBridge

/-- An answer goes on from what was answered before. -/
theorem Answer.run_bind {α β : Type} {answer : Answer α} {supply later : Nat} {a : α}
    (next : α → Answer β) (h : answer supply = (.ok a, later)) :
    (answer >>= next) supply = next a later := by
  have unfolds : (answer >>= next) supply =
      (fun given : Except VendorError α × Nat => ExceptT.bindCont next given.1 given.2)
        (answer supply) := rfl
  rw [unfolds, h]
  rfl

namespace Describe

variable {γ : Type}

/-- A node holds a document. -/
def IsDescription (node : Schema γ) : Prop := ∃ doc, node.payload = .description doc

/-! ### Answers with new nodes -/

/-- What building one thing after another comes to, if each takes one identity. -/
private theorem run_mapM {ι β : Type} {f : ι → Answer β} {build : ι → Nat → β}
    (run : ∀ i supply, f i supply = (.ok (build i supply), supply + 1)) (items : List ι)
    (supply : Nat) : items.mapM f supply =
      (.ok (items.mapIdx fun place item => build item (supply + place)),
        supply + items.length) := by
  induction items generalizing supply with
  | nil => rfl
  | cons first rest ih =>
    rw [List.mapM_cons, Answer.run_bind _ (run first supply), Answer.run_bind _ (ih (supply + 1)),
      List.mapIdx_cons, List.length_cons]
    simp only [Nat.add_right_comm supply 1]
    rfl

/-- What does not depend on the identities of things that are built. -/
private theorem map_mapIdx {ι β δ : Type} {build : ι → Nat → β} {f : β → δ} {g : ι → δ}
    (same : ∀ i now, f (build i now) = g i) (items : List ι) (supply : Nat) :
    (items.mapIdx fun place item => build item (supply + place)).map f = items.map g := by
  refine List.ext_getElem? fun place => ?_
  rw [List.getElem?_map, List.getElem?_map, List.getElem?_mapIdx, Option.map_map]
  exact Option.map_congr fun item _ => same item _

/-- An answer whose every run fails, or builds new nodes. -/
private theorem anew_of_run {β : Type} {nodes : β → List (Schema γ)} {answer : Answer β}
    (run : ∀ supply, (∃ error, answer supply = (.error error, supply)) ∨
      ∃ given later, answer supply = (.ok given, later) ∧ supply ≤ later ∧
        ∀ node ∈ nodes given, BuiltBetween IsDescription supply later node) :
    answer.Anew IsDescription nodes := by
  refine ⟨fun supply => ?_, fun supply given later gives => ?_⟩
  · rcases run supply with ⟨error, fails⟩ | ⟨given, later, gives, le, -⟩
    · exact Nat.le_of_eq (congrArg Prod.snd fails).symm
    · exact Nat.le_trans le (Nat.le_of_eq (congrArg Prod.snd gives).symm)
  · rcases run supply with ⟨error, fails⟩ | ⟨given', later', gives', -, new⟩
    · cases fails.symm.trans gives
    · obtain ⟨same, rfl⟩ := Prod.mk.inj (gives'.symm.trans gives)
      obtain rfl := Except.ok.inj same
      exact new

private theorem builtBetween_fresh {supply now later : Nat} (doc : Json) (lower : supply ≤ now)
    (upper : now < later) :
    BuiltBetween IsDescription supply later (Schema.ofDescription doc now : Schema γ × Nat).1 :=
  ⟨⟨doc, rfl⟩, lower, upper⟩

theorem anew_answer? (doc? : Except VendorError (Option Json)) :
    (answer? doc? : Answer (Option (Schema γ))).Anew IsDescription Option.toList := by
  refine anew_of_run fun supply => ?_
  rcases doc? with error | _ | doc
  · exact .inl ⟨error, rfl⟩
  · exact .inr ⟨none, supply, rfl, Nat.le_refl _, nofun⟩
  · refine .inr ⟨some (Schema.ofDescription doc supply).1, supply + 1, rfl, Nat.le_succ _, ?_⟩
    intro node mem
    obtain rfl := List.mem_singleton.1 mem
    exact builtBetween_fresh doc (Nat.le_refl _) (Nat.lt_succ_self _)

/-- The nodes that are built for documents. -/
theorem run_answerAll (docs : List Json) (supply : Nat) :
    (answerAll (.ok docs) : Answer (List (Schema γ))) supply =
      (.ok (docs.mapIdx fun place doc => (Schema.ofDescription doc (supply + place)).1),
        supply + docs.length) :=
  run_mapM (fun _ _ => rfl) docs supply

theorem anew_answerAll (docs : Except VendorError (List Json)) :
    (answerAll docs : Answer (List (Schema γ))).Anew IsDescription id := by
  refine anew_of_run fun supply => ?_
  rcases docs with error | docs
  · exact .inl ⟨error, rfl⟩
  · refine .inr ⟨_, _, run_answerAll docs supply, Nat.le_add_right _ _, fun node mem => ?_⟩
    obtain ⟨place, inside, rfl⟩ := List.mem_mapIdx.1 mem
    exact builtBetween_fresh _ (Nat.le_add_right _ _) (Nat.add_lt_add_left inside _)

/-- The nodes that are built for the keys of an object, unless the document is broken. -/
theorem run_entries {node : Schema γ} {doc : Json} (holds : node.payload = .description doc)
    (supply : Nat) : entries node supply = match keyDocuments doc with
      | .ok parts => (.ok (parts.mapIdx fun place entry =>
          (entry.1, (Schema.ofDescription entry.2.1 (supply + place)).1)), supply + parts.length)
      | .error error => (.error error, supply) := by
  have document : (liftM (documentOf node) : Answer Json) supply = (.ok doc, supply) := by
    rw [documentOf, holds]
    rfl
  rw [entries, Answer.run_bind _ document]
  cases found : keyDocuments doc with
  | error error => rfl
  | ok parts => exact run_mapM (fun _ _ => rfl) parts supply

theorem anew_entries {node : Schema γ} (isDescription : IsDescription node) :
    (entries node).Anew IsDescription (List.map Prod.snd) := by
  obtain ⟨doc, holds⟩ := isDescription
  refine anew_of_run fun supply => ?_
  rw [run_entries holds]
  cases keyDocuments doc with
  | error error => exact .inl ⟨error, rfl⟩
  | ok parts =>
    refine .inr ⟨_, _, rfl, Nat.le_add_right _ _, fun node mem => ?_⟩
    obtain ⟨entry, isEntry, rfl⟩ := List.mem_map.1 mem
    obtain ⟨place, inside, rfl⟩ := List.mem_mapIdx.1 isEntry
    exact builtBetween_fresh _ (Nat.le_add_right _ _) (Nat.add_lt_add_left inside _)

/-- All nodes that the adapter answers with are new ones. -/
theorem anew_adapter {node : Schema γ} (isDescription : IsDescription node) :
    (adapter : Adapter (Payload γ)).Anew IsDescription node where
  inner := anew_answer? _
  entries := anew_entries isDescription
  element := anew_answer? _
  options := anew_answerAll _
  positions := anew_answerAll _
  rest := anew_answer? _
  recordKey := anew_answer? _
  recordValue := anew_answer? _
  mapKey := anew_answer? (.ok none)
  mapValue := anew_answer? (.ok none)
  member := anew_answer? (.ok none)
  parts := anew_answerAll (.ok [])
  awaited := anew_answer? (.ok none)

section Registry

/-- The node of a document is claimed for the adapter of descriptions, if it is claimed. -/
theorem eq_adapter_of_claimed {scope : Scope γ} {policy : ClaimPolicy} {node : Schema γ}
    {doc : Json} (holds : node.payload = .description doc) {claimer : Adapter (Payload γ)}
    (claims : ((Registry.standard scope policy).resolve node).value = some claimer) :
    claimer = adapter ∧ doc.isObject = true := by
  rw [Registry.resolve_standard, holds] at claims
  dsimp only at claims
  split at claims
  · exact ⟨(Option.some.inj claims).symm, ‹_›⟩
  · cases claims

/-- All nodes that are handed out for a description are new ones. -/
theorem anew_of_claimed {scope : Scope γ} {policy : ClaimPolicy} (node : Schema γ)
    (isDescription : IsDescription node) (claimer : Adapter (Payload γ))
    (claims : ((Registry.standard scope policy).resolve node).value = some claimer) :
    claimer.Anew IsDescription node := by
  obtain ⟨doc, holds⟩ := isDescription
  obtain ⟨rfl, -⟩ := eq_adapter_of_claimed holds claims
  exact anew_adapter ⟨doc, holds⟩

variable (scope : Scope γ) (policy : ClaimPolicy) (options : DocumentOptions) (doc : Json)
  (supply : Nat)

/-- The schema of a description is acyclic. -/
theorem acyclic_ofDescription : Acyclic ⟨Registry.standard scope policy, options⟩
    ⟨supply + 1, (Schema.ofDescription doc supply).1⟩ :=
  acyclic_of_anew anew_of_claimed ⟨doc, rfl⟩ (Nat.lt_succ_self supply)

/-- In the run on a description no node has a name. -/
theorem names_books : ((Registry.standard scope policy).books options
    (Schema.ofDescription doc supply).1 (supply + 1)).names = [] := by
  obtain ⟨-, ⟨events, same⟩, -⟩ := (Registry.standard scope policy).books_agree options
    (Schema.ofDescription doc supply).1 (supply + 1)
    (acyclic_ofDescription scope policy options doc supply)
  exact congrArg Ledger.names same

end Registry

/-! ### The documents of the nodes in an answer -/

/-- The document of the elements of an array: of any of the item documents, if there are several. -/
def elementOf? (doc : Json) : Option Json :=
  match partsOf doc "items" with
  | [] => none
  | [item] => some item
  | items => some (alternativesDocument items)

theorem elementDocument?_eq {doc : Json} {element : Option Json}
    (h : elementDocument? doc = .ok element) : element = elementOf? doc := by
  obtain ⟨parts, found, h⟩ := exists_of_bind_eq_ok h
  rw [elementOf?, ← documents_val found]
  change (match parts.map Subtype.val with
    | [] => return none
    | [item] => return some item
    | items => return some (alternativesDocument items)) = _ at h
  split at h <;> exact (Except.ok.inj h).symm

private theorem exists_of_map_ok {α β : Type} {found : Except VendorError α} {f : α → β} {value : β}
    (h : (do return f (← found)) = Except.ok value) : ∃ a, found = .ok a ∧ f a = value := by
  obtain ⟨a, found, same⟩ := exists_of_bind_eq_ok h
  exact ⟨a, found, Except.ok.inj same⟩

section Gives

variable {node : Schema γ} {doc : Json}

theorem gives_answer? {doc? : Except VendorError (Option Json)} {given : Option (Schema γ)}
    (gives : Answer.Gives (answer? doc?) given) :
    ∃ doc, doc? = .ok doc ∧ given.map (·.payload) = doc.map .description := by
  obtain ⟨supply, gives⟩ := gives
  rcases doc? with error | _ | doc
  · cases gives
  · obtain rfl := Except.ok.inj gives
    exact ⟨none, rfl, rfl⟩
  · obtain rfl := Except.ok.inj gives
    exact ⟨some doc, rfl, rfl⟩

theorem gives_answerAll {docs? : Except VendorError (List Json)} {given : List (Schema γ)}
    (gives : Answer.Gives (answerAll docs?) given) :
    ∃ docs, docs? = .ok docs ∧ given.map (·.payload) = docs.map .description := by
  obtain ⟨supply, gives⟩ := gives
  rcases docs? with error | docs
  · cases gives
  · rw [run_answerAll] at gives
    obtain rfl := Except.ok.inj gives
    refine ⟨docs, rfl, ?_⟩
    exact @map_mapIdx _ _ _ (fun doc now => (Schema.ofDescription doc now : Schema γ × Nat).1)
      _ _ (fun _ _ => rfl) docs supply

variable (holds : node.payload = .description doc)
include holds

/-- The document inside the outermost modifier. -/
theorem gives_inner {given : Option (Schema γ)} (gives : Answer.Gives (adapter.inner node) given) :
    given.map (·.payload) = (peel? doc).map .description := by
  obtain ⟨found, same, payloads⟩ := gives_answer? gives
  rw [documentOf, holds] at same
  obtain rfl := Except.ok.inj same
  exact payloads

/-- The documents of the keys of an object. -/
theorem gives_entries {given : List (String × Schema γ)}
    (gives : Answer.Gives (adapter.entries node) given) :
    given.map (fun entry => (entry.1, entry.2.payload)) =
      (keysOf doc).map fun entry => (entry.1, .description entry.2) := by
  obtain ⟨supply, gives⟩ := gives
  change (entries node supply).1 = _ at gives
  rw [run_entries holds] at gives
  cases found : keyDocuments doc with
  | error =>
    rw [found] at gives
    cases gives
  | ok parts =>
    rw [found] at gives
    obtain rfl := Except.ok.inj gives
    rw [← keyDocuments_val found, List.map_map]
    refine @map_mapIdx _ _ _ (fun entry now => (entry.1, (Schema.ofDescription entry.2.1 now).1))
      _ _ ?_ parts supply
    exact fun _ _ => rfl

/-- The documents of the alternatives. -/
theorem gives_options {given : List (Schema γ)}
    (gives : Answer.Gives (adapter.options node) given) :
    given.map (·.payload) = (alternativesOf doc).map .description := by
  obtain ⟨docs, same, payloads⟩ := gives_answerAll gives
  rw [documentOf, holds] at same
  obtain ⟨parts, found, rfl⟩ := exists_of_map_ok same
  rw [payloads, alternatives_val found]

/-- The documents of the positions of a tuple. -/
theorem gives_positions {given : List (Schema γ)}
    (gives : Answer.Gives (adapter.positions node) given) :
    given.map (·.payload) = (partsOf doc "ordered").map .description := by
  obtain ⟨docs, same, payloads⟩ := gives_answerAll gives
  rw [documentOf, holds] at same
  obtain ⟨parts, found, rfl⟩ := exists_of_map_ok same
  rw [payloads, documents_val found]

/-- The document of the keys of a record, if it has a pattern. -/
theorem gives_recordKey {given : Option (Schema γ)}
    (gives : Answer.Gives (adapter.recordKey node) given) :
    given.map (·.payload) =
      ((partsOf doc "patterns").head?.map keyDocument).map .description := by
  obtain ⟨found?, same, payloads⟩ := gives_answer? gives
  rw [documentOf, holds] at same
  obtain ⟨part, found, rfl⟩ := exists_of_map_ok same
  rw [payloads, ← leadingPattern?_val found]
  cases part <;> rfl

/-- The document of the values of a record. -/
theorem gives_recordValue {given : Option (Schema γ)}
    (gives : Answer.Gives (adapter.recordValue node) given) :
    given.map (·.payload) = (ruleOf? doc).map .description := by
  obtain ⟨found?, same, payloads⟩ := gives_answer? gives
  rw [documentOf, holds] at same
  obtain ⟨part, found, rfl⟩ := exists_of_map_ok same
  rw [payloads, recordRule?_val found]

/-- The document of the elements of an array. -/
theorem gives_element {given : Option (Schema γ)}
    (gives : Answer.Gives (adapter.element node) given) :
    given.map (·.payload) = (elementOf? doc).map .description := by
  obtain ⟨found?, same, payloads⟩ := gives_answer? gives
  rw [documentOf, holds] at same
  have found : elementDocument? doc = .ok found? := same
  rw [payloads, elementDocument?_eq found]

/-- The document of the items after the positions of a tuple. -/
theorem gives_rest {given : Option (Schema γ)} (gives : Answer.Gives (adapter.rest node) given) :
    given.map (·.payload) = (elementOf? doc).map .description := gives_element holds gives

end Gives

end Describe

end SchemaBridge
