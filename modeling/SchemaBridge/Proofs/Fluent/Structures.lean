import SchemaBridge.Fluent.Adapter
import SchemaBridge.Proofs.Draft07.Structures
import SchemaBridge.Proofs.Fluent.Likeness
import SchemaBridge.Proofs.Plan.Outcome

/-!
# What the structures of fluent schemas accept

Most kinds state conditions on data that a schema can state as well: a type, and conditions on the
parts of the data. Such a condition is told once for every kind, by what is asked of the parts. What
a structural kind compiles to accepts the data of which it is true, if the schemas of the parts
accept what is asked of them, and no other data, if these schemas accept nothing else.

## Main definitions

* `Fluent.Kind.Matches` : data of the type of a kind whose parts are taken.
* `Fluent.Composes` : the structure that a kind compiles to, by the schemas of its parts.

## Main results

* `Fluent.accepts_leaf_iff` : kinds without parts.
* `Fluent.Composes.accepts_of_matches`, `Fluent.Composes.matches_of_accepts` : kinds with parts.
-/

namespace SchemaBridge.Fluent

open Draft07 Plan

variable {γ ν : Type}

/-- Data of the type of a structural kind whose parts are taken, as `takes` says, and of whose
properties only those that may be absent, as `absent` says, are not there. -/
def Kind.Matches (takes : ν → Json → Prop) (absent : ν → Prop) (kind : Kind γ ν)
    (data : Json) : Prop :=
  match kind with
  | .string | .date => hasType "string" data = true
  | .number => hasType "number" data = true
  | .boolean => hasType "boolean" data = true
  | .null => hasType "null" data = true
  | .bigint => hasType "integer" data = true
  | .undefined | .void | .never => False
  | .literal value => value.same data = true
  | .enumeration values => Json.among values data = true
  | .instanceOf className => hasType (if className = "Date" then "string" else "object") data = true
  | .object entries => ∃ fields, data = .object fields ∧ ∀ entry ∈ Table.lastEntries entries,
      (∀ value, Table.get? fields entry.1 = some value → takes entry.2 value) ∧
        (¬ absent entry.2 → Table.has fields entry.1 = true)
  | .array element => ∃ items, data = .array items ∧ ∀ item ∈ items, takes element item
  | .tuple positions rest => ∃ items, data = .array items ∧ positions.length ≤ items.length ∧
      (rest = none → items.length ≤ positions.length) ∧
      ∀ (i : Nat) item, items[i]? = some item → ∀ part, positions[i]?.or rest = some part →
        takes part item
  | .set element => ∃ items, data = .array items ∧ allDistinct items = true ∧
      ∀ item ∈ items, takes element item
  | .record key value | .map key value => ∃ fields, data = .object fields ∧
      (∀ name ∈ Table.keys fields, takes key (.string name)) ∧
      ∀ entry ∈ fields, takes value entry.2
  | .union options => ∃ option ∈ options, takes option data
  | .intersection members => ∀ part ∈ members, takes part data
  | .promise inner => takes inner data
  | _ => True

/-- What all parts of a value have may be asked of the parts that are taken. -/
theorem Kind.Matches.and {takes : ν → Json → Prop} {absent : ν → Prop} {kind : Kind γ ν}
    {data : Json}
    {P : Json → Prop} (self : P data)
    (items : ∀ items, data = .array items → ∀ item ∈ items, P item)
    (fields : ∀ fields, data = .object fields → ∀ entry ∈ fields, P (.string entry.1) ∧ P entry.2)
    (h : kind.Matches takes absent data) :
    kind.Matches (fun part value => takes part value ∧ P value) absent data := by
  cases kind with
  | object entries =>
    obtain ⟨table, rfl, all⟩ := h
    refine ⟨table, rfl, fun entry isLast => ⟨fun value found => ?_, (all entry isLast).2⟩⟩
    exact ⟨(all entry isLast).1 value found, (fields _ rfl _ (Table.mem_of_get? found)).2⟩
  | array element =>
    obtain ⟨values, rfl, all⟩ := h
    exact ⟨values, rfl, fun item mem => ⟨all item mem, items _ rfl item mem⟩⟩
  | tuple positions rest =>
    obtain ⟨values, rfl, least, most, all⟩ := h
    exact ⟨values, rfl, least, most, fun i item isItem part isPart =>
      ⟨all i item isItem part isPart, items _ rfl item (List.mem_of_getElem? isItem)⟩⟩
  | set element =>
    obtain ⟨values, rfl, distinct, all⟩ := h
    exact ⟨values, rfl, distinct, fun item mem => ⟨all item mem, items _ rfl item mem⟩⟩
  | record key value | map key value =>
    obtain ⟨table, rfl, names, all⟩ := h
    refine ⟨table, rfl, fun name mem => ?_, fun entry mem =>
      ⟨all entry mem, (fields _ rfl entry mem).2⟩⟩
    obtain ⟨entry, isEntry, rfl⟩ := List.mem_map.1 mem
    exact ⟨names _ mem, (fields _ rfl entry isEntry).1⟩
  | union options =>
    obtain ⟨option, mem, taken⟩ := h
    exact ⟨option, mem, taken, self⟩
  | intersection parts => exact fun part mem => ⟨h part mem, self⟩
  | promise inner => exact ⟨h, self⟩
  | _ => exact h

variable {scope : Scope γ} {options : DocumentOptions} {node : Schema γ} {layer : Layer γ}
  {compiles : Schema γ → NodeSchema → Prop} {shape : Shape} {assembly : Assembly}
  {targets : Targets} {data : Json}

/-- What a kind without parts compiles to accepts the data of its type. -/
theorem accepts_leaf_iff {kind : Kind γ (Schema γ)} {details : Details}
    (isLeaf : kind.isLeaf = true)
    (seen : node.payload = .fluent ⟨kind, details⟩) (isShape : kind.predicate = .shape shape)
    (yields : Yields compiles (Structure.ofShape options node (adapter scope) shape) assembly)
    (takes : Schema γ → Json → Prop) (absent : Schema γ → Prop) :
    Accepts targets assembly.body data ↔ kind.Matches takes absent data := by
  obtain ⟨id, typeName, payload⟩ := node
  dsimp only at seen
  subst seen
  cases kind with
  | string | number | boolean | null | bigint =>
    cases isShape
    cases yields
    exact accepts_typed _
  | date =>
    cases isShape
    cases yields
    exact accepts_date options
  | any | unknown | symbol | function =>
    cases isShape
    cases yields
    exact iff_of_true (accepts_empty _ _) trivial
  | undefined | void | never =>
    cases isShape
    cases yields
    exact iff_of_false (not_accepts_nothing _ _) nofun
  | literal value =>
    cases isShape
    cases yields
    exact accepts_const value
  | enumeration values =>
    cases isShape
    cases yields
    cases values with
    | nil => exact iff_of_false (not_accepts_nothing _ _) Bool.false_ne_true
    | cons first rest => exact accepts_enum _
  | instanceOf className =>
    cases isShape
    cases yields
    change Accepts targets (if some className = some "Date" then _ else _) data ↔
      hasType (if className = "Date" then "string" else "object") data = true
    by_cases isDate : className = "Date"
    · rw [if_pos isDate, if_pos (congrArg some isDate)]
      exact accepts_date options
    · rw [if_neg isDate, if_neg fun same => isDate (Option.some.inj same)]
      exact accepts_typed _
  | _ => cases isLeaf

/-- The structure that a kind with parts compiles to, by the schemas of the parts. -/
inductive Composes (compiles : ν → NodeSchema → Prop) : Kind γ ν → Json.Fields → Prop where
  | object {entries : List (String × ν)} {cs : List (String × NodeSchema)}
      (compiled : List.Forall₂ (fun a b => a.1 = b.1 ∧ compiles a.2 b.2) entries cs) :
      Composes compiles (.object entries) (Structure.object cs)
  | array {element : ν} {c : NodeSchema} (compiled : compiles element c) :
      Composes compiles (.array element)
        (Structure.typed "array" ++ Structure.optionally "items" (some c.toJson))
  | tuple {positions : List ν} {rest : Option ν} {cs : List NodeSchema} {c : Option NodeSchema}
      (compiled : List.Forall₂ compiles positions cs) (others : Option.Rel compiles rest c) :
      Composes compiles (.tuple positions rest)
        (Structure.tuple (cs.map NodeSchema.toJson) (c.map NodeSchema.toJson))
  | set {element : ν} {c : NodeSchema} (compiled : compiles element c) :
      Composes compiles (.set element) (Structure.typed "array" ++ [("uniqueItems", .bool true)] ++
        Structure.optionally "items" (some c.toJson))
  | only {option : ν} {c : NodeSchema} (compiled : compiles option c) :
      Composes compiles (.union [option]) c.schema
  | union {options : List ν} {cs : List NodeSchema} (compiled : List.Forall₂ compiles options cs) :
      Composes compiles (.union options) (Structure.union cs)
  | intersection {parts : List ν} {cs : List NodeSchema}
      (compiled : List.Forall₂ compiles parts cs) :
      Composes compiles (.intersection parts) (Structure.intersection cs)
  | record {key value : ν} {k v : NodeSchema} (keys : compiles key k) (values : compiles value v) :
      Composes compiles (.record key value) (Structure.keyed (some k) (some v))
  | map {key value : ν} {k v : NodeSchema} (keys : compiles key k) (values : compiles value v) :
      Composes compiles (.map key value) (Structure.keyed (some k) (some v))
  | promise {inner : ν} {c : NodeSchema} (compiled : compiles inner c) :
      Composes compiles (.promise inner) c.schema

theorem composes_of_yields {kind : Kind γ (Schema γ)} {details : Details}
    (composite : kind.isLeaf = false) (seen : node.payload = .fluent ⟨kind, details⟩)
    (isShape : kind.predicate = .shape shape)
    (yields : Yields compiles (Structure.ofShape options node (adapter scope) shape) assembly) :
    Composes compiles kind assembly.body := by
  obtain ⟨id, typeName, payload⟩ := node
  dsimp only at seen
  subst seen
  cases kind with
  | object entries =>
    cases isShape
    simp only [Structure.ofShape, yields_bind, yields_question, yields_entries,
      yields_pure] at yields
    obtain ⟨_, ⟨_, ⟨⟩⟩, cs, compiled, rfl⟩ := yields
    exact .object compiled
  | array element =>
    cases isShape
    simp only [Structure.ofShape, yields_bind, yields_question, yields_part?, yields_pure] at yields
    obtain ⟨_, ⟨_, ⟨⟩⟩, cs, ⟨compiled⟩, rfl⟩ := yields
    exact .array compiled
  | set element =>
    cases isShape
    simp only [Structure.ofShape, yields_bind, yields_question, yields_part?, yields_pure] at yields
    obtain ⟨_, ⟨_, ⟨⟩⟩, cs, ⟨compiled⟩, rfl⟩ := yields
    exact .set compiled
  | tuple positions rest =>
    cases isShape
    simp only [Structure.ofShape, yields_bind, yields_question, yields_parts, yields_part?,
      yields_pure] at yields
    obtain ⟨_, ⟨_, ⟨⟩⟩, cs, compiled, _, ⟨_, ⟨⟩⟩, c, others, rfl⟩ := yields
    exact .tuple compiled others
  | union options =>
    cases isShape
    simp only [Structure.ofShape, yields_bind, yields_question, yields_parts] at yields
    obtain ⟨_, ⟨_, ⟨⟩⟩, cs, compiled, yields⟩ := yields
    split at yields
    · obtain rfl := (yields_pure _ _).1 yields
      obtain _ | ⟨compiled, ⟨⟩⟩ := compiled
      exact .only compiled
    · obtain rfl := (yields_pure _ _).1 yields
      exact .union compiled
  | intersection parts =>
    cases isShape
    simp only [Structure.ofShape, yields_bind, yields_question, yields_parts, yields_pure] at yields
    obtain ⟨_, ⟨_, ⟨⟩⟩, cs, compiled, rfl⟩ := yields
    exact .intersection compiled
  | record key value =>
    cases isShape
    simp only [Structure.ofShape, yields_bind, yields_question, yields_part?, yields_pure] at yields
    obtain ⟨_, ⟨_, ⟨⟩⟩, _, ⟨_, ⟨⟩⟩, _, ⟨keys⟩, _, ⟨values⟩, rfl⟩ := yields
    exact .record keys values
  | map key value =>
    cases isShape
    simp only [Structure.ofShape, yields_bind, yields_question, yields_part?, yields_pure] at yields
    obtain ⟨_, ⟨_, ⟨⟩⟩, _, ⟨_, ⟨⟩⟩, _, ⟨keys⟩, _, ⟨values⟩, rfl⟩ := yields
    exact .map keys values
  | promise inner =>
    cases isShape
    simp only [Structure.ofShape, yields_bind, yields_question] at yields
    obtain ⟨_, ⟨_, ⟨⟩⟩, yields⟩ := yields
    simp only [yields_bind, yields_part, yields_pure] at yields
    obtain ⟨c, compiled, rfl⟩ := yields
    exact .promise compiled
  | _ => first | (cases isShape; done) | cases composite

namespace Composes

variable {compiles : ν → NodeSchema → Prop} {kind : Kind γ ν} {body : Json.Fields}
  {takes : ν → Json → Prop} {absent : ν → Prop}

/-- Every part of a kind is compiled. -/
theorem exists_compiles (composes : Composes compiles kind body) {part : ν}
    (mem : part ∈ kind.nodes) : ∃ c, compiles part c := by
  have listed {nodes : List ν} {cs : List NodeSchema} (compiled : List.Forall₂ compiles nodes cs)
      (mem : part ∈ nodes) : ∃ c, compiles part c :=
    (exists_right_of_forall₂ compiled mem).imp fun _ => And.right
  cases composes with
  | object compiled =>
    obtain ⟨entry, isEntry, rfl⟩ := List.mem_map.1 mem
    obtain ⟨c, -, -, related⟩ := exists_right_of_forall₂ compiled isEntry
    exact ⟨c.2, related⟩
  | tuple compiled others =>
    rcases List.mem_append.1 mem with isPosition | isRest
    · exact listed compiled isPosition
    · cases others with
      | some related =>
        obtain rfl := List.mem_singleton.1 isRest
        exact ⟨_, related⟩
      | none => cases isRest
  | union compiled | intersection compiled => exact listed compiled mem
  | record keys values | map keys values => exact listed (.cons keys (.cons values .nil)) mem
  | array compiled | set compiled | only compiled | promise compiled =>
    exact listed (.cons compiled .nil) mem

/-- What a kind with parts takes is accepted by what it compiles to, if what its parts take is. -/
theorem accepts_of_matches (composes : Composes compiles kind body)
    (taken : ∀ part ∈ kind.nodes, ∀ c, compiles part c → ∀ d, takes part d →
      Accepts targets c.schema d)
    (skipped : ∀ part ∈ kind.nodes, ∀ c, compiles part c → absent part → c.isOptional = true)
    (h : kind.Matches takes absent data) : Accepts targets body data := by
  cases composes with
  | object compiled =>
    obtain ⟨fields, rfl, all⟩ := h
    refine (accepts_object _).2 ⟨fields, rfl, fun c isLast => ?_⟩
    obtain ⟨⟨name, part⟩, mem, rfl, related⟩ :=
      exists_left_of_forall₂ (Table.lastEntries_forall₂ compiled) isLast
    have isNode := List.mem_map_of_mem (f := Prod.snd) ((Table.lastEntries_sublist _).subset mem)
    obtain ⟨present, missing⟩ := all _ mem
    refine ⟨fun value found => taken part isNode _ related _ (present value found), fun must => ?_⟩
    refine missing fun isAbsent => ?_
    rw [skipped part isNode _ related isAbsent] at must
    cases must
  | array compiled =>
    obtain ⟨items, rfl, all⟩ := h
    refine (accepts_array (some _)).2 ⟨items, rfl, ?_⟩
    rintro _ ⟨⟩ item mem
    exact taken _ (List.mem_singleton_self _) _ compiled _ (all item mem)
  | @tuple positions rest cs c compiled others =>
    obtain ⟨items, rfl, least, most, all⟩ := h
    refine (accepts_tuple _ _).2 ⟨items, rfl, compiled.length_eq ▸ least, fun none => ?_, ?_⟩
    · subst none
      cases others
      exact compiled.length_eq ▸ most rfl
    · intro i item isItem c' isPart'
      have related := rel_getElem?_or_of_forall₂ compiled others i
      rw [isPart'] at related
      generalize isPart : positions[i]?.or rest = x at related
      obtain ⟨related⟩ := related
      exact taken _ (Kind.mem_nodes_tuple isPart) _ related _ (all i item isItem _ isPart)
  | set compiled =>
    obtain ⟨items, rfl, distinct, all⟩ := h
    refine (accepts_set (some _)).2 ⟨items, rfl, distinct, ?_⟩
    rintro _ ⟨⟩ item mem
    exact taken _ (List.mem_singleton_self _) _ compiled _ (all item mem)
  | only compiled =>
    obtain ⟨option, mem, h⟩ := h
    obtain rfl := List.mem_singleton.1 mem
    exact taken _ mem _ compiled _ h
  | union compiled =>
    obtain ⟨option, mem, h⟩ := h
    obtain ⟨c, mem', related⟩ := exists_right_of_forall₂ compiled mem
    exact (accepts_union _).2 ⟨c, mem', taken _ mem _ related _ h⟩
  | intersection compiled =>
    refine (accepts_intersection _).2 fun c mem => ?_
    obtain ⟨part, mem', related⟩ := exists_left_of_forall₂ compiled mem
    exact taken _ mem' _ related _ (h part mem')
  | record keys values | map keys values =>
    obtain ⟨fields, rfl, names, all⟩ := h
    refine (accepts_keyed (some _) (some _)).2 ⟨fields, rfl, ?_, ?_⟩
    · rintro _ ⟨⟩ - name mem
      exact taken _ List.mem_cons_self _ keys _ (names name mem)
    · rintro _ ⟨⟩ entry mem
      exact taken _ (List.mem_cons_of_mem _ (List.mem_singleton_self _)) _ values _ (all entry mem)
  | promise compiled => exact taken _ (List.mem_singleton_self _) _ compiled _ h

/-- What a kind with parts compiles to only accepts what it takes, if its parts do so. A schema of
keys may be left out, so that this is not said of records. -/
theorem matches_of_accepts (composes : Composes compiles kind body)
    (notKeyed : kind.predicate ≠ .shape .record ∧ kind.predicate ≠ .shape .map)
    (taken : ∀ part ∈ kind.nodes, ∀ c, compiles part c → ∀ d, Accepts targets c.schema d →
      takes part d)
    (skipped : ∀ part ∈ kind.nodes, ∀ c, compiles part c → c.isOptional = true → absent part)
    (h : Accepts targets body data) : kind.Matches takes absent data := by
  cases composes with
  | object compiled =>
    obtain ⟨fields, rfl, all⟩ := (accepts_object _).1 h
    refine ⟨fields, rfl, ?_⟩
    rintro ⟨name, part⟩ isLast
    obtain ⟨⟨_, c⟩, mem, rfl, related⟩ :=
      exists_right_of_forall₂ (Table.lastEntries_forall₂ compiled) isLast
    have isNode := List.mem_map_of_mem (f := Prod.snd) ((Table.lastEntries_sublist _).subset isLast)
    obtain ⟨present, missing⟩ := all _ mem
    refine ⟨fun value found => taken _ isNode _ related _ (present value found), fun must => ?_⟩
    refine missing (Bool.eq_false_iff.2 fun isOptional => ?_)
    exact must (skipped _ isNode _ related isOptional)
  | array compiled =>
    obtain ⟨items, rfl, all⟩ := (accepts_array (some _)).1 h
    exact ⟨items, rfl, fun item mem =>
      taken _ (List.mem_singleton_self _) _ compiled _ (all _ rfl item mem)⟩
  | @tuple positions rest cs c compiled others =>
    obtain ⟨items, rfl, least, most, all⟩ := (accepts_tuple _ _).1 h
    refine ⟨items, rfl, compiled.length_eq ▸ least, fun none => ?_, ?_⟩
    · subst none
      cases others
      exact compiled.length_eq ▸ most rfl
    · intro i item isItem part isPart
      have related := rel_getElem?_or_of_forall₂ compiled others i
      rw [isPart] at related
      generalize isPart' : cs[i]?.or c = y at related
      obtain ⟨related⟩ := related
      exact taken _ (Kind.mem_nodes_tuple isPart) _ related _ (all i item isItem _ isPart')
  | set compiled =>
    obtain ⟨items, rfl, distinct, all⟩ := (accepts_set (some _)).1 h
    exact ⟨items, rfl, distinct, fun item mem =>
      taken _ (List.mem_singleton_self _) _ compiled _ (all _ rfl item mem)⟩
  | only compiled =>
    exact ⟨_, List.mem_singleton_self _, taken _ (List.mem_singleton_self _) _ compiled _ h⟩
  | union compiled =>
    obtain ⟨c, mem, h⟩ := (accepts_union _).1 h
    obtain ⟨option, mem', related⟩ := exists_left_of_forall₂ compiled mem
    exact ⟨option, mem', taken _ mem' _ related _ h⟩
  | intersection compiled =>
    intro part mem
    obtain ⟨c, mem', related⟩ := exists_right_of_forall₂ compiled mem
    exact taken _ mem _ related _ ((accepts_intersection _).1 h c mem')
  | record => exact absurd rfl notKeyed.1
  | map => exact absurd rfl notKeyed.2
  | promise compiled => exact taken _ (List.mem_singleton_self _) _ compiled _ h

end Composes

end SchemaBridge.Fluent
