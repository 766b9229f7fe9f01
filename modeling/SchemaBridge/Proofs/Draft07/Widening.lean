import SchemaBridge.Proofs.Compile.Acceptance
import SchemaBridge.Proofs.Table.LastEntries

/-!
# Wider schemas

A schema may be replaced by one that accepts more, and what is built around it accepts more too. But
layers write their keywords over those of a structure: a bound of an outer node replaces that of a
node inside a promise. So it is not enough that one schema accepts what another one does; it must
still do so after the same keywords have been written over both. The empty schema is wider than any
other one in this sense.

## Main definitions

* `Draft07.overlays` : the keywords that layers write.
* `Draft07.overlay` : a schema with keywords written over it.
* `Draft07.Widens` : a schema accepts what another one does, whatever is written over both.

## Main results

* `Draft07.widens_nil` : the empty schema is wider than any other one.
* `Draft07.Widens.overlay`, `Draft07.Widens.orNull` : what layers do keeps a schema wider.
* `Draft07.widens_union`, `Draft07.widens_object`, … : a structure is wider if its parts are.
-/

namespace SchemaBridge.Draft07

open Structure

variable {targets : Targets} {schema wide narrow : Json.Fields} {data : Json}

/-- The keywords that layers write beside those of a structure. -/
def overlays : List String :=
  ["minimum", "maximum", "minLength", "maxLength", "minItems", "maxItems", "minProperties",
    "maxProperties", "pattern", "format", "title", "description", "default", "examples",
    "deprecated"]

/-- The keywords are among those that layers write. -/
def AreOverlays (cover : Json.Fields) : Prop := Table.keys cover ⊆ overlays

/-- Keywords written over a schema, one after the other. -/
def overlay (schema cover : Json.Fields) : Json.Fields :=
  cover.foldl (fun t entry => Table.put t entry.1 entry.2) schema

theorem overlay_append (schema first second : Json.Fields) :
    overlay (overlay schema first) second = overlay schema (first ++ second) :=
  (List.foldl_append ..).symm

theorem AreOverlays.append {first second : Json.Fields} (h : AreOverlays first)
    (h' : AreOverlays second) : AreOverlays (first ++ second) := by
  rw [AreOverlays, Table.keys, List.map_append]
  exact List.append_subset.2 ⟨h, h'⟩

theorem areOverlays_optionally {keyword : String} (mem : keyword ∈ overlays) (value : Option Json) :
    AreOverlays (optionally keyword value) := by
  cases value with
  | none => exact List.nil_subset _
  | some value => exact List.cons_subset.2 ⟨mem, List.nil_subset _⟩

/-- The keywords that layers write have no schemas in them, and are no references. -/
theorem inert_of_mem_overlays {keyword : String} (mem : keyword ∈ overlays) :
    keyword ∉ "$ref" :: applicators := by
  revert keyword
  decide

/-- Nothing is written under another keyword. -/
theorem get?_overlay_of_notMem {cover : Json.Fields} {keyword : String}
    (other : keyword ∉ Table.keys cover) :
    Table.get? (overlay schema cover) keyword = Table.get? schema keyword := by
  have none : Table.get? (Table.lastEntries cover) keyword = none := by
    rw [Table.get?_eq_none_iff]
    exact fun mem => other ((Table.lastEntries_sublist cover).map Prod.fst |>.subset mem)
  rw [overlay, Table.get?_foldl_put, none, Option.none_or]

theorem get?_overlay {cover : Json.Fields} (areOverlays : AreOverlays cover) {keyword : String}
    (other : keyword ∉ overlays) :
    Table.get? (overlay schema cover) keyword = Table.get? schema keyword :=
  get?_overlay_of_notMem fun mem => other (areOverlays mem)

/-- A keyword stands in a schema that was written over if it was written, or stood there before. -/
theorem has_overlay (schema cover : Json.Fields) (keyword : String) :
    Table.has (overlay schema cover) keyword = true ↔
      keyword ∈ Table.keys cover ∨ Table.has schema keyword = true := by
  induction cover generalizing schema with
  | nil => simp [overlay]
  | cons entry rest ih =>
    have step : overlay schema (entry :: rest) =
        overlay (Table.put schema entry.1 entry.2) rest := rfl
    have first : Table.has (Table.put schema entry.1 entry.2) keyword = true ↔
        keyword = entry.1 ∨ Table.has schema keyword = true := by
      rw [Table.has, Table.get?_put, Table.has]
      split
      next same => simp [same]
      next other => simp [Ne.symm other]
    rw [step, ih, first]
    simp only [Table.keys, List.map_cons, List.mem_cons]
    tauto

/-- A keyword without schemas in it only holds if it is right. -/
theorem Holds.asserts {keyword : String} {value : Json}
    (h : Holds targets schema keyword value data) (inert : keyword ∉ applicators) :
    Draft07.assertion keyword value data = true := by
  cases h with
  | assertion _ holds => exact holds
  | notObject isAboutObjects =>
    simp only [List.mem_cons, List.not_mem_nil, or_false] at isAboutObjects
    rcases isAboutObjects with rfl | rfl | rfl <;> exact absurd (by decide) inert
  | notArray isAboutArrays =>
    simp only [List.mem_cons, List.not_mem_nil, or_false] at isAboutArrays
    rcases isAboutArrays with rfl | rfl <;> exact absurd (by decide) inert
  | _ => exact absurd (by decide) inert

/-! ### Schemas whose keywords layers leave alone -/

/-- A schema whose keywords are none of those that layers write. -/
structure Apart (schema : Json.Fields) : Prop where
  plain : Table.get? schema "$ref" = none
  apart : ∀ keyword ∈ Table.keys schema, keyword ∉ overlays

/-- What is written over such a schema comes after it. -/
theorem Apart.overlay_eq (h : Apart schema) {cover : Json.Fields}
    (areOverlays : AreOverlays cover) :
    overlay schema cover = schema ++ overlay [] cover := by
  suffices after : ∀ written : Json.Fields,
      overlay (schema ++ written) cover = schema ++ overlay written cover by
    simpa using after []
  intro written
  induction cover generalizing written with
  | nil => rfl
  | cons entry rest ih =>
    obtain ⟨mem, others⟩ := List.cons_subset.1 areOverlays
    have new : entry.1 ∉ Table.keys schema := fun old => h.apart _ old mem
    have step : Table.put (schema ++ written) entry.1 entry.2 =
        schema ++ Table.put written entry.1 entry.2 := by
      clear ih h
      induction schema with
      | nil => rfl
      | cons first rest ih =>
        obtain ⟨differs, new⟩ := not_or.1 (mt List.mem_cons.2 new)
        rw [List.cons_append, Table.put, if_neg (Ne.symm differs), ih new, List.cons_append]
    change overlay (Table.put (schema ++ written) entry.1 entry.2) rest = _
    rw [step, ih others]
    rfl

/-- Keywords beside such a schema hold on their own. -/
theorem Apart.accepts_overlay_iff (h : Apart schema) {cover : Json.Fields}
    (areOverlays : AreOverlays cover) : Accepts targets (overlay schema cover) data ↔
      Accepts targets schema data ∧ Accepts targets (overlay [] cover) data := by
  have untouched (start : Json.Fields) (keyword : String) (mem : keyword ∈ "$ref" :: applicators) :
      Table.get? (overlay start cover) keyword = Table.get? start keyword :=
    get?_overlay areOverlays fun isOverlay => inert_of_mem_overlays isOverlay mem
  have written {keyword : String} {value : Json} (mem : (keyword, value) ∈ overlay [] cover) :
      keyword ∉ applicators := fun applies => by
    have stands : keyword ∈ Table.keys (overlay [] cover) := List.mem_map_of_mem mem
    rw [← Table.has_iff_mem_keys, Table.has,
      untouched _ _ (List.mem_cons_of_mem _ applies)] at stands
    cases stands
  have properties := (untouched schema "properties" (by decide)).symm
  have items := (untouched schema "items" (by decide)).symm
  rw [accepts_iff ((untouched schema "$ref" (by decide)).trans h.plain), accepts_iff h.plain,
    accepts_iff (untouched [] "$ref" (by decide))]
  constructor
  · intro holds
    refine ⟨fun keyword value mem => ?_, fun keyword value mem => ?_⟩
    · refine (holds keyword value ?_).of_same properties items
      rw [h.overlay_eq areOverlays]
      exact List.mem_append_left _ mem
    · refine .assertion (written mem) ((holds keyword value ?_).asserts (written mem))
      rw [h.overlay_eq areOverlays]
      exact List.mem_append_right _ mem
  · rintro ⟨own, more⟩ keyword value mem
    rw [h.overlay_eq areOverlays] at mem
    rcases List.mem_append.1 mem with mem | mem
    · exact (own keyword value mem).of_same properties.symm items.symm
    · exact .assertion (written mem) ((more keyword value mem).asserts (written mem))

/-! ### Wider schemas -/

/-- A schema accepts what another one accepts, and still does when the same keywords are written
over both. It does not restrict keys if the other one does not, and neither is a reference. -/
structure Widens (targets : Targets) (wide narrow : Json.Fields) : Prop where
  plain : Table.get? wide "$ref" = none
  plain' : Table.get? narrow "$ref" = none
  accepts : ∀ cover, AreOverlays cover → ∀ data,
    Accepts targets (overlay narrow cover) data → Accepts targets (overlay wide cover) data
  restricts : restrictsKeys wide = true → restrictsKeys narrow = true

theorem Widens.refl (plain : Table.get? schema "$ref" = none) : Widens targets schema schema :=
  ⟨plain, plain, fun _ _ _ => id, id⟩

/-- A wider schema accepts what the other one accepts. -/
theorem Widens.accepts_of_accepts (h : Widens targets wide narrow)
    (accepted : Accepts targets narrow data) : Accepts targets wide data :=
  h.accepts [] (List.nil_subset _) data accepted

/-- The empty schema is wider than any other one. -/
theorem widens_nil (plain : Table.get? narrow "$ref" = none) : Widens targets [] narrow := by
  refine ⟨rfl, plain, fun cover areOverlays data accepted => ?_, nofun⟩
  have isPlain (schema : Json.Fields) :
      Table.get? (overlay schema cover) "$ref" = Table.get? schema "$ref" :=
    get?_overlay areOverlays (by decide)
  rw [accepts_iff ((isPlain narrow).trans plain)] at accepted
  rw [accepts_iff (isPlain [])]
  intro keyword value mem
  -- What was written last under a keyword stands under it in both.
  have last : (keyword, value) ∈ Table.lastEntries cover := Table.get?_ofList_iff.1
    (Table.get?_of_mem (Table.nodup_keys_foldl_put cover (t := []) List.nodup_nil) mem)
  have stands : Table.get? (overlay narrow cover) keyword = some value := by
    rw [overlay, Table.get?_foldl_put, Table.get?_of_mem (Table.nodup_keys_lastEntries cover) last]
    rfl
  have inert : keyword ∉ applicators := fun applies =>
    inert_of_mem_overlays (areOverlays (List.mem_map_of_mem
      ((Table.lastEntries_sublist cover).subset last))) (List.mem_cons_of_mem _ applies)
  exact .assertion inert ((accepted keyword value (Table.mem_of_get? stands)).asserts inert)

/-- Keywords written over both keep a schema wider. -/
theorem Widens.overlay (h : Widens targets wide narrow) {cover : Json.Fields}
    (areOverlays : AreOverlays cover) :
    Widens targets (overlay wide cover) (overlay narrow cover) where
  plain := (get?_overlay areOverlays (by decide)).trans h.plain
  plain' := (get?_overlay areOverlays (by decide)).trans h.plain'
  accepts more areMore data accepted := by
    rw [overlay_append] at accepted ⊢
    exact h.accepts _ (areOverlays.append areMore) data accepted
  restricts restricts := by
    obtain ⟨keyword, isKey, stands⟩ := List.any_eq_true.1 restricts
    refine List.any_eq_true.2 ?_
    rcases (has_overlay ..).1 stands with written | before
    · exact ⟨keyword, isKey, (has_overlay ..).2 (.inl written)⟩
    · obtain ⟨other, isKey, stands⟩ := List.any_eq_true.1
        (h.restricts (List.any_eq_true.2 ⟨keyword, isKey, before⟩))
      exact ⟨other, isKey, (has_overlay ..).2 (.inr stands)⟩

/-- Between schemas whose keywords layers leave alone, acceptance is all that counts. -/
theorem widens_of_apart (apart : Apart wide) (apart' : Apart narrow)
    (free : restrictsKeys wide = false)
    (accepts : ∀ data, Accepts targets narrow data → Accepts targets wide data) :
    Widens targets wide narrow where
  plain := apart.plain
  plain' := apart'.plain
  accepts cover areOverlays data accepted := by
    rw [apart'.accepts_overlay_iff areOverlays] at accepted
    rw [apart.accepts_overlay_iff areOverlays]
    exact accepted.imp_left (accepts data)
  restricts restricts := by rw [free] at restricts; cases restricts

/-! ### Structures -/

/-- A null branch keeps a schema wider. -/
theorem Widens.orNull (h : Widens targets wide narrow) :
    Widens targets (Assembly.orNull wide) (Assembly.orNull narrow) := by
  have apart (schema : Json.Fields) : Apart (Assembly.orNull schema) ∧
      restrictsKeys (Assembly.orNull schema) = false := by
    unfold Assembly.orNull
    split <;> exact ⟨⟨rfl, by simp [overlays]⟩, rfl⟩
  refine widens_of_apart (apart wide).1 (apart narrow).1 (apart wide).2 fun data accepted => ?_
  rw [Assembly.accepts_orNull_iff] at accepted ⊢
  exact accepted.imp_right h.accepts_of_accepts

section

variable {cs cs' : List NodeSchema} {c c' k k' : Option NodeSchema}
  (parts : List.Forall₂ (fun c c' => Widens targets c.schema c'.schema) cs cs')
  (part : Option.Rel (fun c c' => Widens targets c.schema c'.schema) c c')
  (keys : Option.Rel (fun c c' => Widens targets c.schema c'.schema) k k')

private theorem apart_union (cs : List NodeSchema) :
    Apart (union cs) ∧ restrictsKeys (union cs) = false := by
  unfold union
  split <;> exact ⟨⟨rfl, by simp [nothing, overlays]⟩, rfl⟩

private theorem apart_intersection (cs : List NodeSchema) :
    Apart (intersection cs) ∧ restrictsKeys (intersection cs) = false := by
  unfold intersection
  split <;> exact ⟨⟨rfl, by simp [overlays]⟩, rfl⟩

include parts in
theorem widens_union : Widens targets (union cs) (union cs') := by
  refine widens_of_apart (apart_union cs).1 (apart_union cs').1 (apart_union cs).2
    fun data accepted => ?_
  rw [accepts_union] at accepted ⊢
  obtain ⟨narrow, mem, accepted⟩ := accepted
  obtain ⟨wide, mem', widens⟩ := exists_left_of_forall₂ parts mem
  exact ⟨wide, mem', widens.accepts_of_accepts accepted⟩

include parts in
theorem widens_intersection : Widens targets (intersection cs) (intersection cs') := by
  refine widens_of_apart (apart_intersection cs).1 (apart_intersection cs').1
    (apart_intersection cs).2 fun data accepted => ?_
  rw [accepts_intersection] at accepted ⊢
  intro wide mem
  obtain ⟨narrow, mem', widens⟩ := exists_right_of_forall₂ parts mem
  exact widens.accepts_of_accepts (accepted narrow mem')

include part in
theorem widens_array :
    Widens targets (typed "array" ++ optionally "items" (c.map NodeSchema.toJson))
      (typed "array" ++ optionally "items" (c'.map NodeSchema.toJson)) := by
  have apart (c : Option NodeSchema) :
      Apart (typed "array" ++ optionally "items" (c.map NodeSchema.toJson)) := by
    cases c <;> exact ⟨rfl, by simp [typed, optionally, overlays]⟩
  refine widens_of_apart (apart c) (apart c') (by cases c <;> rfl) fun data accepted => ?_
  rw [accepts_array] at accepted ⊢
  obtain ⟨items, rfl, accepted⟩ := accepted
  refine ⟨items, rfl, ?_⟩
  cases part with
  | none => rintro _ ⟨⟩
  | some widens =>
    rintro _ ⟨⟩ item mem
    exact widens.accepts_of_accepts (accepted _ rfl item mem)

include part in
theorem widens_set : Widens targets
    (typed "array" ++ [("uniqueItems", .bool true)] ++
      optionally "items" (c.map NodeSchema.toJson))
    (typed "array" ++ [("uniqueItems", .bool true)] ++
      optionally "items" (c'.map NodeSchema.toJson)) := by
  have apart (c : Option NodeSchema) : Apart (typed "array" ++ [("uniqueItems", .bool true)] ++
      optionally "items" (c.map NodeSchema.toJson)) := by
    cases c <;> exact ⟨rfl, by simp [typed, optionally, overlays]⟩
  refine widens_of_apart (apart c) (apart c') (by cases c <;> rfl) fun data accepted => ?_
  rw [accepts_set] at accepted ⊢
  obtain ⟨items, rfl, distinct, accepted⟩ := accepted
  refine ⟨items, rfl, distinct, ?_⟩
  cases part with
  | none => rintro _ ⟨⟩
  | some widens =>
    rintro _ ⟨⟩ item mem
    exact widens.accepts_of_accepts (accepted _ rfl item mem)

include keys part in
theorem widens_keyed : Widens targets (keyed k c) (keyed k' c') := by
  have apart (k c : Option NodeSchema) :
      Apart (keyed k c) ∧ restrictsKeys (keyed k c) = false := by
    unfold keyed
    cases k.filter fun k => restrictsKeys k.schema <;> cases c <;>
      exact ⟨⟨rfl, by simp [typed, optionally, overlays]⟩, rfl⟩
  refine widens_of_apart (apart k c).1 (apart k' c').1 (apart k c).2 fun data accepted => ?_
  rw [accepts_keyed] at accepted ⊢
  obtain ⟨fields, rfl, names, values⟩ := accepted
  refine ⟨fields, rfl, ?_, ?_⟩
  · cases keys with
    | none => rintro _ ⟨⟩
    | some widens =>
      rintro _ ⟨⟩ restricts name mem
      exact widens.accepts_of_accepts (names _ rfl (widens.restricts restricts) name mem)
  · cases part with
    | none => rintro _ ⟨⟩
    | some widens =>
      rintro _ ⟨⟩ entry mem
      exact widens.accepts_of_accepts (values _ rfl entry mem)

/-- An object is wider if its last entries are, and if it does not require other ones to be there.
-/
theorem widens_object {entries entries' : List (String × NodeSchema)}
    (last : List.Forall₂ (fun a b => a.1 = b.1 ∧ Widens targets a.2.schema b.2.schema ∧
      (b.2.isOptional = true → a.2.isOptional = true))
      (Table.lastEntries entries) (Table.lastEntries entries')) :
    Widens targets (object entries) (object entries') := by
  have apart (entries : List (String × NodeSchema)) :
      Apart (object entries) ∧ restrictsKeys (object entries) = false := by
    unfold object
    dsimp only
    split <;> exact ⟨⟨rfl, by simp [typed, overlays]⟩, rfl⟩
  refine widens_of_apart (apart entries).1 (apart entries').1 (apart entries).2
    fun data accepted => ?_
  rw [accepts_object] at accepted ⊢
  obtain ⟨fields, rfl, accepted⟩ := accepted
  refine ⟨fields, rfl, fun entry mem => ?_⟩
  obtain ⟨other, mem', same, widens, flags⟩ := exists_right_of_forall₂ last mem
  obtain ⟨values, present⟩ := accepted other mem'
  rw [same]
  refine ⟨fun value found => widens.accepts_of_accepts (values value found), fun needed => ?_⟩
  refine present ?_
  by_contra optional
  rw [flags (by simpa using optional)] at needed
  cases needed

/-- The keywords of a tuple, without the bounds on its length. -/
private def positional (positions : List Json) (rest : Option Json) : Json.Fields :=
  typed "array" ++ ("items", .array positions) :: optionally "additionalItems" rest

/-- The bounds on the length of a tuple. -/
private def lengths (count : Nat) (isOpen : Bool) : Json.Fields :=
  ("minItems", .ofNat count) :: if isOpen then [] else [("maxItems", .ofNat count)]

private theorem tuple_eq_overlay (first : Json) (others : List Json) (rest : Option Json) :
    tuple (first :: others) rest =
      overlay (positional (first :: others) rest) (lengths (others.length + 1) rest.isSome) := by
  cases rest <;> rfl

private theorem areOverlays_lengths (count : Nat) (isOpen : Bool) :
    AreOverlays (lengths count isOpen) := by
  cases isOpen <;> simp [AreOverlays, lengths, overlays]

include parts part in
private theorem widens_positional :
    Widens targets (positional (cs.map NodeSchema.toJson) (c.map NodeSchema.toJson))
      (positional (cs'.map NodeSchema.toJson) (c'.map NodeSchema.toJson)) := by
  have apart (positions : List Json) (rest : Option Json) : Apart (positional positions rest) ∧
      restrictsKeys (positional positions rest) = false := by
    cases rest <;> exact ⟨⟨rfl, by simp [positional, typed, optionally, overlays]⟩, rfl⟩
  refine widens_of_apart (apart _ _).1 (apart _ _).1 (apart _ _).2 fun data accepted => ?_
  rw [positional, accepts_typed_array (by cases c' <;> rfl)] at accepted
  rw [positional, accepts_typed_array (by cases c <;> rfl)]
  obtain ⟨items, rfl, accepted⟩ := accepted
  refine ⟨items, rfl, ?_⟩
  rw [List.forall_mem_cons, means_positions, forall_mem_optionally] at accepted ⊢
  obtain ⟨positions, rest⟩ := accepted
  refine ⟨fun i wide item isWide isItem => ?_, ?_⟩
  · have atIndex := rel_getElem?_of_forall₂ parts i
    rw [isWide] at atIndex
    generalize found : cs'[i]? = narrow at atIndex
    cases atIndex with
    | some widens => exact widens.accepts_of_accepts (positions i _ item found isItem)
  · cases part with
    | none => rintro _ ⟨⟩
    | @some wide narrow widens =>
      rintro _ ⟨⟩
      rw [means_additionalItems rfl]
      have rest := (means_additionalItems rfl narrow items).1 (rest _ rfl)
      intro i item beyond isItem
      refine widens.accepts_of_accepts (rest i item ?_ isItem)
      rwa [List.length_map, ← parts.length_eq, ← List.length_map]

include parts part in
/-- A tuple is wider if its positions and its rest are: the bounds on its length, which layers may
replace, are the same. -/
theorem widens_tuple : Widens targets (tuple (cs.map NodeSchema.toJson) (c.map NodeSchema.toJson))
    (tuple (cs'.map NodeSchema.toJson) (c'.map NodeSchema.toJson)) := by
  cases parts with
  | nil =>
    cases part with
    | none => exact .refl rfl
    | some widens => exact widens_array (.some widens)
  | cons head tail =>
    have sameRest : (c.map NodeSchema.toJson).isSome = (c'.map NodeSchema.toJson).isSome := by
      cases part <;> rfl
    rw [List.map_cons, List.map_cons, tuple_eq_overlay, tuple_eq_overlay, List.length_map,
      List.length_map, tail.length_eq, sameRest]
    exact (widens_positional (.cons head tail) part).overlay (areOverlays_lengths _ _)

end

end SchemaBridge.Draft07
