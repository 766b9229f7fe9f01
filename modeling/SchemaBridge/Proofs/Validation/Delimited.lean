import SchemaBridge.Proofs.Validation.Positions

/-!
# Steps between slashes that are read back

A path is written with a slash before every step, and with codes for the tildes and the slashes of
the steps. Reading splits at the slashes and replaces first the one code and then the other in every
part. Since a tilde is only written together with a digit, neither replacement takes a code from
what the other one leaves, so that every part is read as it was written.

What is read is always canonical: a component that could be a position is one, and nothing at all is
the whole value, so that no text stands for the empty key alone. Every other path is read from the
text that is written for it.

## Main definitions

* `Path.IsCanonical` : the paths that are read from some text.

## Main results

* `Path.unescape_escape` : a component is read as it was written.
* `Path.split_joined` : parts that are joined by a separator are found again.
* `Path.readDelimited_writeDelimited`, `Path.isCanonical_readDelimited` : reading after writing, and
  what reading may give.
-/

namespace SchemaBridge.Path

/-! ### Codes -/

section Codes

variable {code char c d : Char} {rest : List Char}

theorem replaceEscape_of_ne (plain : c ≠ '~') :
    replaceEscape code char (c :: rest) = c :: replaceEscape code char rest := by
  cases rest with
  | nil => rfl
  | cons d rest => rw [replaceEscape, if_neg fun both => plain both.1]

theorem replaceEscape_code :
    replaceEscape code char ('~' :: code :: rest) = char :: replaceEscape code char rest := by
  rw [replaceEscape, if_pos ⟨rfl, rfl⟩]

/-- A tilde with another code behind it stays, and so does that code. -/
theorem replaceEscape_other (other : d ≠ code) (plain : d ≠ '~') :
    replaceEscape code char ('~' :: d :: rest) = '~' :: d :: replaceEscape code char rest := by
  rw [replaceEscape, if_neg fun both => other both.2, replaceEscape_of_ne plain]

end Codes

/-- A component with only its tildes escaped. -/
def escapeTildes (cs : List Char) : List Char :=
  cs.flatMap fun c => if c = '~' then ['~', '0'] else [c]

/-- The code of a slash is not found in what is written for anything else. -/
theorem replaceEscape_escape (cs : List Char) :
    replaceEscape '1' '/' (escape cs) = escapeTildes cs := by
  induction cs with
  | nil => rfl
  | cons c rest ih =>
    rw [escape] at ih ⊢
    rw [escapeTildes, List.flatMap_cons, List.flatMap_cons, ← escapeTildes, ← ih]
    by_cases isTilde : c = '~'
    · rw [if_pos isTilde, if_pos isTilde]
      exact replaceEscape_other (by decide) (by decide)
    · rw [if_neg isTilde, if_neg isTilde]
      by_cases isSlash : c = '/'
      · rw [if_pos isSlash, isSlash]
        exact replaceEscape_code
      · rw [if_neg isSlash]
        exact replaceEscape_of_ne isTilde

theorem replaceEscape_escapeTildes (cs : List Char) :
    replaceEscape '0' '~' (escapeTildes cs) = cs := by
  induction cs with
  | nil => rfl
  | cons c rest ih =>
    rw [escapeTildes] at ih ⊢
    rw [List.flatMap_cons]
    by_cases isTilde : c = '~'
    · rw [if_pos isTilde, isTilde]
      exact replaceEscape_code.trans (congrArg _ ih)
    · rw [if_neg isTilde]
      exact (replaceEscape_of_ne isTilde).trans (congrArg _ ih)

/-- A component is read as it was written. -/
theorem unescape_escape (cs : List Char) : unescape (escape cs) = cs := by
  rw [unescape, replaceEscape_escape, replaceEscape_escapeTildes]

theorem replaceEscape_eq_nil_iff {code char : Char} {cs : List Char} :
    replaceEscape code char cs = [] ↔ cs = [] := by
  refine ⟨fun nothing => ?_, fun nothing => by rw [nothing]; rfl⟩
  cases cs with
  | nil => rfl
  | cons c rest =>
    cases rest with
    | nil => cases nothing
    | cons d rest =>
      rw [replaceEscape] at nothing
      split at nothing <;> cases nothing

theorem unescape_eq_nil_iff {cs : List Char} : unescape cs = [] ↔ cs = [] := by
  rw [unescape, replaceEscape_eq_nil_iff, replaceEscape_eq_nil_iff]

/-- No slash is left in a component that is written. -/
theorem slash_notMem_escape (cs : List Char) : '/' ∉ escape cs := by
  intro mem
  obtain ⟨c, -, written⟩ := List.mem_flatMap.1 mem
  split at written
  · exact absurd written (by decide)
  · split at written
    · exact absurd written (by decide)
    · rename_i notSlash
      exact notSlash (List.mem_singleton.1 written).symm

/-! ### Parts between separators -/

section Split

variable {separator : Char} {part : List Char}

theorem split_ne_nil (cs : List Char) : split separator cs ≠ [] := by
  cases cs with
  | nil => exact List.cons_ne_nil _ _
  | cons c rest =>
    rw [split]
    split
    · exact List.cons_ne_nil _ _
    · split <;> exact List.cons_ne_nil _ _

/-- A part in front of what is split belongs to the first part, if no separator is in it. -/
theorem split_append {cs first : List Char} {others : List (List Char)}
    (unseparated : separator ∉ part) (parts : split separator cs = first :: others) :
    split separator (part ++ cs) = (part ++ first) :: others := by
  induction part with
  | nil => exact parts
  | cons c rest ih =>
    rw [List.mem_cons, not_or] at unseparated
    rw [List.cons_append, split, if_neg fun same => unseparated.1 same.symm, ih unseparated.2]
    rfl

private theorem split_flatMap {parts : List (List Char)} (h : ∀ part ∈ parts, separator ∉ part) :
    split separator (parts.flatMap (separator :: ·)) = [] :: parts := by
  induction parts with
  | nil => rfl
  | cons next rest ih =>
    obtain ⟨unseparated, others⟩ := List.forall_mem_cons.1 h
    rw [List.flatMap_cons, List.cons_append, split, if_pos rfl,
      split_append unseparated (ih others), List.append_nil]

/-- Parts that are joined by a separator are found again. -/
theorem split_joined (unseparated : separator ∉ part) {parts : List (List Char)}
    (others : ∀ other ∈ parts, separator ∉ other) :
    split separator (part ++ parts.flatMap (separator :: ·)) = part :: parts := by
  rw [split_append unseparated (split_flatMap others), List.append_nil]

/-- Only nothing at all is split into one empty part. -/
theorem eq_nil_of_split {cs : List Char} (h : split separator cs = [[]]) : cs = [] := by
  cases cs with
  | nil => rfl
  | cons c rest =>
    rw [split] at h
    split at h
    · exact absurd (List.cons.inj h).2 (split_ne_nil rest)
    · split at h <;> cases h

end Split

/-! ### Paths -/

/-- All steps are read from their texts, and the path is not the empty key alone, which would be
written as nothing between slashes. -/
structure IsCanonical (path : List PathStep) : Prop where
  ne_emptyKey : path ≠ [.key ""]
  step : ∀ step ∈ path, IsCanonicalStep step

instance (path : List PathStep) : Decidable (IsCanonical path) :=
  decidable_of_iff (path ≠ [.key ""] ∧ ∀ step ∈ path, IsCanonicalStep step)
    ⟨fun both => ⟨both.1, both.2⟩, fun canonical => ⟨canonical.1, canonical.2⟩⟩

theorem readDelimited_slash {body : List Char} (h : body ≠ []) :
    readDelimited ('/' :: body) = (split '/' body).map fun part => step (unescape part) := by
  cases body with
  | nil => exact absurd rfl h
  | cons => rfl

/-- A canonical path is read from what is written for it. -/
theorem readDelimited_writeDelimited {path : List PathStep} (canonical : IsCanonical path) :
    readDelimited (writeDelimited path) = path := by
  cases path with
  | nil => rfl
  | cons first rest =>
    let texts := rest.map fun s => escape s.display.toList
    have written : writeDelimited (first :: rest) =
        '/' :: (escape first.display.toList ++ texts.flatMap ('/' :: ·)) := by
      rw [writeDelimited, List.flatMap_cons, List.flatMap_map]
      rfl
    have parts : split '/' (escape first.display.toList ++ texts.flatMap ('/' :: ·)) =
        (first :: rest).map fun s => escape s.display.toList :=
      split_joined (slash_notMem_escape _) fun other mem => by
        obtain ⟨s, -, rfl⟩ := List.mem_map.1 mem
        exact slash_notMem_escape _
    have something : escape first.display.toList ++ texts.flatMap ('/' :: ·) ≠ [] := by
      intro nothing
      obtain ⟨noText, noTexts⟩ := List.append_eq_nil_iff.1 nothing
      have noFirst : first.display.toList = [] := by
        rw [← unescape_escape first.display.toList, noText]
        rfl
      have emptyKey : step [] = first :=
        (step_eq_iff [] first).2 ⟨canonical.step first (.head _), noFirst⟩
      cases rest with
      | nil => exact canonical.ne_emptyKey (congrArg (fun s => [s]) emptyKey.symm)
      | cons => cases noTexts
    rw [written, readDelimited_slash something, parts, List.map_map]
    have each : ∀ s ∈ first :: rest, step (unescape (escape s.display.toList)) = s := by
      intro s mem
      rw [unescape_escape]
      exact (step_eq_iff _ s).2 ⟨canonical.step s mem, rfl⟩
    exact (List.map_congr_left each).trans (List.map_id' _)

/-- What is read from a text is canonical. -/
theorem isCanonical_readDelimited (cs : List Char) : IsCanonical (readDelimited cs) := by
  rw [readDelimited]
  split
  · exact ⟨nofun, nofun⟩
  · rename_i something
    refine ⟨fun emptyKey => something ?_, fun s mem => ?_⟩
    · obtain ⟨part, others, parts⟩ := List.exists_cons_of_ne_nil (split_ne_nil (dropSlash cs))
      rw [parts] at emptyKey
      obtain ⟨isEmpty, noOthers⟩ := List.cons.inj emptyKey
      obtain ⟨-, noText⟩ := (step_eq_iff _ _).1 isEmpty
      rw [List.map_eq_nil_iff.1 noOthers, unescape_eq_nil_iff.1 noText.symm] at parts
      exact eq_nil_of_split parts
    · obtain ⟨part, -, rfl⟩ := List.mem_map.1 mem
      exact ((step_eq_iff _ _).1 rfl).1

/-- The paths that are read from steps between slashes are the canonical ones, and each of them is
read from the text that is written for it. -/
theorem steps_delimited_canonical :
    (∀ path, IsCanonical path →
        steps (.delimited (String.ofList (writeDelimited path))) = path) ∧
      ∀ raw, IsCanonical (steps (.delimited raw)) := by
  refine ⟨fun path canonical => ?_, fun raw => isCanonical_readDelimited raw.toList⟩
  rw [steps, String.toList_ofList]
  exact readDelimited_writeDelimited canonical

/-- Slashes, tildes before digits, positions, empty keys and numerals that are no positions. -/
def slashedPath : List PathStep :=
  [.key "a/b", .key "~1", .index 12, .key "", .key "007", .key "18446744073709551616"]

/-- The path is written with codes, and read back. -/
theorem slashedPath_read_back :
    IsCanonical slashedPath ∧
      writeDelimited slashedPath = "/a~1b/~01/12//007/18446744073709551616".toList ∧
      steps (.delimited (String.ofList (writeDelimited slashedPath))) = slashedPath := by
  have canonical : IsCanonical slashedPath := by decide +kernel
  exact ⟨canonical, by decide +kernel, steps_delimited_canonical.1 slashedPath canonical⟩

end SchemaBridge.Path
