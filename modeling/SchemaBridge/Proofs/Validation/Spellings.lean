import SchemaBridge.Proofs.Validation.Accessor

/-!
# Accessor chains in any spelling

A key may be written in several ways in an accessor chain: between quotes of either kind, with a
backslash before that quote and before a backslash, or bare, if nothing in it ends a bare key. All
spellings are read as the step, in any order and next to any other ones. What may be left over from
a spelling is a bare key, which is only complete when something follows it or the chain ends; so the
characters of one step complete the bare key before them, and leave at most a bare key themselves.

## Main definitions

* `Path.Spells`, `Path.SpellsPath` : the spellings of a step, and of a path.

## Main results

* `Path.Spells.reads`, `Path.SpellsPath.reads` : what is read of the spelling of a step, and of a
  path.
* `Path.spellsPath_accessorText` : the chain in the line that shows an issue is such a spelling.
-/

namespace SchemaBridge.Path

/-- A character of a key between quotes: with a backslash before it if it is the quote or a
backslash. -/
def escapeQuoted (quote c : Char) : List Char := if c = quote ∨ c = '\\' then ['\\', c] else [c]

/-- The key may be written bare: it is not empty, and nothing in it ends a bare key. -/
def IsPlainKey (key : String) : Prop := key ≠ "" ∧ ∀ c ∈ key.toList, c ≠ '.' ∧ c ≠ '['

-- The characters are those of the key: the search must not go through all that there are.
instance : DecidablePred IsPlainKey := fun key =>
  have : Decidable (∀ c ∈ key.toList, c ≠ '.' ∧ c ≠ '[') :=
    List.decidableBAll (fun c => c ≠ '.' ∧ c ≠ '[') key.toList
  inferInstanceAs (Decidable (_ ∧ _))

/-- The characters are a spelling of the step, which is the first one of its chain or a later
one. -/
inductive Spells (first : Bool) : PathStep → List Char → Prop where
  /-- A position between brackets. -/
  | index {i : Nat} (fits : i < wordLimit) :
    Spells first (.index i) ('[' :: (toString i).toList ++ [']'])
  /-- A key between quotes, between brackets. -/
  | quoted (key : String) {quote : Char} (isQuote : quote = '"' ∨ quote = '\'') :
    Spells first (.key key)
      ('[' :: quote :: key.toList.flatMap (escapeQuoted quote) ++ [quote, ']'])
  /-- A bare key, after a point unless it is the first step. -/
  | bare {key : String} (plain : IsPlainKey key) :
    Spells first (.key key) ((if first then [] else ['.']) ++ key.toList)

/-- The characters are spellings of the steps one after another, from the first step of a chain or
from a later one on. -/
inductive SpellsPath : Bool → List PathStep → List Char → Prop where
  | nil (first : Bool) : SpellsPath first [] []
  | cons {first : Bool} {step : PathStep} {rest : List PathStep} {cs ds : List Char}
    (spells : Spells first step cs) (others : SpellsPath false rest ds) :
    SpellsPath first (step :: rest) (cs ++ ds)

variable {first : Bool} {cs : List Char}

/-! ### Reading -/

/-- Between quotes, a key is read as it is. -/
theorem reads_escapeQuoted (quote : Char) (read key : List Char) :
    Reads (.quoted quote read) (key.flatMap (escapeQuoted quote)) []
      (.quoted quote (read ++ key)) := by
  induction key generalizing read with
  | nil =>
    rw [List.append_nil]
    exact Reads.nil _
  | cons c rest ih =>
    have others := ih (read ++ [c])
    rw [List.append_assoc] at others
    rw [List.flatMap_cons, escapeQuoted]
    split
    · have opens : readChar (.quoted quote read) '\\' = ([], .escaped quote read) := rfl
      exact Reads.cons opens (Reads.cons rfl others)
    · rename_i plain
      rw [not_or] at plain
      refine Reads.cons ?_ others
      rw [readChar, if_neg plain.2, if_neg plain.1]

/-- The spelling of a step completes the bare key before it and the step, but for a bare key that it
may leave. At the start of a chain there is nothing before it. -/
theorem Spells.reads {step : PathStep} (h : Spells first step cs) (read : List Char)
    (start : first = true → read = []) : ∃ done key, Reads (.bare read) cs done (.bare key) ∧
      done ++ bareStep key = bareStep read ++ [step] := by
  cases h with
  | @index i fits =>
    rw [toList_toString]
    exact ⟨_, [], reads_index fits read, List.append_nil _⟩
  | @quoted key quote isQuote =>
    have whole := reads_quoted isQuote (reads_escapeQuoted quote [] key.toList) read
    rw [List.nil_append, String.ofList_toList] at whole
    exact ⟨_, [], whole, List.append_nil _⟩
  | @bare key plain =>
    have word : Reads (.bare []) key.toList [] (.bare key.toList) := reads_bare plain.2 []
    have alone : bareStep key.toList = [.key key] := bareStep_toList plain.1
    cases first with
    | true =>
      rw [start rfl]
      exact ⟨[], _, word, alone⟩
    | false =>
      have point : Reads (.bare read) ['.'] (bareStep read) (.bare []) := .char rfl
      refine ⟨_, _, point.append word, ?_⟩
      rw [List.append_nil, alone]

/-- The spelling of a path completes the bare key before it and all steps, but for a bare key at its
end. -/
theorem SpellsPath.reads {path : List PathStep} (h : SpellsPath first path cs) (read : List Char)
    (start : first = true → read = []) : ∃ done key, Reads (.bare read) cs done (.bare key) ∧
      done ++ bareStep key = bareStep read ++ path := by
  induction h generalizing read with
  | nil => exact ⟨[], read, Reads.nil _, (List.append_nil _).symm⟩
  | @cons first step rest cs ds spells _ ih =>
    obtain ⟨done, key, reads, completed⟩ := spells.reads read start
    obtain ⟨done', key', reads', completed'⟩ := ih key nofun
    refine ⟨done ++ done', key', reads.append reads', ?_⟩
    calc done ++ done' ++ bareStep key'
        = done ++ bareStep key ++ rest := by
          rw [List.append_assoc, completed', List.append_assoc]
      _ = bareStep read ++ step :: rest := by
        rw [completed, List.append_assoc, List.singleton_append]

/-- A path is read from each of its spellings. -/
theorem SpellsPath.readAccessor {path : List PathStep} (h : SpellsPath true path cs) :
    readAccessor cs = path := by
  obtain ⟨done, key, reads, completed⟩ := h.reads [] fun _ => rfl
  have whole := reads []
  rw [List.append_nil] at whole
  rw [Path.readAccessor, whole]
  exact completed

/-! ### Lines that show issues -/

/-- The step is written in the line that shows an issue so that it can be read back. -/
def ShowsPlainly : PathStep → Prop
  | .index i => i < wordLimit
  | .key key => IsPlainKey key

instance : DecidablePred ShowsPlainly
  | .index i => inferInstanceAs (Decidable (i < wordLimit))
  | .key key => inferInstanceAs (Decidable (IsPlainKey key))

theorem spells_accessorText {step : PathStep} (plain : ShowsPlainly step) (first : Bool) :
    Spells first step (step.accessorText first).toList := by
  cases step with
  | index i =>
    have text : ((PathStep.index i).accessorText first).toList =
        '[' :: (toString i).toList ++ [']'] := by
      rw [PathStep.accessorText, String.toList_append, String.toList_append]
      rfl
    rw [text]
    exact .index plain
  | key key =>
    have text : ((PathStep.key key).accessorText first).toList =
        (if first then [] else ['.']) ++ key.toList := by
      cases first with
      | true => rfl
      | false => exact String.toList_append
    rw [text]
    exact .bare plain

private theorem spellsPath_join {path : List PathStep} (plain : ∀ step ∈ path, ShowsPlainly step) :
    SpellsPath false path (String.join (path.map (·.accessorText false))).toList := by
  induction path with
  | nil => exact .nil false
  | cons step rest ih =>
    obtain ⟨plain, others⟩ := List.forall_mem_cons.1 plain
    rw [List.map_cons, String.join_cons, String.toList_append]
    exact .cons (spells_accessorText plain false) (ih others)

/-- The chain in the line that shows an issue is a spelling of the path. -/
theorem spellsPath_accessorText {path : List PathStep} (plain : ∀ step ∈ path, ShowsPlainly step) :
    SpellsPath true path (Issue.accessorText path).toList := by
  cases path with
  | nil => exact .nil true
  | cons step rest =>
    obtain ⟨plain, others⟩ := List.forall_mem_cons.1 plain
    rw [Issue.accessorText, String.toList_append]
    exact .cons (spells_accessorText plain true) (spellsPath_join others)

/-- Every spelling of a path is read as the path. So is what stands before the message in the line
that shows an issue, if all keys of its path may be written bare. -/
theorem steps_accessor_spellings :
    (∀ path cs, SpellsPath true path cs → steps (.accessor (String.ofList cs)) = path) ∧
      ∀ (issue : Issue) path, issue.path = some path → (∀ step ∈ path, ShowsPlainly step) →
        ∃ text, issue.display = text ++ ": " ++ issue.message ∧ steps (.accessor text) = path := by
  constructor
  · intro path cs spells
    rw [steps, String.toList_ofList]
    exact spells.readAccessor
  · intro issue path located plain
    refine ⟨Issue.accessorText path, ?_, (spellsPath_accessorText plain).readAccessor⟩
    rw [Issue.display, located]

/-- Keys bare and between quotes of either kind, and a position. -/
def mixedPath : List PathStep := [.key "a", .index 3, .key "x.y", .key "it's", .key "b"]

/-- A spelling of the path with a quote in a key is read as the path, and so is the chain in the
line that shows an issue. -/
theorem mixedPath_read_back :
    SpellsPath true mixedPath "a[3][\"x.y\"]['it\\'s'].b".toList ∧
      steps (.accessor (String.ofList "a[3][\"x.y\"]['it\\'s'].b".toList)) = mixedPath ∧
      (∀ step ∈ [PathStep.key "items", .index 1, .key "qty"], ShowsPlainly step) ∧
      ∃ text, (Issue.located "required" [.key "items", .index 1, .key "qty"]).display =
          text ++ ": " ++ "required" ∧
        steps (.accessor text) = [.key "items", .index 1, .key "qty"] := by
  obtain ⟨cs, spells, rfl⟩ :
      ∃ cs, SpellsPath true mixedPath cs ∧ cs = "a[3][\"x.y\"]['it\\'s'].b".toList :=
    ⟨_, .cons (.bare (by decide +kernel)) <| .cons (.index (by decide)) <|
      .cons (.quoted "x.y" (.inl rfl)) <| .cons (.quoted "it's" (.inr rfl)) <|
        .cons (.bare (by decide +kernel)) (.nil false), by decide +kernel⟩
  have plain : ∀ step ∈ [PathStep.key "items", .index 1, .key "qty"], ShowsPlainly step := by
    decide +kernel
  exact ⟨spells, steps_accessor_spellings.1 _ _ spells, plain,
    steps_accessor_spellings.2 (.located "required" _) _ rfl plain⟩

end SchemaBridge.Path
