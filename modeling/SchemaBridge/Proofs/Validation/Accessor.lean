import SchemaBridge.Proofs.Validation.Positions

/-!
# Accessor chains that are read back

An accessor chain is written step by step and read character by character. Read back, every position
is itself, and every key loses what its JSON string was escaped with: the reader takes the character
after a backslash for itself. That is right for the quote and for the backslash, but not for the
characters below `0x20`, which are written with a letter after the backslash.

## Main definitions

* `Path.Reads` : what characters complete, and where the reader stands after them.
* `Path.heard` : the step that is read back for a step.

## Main results

* `Path.reads_quote` : what is read between the quotes of a JSON string.
* `Path.steps_accessor` : the steps that are read back.
* `Path.steps_accessor_eq_self_iff` : the steps are read back unchanged if and only if no key has a
  character below `0x20`.
-/

namespace SchemaBridge.Path

/-- From a place on, the characters complete these steps, and the reader stands at `next` after
them. -/
def Reads (place : Place) (cs : List Char) (done : List PathStep) (next : Place) : Prop :=
  ∀ rest, readFrom place (cs ++ rest) = done ++ readFrom next rest

namespace Reads

variable {place middle next : Place} {cs ds : List Char} {done more : List PathStep}

theorem nil (place : Place) : Reads place [] [] place := fun _ => rfl

theorem char {c : Char} (h : readChar place c = (done, next)) : Reads place [c] done next := by
  intro rest
  rw [List.cons_append, List.nil_append, readFrom, h]

theorem append (first : Reads place cs done middle) (second : Reads middle ds more next) :
    Reads place (cs ++ ds) (done ++ more) next := by
  intro rest
  rw [List.append_assoc, first, second, List.append_assoc]

/-- Characters that complete no step, one after another. -/
theorem cons {c : Char} (first : readChar place c = ([], middle))
    (second : Reads middle cs done next) : Reads place (c :: cs) done next :=
  (char first).append second

/-- All characters leave the reader where it collects them. -/
theorem collect (after : List Char → Place) {keeps : Char → Prop}
    (step : ∀ key c, keeps c → readChar (after key) c = ([], after (key ++ [c])))
    (kept : ∀ c ∈ cs, keeps c) (key : List Char) : Reads (after key) cs [] (after (key ++ cs)) := by
  induction cs generalizing key with
  | nil =>
    rw [List.append_nil]
    exact nil _
  | cons c cs ih =>
    have rest := ih (fun d mem => kept d (.tail _ mem)) (key ++ [c])
    rw [List.append_assoc] at rest
    exact cons (step key c (kept c (.head _))) rest

end Reads

/-! ### Positions -/

private theorem isBlank_of_isDigit {c : Char} (h : isDigit c = true) : Blank.isBlank c = false := by
  have range := toNat_of_isDigit h
  simp only [Blank.isBlank, Blank.ranges, List.any_cons, List.any_nil, Bool.or_false,
    Bool.or_eq_false_iff, Bool.and_eq_false_iff, decide_eq_false_iff_not]
  omega

private theorem insideStep_digits {n : Nat} (fits : n < wordLimit) :
    insideStep (Decimal.digits n) = [.index n] := by
  have trimmed : Blank.trim (Decimal.digits n) = Decimal.digits n :=
    Blank.trim_eq_self
      (fun c first => isBlank_of_isDigit (isDigit_digits (List.mem_of_mem_head? first)))
      (fun c last => isBlank_of_isDigit (isDigit_digits (List.mem_of_mem_getLast? last)))
  rw [insideStep, trimmed, if_neg (by simp [Decimal.digits]), step_digits fits]

theorem reads_index {position : Nat} (fits : position < wordLimit) (key : List Char) :
    Reads (.bare key) ('[' :: Decimal.digits position ++ [']']) (bareStep key ++ [.index position])
      (.bare []) := by
  obtain ⟨first, rest, same⟩ :=
    List.exists_cons_of_ne_nil (Nat.toDigits_ne_nil (n := position) (b := 10))
  have isNumeral : ∀ c ∈ first :: rest, c ≠ '"' ∧ c ≠ '\'' ∧ c ≠ ']' := by
    intro c mem
    have range := toNat_of_isDigit (isDigit_digits (same ▸ mem))
    refine ⟨?_, ?_, ?_⟩ <;> (rintro rfl; revert range; decide)
  have opens : Reads (.bare key) ['['] (bareStep key) .opened := .char rfl
  obtain ⟨notQuote, notApostrophe, notBracket⟩ := isNumeral first (.head _)
  have starts : readChar .opened first = ([], .inside [first]) := by
    rw [readChar, if_neg (by simp [notQuote, notApostrophe]), if_neg notBracket]
  have collects : Reads (.inside [first]) rest [] (.inside (first :: rest)) :=
    Reads.collect .inside (fun key c (notBracket : c ≠ ']') => by rw [readChar, if_neg notBracket])
      (fun c mem => (isNumeral c (.tail _ mem)).2.2) [first]
  have closes : Reads (.inside (first :: rest)) [']'] [.index position] (.bare []) := by
    refine .char ?_
    rw [readChar, if_pos rfl, ← same]
    exact congrArg (·, _) (insideStep_digits fits)
  have whole := opens.append (Reads.cons starts (collects.append closes))
  rw [Decimal.digits, same]
  exact whole

/-! ### Bare keys -/

/-- A character outside of brackets belongs to a bare key, unless it is a point or a bracket. -/
theorem reads_bare {cs : List Char} (plain : ∀ c ∈ cs, c ≠ '.' ∧ c ≠ '[') (key : List Char) :
    Reads (.bare key) cs [] (.bare (key ++ cs)) := by
  refine Reads.collect .bare (fun key c plain => ?_) plain key
  rw [readChar, bareChar, if_neg plain.1, if_neg plain.2]

theorem bareStep_toList {key : String} (nonempty : key ≠ "") :
    bareStep key.toList = [.key key] := by
  rw [bareStep, if_neg, String.ofList_toList]
  rwa [List.isEmpty_iff, String.toList_eq_nil_iff]

/-! ### Keys between quotes -/

/-- How a character is written inside a JSON string: after a backslash if it is a quote or a
backslash itself, with a letter after a backslash if it is below `0x20`, and else as it is. -/
private theorem escape_cases (c : Char) :
    (c = '"' ∨ c = '\\') ∧ Json.escape c = ['\\', c] ∨
      c.toNat < 0x20 ∧
        (∃ letter rest, Json.escape c = '\\' :: letter :: rest ∧ 0x20 ≤ letter.toNat ∧
          ∀ d ∈ rest, d ≠ '\\' ∧ d ≠ '"') ∨
      0x20 ≤ c.toNat ∧ (c ≠ '\\' ∧ c ≠ '"') ∧ Json.escape c = [c] := by
  unfold Json.escape
  split
  · subst c
    exact .inl ⟨.inl rfl, rfl⟩
  · split
    · subst c
      exact .inl ⟨.inr rfl, rfl⟩
    · iterate 5
        split
        · subst c
          exact .inr (.inl ⟨by decide, _, _, rfl, by decide, nofun⟩)
      · split
        · rename_i below
          have digits : ∀ n < 16, Json.hexDigit n ≠ '\\' ∧ Json.hexDigit n ≠ '"' := by decide
          refine .inr (.inl ⟨below, _, _, rfl, by decide, fun d mem => ?_⟩)
          simp only [List.mem_cons, List.not_mem_nil, or_false] at mem
          rcases mem with rfl | rfl | rfl | rfl
          · decide
          · decide
          · exact digits _ (by omega)
          · exact digits _ (by omega)
        · exact .inr (.inr ⟨by omega, ⟨‹_›, ‹_›⟩, rfl⟩)

/-- What is left of a character that is written inside a JSON string without its backslash. -/
def unescaped (c : Char) : List Char :=
  match Json.escape c with
  | '\\' :: rest => rest
  | plain => plain

/-- The key that is read back for a key between quotes. -/
def heardKey (key : List Char) : List Char := key.flatMap unescaped

/-- The step that is read back for a step. -/
def heard : PathStep → PathStep
  | .index position => .index position
  | .key key => .key (String.ofList (heardKey key.toList))

private theorem unescaped_of_plain {c : Char} (notBackslash : c ≠ '\\')
    (written : Json.escape c = [c]) : unescaped c = [c] := by
  rw [unescaped, written]
  split
  · rename_i same
    exact absurd (List.cons.inj same).1 notBackslash
  · rfl

private theorem unescaped_of_escaped {c letter : Char} {rest : List Char}
    (written : Json.escape c = '\\' :: letter :: rest) : unescaped c = letter :: rest := by
  rw [unescaped, written]
  rfl

/-- A character from `0x20` on is left as it is, and no other one is. -/
theorem unescaped_eq_self_iff (c : Char) : unescaped c = [c] ↔ 0x20 ≤ c.toNat := by
  rcases escape_cases c with ⟨special, written⟩ | ⟨below, letter, rest, written, least, -⟩ |
    ⟨least, ⟨notBackslash, -⟩, written⟩
  · rw [unescaped_of_escaped written]
    rcases special with rfl | rfl <;> decide
  · rw [unescaped_of_escaped written]
    refine ⟨fun same => ?_, fun above => absurd below (by omega)⟩
    obtain ⟨rfl, -⟩ := List.cons.inj same
    exact least
  · exact ⟨fun _ => least, fun _ => unescaped_of_plain notBackslash written⟩

theorem length_unescaped_pos (c : Char) : 0 < (unescaped c).length := by
  rcases escape_cases c with ⟨-, written⟩ | ⟨-, letter, rest, written, -⟩ |
    ⟨-, ⟨notBackslash, -⟩, written⟩
  · rw [unescaped_of_escaped written]
    exact Nat.succ_pos _
  · rw [unescaped_of_escaped written]
    exact Nat.succ_pos _
  · rw [unescaped_of_plain notBackslash written]
    exact Nat.succ_pos _

private theorem length_le_heardKey (key : List Char) : key.length ≤ (heardKey key).length := by
  induction key with
  | nil => exact Nat.le_refl 0
  | cons c rest ih =>
    have := length_unescaped_pos c
    rw [heardKey] at ih ⊢
    rw [List.flatMap_cons, List.length_append, List.length_cons]
    omega

/-- A key is read back as itself if and only if it has no character below `0x20`: what stands for
such a character is another character, or several. -/
theorem heardKey_eq_self_iff (key : List Char) :
    heardKey key = key ↔ ∀ c ∈ key, 0x20 ≤ c.toNat := by
  induction key with
  | nil => exact ⟨fun _ => nofun, fun _ => rfl⟩
  | cons c rest ih =>
    rw [List.forall_mem_cons, ← ih, ← unescaped_eq_self_iff]
    change unescaped c ++ heardKey rest = [c] ++ rest ↔ _
    refine ⟨fun same => List.append_inj same ?_, fun ⟨first, others⟩ => by rw [first, others]⟩
    have total := congrArg List.length same
    have := length_unescaped_pos c
    have := length_le_heardKey rest
    rw [List.length_append, List.length_append, List.length_singleton] at total
    rw [List.length_singleton]
    omega

/-- Between quotes, a written character is read as what is left of it. -/
private theorem reads_escape (key : List Char) (c : Char) :
    Reads (.quoted '"' key) (Json.escape c) [] (.quoted '"' (key ++ unescaped c)) := by
  have plain (key : List Char) (c : Char) (h : c ≠ '\\' ∧ c ≠ '"') :
      readChar (.quoted '"' key) c = ([], .quoted '"' (key ++ [c])) := by
    rw [readChar, if_neg h.1, if_neg h.2]
  have escaped (letter : Char) {rest : List Char} (others : ∀ d ∈ rest, d ≠ '\\' ∧ d ≠ '"') :
      Reads
        (.quoted '"' key) ('\\' :: letter :: rest) [] (.quoted '"' (key ++ letter :: rest)) := by
    have collects := Reads.collect (.quoted '"') plain others (key ++ [letter])
    rw [List.append_assoc] at collects
    exact Reads.cons rfl (Reads.cons rfl collects)
  rcases escape_cases c with ⟨-, written⟩ | ⟨-, letter, rest, written, -, others⟩ |
    ⟨-, notSpecial, written⟩
  · rw [unescaped_of_escaped written, written]
    exact escaped c nofun
  · rw [unescaped_of_escaped written, written]
    exact escaped letter others
  · rw [unescaped_of_plain notSpecial.1 written, written]
    exact .char (plain key c notSpecial)

/-- Between the quotes of a JSON string, what is left of its characters is read. -/
theorem reads_quote (read key : List Char) :
    Reads (.quoted '"' read) (key.flatMap Json.escape) [] (.quoted '"' (read ++ heardKey key)) := by
  induction key generalizing read with
  | nil =>
    change Reads _ [] [] (.quoted '"' (read ++ []))
    rw [List.append_nil]
    exact Reads.nil _
  | cons c rest ih =>
    have others := ih (read ++ unescaped c)
    rw [List.append_assoc] at others
    exact (reads_escape read c).append others

/-- A key between quotes and brackets, by what is read between the quotes. -/
theorem reads_quoted {quote : Char} (isQuote : quote = '"' ∨ quote = '\'') {body key : List Char}
    (reads : Reads (.quoted quote []) body [] (.quoted quote key)) (read : List Char) :
    Reads (.bare read) ('[' :: quote :: body ++ [quote, ']'])
      (bareStep read ++ [.key (String.ofList key)]) (.bare []) := by
  have notBackslash : quote ≠ '\\' := by rcases isQuote with rfl | rfl <;> decide
  have opens : Reads (.bare read) ['['] (bareStep read) .opened := .char rfl
  have starts : readChar .opened quote = ([], .quoted quote []) := by rw [readChar, if_pos isQuote]
  have ends : readChar (.quoted quote key) quote = ([.key (String.ofList key)], .closed) := by
    rw [readChar, if_neg notBackslash, if_pos rfl]
  have closes : Reads (.quoted quote key) [quote, ']'] [.key (String.ofList key)] (.bare []) :=
    Reads.append (.char ends) (.char rfl : Reads .closed [']'] [] _)
  exact opens.append (Reads.cons starts (reads.append closes))

theorem reads_quotedKey (read key : List Char) :
    Reads (.bare read) ('[' :: Json.quote key ++ [']'])
      (bareStep read ++ [.key (String.ofList (heardKey key))]) (.bare []) := by
  have whole := reads_quoted (.inl rfl) (reads_quote [] key) read
  rw [Json.quote]
  simpa using whole

/-! ### Chains -/

private theorem toNat_of_isBareChar {c : Char} (h : isBareChar c = true) : 0x20 ≤ c.toNat := by
  change (((decide ('A'.val ≤ c.val ∧ c.val ≤ 'Z'.val) ||
    (decide ('a'.val ≤ c.val) && decide (c.val ≤ 'z'.val))) ||
    (decide ('0'.val ≤ c.val) && decide (c.val ≤ '9'.val))) || decide (c = '_')) = true at h
  simp only [Bool.or_eq_true, Bool.and_eq_true, decide_eq_true_eq, UInt32.le_iff_toNat_le] at h
  rcases h with ((h | h) | h) | rfl
  · exact Nat.le_trans (by decide) h.1
  · exact Nat.le_trans (by decide) h.1
  · exact Nat.le_trans (by decide) h.1
  · decide

private theorem plain_of_isBareChar {c : Char} (h : isBareChar c = true) : c ≠ '.' ∧ c ≠ '[' := by
  refine ⟨?_, ?_⟩ <;> (rintro rfl; cases h)

private theorem isBareChar_of_isBareKey {key : List Char} (h : isBareKey key = true) :
    ∀ c ∈ key, isBareChar c = true := by
  rw [isBareKey, Bool.and_eq_true, Bool.and_eq_true] at h
  exact List.all_eq_true.1 h.1.2

private theorem heard_of_isBareKey {key : String} (h : isBareKey key.toList = true) :
    heard (.key key) = .key key := by
  have same : heardKey key.toList = key.toList :=
    (heardKey_eq_self_iff _).2 fun c mem => toNat_of_isBareChar (isBareChar_of_isBareKey h c mem)
  rw [heard, same, String.ofList_toList]

private theorem ne_empty_of_isBareKey {key : String} (h : isBareKey key.toList = true) :
    key ≠ "" := by
  rintro rfl
  cases h

/-- A key that is written bare at the end of a chain. -/
private theorem reads_bareKey {chain read : List Char} {done : List PathStep} {key : String}
    (reads : Reads (.bare []) chain done (.bare read)) (isBare : isBareKey key.toList = true) :
    Reads (.bare []) (appendKey chain key) (done ++ bareStep read) (.bare key.toList) := by
  have word :=
    reads_bare (fun c mem => plain_of_isBareChar (isBareChar_of_isBareKey isBare c mem)) []
  rw [appendKey, if_pos isBare]
  cases chain with
  | nil =>
    have nothing : [] = done ++ bareStep read := reads []
    rw [← nothing]
    exact word
  | cons first rest =>
    have point : Reads (.bare read) ['.'] (bareStep read) (.bare []) := .char rfl
    have whole := (reads.append point).append word
    rwa [List.append_nil] at whole

/-- What is written for a path completes all of its steps but for a bare key at its end. -/
theorem reads_chain (path : List PathStep) (fits : ∀ i, .index i ∈ path → i < wordLimit) :
    ∃ done key, Reads (.bare []) (path.foldl appendStep []) done (.bare key) ∧
      done ++ bareStep key = path.map heard := by
  induction path using List.reverseRecOn with
  | nil => exact ⟨[], [], Reads.nil _, rfl⟩
  | append_singleton path last ih =>
    obtain ⟨done, read, reads, before⟩ := ih fun i mem => fits i (List.mem_append_left _ mem)
    rw [List.foldl_append, List.foldl_cons, List.foldl_nil, List.map_append, ← before,
      List.map_singleton]
    generalize path.foldl appendStep [] = chain at reads ⊢
    have bracketed {component : List Char} (written : appendStep chain last = chain ++ component)
        (next : Reads (.bare read) component (bareStep read ++ [heard last]) (.bare [])) :
        ∃ done' key, Reads (.bare []) (appendStep chain last) done' (.bare key) ∧
          done' ++ bareStep key = done ++ bareStep read ++ [heard last] := by
      refine ⟨done ++ (bareStep read ++ [heard last]), [], written ▸ reads.append next, ?_⟩
      rw [List.append_assoc done (bareStep read)]
      exact List.append_nil _
    cases last with
    | index position =>
      refine bracketed ?_ (reads_index (fits position (List.mem_append_right _ (.head _))) read)
      rw [appendStep, appendIndex, List.append_assoc]
    | key key =>
      by_cases isBare : isBareKey key.toList = true
      · refine ⟨_, key.toList, reads_bareKey reads isBare, ?_⟩
        rw [heard_of_isBareKey isBare, bareStep_toList (ne_empty_of_isBareKey isBare)]
      · refine bracketed ?_ (reads_quotedKey read key.toList)
        rw [appendStep, appendKey, if_neg isBare, List.append_assoc]

/-- The steps that are read back from the chain that is written for a path. -/
theorem steps_accessor (path : List PathStep) (fits : ∀ i, .index i ∈ path → i < wordLimit) :
    steps (.accessor (String.ofList (path.foldl appendStep []))) = path.map heard := by
  obtain ⟨done, key, reads, all⟩ := reads_chain path fits
  have whole := reads []
  rw [List.append_nil] at whole
  rw [steps, String.toList_ofList, readAccessor, whole, ← all]
  rfl

theorem heard_eq_self_iff (step : PathStep) :
    heard step = step ↔ ∀ key, step = .key key → ∀ c ∈ key.toList, 0x20 ≤ c.toNat := by
  cases step with
  | index position => exact ⟨fun _ => nofun, fun _ => rfl⟩
  | key key =>
    have same : heard (.key key) = .key key ↔ heardKey key.toList = key.toList := by
      rw [heard, PathStep.key.injEq]
      refine ⟨fun same => ?_, fun same => by rw [same, String.ofList_toList]⟩
      have chars := congrArg String.toList same
      rwa [String.toList_ofList] at chars
    rw [same, heardKey_eq_self_iff]
    exact ⟨fun h other isKey => PathStep.key.inj isKey ▸ h, fun h => h key rfl⟩

/-- A path is read back unchanged from the chain that is written for it if and only if no key has a
character below `0x20`. -/
theorem steps_accessor_eq_self_iff (path : List PathStep)
    (fits : ∀ i, .index i ∈ path → i < wordLimit) :
    steps (.accessor (String.ofList (path.foldl appendStep []))) = path ↔
      ∀ key, .key key ∈ path → ∀ c ∈ key.toList, 0x20 ≤ c.toNat := by
  rw [steps_accessor path fits]
  have each : path.map heard = path ↔ ∀ step ∈ path, heard step = step := by
    conv_lhs => rhs; rw [← List.map_id path]
    exact List.map_inj_left
  rw [each]
  refine ⟨fun h key mem => ((heard_eq_self_iff _).1 (h _ mem)) key rfl, fun h step mem => ?_⟩
  exact (heard_eq_self_iff step).2 fun key isKey => h key (isKey ▸ mem)

/-- A key between quotes, a position, a bare key and the empty key. -/
def roundTrip : List PathStep := [.key "say \"hi\"", .index 12, .key "name", .key ""]

/-- The path is read back unchanged. -/
theorem roundTrip_read_back :
    (∀ i, .index i ∈ roundTrip → i < wordLimit) ∧
      (∀ key, .key key ∈ roundTrip → ∀ c ∈ key.toList, 0x20 ≤ c.toNat) ∧
      steps (.accessor (String.ofList (roundTrip.foldl appendStep []))) = roundTrip := by
  have fits : ∀ i, .index i ∈ roundTrip → i < wordLimit := by
    intro i mem
    simp only [roundTrip, List.mem_cons, PathStep.index.injEq, reduceCtorEq, List.not_mem_nil,
      false_or, or_false] at mem
    rw [mem]
    decide
  have all {key : String} (h : (key.toList.all fun c => decide (0x20 ≤ c.toNat)) = true) :
      ∀ c ∈ key.toList, 0x20 ≤ c.toNat :=
    fun c mem => of_decide_eq_true (List.all_eq_true.1 h c mem)
  have printable : ∀ key, .key key ∈ roundTrip → ∀ c ∈ key.toList, 0x20 ≤ c.toNat := by
    intro key mem
    simp only [roundTrip, List.mem_cons, PathStep.key.injEq, reduceCtorEq, List.not_mem_nil,
      false_or, or_false] at mem
    rcases mem with rfl | rfl | rfl <;> exact all rfl
  exact ⟨fits, printable, (steps_accessor_eq_self_iff roundTrip fits).2 printable⟩

/-- A line feed in a key is read back as the letter that it is written with. -/
theorem lineFeed_misread :
    steps (.accessor (String.ofList ([PathStep.key "a\nb"].foldl appendStep []))) = [.key "anb"] ∧
      steps (.accessor (String.ofList ([PathStep.key "a\nb"].foldl appendStep []))) ≠
        [.key "a\nb"] := by
  decide +kernel

end SchemaBridge.Path
