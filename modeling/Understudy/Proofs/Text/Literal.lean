import Understudy.Proofs.Text.TokenSequence

/-! # Identifiers outside literals

A piece of code names what its identifiers say, and a string or character literal names nothing.
Reading keeps track of the literal that is open. A piece that closes its literals shows its own
identifiers, whatever follows it.
-/

namespace Understudy.Text

/-- Where the reading of code stands: outside all literals, or in one that its quote ends, maybe
after a backslash. -/
inductive Literal where
  | outside
  | inside (quote : Char)
  | escaped (quote : Char)
  deriving DecidableEq, Repr

namespace Literal

def next : Literal → Char → Literal
  | outside, c => if c = '"' ∨ c = '\x27' then inside c else outside
  | inside quote, c =>
    if c = '\\' then escaped quote else if c = quote then outside else inside quote
  | escaped quote, _ => inside quote

end Literal

/-- Code with a space in the place of every character of a literal. -/
def blankLiterals (state : Literal) : List Char → List Char
  | [] => []
  | c :: rest =>
    (if state = .outside ∧ state.next c = .outside then c else ' ') ::
      blankLiterals (state.next c) rest

/-- Code that opens no literal without closing it. -/
def ClosesLiterals (text : List Char) : Prop := text.foldl Literal.next .outside = .outside

instance : DecidablePred ClosesLiterals := fun text =>
  inferInstanceAs (Decidable (text.foldl Literal.next .outside = .outside))

/-- The identifiers of a piece of code: its words outside literals, without the numbers. -/
def identifiers (text : List Char) : List (List Char) :=
  (words (blankLiterals .outside text)).filter fun word => !word.head?.any Char.isDigit

/-- A piece of code that closes its literals, with its identifiers. -/
structure Shows (text : List Char) (names : List (List Char)) : Prop where
  closes : ClosesLiterals text
  identifiers : identifiers text = names

variable {first second text : List Char} {names more : List (List Char)} {state : Literal}

theorem shows_identifiers (h : ClosesLiterals text) : Shows text (identifiers text) := ⟨h, rfl⟩

theorem ne_nil_of_mem_words {word : List Char} (h : word ∈ words text) : word ≠ [] := by
  induction text using run_induction with
  | nil => cases h
  | other c rest hc ih =>
      rw [words_cons_of_other hc] at h
      exact ih h
  | run first rest hne hfirst hrest ih =>
      rw [words_append_of_isWord hne hfirst hrest] at h
      rcases List.mem_cons.mp h with rfl | h
      · exact hne
      · exact ih h

theorem ne_nil_of_mem_identifiers {word : List Char} (h : word ∈ identifiers text) : word ≠ [] :=
  ne_nil_of_mem_words (List.mem_filter.mp h).1

theorem blankLiterals_append (first second : List Char) (state : Literal) :
    blankLiterals state (first ++ second) =
      blankLiterals state first ++ blankLiterals (first.foldl Literal.next state) second := by
  induction first generalizing state with
  | nil => rfl
  | cons c first ih =>
      rw [List.cons_append, blankLiterals, blankLiterals, ih, List.cons_append, List.foldl_cons]

/-- What is a space or stands there already ends a word where it did before. -/
theorem EndsWord.blankLiterals (h : EndsWord text) (state : Literal) :
    EndsWord (blankLiterals state text) := by
  cases text with
  | nil => exact h
  | cons c text =>
      rintro _ ⟨⟩
      split
      · exact h c rfl
      · decide

theorem StartsWord.blankLiterals (h : StartsWord text) (state : Literal) :
    StartsWord (blankLiterals state text) := by
  rcases List.eq_nil_or_concat' text with rfl | ⟨front, c, rfl⟩
  · exact h
  · rw [blankLiterals_append]
    intro d hd
    rw [Text.blankLiterals, Text.blankLiterals, List.getLast?_concat] at hd
    cases hd
    split
    · exact h c List.getLast?_concat
    · decide

theorem StartsWord.append (hfirst : StartsWord first) (hsecond : StartsWord second) :
    StartsWord (first ++ second) := by
  intro c hc
  rw [List.getLast?_append] at hc
  rcases Option.or_eq_some_iff.mp hc with hc | ⟨-, hc⟩
  · exact hsecond c hc
  · exact hfirst c hc

theorem EndsWord.append (hfirst : EndsWord first) (hsecond : EndsWord second) :
    EndsWord (first ++ second) := by
  cases first with
  | nil => exact hsecond
  | cons c first => exact hfirst

theorem ClosesLiterals.append (hfirst : ClosesLiterals first) (hsecond : ClosesLiterals second) :
    ClosesLiterals (first ++ second) := by
  have hstate : first.foldl Literal.next .outside = .outside := hfirst
  rw [ClosesLiterals, List.foldl_append, hstate]
  exact hsecond

/-- Where no word runs across, the identifiers are those of both parts. -/
theorem Shows.append (hfirst : Shows first names) (hsecond : Shows second more)
    (h : StartsWord first ∨ EndsWord second) : Shows (first ++ second) (names ++ more) := by
  have hstate : first.foldl Literal.next .outside = .outside := hfirst.closes
  refine ⟨hfirst.closes.append hsecond.closes, ?_⟩
  have hboth := h.imp (fun h => h.blankLiterals .outside) (fun h => h.blankLiterals .outside)
  rw [← hfirst.identifiers, ← hsecond.identifiers, Text.identifiers, blankLiterals_append, hstate,
    words, tokens_append hboth, List.filter_append, List.filter_append]
  rfl

/-- A word that starts with no digit is an identifier. -/
def IsIdentifier (word : List Char) : Prop :=
  IsWord word ∧ (word.head?.any fun c => !c.isDigit) = true

instance : DecidablePred IsIdentifier := fun word =>
  inferInstanceAs (Decidable (IsWord word ∧ (word.head?.any fun c => !c.isDigit) = true))

theorem IsIdentifier.ne_nil (h : IsIdentifier text) : text ≠ [] := by
  rintro rfl
  cases h.2

/-- What may follow the first character of an identifier changes nothing after it. -/
theorem isIdentifier_append_iff (hne : first ≠ []) (hsecond : IsWord second) :
    IsIdentifier (first ++ second) ↔ IsIdentifier first := by
  rw [IsIdentifier, IsIdentifier, List.head?_append_of_ne_nil _ hne]
  refine and_congr_left' ⟨fun h => (List.forall_mem_append.mp h).1, fun h => ?_⟩
  exact List.forall_mem_append.mpr ⟨h, hsecond⟩

theorem shows_word (h : IsIdentifier text) : Shows text [text] := by
  have hne := h.ne_nil
  obtain ⟨hword, hfirst⟩ := h
  have hkept {word : List Char} (hword : IsWord word) :
      word.foldl Literal.next .outside = .outside ∧ blankLiterals .outside word = word := by
    induction word with
    | nil => exact ⟨rfl, rfl⟩
    | cons c word ih =>
        obtain ⟨hc, hword⟩ := List.forall_mem_cons.mp hword
        have hnext : Literal.next .outside c = .outside := by
          rw [Literal.next, if_neg]
          rintro (rfl | rfl) <;> exact absurd hc (by decide)
        obtain ⟨hstate, hblank⟩ := ih hword
        rw [List.foldl_cons, blankLiterals, hnext, hblank]
        exact ⟨hstate, by simp⟩
  have hends : EndsWord [] := by simp [EndsWord]
  have htokens := tokens_append_of_isWord hne hword hends
  rw [List.append_nil] at htokens
  refine ⟨(hkept hword).1, ?_⟩
  rw [identifiers, (hkept hword).2, words, htokens]
  obtain ⟨c, rest, rfl⟩ := List.exists_cons_of_ne_nil hne
  simp [tokens, List.all_eq_true.mpr hword, by simpa using hfirst]

/-- Where there is neither a quote nor a backslash, a literal stays open. -/
theorem foldl_next_inside (hquote : '"' ∉ text) (hbackslash : '\\' ∉ text) :
    text.foldl Literal.next (.inside '"') = .inside '"' ∧
      IsGap (blankLiterals (.inside '"') text) := by
  induction text with
  | nil => exact ⟨rfl, List.forall_mem_nil _⟩
  | cons c text ih =>
      obtain ⟨hc, hquote⟩ := List.ne_and_not_mem_of_not_mem_cons hquote
      obtain ⟨hd, hbackslash⟩ := List.ne_and_not_mem_of_not_mem_cons hbackslash
      have hnext : Literal.next (.inside '"') c = .inside '"' := by
        rw [Literal.next, if_neg hd.symm, if_neg hc.symm]
      obtain ⟨hstate, hgap⟩ := ih hquote hbackslash
      rw [List.foldl_cons, blankLiterals, hnext]
      exact ⟨hstate, List.forall_mem_cons.mpr ⟨by simp; decide, hgap⟩⟩

/-- Text in quotes shows nothing, if there is neither a quote nor a backslash in it. -/
theorem shows_quoted (hquote : '"' ∉ text) (hbackslash : '\\' ∉ text) :
    Shows ('"' :: (text ++ ['"'])) [] := by
  obtain ⟨hstate, hgap⟩ := foldl_next_inside hquote hbackslash
  have hopen : Literal.next .outside '"' = .inside '"' := by decide
  constructor
  · rw [ClosesLiterals, List.foldl_cons, List.foldl_append, hopen, hstate]
    rfl
  · have hspaces : IsGap (blankLiterals .outside ('"' :: (text ++ ['"']))) := by
      rw [blankLiterals, blankLiterals_append, hopen, hstate]
      exact List.forall_mem_cons.mpr ⟨by decide,
        List.forall_mem_append.mpr ⟨hgap, List.forall_mem_singleton.mpr (by decide)⟩⟩
    rw [identifiers, words, tokens_gap hspaces]
    rfl

end Understudy.Text
