import Mathlib.Data.List.DropRight
import Understudy.Proofs.Text.Token

/-! # Spellings and their tokens

A text is read as one sequence of tokens. A normalised spelling says its tokens and nothing else:
two texts are normalised alike exactly when they have the same tokens. Texts that are put together
keep their tokens, unless a word at the end of one runs into a word at the start of the other, which
makes one token of two.
-/

namespace Understudy.Text

variable {first second gap text word rest : List Char} {afterWord hasGap : Bool}

/-- No word character at the end, so that a word starts after it. -/
def StartsWord (before : List Char) : Prop := ∀ c, before.getLast? = some c → isWordChar c = false

theorem IsGap.endsWord (hgap : IsGap gap) : EndsWord gap := by
  have hends : EndsWord (gap ++ []) := endsWord_gap_append hgap (by simp [EndsWord])
  rwa [List.append_nil] at hends

theorem StartsWord.tail {c : Char} (h : StartsWord (c :: rest)) : StartsWord rest := by
  intro d hd
  apply h
  rw [List.getLast?_cons, hd]
  rfl

theorem not_startsWord_append (hne : word ≠ []) (hword : IsWord word) :
    ¬ StartsWord (first ++ word) := by
  intro hstarts
  have hlast := List.getLast?_eq_some_getLast hne
  have hother := hstarts (word.getLast hne) (by rw [List.getLast?_append, hlast, Option.some_or])
  rw [hword _ (List.getLast_mem hne)] at hother
  cases hother

/-- A text with the word at its end split off. -/
theorem exists_eq_append_isWord (text : List Char) :
    ∃ start word, IsWord word ∧ StartsWord start ∧ text = start ++ word := by
  refine ⟨text.rdropWhile isWordChar, text.rtakeWhile isWordChar,
    fun _ => List.mem_rtakeWhile_imp, ?_, List.rdropWhile_append_rtakeWhile.symm⟩
  intro c hc
  apply endsWord_dropWhile text.reverse
  rwa [List.rdropWhile, List.getLast?_reverse] at hc

/-- A text with the word at its start split off. -/
theorem exists_eq_isWord_append (text : List Char) :
    ∃ word rest, IsWord word ∧ EndsWord rest ∧ text = word ++ rest :=
  ⟨text.takeWhile isWordChar, text.dropWhile isWordChar, fun _ => List.mem_takeWhile_imp,
    endsWord_dropWhile text, List.takeWhile_append_dropWhile.symm⟩

/-! ## Tokens as they are read -/

theorem tokens_cons_of_blank {c : Char} (hblank : isBlank c = true) :
    tokens (c :: rest) = tokens rest := by
  rw [tokens, if_pos hblank]

theorem tokens_cons_of_mark {c : Char} (hblank : isBlank c = false) (hword : isWordChar c = false) :
    tokens (c :: rest) = [c] :: tokens rest := by
  rw [tokens, if_neg (by simp [hblank]), if_neg (by simp [hword])]

/-- The tokens of a text, read from its front. A run of word characters is one token as far as it
goes, any other character that is not a blank is one by itself, and blanks are passed over. -/
inductive Tokenised : List Char → List (List Char) → Prop
  | nil : Tokenised [] []
  | blank {c : Char} {rest : List Char} {read : List (List Char)} (hblank : isBlank c = true)
      (hrest : Tokenised rest read) : Tokenised (c :: rest) read
  | mark {c : Char} {rest : List Char} {read : List (List Char)} (hblank : isBlank c = false)
      (hword : isWordChar c = false) (hrest : Tokenised rest read) :
      Tokenised (c :: rest) ([c] :: read)
  | run {word rest : List Char} {read : List (List Char)} (hne : word ≠ []) (hword : IsWord word)
      (hends : EndsWord rest) (hrest : Tokenised rest read) :
      Tokenised (word ++ rest) (word :: read)

/-- Every text is read in some way. -/
theorem tokenised_tokens (text : List Char) : Tokenised text (tokens text) := by
  induction text using run_induction with
  | nil => exact .nil
  | other c rest hc ih =>
      by_cases hblank : isBlank c = true
      · rw [tokens_cons_of_blank hblank]
        exact .blank hblank ih
      · rw [Bool.not_eq_true] at hblank
        rw [tokens_cons_of_mark hblank hc]
        exact .mark hblank hc ih
  | run word rest hne hword hrest ih =>
      rw [tokens_append_of_isWord hne hword hrest]
      exact .run hne hword hrest ih

/-- And in no other, because a run of word characters ends in one place. -/
theorem Tokenised.tokens_eq {read : List (List Char)} (h : Tokenised text read) :
    tokens text = read := by
  induction h with
  | nil => rfl
  | blank hblank _ ih => rw [tokens_cons_of_blank hblank, ih]
  | mark hblank hword _ ih => rw [tokens_cons_of_mark hblank hword, ih]
  | run hne hword hends _ ih => rw [tokens_append_of_isWord hne hword hends, ih]

/-- Two texts that are read as the same tokens. -/
def SameTokens (first second : List Char) : Prop :=
  ∃ read, Tokenised first read ∧ Tokenised second read

theorem sameTokens_iff : SameTokens first second ↔ tokens first = tokens second := by
  constructor
  · rintro ⟨read, hfirst, hsecond⟩
    rw [hfirst.tokens_eq, hsecond.tokens_eq]
  · intro h
    exact ⟨tokens first, tokenised_tokens first, h ▸ tokenised_tokens second⟩

/-! ## Tokens of texts put together -/

/-- Where no word runs across, the tokens are those of both parts. -/
theorem tokens_append (h : StartsWord first ∨ EndsWord second) :
    tokens (first ++ second) = tokens first ++ tokens second := by
  induction first using run_induction with
  | nil => rfl
  | other c rest hc ih =>
      have htail := ih (h.imp_left StartsWord.tail)
      rw [List.cons_append]
      by_cases hblank : isBlank c = true
      · rw [tokens_cons_of_blank hblank, tokens_cons_of_blank hblank, htail]
      · rw [Bool.not_eq_true] at hblank
        rw [tokens_cons_of_mark hblank hc, tokens_cons_of_mark hblank hc, htail, List.cons_append]
  | run word rest hne hword hrest ih =>
      have hends : EndsWord (rest ++ second) := by
        cases rest with
        | nil =>
            have hlast : ¬ StartsWord ([] ++ word) := not_startsWord_append hne hword
            apply h.resolve_left
            rwa [List.append_nil]
        | cons c rest => exact hrest
      have hboth : StartsWord rest ∨ EndsWord second := by
        refine h.imp_left fun hstarts c hc => ?_
        apply hstarts
        rw [List.getLast?_append, hc, Option.some_or]
      rw [List.append_assoc, tokens_append_of_isWord hne hword hends,
        tokens_append_of_isWord hne hword hrest, ih hboth, List.cons_append]

/-- A word that runs across is one token where its parts are two. -/
theorem length_tokens_of_joined (hfirst : ¬ StartsWord first) (hsecond : ¬ EndsWord second) :
    (tokens (first ++ second)).length + 1 = (tokens first).length + (tokens second).length := by
  obtain ⟨start, left, hleft, hstart, rfl⟩ := exists_eq_append_isWord first
  obtain ⟨right, rest, hright, hrest, rfl⟩ := exists_eq_isWord_append second
  have hleftNe : left ≠ [] := by
    intro hnil
    rw [hnil, List.append_nil] at hfirst
    exact hfirst hstart
  have hrightNe : right ≠ [] := by
    intro hnil
    rw [hnil, List.nil_append] at hsecond
    exact hsecond hrest
  have hword : IsWord (left ++ right) := List.forall_mem_append.mpr ⟨hleft, hright⟩
  have hjoined : tokens (start ++ left ++ (right ++ rest)) =
      tokens start ++ (left ++ right) :: tokens rest := by
    rw [List.append_assoc, ← List.append_assoc left, tokens_append (.inl hstart),
      tokens_append_of_isWord (List.append_ne_nil_of_left_ne_nil hleftNe right) hword hrest]
  have hends : EndsWord [] := by simp [EndsWord]
  have hlast : tokens left = [left] := by
    have htokens := tokens_append_of_isWord hleftNe hleft hends
    rwa [List.append_nil] at htokens
  rw [hjoined, tokens_append (.inl hstart), hlast, tokens_append_of_isWord hrightNe hright hrest]
  simp only [List.length_append, List.length_cons, List.length_nil]
  omega

theorem tokens_gap (hgap : IsGap gap) : tokens gap = [] := by
  induction gap with
  | nil => rfl
  | cons c gap ih =>
      obtain ⟨hblank, hgap⟩ := List.forall_mem_cons.mp hgap
      rw [tokens_cons_of_blank hblank, ih hgap]

theorem tokens_gap_append (hgap : IsGap gap) : tokens (gap ++ text) = tokens text := by
  induction gap with
  | nil => rfl
  | cons c gap ih =>
      obtain ⟨hblank, hgap⟩ := List.forall_mem_cons.mp hgap
      rw [List.cons_append, tokens_cons_of_blank hblank, ih hgap]

theorem tokens_append_gap (hgap : IsGap gap) : tokens (text ++ gap) = tokens text := by
  rw [tokens_append (.inr hgap.endsWord), tokens_gap hgap, List.append_nil]

/-- Blanks keep the words on their two sides apart. -/
theorem tokens_append_of_gap (hgap : IsGap gap) (hne : gap ≠ []) :
    tokens (first ++ (gap ++ second)) = tokens first ++ tokens second := by
  have hends : EndsWord (gap ++ second) := by
    cases gap with
    | nil => exact absurd rfl hne
    | cons c gap => exact hgap.endsWord
  rw [tokens_append (.inr hends), tokens_gap_append hgap]

/-- Taking blanks out changes no token where they keep no two words apart. -/
theorem tokens_append_gap_append (hgap : IsGap gap)
    (h : gap = [] ∨ StartsWord first ∨ EndsWord second) :
    tokens (first ++ (gap ++ second)) = tokens (first ++ second) := by
  by_cases hne : gap = []
  · rw [hne, List.nil_append]
  · rw [tokens_append_of_gap hgap hne, tokens_append (h.resolve_left hne)]

/-- Taking out blanks between two words leaves a token less. -/
theorem length_tokens_lt (hgap : IsGap gap) (hne : gap ≠ []) (hfirst : ¬ StartsWord first)
    (hsecond : ¬ EndsWord second) :
    (tokens (first ++ second)).length < (tokens (first ++ (gap ++ second))).length := by
  have hjoined := length_tokens_of_joined hfirst hsecond
  rw [tokens_append_of_gap hgap hne, List.length_append]
  omega

theorem length_tokens_le (hgap : IsGap gap) :
    (tokens (first ++ second)).length ≤ (tokens (first ++ (gap ++ second))).length := by
  by_cases h : gap = [] ∨ StartsWord first ∨ EndsWord second
  · rw [tokens_append_gap_append hgap h]
  · simp only [not_or] at h
    exact (length_tokens_lt hgap h.1 h.2.1 h.2.2).le

/-! ## What normalising keeps -/

theorem squeeze_append_of_isWord (hword : IsWord word) :
    squeeze true false (word ++ rest) = word ++ squeeze true false rest := by
  induction word with
  | nil => rfl
  | cons c word ih =>
      obtain ⟨hc, hword⟩ := List.forall_mem_cons.mp hword
      rw [List.cons_append, squeeze_cons_of_kept (isBlank_eq_false_of_isWordChar hc) (by simp), hc,
        ih hword, List.cons_append]

/-- A word is kept, with a space in front of it if only blanks stood between it and another. -/
theorem squeeze_run (hne : word ≠ []) (hword : IsWord word) :
    squeeze afterWord hasGap (word ++ rest) =
      (if afterWord && hasGap then [' '] else []) ++ word ++ squeeze true false rest := by
  cases word with
  | nil => exact absurd rfl hne
  | cons c word =>
      obtain ⟨hc, hword⟩ := List.forall_mem_cons.mp hword
      have hblank := isBlank_eq_false_of_isWordChar hc
      rw [List.cons_append]
      cases hspace : afterWord && hasGap with
      | true =>
          obtain ⟨rfl, rfl⟩ := Bool.and_eq_true_iff.mp hspace
          rw [squeeze_cons_of_space hc, squeeze_append_of_isWord hword]
          rfl
      | false =>
          rw [squeeze_cons_of_kept hblank (by simp [hspace]), hc, squeeze_append_of_isWord hword]
          rfl

/-- After a word, no word follows without a space. -/
theorem endsWord_squeeze (h : hasGap = true ∨ EndsWord text) :
    EndsWord (squeeze true hasGap text) := by
  induction text generalizing hasGap with
  | nil => simp [EndsWord, squeeze]
  | cons c rest ih =>
      by_cases hblank : isBlank c = true
      · rw [squeeze_cons_of_blank hblank]
        exact ih (.inl rfl)
      rw [Bool.not_eq_true] at hblank
      by_cases hword : isWordChar c = true
      · have hgap : hasGap = true := by
          apply h.resolve_right
          intro hends
          rw [hends c rfl] at hword
          cases hword
        rw [hgap, squeeze_cons_of_space hword]
        rintro _ ⟨⟩
        decide
      · rw [squeeze_cons_of_kept hblank (by simp [hword])]
        rintro _ ⟨⟩
        simpa using hword

theorem tokens_squeeze (afterWord hasGap : Bool) (text : List Char) :
    tokens (squeeze afterWord hasGap text) = tokens text := by
  induction text using run_induction generalizing afterWord hasGap with
  | nil => rfl
  | other c rest hc ih =>
      by_cases hblank : isBlank c = true
      · rw [squeeze_cons_of_blank hblank, tokens_cons_of_blank hblank, ih]
      · rw [Bool.not_eq_true] at hblank
        rw [squeeze_cons_of_kept hblank (by simp [hc]), tokens_cons_of_mark hblank hc,
          tokens_cons_of_mark hblank hc, ih]
  | run word rest hne hword hrest ih =>
      have hspace : IsGap (if afterWord && hasGap then [' '] else []) := by
        intro c hc
        split at hc
        · rw [List.mem_singleton.mp hc]
          decide
        · cases hc
      rw [squeeze_run hne hword, List.append_assoc, tokens_gap_append hspace,
        tokens_append_of_isWord hne hword (endsWord_squeeze (.inr hrest)),
        tokens_append_of_isWord hne hword hrest, ih]

/-- Normalising changes no token. -/
theorem tokens_normalise (text : List Char) : tokens (normalise text) = tokens text :=
  tokens_squeeze false false text

/-- Tokens with a single space between any two words that follow each other. -/
def spaced (afterWord : Bool) : List (List Char) → List Char
  | [] => []
  | token :: rest =>
    (if afterWord && token.all isWordChar then [' '] else []) ++ token ++
      spaced (token.all isWordChar) rest

/-- What is left of a text after a word or another token is its tokens with spaces. -/
theorem squeeze_eq_spaced (h : afterWord = false ∨ hasGap = true ∨ EndsWord text) :
    squeeze afterWord hasGap text = spaced afterWord (tokens text) := by
  induction text using run_induction generalizing afterWord hasGap with
  | nil => rfl
  | other c rest hc ih =>
      by_cases hblank : isBlank c = true
      · rw [squeeze_cons_of_blank hblank, tokens_cons_of_blank hblank, ih (.inr (.inl rfl))]
      · rw [Bool.not_eq_true] at hblank
        rw [squeeze_cons_of_kept hblank (by simp [hc]), tokens_cons_of_mark hblank hc, hc,
          ih (.inl rfl)]
        simp [spaced, hc]
  | run word rest hne hword hrest ih =>
      have hall : word.all isWordChar = true := List.all_eq_true.mpr hword
      have hgap : (afterWord && hasGap) = afterWord := by
        -- A word that another one precedes has blanks in front of it.
        rcases h with rfl | rfl | hends
        · rfl
        · rw [Bool.and_true]
        · exact absurd hends (not_endsWord_append hne hword)
      rw [squeeze_run hne hword, hgap, ih (.inr (.inr hrest)),
        tokens_append_of_isWord hne hword hrest]
      simp only [spaced, hall, Bool.and_true]

theorem normalise_eq_spaced (text : List Char) : normalise text = spaced false (tokens text) :=
  squeeze_eq_spaced (.inl rfl)

/-- Two texts are normalised alike when they have the same tokens. -/
theorem normalise_eq_iff_tokens_eq : normalise first = normalise second ↔
    tokens first = tokens second := by
  constructor
  · intro h
    rw [← tokens_normalise first, h, tokens_normalise]
  · intro h
    rw [normalise_eq_spaced, h, ← normalise_eq_spaced]

/-- Normalising keeps the words that a text shows. -/
theorem showsWord_normalise_iff (hne : word ≠ []) (hword : IsWord word) :
    ShowsWord word (normalise text) ↔ ShowsWord word text := by
  rw [← mem_words_iff hne hword, ← mem_words_iff hne hword, words, words, tokens_normalise]

end Understudy.Text
