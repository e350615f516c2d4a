import Mathlib.Data.List.TakeWhile
import Understudy.Proofs.Text.Trim
import Understudy.Text.Token

/-! # Laws of normalised spellings

Normalising changes nothing but blanks, leaves none at either end, and leaves what is normalised
already as it is. The words of a text are the runs of word characters that nothing extends: a word
is one of them exactly when the text shows it with no word character on either side.
-/

namespace Understudy.Text

variable {c : Char} {text word rest : List Char} {afterWord gap : Bool}

/-! ## Normalising -/

theorem squeeze_cons_of_blank (hblank : isBlank c = true) :
    squeeze afterWord gap (c :: rest) = squeeze afterWord true rest := by
  rw [squeeze, if_pos hblank]

theorem squeeze_cons_of_space (hword : isWordChar c = true) :
    squeeze true true (c :: rest) = ' ' :: c :: squeeze true false rest := by
  simp [squeeze, isBlank_eq_false_of_isWordChar hword, hword]

theorem squeeze_cons_of_kept (hblank : isBlank c = false)
    (hjoined : (afterWord && gap && isWordChar c) = false) :
    squeeze afterWord gap (c :: rest) = c :: squeeze (isWordChar c) false rest := by
  simp [squeeze, hblank, hjoined]

/-- A character that is not a blank is kept, with or without a space before it. A space is put only
after a word. -/
theorem squeeze_cons_cases (hblank : isBlank c = false) :
    squeeze afterWord gap (c :: rest) = c :: squeeze (isWordChar c) false rest ∨
      afterWord = true ∧
        squeeze afterWord gap (c :: rest) = ' ' :: c :: squeeze (isWordChar c) false rest := by
  by_cases hspace : (afterWord && gap && isWordChar c) = true
  · simp only [Bool.and_eq_true] at hspace
    obtain ⟨⟨rfl, rfl⟩, hword⟩ := hspace
    rw [squeeze_cons_of_space hword, hword]
    exact .inr ⟨rfl, rfl⟩
  · exact .inl (squeeze_cons_of_kept hblank (by simpa using hspace))

/-- The blanks that are left are those that a second pass would leave. -/
theorem squeeze_squeeze (afterWord gap : Bool) (text : List Char) :
    squeeze afterWord false (squeeze afterWord gap text) = squeeze afterWord gap text := by
  induction text generalizing afterWord gap with
  | nil => rfl
  | cons c rest ih =>
      by_cases hblank : isBlank c = true
      · rw [squeeze_cons_of_blank hblank]
        exact ih afterWord true
      rw [Bool.not_eq_true] at hblank
      by_cases hspace : (afterWord && gap && isWordChar c) = true
      · -- The space that was put in is a gap to the second pass, which puts it in again.
        simp only [Bool.and_eq_true] at hspace
        obtain ⟨⟨rfl, rfl⟩, hword⟩ := hspace
        have hsep : isBlank ' ' = true := by decide
        rw [squeeze_cons_of_space hword, squeeze_cons_of_blank hsep, squeeze_cons_of_space hword,
          ih true false]
      · rw [Bool.not_eq_true] at hspace
        rw [squeeze_cons_of_kept hblank hspace, squeeze_cons_of_kept hblank (by simp), ih]

theorem normalise_normalise (text : List Char) : normalise (normalise text) = normalise text :=
  squeeze_squeeze false false text

theorem mem_squeeze_iff (hblank : isBlank c = false) :
    c ∈ squeeze afterWord gap text ↔ c ∈ text := by
  induction text generalizing afterWord gap with
  | nil => rfl
  | cons d rest ih =>
      by_cases hd : isBlank d = true
      · have hne : c ≠ d := by
          rintro rfl
          simp [hd] at hblank
        rw [squeeze_cons_of_blank hd, ih, List.mem_cons, or_iff_right hne]
      rw [Bool.not_eq_true] at hd
      have hspace : c ≠ ' ' := by
        rintro rfl
        exact absurd hblank (by decide)
      rcases squeeze_cons_cases hd with hkept | ⟨-, hspaced⟩
      · rw [hkept, List.mem_cons, List.mem_cons, ih]
      · rw [hspaced, List.mem_cons, List.mem_cons, List.mem_cons, ih, or_iff_right hspace]

/-- Normalising keeps every character that is not a blank, and puts in no other. -/
theorem mem_normalise_iff (hblank : isBlank c = false) : c ∈ normalise text ↔ c ∈ text :=
  mem_squeeze_iff hblank

theorem head?_squeeze (h : (squeeze false gap text).head? = some c) : isBlank c = false := by
  induction text generalizing gap with
  | nil => cases h
  | cons d rest ih =>
      by_cases hd : isBlank d = true
      · rw [squeeze_cons_of_blank hd] at h
        exact ih h
      · rw [Bool.not_eq_true] at hd
        rw [squeeze_cons_of_kept hd (by simp)] at h
        cases h
        exact hd

theorem getLast?_squeeze (h : (squeeze afterWord gap text).getLast? = some c) :
    isBlank c = false := by
  induction text generalizing afterWord gap with
  | nil => cases h
  | cons d rest ih =>
      by_cases hd : isBlank d = true
      · rw [squeeze_cons_of_blank hd] at h
        exact ih h
      rw [Bool.not_eq_true] at hd
      have hlast : (d :: squeeze (isWordChar d) false rest).getLast? = some c := by
        rcases squeeze_cons_cases hd with hkept | ⟨-, hspaced⟩
        · rwa [hkept] at h
        · rwa [hspaced, List.getLast?_cons_cons] at h
      rw [List.getLast?_cons] at hlast
      cases hrest : (squeeze (isWordChar d) false rest).getLast? with
      | none =>
          rw [hrest] at hlast
          cases hlast
          exact hd
      | some e =>
          rw [hrest] at hlast
          cases hlast
          exact ih hrest

theorem isTrimmed_normalise (text : List Char) : IsTrimmed (normalise text) :=
  ⟨fun _ => head?_squeeze, fun _ => getLast?_squeeze⟩

theorem normalise_ne_nil_iff : normalise text ≠ [] ↔ HasContent text := by
  constructor
  · intro h
    cases hhead : (normalise text).head? with
    | none => exact absurd (List.head?_eq_none_iff.mp hhead) h
    | some c =>
        have hblank := (isTrimmed_normalise text).head c hhead
        exact ⟨c, (mem_normalise_iff hblank).mp (List.mem_of_head? hhead), hblank⟩
  · rintro ⟨c, hc, hblank⟩ hnil
    have hkept := (mem_normalise_iff hblank).mpr hc
    rw [hnil] at hkept
    cases hkept

theorem HasContent.normalise (h : HasContent text) : HasContent (normalise text) := by
  rw [← normalise_ne_nil_iff, normalise_normalise]
  exact normalise_ne_nil_iff.mpr h

/-! ## Words -/

/-- Nothing but word characters. -/
def IsWord (text : List Char) : Prop := ∀ c ∈ text, isWordChar c = true

instance : DecidablePred IsWord := fun text =>
  decidable_of_iff (text.all isWordChar = true) List.all_eq_true

/-- No word character at the start, so that a run of word characters ends before it. -/
def EndsWord (rest : List Char) : Prop := ∀ c, rest.head? = some c → isWordChar c = false

instance : DecidablePred EndsWord := fun rest =>
  decidable_of_iff ((rest.head?.all fun c => !isWordChar c) = true) (by
    cases rest <;> simp [EndsWord])

/-- A text shows a word where no word character stands on either side of it. -/
def ShowsWord (word text : List Char) : Prop :=
  ∃ before after, text = before ++ word ++ after ∧
    (∀ c, before.getLast? = some c → isWordChar c = false) ∧ EndsWord after

theorem IsWord.notMem {c : Char} (h : IsWord word) (hc : isWordChar c = false) : c ∉ word := by
  intro hmem
  rw [h c hmem] at hc
  cases hc

theorem IsWord.head?_ne {c : Char} (h : IsWord word) (hc : isWordChar c = false) :
    word.head? ≠ some c :=
  fun hhead => h.notMem hc (List.mem_of_mem_head? hhead)

theorem IsWord.getLast?_ne {c : Char} (h : IsWord word) (hc : isWordChar c = false) :
    word.getLast? ≠ some c :=
  fun hlast => h.notMem hc (List.mem_of_getLast? hlast)

theorem isWord_toDigits (number : Nat) : IsWord (Nat.toDigits 10 number) := by
  intro c hc
  have hdigit := Nat.isDigit_of_mem_toDigits (by decide) (by decide) hc
  simp [isWordChar, Char.isAlphanum, hdigit]

theorem endsWord_gap_append {gap : List Char} (hgap : IsGap gap) (hrest : EndsWord rest) :
    EndsWord (gap ++ rest) := by
  cases gap with
  | nil => exact hrest
  | cons c gap =>
      rintro _ ⟨⟩
      by_contra hword
      have hblank := isBlank_eq_false_of_isWordChar (by simpa using hword)
      exact hgap.notMem hblank List.mem_cons_self

theorem takeWhile_append_of_isWord (hword : IsWord word) (hrest : EndsWord rest) :
    (word ++ rest).takeWhile isWordChar = word := by
  rw [List.takeWhile_append_of_pos hword]
  cases rest with
  | nil => simp
  | cons c rest => rw [List.takeWhile_cons_of_neg (by simp [hrest c rfl]), List.append_nil]

theorem dropWhile_append_of_isWord (hword : IsWord word) (hrest : EndsWord rest) :
    (word ++ rest).dropWhile isWordChar = rest := by
  rw [List.dropWhile_append_of_pos hword]
  cases rest with
  | nil => rfl
  | cons c rest => exact List.dropWhile_cons_of_neg (by simp [hrest c rfl])

theorem endsWord_dropWhile (text : List Char) : EndsWord (text.dropWhile isWordChar) := by
  intro c hc
  have hstop := List.head?_dropWhile_not isWordChar text
  rw [hc] at hstop
  simpa using hstop

/-- A text is read from the front, a run of word characters or another character at a time. -/
theorem run_induction {P : List Char → Prop} (nil : P [])
    (other : ∀ c rest, isWordChar c = false → P rest → P (c :: rest))
    (run : ∀ word rest, word ≠ [] → IsWord word → EndsWord rest → P rest → P (word ++ rest))
    (text : List Char) : P text := by
  induction hlength : text.length using Nat.strong_induction_on generalizing text with
  | _ length ih =>
      subst hlength
      cases text with
      | nil => exact nil
      | cons c rest =>
          by_cases hc : isWordChar c = true
          · have hsplit : (c :: rest).takeWhile isWordChar ++ rest.dropWhile isWordChar =
                c :: rest := by
              rw [List.takeWhile_cons_of_pos hc, List.cons_append, List.takeWhile_append_dropWhile]
            rw [← hsplit]
            refine run _ _ (by simp [hc]) (fun _ => List.mem_takeWhile_imp)
              (endsWord_dropWhile rest) (ih _ ?_ _ rfl)
            exact Nat.lt_succ_of_le (List.length_dropWhile_le _ rest)
          · exact other c rest (by simpa using hc) (ih _ (Nat.lt_succ_self _) rest rfl)

theorem tokens_append_of_isWord (hne : word ≠ []) (hword : IsWord word) (hrest : EndsWord rest) :
    tokens (word ++ rest) = word :: tokens rest := by
  induction word with
  | nil => exact absurd rfl hne
  | cons c word ih =>
      obtain ⟨hc, hword⟩ := List.forall_mem_cons.mp hword
      rw [List.cons_append, tokens, if_neg (by simp [isBlank_eq_false_of_isWordChar hc]),
        if_pos hc]
      cases word with
      | nil =>
          have hjoined : rest.head?.any isWordChar = false := by
            cases hhead : rest.head? with
            | none => rfl
            | some d => exact hrest d hhead
          rw [List.nil_append, hjoined]
          cases tokens rest <;> rfl
      | cons d word =>
          rw [ih (by simp) hword]
          have hjoined : ((d :: word) ++ rest).head?.any isWordChar = true :=
            hword d List.mem_cons_self
          rw [hjoined]
          rfl

theorem words_append_of_isWord (hne : word ≠ []) (hword : IsWord word) (hrest : EndsWord rest) :
    words (word ++ rest) = word :: words rest := by
  rw [words, tokens_append_of_isWord hne hword hrest]
  exact List.filter_cons_of_pos (List.all_eq_true.mpr hword)

theorem words_cons_of_other (hc : isWordChar c = false) : words (c :: rest) = words rest := by
  rw [words, tokens]
  by_cases hblank : isBlank c = true
  · rw [if_pos hblank]
    rfl
  · rw [if_neg hblank, if_neg (by simp [hc]), List.filter_cons_of_neg (by simp [hc])]
    rfl

theorem not_endsWord_append (hne : word ≠ []) (hword : IsWord word) :
    ¬ EndsWord (word ++ rest) := by
  intro hends
  cases word with
  | nil => exact hne rfl
  | cons c word => simpa [hword c List.mem_cons_self] using hends c rfl

theorem showsWord_cons_of_other (hne : word ≠ []) (hword : IsWord word)
    (hc : isWordChar c = false) : ShowsWord word (c :: rest) ↔ ShowsWord word rest := by
  constructor
  · rintro ⟨before, after, hsplit, hbefore, hafter⟩
    cases before with
    | nil =>
        have hends : EndsWord (word ++ after) := by
          rw [List.nil_append] at hsplit
          rw [← hsplit]
          rintro _ ⟨⟩
          exact hc
        exact absurd hends (not_endsWord_append hne hword)
    | cons b before =>
        obtain ⟨rfl, hrest⟩ := List.cons.inj hsplit
        refine ⟨before, after, hrest, fun d hd => hbefore d ?_, hafter⟩
        rw [List.getLast?_cons, hd]
        rfl
  · rintro ⟨before, after, hsplit, hbefore, hafter⟩
    refine ⟨c :: before, after, by rw [hsplit]; rfl, fun d hd => ?_, hafter⟩
    rw [List.getLast?_cons] at hd
    cases hlast : before.getLast? with
    | none =>
        rw [hlast] at hd
        cases hd
        exact hc
    | some e =>
        rw [hlast] at hd
        cases hd
        exact hbefore e hlast

/-- The first run of word characters is a word as it is, and no part of it is one. -/
theorem showsWord_append_of_isWord {run : List Char} (hne : word ≠ []) (hword : IsWord word)
    (hrun : IsWord run) (hrest : EndsWord rest) :
    ShowsWord word (run ++ rest) ↔ word = run ∨ ShowsWord word rest := by
  constructor
  · rintro ⟨before, after, hsplit, hbefore, hafter⟩
    rw [List.append_assoc] at hsplit
    rcases List.append_eq_append_iff.mp hsplit with ⟨between, rfl, hafterRun⟩ | ⟨rest', rfl, hwithin⟩
    · refine .inr ⟨between, after, by rw [hafterRun, List.append_assoc], fun d hd => ?_, hafter⟩
      refine hbefore d ?_
      rw [List.getLast?_append, hd]
      rfl
    · cases hlast : before.getLast? with
      | none =>
          rw [List.getLast?_eq_none_iff.mp hlast, List.nil_append] at hrun ⊢
          have hfirst := congrArg (List.takeWhile isWordChar) hwithin
          rw [takeWhile_append_of_isWord hword hafter, takeWhile_append_of_isWord hrun hrest]
            at hfirst
          exact .inl hfirst
      | some d =>
          -- What stands before the word would be a word character of the run.
          have hinside := hrun d (List.mem_append_left _ (List.mem_of_getLast? hlast))
          rw [hbefore d hlast] at hinside
          cases hinside
  · rintro (rfl | ⟨before, after, hsplit, hbefore, hafter⟩)
    · exact ⟨[], rest, rfl, by simp, hrest⟩
    · refine ⟨run ++ before, after, by rw [hsplit]; simp only [List.append_assoc], ?_, hafter⟩
      intro d hd
      rw [List.getLast?_append] at hd
      cases hlast : before.getLast? with
      | none =>
          rw [List.getLast?_eq_none_iff.mp hlast, List.nil_append] at hsplit
          rw [hsplit] at hrest
          exact absurd hrest (not_endsWord_append hne hword)
      | some e =>
          rw [hlast] at hd
          cases hd
          exact hbefore d hlast

/-- The words of a text are those that it shows. -/
theorem mem_words_iff (hne : word ≠ []) (hword : IsWord word) :
    word ∈ words text ↔ ShowsWord word text := by
  induction text using run_induction with
  | nil =>
      constructor
      · intro h
        cases h
      · rintro ⟨before, after, hsplit, -, -⟩
        simp [hne] at hsplit
  | other c rest hc ih => rw [words_cons_of_other hc, showsWord_cons_of_other hne hword hc, ih]
  | run first rest hfirstNe hfirst hrest ih =>
      rw [words_append_of_isWord hfirstNe hfirst hrest, List.mem_cons, ih,
        showsWord_append_of_isWord hne hword hfirst hrest]

end Understudy.Text
