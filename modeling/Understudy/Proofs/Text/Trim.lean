import Mathlib.Data.List.DropRight
import Understudy.Text.Blank

/-! # Laws of trimming

Trimming takes blanks off both ends and nothing else: a text is what trimming leaves of it between
two runs of blanks. Texts with no blank at either end are left as they are, and stay so when they
are put together.
-/

namespace Understudy.Text

variable {text first second gap : List Char}

/-- Nothing but blanks. -/
def IsGap (text : List Char) : Prop := ∀ c ∈ text, isBlank c = true

instance : DecidablePred IsGap := fun text =>
  decidable_of_iff (text.all isBlank = true) List.all_eq_true

/-- Something besides blanks. -/
def HasContent (text : List Char) : Prop := ∃ c ∈ text, isBlank c = false

/-- No blank at either end. -/
structure IsTrimmed (text : List Char) : Prop where
  head : ∀ c, text.head? = some c → isBlank c = false
  last : ∀ c, text.getLast? = some c → isBlank c = false

namespace IsTrimmed

theorem nil : IsTrimmed [] := ⟨by simp, by simp⟩

theorem singleton {c : Char} (h : isBlank c = false) : IsTrimmed [c] := by
  constructor <;> simp [h]

theorem append (hfirst : IsTrimmed first) (hsecond : IsTrimmed second) :
    IsTrimmed (first ++ second) := by
  constructor
  · intro c hc
    cases first with
    | nil => exact hsecond.head c hc
    | cons a first => exact hfirst.head c hc
  · intro c hc
    rw [List.getLast?_append] at hc
    cases hlast : second.getLast? with
    | none =>
        rw [hlast, Option.none_or] at hc
        exact hfirst.last c hc
    | some d =>
        rw [hlast, Option.some_or] at hc
        cases hc
        exact hsecond.last c hlast

theorem cons {c : Char} (h : isBlank c = false) (htext : IsTrimmed text) : IsTrimmed (c :: text) :=
  (singleton h).append htext

end IsTrimmed

theorem IsGap.notMem {c : Char} (hgap : IsGap gap) (h : isBlank c = false) : c ∉ gap := by
  intro hc
  simp [hgap c hc] at h

/-! ## One end at a time -/

theorem exists_eq_append_trimStart (text : List Char) :
    ∃ gap, IsGap gap ∧ text = gap ++ trimStart text :=
  ⟨text.takeWhile isBlank, fun _ => List.mem_takeWhile_imp,
    List.takeWhile_append_dropWhile.symm⟩

theorem exists_eq_trimEnd_append (text : List Char) :
    ∃ gap, IsGap gap ∧ text = trimEnd text ++ gap :=
  ⟨text.rtakeWhile isBlank, fun _ => List.mem_rtakeWhile_imp,
    List.rdropWhile_append_rtakeWhile.symm⟩

theorem head?_trimStart {c : Char} (h : (trimStart text).head? = some c) : isBlank c = false := by
  have hstop := List.head?_dropWhile_not isBlank text
  rw [trimStart] at h
  rw [h] at hstop
  simpa using hstop

theorem getLast?_trimEnd {c : Char} (h : (trimEnd text).getLast? = some c) :
    isBlank c = false := by
  rw [trimEnd, List.getLast?_reverse] at h
  exact head?_trimStart h

theorem trimStart_gap_append (hgap : IsGap gap) : trimStart (gap ++ text) = trimStart text :=
  List.dropWhile_append_of_pos hgap

theorem trimEnd_append_gap (hgap : IsGap gap) : trimEnd (text ++ gap) = trimEnd text := by
  have hreverse : IsGap gap.reverse := fun c hc => hgap c (List.mem_reverse.mp hc)
  rw [trimEnd, List.reverse_append]
  exact congrArg List.reverse (trimStart_gap_append hreverse)

theorem trimStart_of_head (h : ∀ c, text.head? = some c → isBlank c = false) :
    trimStart text = text := by
  cases text with
  | nil => rfl
  | cons c text => exact List.dropWhile_cons_of_neg (by simp [h c rfl])

theorem trimEnd_of_last (h : ∀ c, text.getLast? = some c → isBlank c = false) :
    trimEnd text = text := by
  have hreverse : trimStart text.reverse = text.reverse :=
    trimStart_of_head fun c hc => h c (by rwa [List.head?_reverse] at hc)
  exact (congrArg List.reverse hreverse).trans (List.reverse_reverse text)

/-! ## Both ends -/

/-- What stands trimmed between two runs of blanks is what trimming leaves. -/
theorem IsTrimmed.trim_between {before after : List Char} (h : IsTrimmed text)
    (hbefore : IsGap before) (hafter : IsGap after) : trim (before ++ text ++ after) = text := by
  rw [trim, List.append_assoc, trimStart_gap_append hbefore]
  cases text with
  | nil =>
      have hstart : trimStart after = [] := List.dropWhile_eq_nil_iff.mpr hafter
      rw [List.nil_append, hstart]
      rfl
  | cons c text =>
      have hstart : trimStart (c :: text ++ after) = c :: text ++ after :=
        trimStart_of_head h.head
      rw [hstart, trimEnd_append_gap hafter, trimEnd_of_last h.last]

theorem IsTrimmed.trim_eq (h : IsTrimmed text) : trim text = text := by
  rw [trim, trimStart_of_head h.head, trimEnd_of_last h.last]

/-- What trimming takes off. -/
theorem exists_eq_append_trim (text : List Char) :
    ∃ before after, IsGap before ∧ IsGap after ∧ text = before ++ trim text ++ after := by
  obtain ⟨before, hbefore, hstart⟩ := exists_eq_append_trimStart text
  obtain ⟨after, hafter, hend⟩ := exists_eq_trimEnd_append (trimStart text)
  refine ⟨before, after, hbefore, hafter, ?_⟩
  rw [List.append_assoc, trim, ← hend]
  exact hstart

theorem isTrimmed_trim (text : List Char) : IsTrimmed (trim text) where
  head c hc := by
    -- What is left after the end is trimmed begins as the text did before.
    obtain ⟨gap, -, hend⟩ := exists_eq_trimEnd_append (trimStart text)
    have hhead : (trimStart text).head? = some c := by
      rw [hend, List.head?_append]
      exact Option.or_eq_some_iff.mpr (.inl hc)
    exact head?_trimStart hhead
  last _ hc := getLast?_trimEnd hc

theorem trim_gap_append (hgap : IsGap gap) : trim (gap ++ text) = trim text := by
  rw [trim, trim, trimStart_gap_append hgap]

theorem trim_append_gap (hgap : IsGap gap) : trim (text ++ gap) = trim text := by
  obtain ⟨before, after, hbefore, hafter, hsplit⟩ := exists_eq_append_trim text
  have hend : IsGap (after ++ gap) := List.forall_mem_append.mpr ⟨hafter, hgap⟩
  have htrim := (isTrimmed_trim text).trim_between hbefore hend
  rwa [← List.append_assoc, ← hsplit] at htrim

theorem trim_trimStart : trim (trimStart text) = trim text := by
  obtain ⟨gap, hgap, hstart⟩ := exists_eq_append_trimStart text
  rw [← trim_gap_append hgap, ← hstart]

theorem trim_trimEnd : trim (trimEnd text) = trim text := by
  obtain ⟨gap, hgap, hend⟩ := exists_eq_trimEnd_append text
  rw [← trim_append_gap hgap, ← hend]

theorem trimStart_append_cons {c : Char} (h : isBlank c = false) :
    trimStart (first ++ c :: second) = trimStart first ++ c :: second := by
  rw [trimStart, List.dropWhile_append]
  split
  next hempty =>
    rw [trimStart, List.isEmpty_iff.mp hempty, List.dropWhile_cons_of_neg (by simp [h])]
    rfl
  next => rfl

/-- Trimming stays on its side of a character that is not a blank. -/
theorem trim_append_cons {c : Char} (h : isBlank c = false) :
    trim (first ++ c :: second) = trimStart first ++ c :: trimEnd second := by
  have hreverse : (trimStart first ++ c :: second).reverse =
      second.reverse ++ c :: (trimStart first).reverse := by simp
  rw [trim, trimStart_append_cons h]
  change (trimStart (trimStart first ++ c :: second).reverse).reverse = _
  rw [hreverse, trimStart_append_cons h]
  simp [trimEnd, trimStart]

theorem mem_of_mem_trim {c : Char} (h : c ∈ trim text) : c ∈ text := by
  obtain ⟨before, after, -, -, hsplit⟩ := exists_eq_append_trim text
  rw [hsplit]
  exact List.mem_append_left _ (List.mem_append_right _ h)

/-- Trimming keeps every character that is not a blank. -/
theorem mem_trim_iff {c : Char} (h : isBlank c = false) : c ∈ trim text ↔ c ∈ text := by
  refine ⟨mem_of_mem_trim, fun hc => ?_⟩
  obtain ⟨before, after, hbefore, hafter, hsplit⟩ := exists_eq_append_trim text
  rw [hsplit] at hc
  rcases List.mem_append.mp hc with hc | hc
  · exact (List.mem_append.mp hc).resolve_left (hbefore.notMem h)
  · exact absurd hc (hafter.notMem h)

theorem trim_ne_nil_iff : trim text ≠ [] ↔ HasContent text := by
  constructor
  · intro h
    cases hhead : (trim text).head? with
    | none => exact absurd (List.head?_eq_none_iff.mp hhead) h
    | some c =>
        exact ⟨c, mem_of_mem_trim (List.mem_of_head? hhead), (isTrimmed_trim text).head c hhead⟩
  · rintro ⟨c, hc, hblank⟩ hnil
    have hkept := (mem_trim_iff hblank).mpr hc
    rw [hnil] at hkept
    cases hkept

theorem trim_trim : trim (trim text) = trim text :=
  (isTrimmed_trim text).trim_eq

theorem HasContent.trim (h : HasContent text) : HasContent (trim text) := by
  rw [← trim_ne_nil_iff, trim_trim]
  exact trim_ne_nil_iff.mpr h

theorem trim_eq_nil_iff : trim text = [] ↔ IsGap text := by
  rw [← not_iff_not, ← ne_eq, trim_ne_nil_iff]
  simp [HasContent, IsGap]

end Understudy.Text
