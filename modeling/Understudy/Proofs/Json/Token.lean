import Mathlib.Data.List.TakeWhile
import Understudy.Json.Reader
import Understudy.Json.Writer

/-! # Reading what is written

A string is read back from its quoted form and a number from its text, whatever comes after, as
long as it does not go on with the number. A reader is run here on text instead of tokens, so that
the laws of values can be stated for the text of a value and whatever comes after.
-/

namespace Understudy.Json

/-! ## Strings -/

namespace Piece

/-- How a character is written in a string: as itself or by a letter, or else by its unit. -/
def ofChar (c : Char) : Piece :=
  let isLettered := ['\x08', '\x0c', '\n', '\r', '\t'].contains c
  if c.toNat < 0x20 && !isLettered then unit c.toNat else char c

theorem ofHex?_hexDigit {n : Nat} (h : n < 0x20) :
    ofHex? '0' '0' (hexDigit (n / 16)) (hexDigit (n % 16)) = some (unit n) := by
  have hall : ∀ n < 0x20,
      ofHex? '0' '0' (hexDigit (n / 16)) (hexDigit (n % 16)) = some (unit n) := by decide
  exact hall n h

theorem scan_escape (c : Char) (read : List Piece) (rest : List Char) :
    scan read (escape c ++ rest) = scan (ofChar c :: read) rest := by
  unfold escape
  split_ifs with hquote hslash hback hfeed hline hreturn htab hcontrol
  · subst hquote
    rfl
  · subst hslash
    rfl
  · subst hback
    rfl
  · subst hfeed
    rfl
  · subst hline
    rfl
  · subst hreturn
    rfl
  · subst htab
    rfl
  · have hunit : ofChar c = unit c.toNat := by
      simp [ofChar, hback, hfeed, hline, hreturn, htab, hcontrol]
    simp only [List.cons_append, List.nil_append, scan, ofHex?_hexDigit hcontrol, hunit]
  · have hchar : ofChar c = char c := by simp [ofChar, hcontrol]
    rw [List.singleton_append, hchar, scan]
    · rw [if_neg (by simp [hslash, hcontrol])]
    · exact fun hc => hquote hc
    · exact fun _ _ _ _ _ hc _ => hslash hc
    · exact fun _ _ hc _ => hslash hc

theorem scan_flatMap_escape (text : List Char) (read : List Piece) (rest : List Char) :
    scan read (text.flatMap escape ++ '"' :: rest) =
      some (read.reverse ++ text.map ofChar, rest) := by
  induction text generalizing read with
  | nil => simp [scan]
  | cons c text ih =>
      rw [List.flatMap_cons, List.append_assoc, scan_escape, ih]
      simp

/-- A unit below the surrogates stands for a character by itself. -/
theorem text?_unit {code : Nat} (h : code < 0xD800) (rest : List Piece) :
    text? (unit code :: rest) = (text? rest).map (Char.ofNat code :: ·) := by
  have hhigh : isHighSurrogate code = false := by simp [isHighSurrogate]; omega
  have hlow : isLowSurrogate code = false := by simp [isLowSurrogate]; omega
  cases rest with
  | nil => simp [text?, hhigh, hlow]
  | cons piece rest => cases piece <;> simp [text?, hhigh, hlow]

theorem text?_map_ofChar (text : List Char) : text? (text.map ofChar) = some text := by
  induction text with
  | nil => rfl
  | cons c text ih =>
      rw [List.map_cons, ofChar]
      split
      next hcontrol =>
        rw [Bool.and_eq_true, decide_eq_true_eq] at hcontrol
        rw [text?_unit (by omega), ih, Char.ofNat_toNat, Option.map_some]
      next => rw [text?, ih, Option.map_some]

end Piece

/-! ## Numbers -/

namespace Numeral

/-- Whether only characters of a number stand in a text. -/
def AllParts (text : List Char) : Prop := ∀ c ∈ text, isPart c = true

variable {text rest digits : List Char}

theorem digits?_eq_some (h : digits? text = some (digits, rest)) :
    text = digits ++ rest ∧ digits ≠ [] ∧ ∀ c ∈ digits, c.isDigit = true := by
  simp only [digits?, Option.ite_none_left_eq_some, Option.some.injEq, Prod.mk.injEq] at h
  obtain ⟨hne, rfl, rfl⟩ := h
  refine ⟨List.takeWhile_append_dropWhile.symm, by simpa using hne, fun c hc => ?_⟩
  exact List.mem_takeWhile_imp hc

theorem allParts_cons {c : Char} (hc : isPart c = true) (h : AllParts rest) :
    AllParts (c :: rest) :=
  List.forall_mem_cons.mpr ⟨hc, h⟩

theorem allParts_of_digits? (h : digits? text = some (digits, rest)) (hrest : AllParts rest) :
    AllParts text := by
  obtain ⟨rfl, -, hdigits⟩ := digits?_eq_some h
  intro c hc
  rcases List.mem_append.mp hc with hc | hc
  · simp [isPart, hdigits c hc]
  · exact hrest c hc

theorem allParts_of_sign (h : AllParts (sign text).2) : AllParts text := by
  unfold sign at h
  split at h
  · exact allParts_cons rfl h
  · exact allParts_cons rfl h
  · exact h

theorem allParts_of_exponentPart? {part : Option (Bool × List Char)}
    (h : exponentPart? text = some (part, rest)) (hrest : AllParts rest) : AllParts text := by
  have hafter {after : List Char}
      (h : (digits? (sign after).2).map
        (fun parts => (some ((sign after).1, parts.1), parts.2)) = some (part, rest)) :
      AllParts after := by
    obtain ⟨⟨digits, left⟩, hdigits, heq⟩ := Option.map_eq_some_iff.mp h
    cases heq
    exact allParts_of_sign (allParts_of_digits? hdigits hrest)
  unfold exponentPart? at h
  split at h
  · exact allParts_cons rfl (hafter h)
  · exact allParts_cons rfl (hafter h)
  · cases h
    exact hrest

theorem allParts_of_fractionPart? {part : Option (List Char)}
    (h : fractionPart? text = some (part, rest)) (hrest : AllParts rest) : AllParts text := by
  unfold fractionPart? at h
  split at h
  next after =>
    obtain ⟨⟨digits, left⟩, hdigits, heq⟩ := Option.map_eq_some_iff.mp h
    cases heq
    exact allParts_cons rfl (allParts_of_digits? hdigits hrest)
  · cases h
    exact hrest

theorem digits?_of_whole? (h : whole? text = some (digits, rest)) :
    digits? text = some (digits, rest) := by
  obtain ⟨⟨digits, left⟩, hdigits, h⟩ := Option.bind_eq_some_iff.mp h
  dsimp only at h
  split at h
  · cases h
  · cases h
    exact hdigits

/-- The text of a number begins with its sign or a digit, and goes on with characters of numbers. -/
theorem exists_cons_of_parse? {n : Numeral} (h : parse? text = some n) :
    ∃ c tail, text = c :: tail ∧ (c = '-' ∨ c.isDigit = true) ∧ AllParts tail := by
  simp only [parse?, Option.bind_eq_bind, Option.bind_eq_some_iff,
    Option.ite_none_right_eq_some] at h
  obtain ⟨⟨whole, left⟩, hwhole, ⟨fraction?, after⟩, hfraction, ⟨exponent?, last⟩, hexponent, hend,
    -⟩ := h
  have hnil : last = [] := List.isEmpty_iff.mp hend
  subst hnil
  have hafter : AllParts left := allParts_of_fractionPart? hfraction
    (allParts_of_exponentPart? hexponent (List.forall_mem_nil _))
  split at hwhole
  next unsigned =>
    exact ⟨'-', unsigned, rfl, .inl rfl, allParts_of_digits? (digits?_of_whole? hwhole) hafter⟩
  next =>
    have hdigits := digits?_of_whole? hwhole
    have hall := allParts_of_digits? hdigits hafter
    obtain ⟨rfl, hne, hdigit⟩ := digits?_eq_some hdigits
    obtain ⟨c, tail, rfl⟩ := List.exists_cons_of_ne_nil hne
    exact ⟨c, tail ++ left, rfl, .inr (hdigit c List.mem_cons_self), fun d hd =>
      hall d (List.mem_cons_of_mem c hd)⟩

end Numeral

/-! ## Tokens -/

namespace Token

/-- Whether a text does not go on with a number. -/
def Stops (text : List Char) : Prop := ∀ c ∈ text.head?, Numeral.isPart c = false

variable {rest : List Char}

theorem stops_nil : Stops [] := fun _ h => by cases h

/-- Items that each follow a comma stop a number, and so does what closes them. -/
theorem stops_flatMap (texts : List String) {c : Char} (hc : Numeral.isPart c = false) :
    Stops (texts.flatMap (fun text => ',' :: text.toList) ++ c :: rest) := by
  cases texts with
  | nil =>
      rintro _ ⟨⟩
      exact hc
  | cons text texts =>
      rintro _ ⟨⟩
      rfl

theorem isBlank_of_begins {c : Char} (h : c = '-' ∨ c.isDigit = true) : isBlank c = false := by
  have hother (blank : Char) (hblank : blank ≠ '-' ∧ blank.isDigit = false) : c ≠ blank := by
    rintro rfl
    simp [hblank] at h
  simp [isBlank, hother ' ' (by decide), hother '\t' (by decide), hother '\n' (by decide),
    hother '\r' (by decide)]

theorem first?_quote (text : String) (rest : List Char) :
    first? ((quote text).toList ++ rest) = some (string (some text), rest) := by
  have htext : (quote text).toList ++ rest =
      '"' :: (text.toList.flatMap escape ++ '"' :: rest) := by
    simp [quote]
  rw [htext, first?, Piece.scan_flatMap_escape]
  simp [Piece.text?_map_ofChar]

theorem takeWhile_of_stops (h : Stops rest) : rest.takeWhile Numeral.isPart = [] := by
  cases rest with
  | nil => rfl
  | cons c rest => rw [List.takeWhile_cons, h c rfl, if_neg Bool.false_ne_true]

theorem dropWhile_of_stops (h : Stops rest) : rest.dropWhile Numeral.isPart = rest := by
  cases rest with
  | nil => rfl
  | cons c rest => rw [List.dropWhile_cons, h c rfl, if_neg Bool.false_ne_true]

theorem first?_number {literal : String} {n : Numeral}
    (h : Numeral.parse? literal.toList = some n) (hrest : Stops rest) :
    first? (literal.toList ++ rest) = some (number literal, rest) := by
  obtain ⟨c, tail, hliteral, hc, htail⟩ := Numeral.exists_cons_of_parse? h
  have htake : (tail ++ rest).takeWhile Numeral.isPart = tail := by
    rw [List.takeWhile_append_of_pos htail, takeWhile_of_stops hrest, List.append_nil]
  have hdrop : (tail ++ rest).dropWhile Numeral.isPart = rest := by
    rw [List.dropWhile_append_of_pos htail, dropWhile_of_stops hrest]
  have hstart (other : Char) (hother : other ≠ '-' ∧ other.isDigit = false) : c ≠ other := by
    rintro rfl
    rcases hc with rfl | hdigit
    · exact hother.1 rfl
    · rw [hother.2] at hdigit
      cases hdigit
  rw [hliteral, List.cons_append, first?, htake, hdrop, ← hliteral, h, Option.map_some,
    String.ofList_toList]
  all_goals
    intros
    refine hstart _ ?_ ‹_›
    decide

/-- Tokens that have been read before come first. -/
theorem scan_eq_map (read : List Token) (text : List Char) :
    scan read text = (scan [] text).map (read.reverse ++ ·) := by
  induction hlength : text.length using Nat.strong_induction_on generalizing read text with
  | _ n ih =>
      rw [scan, scan]
      split
      · simp
      split
      next token rest hfirst =>
        have hshorter : rest.length < n := by
          rw [← hlength]
          exact (length_first?_lt hfirst).trans_le (length_dropWhile_le _ _)
        rw [ih _ hshorter (token :: read) rest rfl, ih _ hshorter [token] rest rfl, Option.map_map]
        congr 1
        funext tokens
        simp
      · rfl

/-- Reads one token of a text that does not begin with a blank. -/
theorem scan_of_first? {c : Char} {text : List Char} {token : Token} (hblank : isBlank c = false)
    (hfirst : first? (c :: text) = some (token, rest)) (read : List Token) :
    scan read (c :: text) = scan (token :: read) rest := by
  rw [scan]
  have hstart : (c :: text).dropWhile isBlank = c :: text := by
    rw [List.dropWhile_cons, hblank, if_neg Bool.false_ne_true]
  split
  next hempty =>
    rw [hstart] at hempty
    cases hempty
  split
  next token' rest' hfirst' =>
    rw [hstart, hfirst] at hfirst'
    cases hfirst'
    rfl
  next hnone =>
    rw [hstart, hfirst] at hnone
    cases hnone

end Token

end Understudy.Json
