/-! # Cutting, joining and substituting

A text is cut at the first occurrence of a mark, split at every `::`, and a mark in it is replaced
by another text. Nothing but the mark itself is lost in any of these.
-/

namespace Understudy.Text

/-- The parts before and after the first `mark`, or nothing when there is none. -/
def cut (mark : Char) : List Char → Option (List Char × List Char)
  | [] => none
  | c :: rest =>
    if c = mark then some ([], rest)
    else (cut mark rest).map fun parts => (c :: parts.1, parts.2)

/-- The parts between the pairs of colons, found from left to right without overlap. A text
without a pair is its own only part. -/
def splitColons : List Char → List (List Char)
  | [] => [[]]
  | ':' :: ':' :: rest => [] :: splitColons rest
  | c :: rest =>
    match splitColons rest with
    | [] => [[c]]
    | part :: parts => (c :: part) :: parts

/-- Every `mark` in the text replaced by `value`. -/
def substitute (mark : Char) (value text : List Char) : List Char :=
  text.flatMap fun c => if c = mark then value else [c]

/-- What follows `start`, when the text begins with it. -/
def dropStart? : (start text : List Char) → Option (List Char)
  | [], text => some text
  | _ :: _, [] => none
  | s :: start, c :: text => if s = c then dropStart? start text else none

theorem cut_eq_none_iff {mark : Char} {text : List Char} : cut mark text = none ↔ mark ∉ text := by
  induction text with
  | nil => simp [cut]
  | cons c rest ih =>
    by_cases h : c = mark
    · simp [cut, h]
    · simp [cut, h, ih, Ne.symm h]

/-- The cut is at the first mark: the part before it has none. -/
theorem cut_eq_some_iff {mark : Char} {text before after : List Char} :
    cut mark text = some (before, after) ↔ text = before ++ mark :: after ∧ mark ∉ before := by
  induction text generalizing before with
  | nil => simp [cut]
  | cons c rest ih =>
    by_cases h : c = mark
    · subst h
      cases before with
      | nil => simp [cut]
      | cons b before => simp [cut]; rintro rfl; simp
    · cases before with
      | nil => simp [cut, h]
      | cons b before =>
        simp only [cut, h, if_false, Option.map_eq_some_iff, Prod.mk.injEq, List.cons.injEq,
          List.cons_append, List.mem_cons, not_or]
        constructor
        · rintro ⟨⟨x, y⟩, hxy, ⟨rfl, rfl⟩, rfl⟩
          exact ⟨⟨rfl, (ih.1 hxy).1⟩, Ne.symm h, (ih.1 hxy).2⟩
        · rintro ⟨⟨rfl, rfl⟩, -, hb⟩
          exact ⟨(before, after), ih.2 ⟨rfl, hb⟩, ⟨rfl, rfl⟩, rfl⟩

theorem dropStart?_eq_some_iff {start text rest : List Char} :
    dropStart? start text = some rest ↔ text = start ++ rest := by
  induction start generalizing text with
  | nil => simp [dropStart?]
  | cons s start ih =>
    cases text with
    | nil => simp [dropStart?]
    | cons c text =>
      by_cases h : s = c
      · simp [dropStart?, h, ih]
      · simp [dropStart?, h, Ne.symm h]

end Understudy.Text
