import Understudy.Proofs.Rule.Grammar

/-! # The parenthesis that closes an argument

The argument of a kind ends where its parenthesis is closed, with as many others closed as opened on
the way. Reading counts the others. With the first counted too, the counter stands above zero
whenever a parenthesis is closed, so lowering it is always possible.
-/

namespace Understudy

namespace ValueParts

variable {depth : Nat} {c : Char} {text argument rest : List Char}

/-- How many parentheses are open after a character, beyond the one that the reading is to close.
That one is closed by a `)` when no other is open. -/
def depthAfter (depth : Nat) (c : Char) : Option Nat :=
  if c = '(' then some (depth + 1)
  else if c = ')' then
    match depth with
    | 0 => none
    | depth + 1 => some depth
  else some depth

theorem closeParenthesis_cons : closeParenthesis depth (c :: rest) =
    match depthAfter depth c with
    | none => some ([], rest)
    | some next => (closeParenthesis next rest).map fun parts => (c :: parts.1, parts.2) := by
  unfold depthAfter
  by_cases hopen : c = '('
  · subst hopen
    rfl
  by_cases hclose : c = ')'
  · subst hclose
    cases depth <;> rfl
  rw [if_neg hopen, if_neg hclose]
  rw [closeParenthesis] <;> assumption

/-- A text that closes each of `depth` open parentheses and every one that it opens, each after it
was opened. -/
structure Closes (depth : Nat) (text : List Char) : Prop where
  closed_le : ∀ before, before <+: text → before.count ')' ≤ depth + before.count '('
  closed_eq : text.count ')' = depth + text.count '('

theorem closes_zero_iff : Closes 0 text ↔ Text.Balanced text := by
  constructor
  · intro h
    exact ⟨by simpa using h.closed_le, by simpa using h.closed_eq⟩
  · intro h
    exact ⟨by simpa using h.closed_le, by simpa using h.closed_eq⟩

theorem closes_nil_iff : Closes depth [] ↔ depth = 0 := by
  constructor
  · intro h
    simpa using h.closed_eq.symm
  · rintro rfl
    exact ⟨by simp, rfl⟩

theorem depthAfter_eq_some_iff {next : Nat} :
    depthAfter depth c = some next ↔ next + [c].count ')' = depth + [c].count '(' := by
  unfold depthAfter
  by_cases hopen : c = '('
  · subst hopen
    simp [eq_comm]
  by_cases hclose : c = ')'
  · subst hclose
    cases depth with
    | zero => simp
    | succ depth => simp [eq_comm]
  · simp [hopen, hclose, eq_comm]

theorem depthAfter_eq_none_iff : depthAfter depth c = none ↔ c = ')' ∧ depth = 0 := by
  unfold depthAfter
  by_cases hopen : c = '('
  · simp [hopen]
  by_cases hclose : c = ')'
  · subst hclose
    cases depth <;> simp
  · simp [hopen, hclose]

theorem closes_cons_iff :
    Closes depth (c :: text) ↔ ∃ next, depthAfter depth c = some next ∧ Closes next text := by
  have hcount (x : Char) (tail : List Char) : (c :: tail).count x = [c].count x + tail.count x := by
    rw [← List.count_append, List.singleton_append]
  constructor
  · intro h
    have hfirst := h.closed_le [c] ⟨text, rfl⟩
    have hall := h.closed_eq
    rw [hcount, hcount '('] at hall
    refine ⟨depth + [c].count '(' - [c].count ')',
      depthAfter_eq_some_iff.mpr (by omega), ⟨fun before hbefore => ?_, by omega⟩⟩
    have hlonger := h.closed_le (c :: before) (List.cons_prefix_cons.mpr ⟨rfl, hbefore⟩)
    rw [hcount, hcount '('] at hlonger
    omega
  · rintro ⟨next, hnext, h⟩
    have hstep := depthAfter_eq_some_iff.mp hnext
    have hall := h.closed_eq
    refine ⟨fun before hbefore => ?_, by rw [hcount, hcount '(']; omega⟩
    rcases List.prefix_cons_iff.mp hbefore with rfl | ⟨shorter, rfl, htext⟩
    · simp
    · have hshorter := h.closed_le shorter htext
      rw [hcount, hcount '(']
      omega

/-- The reading stops at the parenthesis that closes the one before the text, and nowhere else. -/
theorem closeParenthesis_eq_some_iff :
    closeParenthesis depth text = some (argument, rest) ↔
      text = argument ++ ')' :: rest ∧ Closes depth argument := by
  induction text generalizing depth argument with
  | nil => simp [closeParenthesis]
  | cons c text ih =>
      rw [closeParenthesis_cons]
      cases argument with
      | nil =>
          rw [closes_nil_iff, List.nil_append, List.cons.injEq]
          cases hnext : depthAfter depth c with
          | none =>
              obtain ⟨rfl, rfl⟩ := depthAfter_eq_none_iff.mp hnext
              simp
          | some next =>
              have hopen : ¬ (c = ')' ∧ depth = 0) := by
                rw [← depthAfter_eq_none_iff, hnext]
                exact Option.some_ne_none next
              simp only [Option.map_eq_some_iff, Prod.mk.injEq, List.cons_ne_nil, false_and,
                and_false, exists_false, false_iff]
              exact fun h => hopen ⟨h.1.1, h.2⟩
      | cons d argument =>
          rw [closes_cons_iff, List.cons_append, List.cons.injEq]
          cases hnext : depthAfter depth c with
          | none =>
              simp only [Option.some.injEq, Prod.mk.injEq, List.nil_eq, List.cons_ne_nil,
                false_and, false_iff]
              rintro ⟨⟨rfl, -⟩, next, hnext', -⟩
              rw [hnext] at hnext'
              cases hnext'
          | some next =>
              simp only [Option.map_eq_some_iff, Prod.mk.injEq, List.cons.injEq, Prod.exists]
              constructor
              · rintro ⟨first, second, hclose, ⟨rfl, rfl⟩, rfl⟩
                obtain ⟨rfl, hcloses⟩ := ih.mp hclose
                exact ⟨⟨rfl, rfl⟩, next, hnext, hcloses⟩
              · rintro ⟨⟨rfl, htext⟩, next', hnext', hcloses⟩
                rw [hnext] at hnext'
                cases hnext'
                exact ⟨argument, rest, ih.mpr ⟨htext, hcloses⟩, ⟨rfl, rfl⟩, rfl⟩

/-- The reading with one counter of all parentheses that are open, the first one among them. It ends
where a `)` brings the counter to zero, and comes to nothing where one would bring it below. -/
def closeCounted : Nat → List Char → Option (Option (List Char × List Char))
  | _, [] => some none
  | 0, ')' :: _ => none
  | 1, ')' :: rest => some (some ([], rest))
  | counter + 2, ')' :: rest =>
    (closeCounted (counter + 1) rest).map (Option.map fun parts => (')' :: parts.1, parts.2))
  | counter, '(' :: rest =>
    (closeCounted (counter + 1) rest).map (Option.map fun parts => ('(' :: parts.1, parts.2))
  | counter, c :: rest =>
    (closeCounted counter rest).map (Option.map fun parts => (c :: parts.1, parts.2))

/-- With a parenthesis open at the start, the counter is never brought below zero. -/
theorem closeCounted_succ (depth : Nat) (text : List Char) :
    closeCounted (depth + 1) text = some (closeParenthesis depth text) := by
  fun_induction closeParenthesis depth text with
  | case1 depth => rfl
  | case2 rest => rfl
  | case3 rest depth ih =>
      rw [closeCounted, ih]
      rfl
  | case4 depth rest ih =>
      rw [closeCounted, ih]
      rfl
  | case5 depth c rest hclose hopen ih =>
      rw [closeCounted, ih]
      · rfl
      · exact hopen
      · exact fun _ => hclose
      · exact fun _ => hclose
      · exact fun _ _ => hclose

end ValueParts

end Understudy
