import Understudy.Proofs.Rule.Reading
import Understudy.Proofs.Text.TokenSequence

/-! # What a modifier makes of a value

The `$` of a modifier stands for the value, so a modifier should say of a value what its text says
with the value in the place of the `$`. The blanks next to the `$` are dropped when a modifier is
read. That changes nothing unless such blanks keep a word apart from the value: then the word and
the value become one token, and the expression is another one.
-/

namespace Understudy

namespace Text

variable {front back rest start text value : List Char} {mark : Char}

/-- Whether a text ends in a word with blanks after it. -/
def endsApart (front : List Char) : Bool :=
  trimEnd front ≠ front && (trimEnd front).getLast?.any isWordChar

/-- Whether a text starts with a word that has blanks before it. -/
def startsApart (back : List Char) : Bool :=
  trimStart back ≠ back && (trimStart back).head?.any isWordChar

theorem endsApart_eq_false_iff :
    endsApart front = false ↔ trimEnd front = front ∨ StartsWord (trimEnd front) := by
  simp only [endsApart, StartsWord]
  cases (trimEnd front).getLast? <;> simp [or_iff_not_imp_left]

theorem startsApart_eq_false_iff :
    startsApart back = false ↔ trimStart back = back ∨ EndsWord (trimStart back) := by
  simp only [startsApart, EndsWord]
  cases (trimStart back).head? <;> simp [or_iff_not_imp_left]

/-- It does not matter at which end trimming begins. -/
theorem trim_eq_trimStart_trimEnd (text : List Char) : trim text = trimStart (trimEnd text) := by
  rw [← trim_trimEnd, trim]
  apply trimEnd_of_last
  intro c hc
  obtain ⟨gap, -, hsplit⟩ := exists_eq_append_trimStart (trimEnd text)
  have hlast : (trimEnd text).getLast? = some c := by
    rw [hsplit, List.getLast?_append, hc, Option.some_or]
  exact getLast?_trimEnd hlast

/-- A text with the blanks at its end, of which there are none exactly when trimming leaves it. -/
theorem exists_gap_after (front : List Char) :
    ∃ gap, IsGap gap ∧ front = trimEnd front ++ gap ∧ (gap = [] ↔ trimEnd front = front) := by
  obtain ⟨gap, hgap, hsplit⟩ := exists_eq_trimEnd_append front
  refine ⟨gap, hgap, hsplit, ?_⟩
  conv_rhs => rhs; rw [hsplit]
  exact List.self_eq_append_right.symm

/-- A text with the blanks at its start. -/
theorem exists_gap_before (back : List Char) :
    ∃ gap, IsGap gap ∧ back = gap ++ trimStart back ∧ (gap = [] ↔ trimStart back = back) := by
  obtain ⟨gap, hgap, hsplit⟩ := exists_eq_append_trimStart back
  refine ⟨gap, hgap, hsplit, ?_⟩
  conv_rhs => rhs; rw [hsplit]
  exact List.self_eq_append_left.symm

/-- Trimming the text before a word makes no token more, and one less exactly where the text ends in
a word of its own with blanks after it. -/
theorem length_tokens_trimEnd_append (front : List Char) (hrest : ¬ EndsWord rest) :
    (tokens (trimEnd front ++ rest)).length ≤ (tokens (front ++ rest)).length ∧
      ((tokens (trimEnd front ++ rest)).length = (tokens (front ++ rest)).length →
        endsApart front = false) ∧
      (endsApart front = false → tokens (trimEnd front ++ rest) = tokens (front ++ rest)) := by
  obtain ⟨gap, hgap, hsplit, hnil⟩ := exists_gap_after front
  have hfront : front ++ rest = trimEnd front ++ (gap ++ rest) := by
    conv_lhs => rw [hsplit, List.append_assoc]
  rw [hfront, endsApart_eq_false_iff, ← hnil]
  refine ⟨length_tokens_le hgap, fun hlength => ?_, fun hjoins => ?_⟩
  · by_contra happart
    rw [not_or] at happart
    have hlt := length_tokens_lt hgap happart.1 happart.2 hrest
    omega
  · exact (tokens_append_gap_append hgap (hjoins.imp_right .inl)).symm

/-- Trimming the text after a word makes no token more, and one less exactly where the text starts
with a word of its own that has blanks before it. -/
theorem length_tokens_append_trimStart (back : List Char) (hstart : ¬ StartsWord start) :
    (tokens (start ++ trimStart back)).length ≤ (tokens (start ++ back)).length ∧
      ((tokens (start ++ trimStart back)).length = (tokens (start ++ back)).length →
        startsApart back = false) ∧
      (startsApart back = false → tokens (start ++ trimStart back) = tokens (start ++ back)) := by
  obtain ⟨gap, hgap, hsplit, hnil⟩ := exists_gap_before back
  have hback : start ++ back = start ++ (gap ++ trimStart back) := by
    conv_lhs => rw [hsplit]
  rw [hback, startsApart_eq_false_iff, ← hnil]
  refine ⟨length_tokens_le hgap, fun hlength => ?_, fun hjoins => ?_⟩
  · by_contra happart
    rw [not_or] at happart
    have hlt := length_tokens_lt hgap happart.1 hstart happart.2
    omega
  · exact (tokens_append_gap_append hgap (hjoins.imp_right .inr)).symm

/-- Trimming what stands around a word changes the tokens exactly where a word of its own stands
next to the blanks that are taken out. -/
theorem tokens_trim_around_iff (hne : value ≠ []) (hvalue : IsWord value) :
    tokens (trim front ++ (value ++ trim back)) = tokens (front ++ (value ++ back)) ↔
      endsApart front = false ∧ startsApart back = false := by
  have hends (rest : List Char) : ¬ EndsWord (value ++ rest) := not_endsWord_append hne hvalue
  have hstarts (start : List Char) : ¬ StartsWord (start ++ value) :=
    not_startsWord_append hne hvalue
  -- The blanks at the outer ends belong to no token.
  have houter : tokens (trim front ++ (value ++ trim back)) =
      tokens (trimEnd front ++ (value ++ trimStart back)) := by
    obtain ⟨before, hbefore, hfront⟩ := exists_eq_append_trimStart (trimEnd front)
    obtain ⟨after, hafter, hback⟩ := exists_eq_trimEnd_append (trimStart back)
    conv_rhs => rw [hfront, hback, List.append_assoc, tokens_gap_append hbefore,
      ← List.append_assoc value, ← List.append_assoc, tokens_append_gap hafter]
    rw [trim_eq_trimStart_trimEnd front, trim]
  obtain ⟨hfrontLe, hfrontApart, hfrontJoins⟩ :=
    length_tokens_trimEnd_append front (hends back)
  obtain ⟨hbackLe, hbackApart, hbackJoins⟩ :=
    length_tokens_append_trimStart back (hstarts (trimEnd front))
  simp only [List.append_assoc] at hbackLe hbackApart hbackJoins
  rw [houter]
  constructor
  · intro htokens
    have hlength := congrArg List.length htokens
    exact ⟨hfrontApart (by omega), hbackApart (by omega)⟩
  · intro hjoins
    rw [hbackJoins hjoins.2, hfrontJoins hjoins.1]

theorem substitute_of_notMem (h : mark ∉ text) : substitute mark value text = text := by
  induction text with
  | nil => rfl
  | cons c rest ih =>
      obtain ⟨hc, hrest⟩ := not_or.mp (mt List.mem_cons.mpr h)
      have htail : rest.flatMap (fun c => if c = mark then value else [c]) = rest := ih hrest
      rw [substitute, List.flatMap_cons, if_neg (Ne.symm hc), htail, List.singleton_append]

/-- The only mark of a text is replaced where it stands. -/
theorem substitute_append_cons (hfront : mark ∉ front) (hback : mark ∉ back) :
    substitute mark value (front ++ mark :: back) = front ++ (value ++ back) := by
  have hboth : substitute mark value (front ++ mark :: back) =
      substitute mark value front ++ (value ++ substitute mark value back) := by
    simp [substitute]
  rw [hboth, substitute_of_notMem hfront, substitute_of_notMem hback]

/-- A text with one mark is cut there. -/
theorem exists_cut_of_count_eq_one (h : text.count mark = 1) :
    ∃ front back, cut mark text = some (front, back) ∧ text = front ++ mark :: back ∧
      mark ∉ front ∧ mark ∉ back := by
  cases hcut : cut mark text with
  | none =>
      rw [List.count_eq_zero.mpr (cut_eq_none_iff.mp hcut)] at h
      cases h
  | some halves =>
      obtain ⟨front, back⟩ := halves
      obtain ⟨rfl, hfront⟩ := cut_eq_some_iff.mp hcut
      rw [List.count_append, List.count_cons_self, List.count_eq_zero.mpr hfront] at h
      have hback : back.count mark = 0 := by omega
      exact ⟨front, back, rfl, rfl, hfront, List.count_eq_zero.mp hback⟩

end Text

namespace Modifier

theorem toList_apply (modifier : Modifier) (value : String) :
    (modifier.apply value).toList =
      modifier.front.toList ++ (value.toList ++ modifier.back.toList) := by
  rw [apply, String.toList_append, String.toList_append, List.append_assoc]

/-- Whether blanks keep a word apart from the `$`, before it or after it. -/
def setsApart (text : List Char) : Bool :=
  (Text.cut '$' text).any fun halves => Text.endsApart halves.1 || Text.startsApart halves.2

/-- A text with one `$` is read as a modifier. Applied to an identifier, the modifier says what the
text says with the identifier in the place of the `$`, exactly when no blanks keep a word apart from
the `$`. -/
theorem says_its_text_iff {text : List Char} {value : String} (htext : text.count '$' = 1)
    (hne : value.toList ≠ []) (hvalue : Text.IsWord value.toList) :
    ∃ modifier, parse text = .ok modifier ∧
      (Text.normalise (modifier.apply value).toList =
          Text.normalise (Text.substitute '$' value.toList text) ↔
        setsApart text = false) := by
  obtain ⟨front, back, hcut, rfl, hfront, hback⟩ := Text.exists_cut_of_count_eq_one htext
  refine ⟨_, by rw [parse_append hfront, if_neg hback], ?_⟩
  rw [toList_apply, String.toList_ofList, String.toList_ofList,
    Text.substitute_append_cons hfront hback, Text.normalise_eq_iff_tokens_eq,
    Text.tokens_trim_around_iff hne hvalue, setsApart, hcut]
  exact Bool.or_eq_false_iff.symm

/-- Blanks next to a parenthesis or an operator keep no word apart. -/
theorem says_its_text_of_dereference :
    let text := "* ( $ ) ".toList
    text.count '$' = 1 ∧ "p".toList ≠ [] ∧ Text.IsWord "p".toList ∧ setsApart text = false ∧
      ∃ modifier, parse text = .ok modifier ∧
        Text.normalise (modifier.apply "p").toList =
          Text.normalise (Text.substitute '$' "p".toList text) := by
  intro text
  have hcount : text.count '$' = 1 := by decide
  have hne : "p".toList ≠ [] := by decide
  have hword : Text.IsWord "p".toList := by decide
  have hjoins : setsApart text = false := by decide
  obtain ⟨modifier, hparse, hsays⟩ := says_its_text_iff hcount hne hword
  exact ⟨hcount, hne, hword, hjoins, modifier, hparse, hsays.mpr hjoins⟩

/-- The blank after `sizeof` is dropped, so that the operator runs into its operand. -/
theorem runs_together_after_sizeof :
    let text := "sizeof $".toList
    text.count '$' = 1 ∧ Text.IsWord "x".toList ∧
      parse text = .ok { front := "sizeof" } ∧
      (apply { front := "sizeof" } "x") = "sizeofx" ∧
      Text.normalise (apply { front := "sizeof" } "x").toList ≠
        Text.normalise (Text.substitute '$' "x".toList text) := by
  decide

end Modifier

end Understudy
