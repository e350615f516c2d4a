import Understudy.Proofs.CType.Declared

/-! # Types that are spelled in full

What a declaration should read as can be told from what is written for its type if a function
pointer is spelled in full and parentheses close. Such a declaration closes its parentheses too, so
it can stand in a list of parameters.
-/

namespace Understudy

open Declarator

namespace Text

variable {text first second : List Char}

theorem balanced_of_notMem (hopen : '(' ∉ text) (hclose : ')' ∉ text) : Balanced text where
  closed_le before hbefore := by
    rw [List.count_eq_zero.mpr fun h => hclose (hbefore.subset h)]
    exact Nat.zero_le _
  closed_eq := by rw [List.count_eq_zero.mpr hclose, List.count_eq_zero.mpr hopen]

theorem Balanced.append (hfirst : Balanced first) (hsecond : Balanced second) :
    Balanced (first ++ second) where
  closed_le before hbefore := by
    obtain ⟨rest, hrest⟩ := hbefore
    rcases List.append_eq_append_iff.mp hrest with ⟨between, rfl, -⟩ | ⟨between, rfl, rfl⟩
    · exact hfirst.closed_le _ ⟨between, rfl⟩
    · have hle := hsecond.closed_le between ⟨rest, rfl⟩
      rw [List.count_append, List.count_append, hfirst.closed_eq]
      omega
  closed_eq := by
    rw [List.count_append, List.count_append, hfirst.closed_eq, hsecond.closed_eq]

theorem Balanced.wrap (h : Balanced text) : Balanced ('(' :: (text ++ [')'])) where
  closed_le before hbefore := by
    rcases List.prefix_cons_iff.mp hbefore with rfl | ⟨start, rfl, hstart⟩
    · exact Nat.le_refl _
    · rcases List.prefix_concat_iff.mp hstart with rfl | hstart
      · simp [h.closed_eq]
      · have hle := h.closed_le _ hstart
        rw [List.count_cons_self, List.count_cons_of_ne (by decide)]
        omega
  closed_eq := by simp [h.closed_eq]

theorem IsWord.balanced {word : List Char} (h : IsWord word) : Balanced word :=
  balanced_of_notMem (h.notMem (by decide)) (h.notMem (by decide))

end Text

namespace Written

variable {w : Written} {specifier : List (List Char)} {t : Reading} {name : String}

/-- What declarations with a type should read as, and the specifier that they have in front. A
function pointer is described by its result and its parameters, and any other type by its base
name. -/
inductive Describes (w : Written) : List (List Char) → Reading → Prop
  | ordinary (hcategory : w.category ≠ .functionPointer) (hname : Text.Balanced w.name.toList) :
      Describes w (Text.tokens w.qualifiedName) (w.layers (.named (Text.tokens w.qualifiedName)))
  | callback {result clause : List Char} {specifier : List (List Char)} {returned : Reading}
      (hw : w.IsCallback result clause) (hresult : SpellsResult result specifier returned)
      (hclose : ')' ∉ result) (hclause : Text.Balanced clause) :
      Describes w specifier
        (w.layers (.pointer w.base (.function (Text.tokens clause) false returned)))

/-- A declaration reads as it should unless its type is a reference to an array of function
pointers. -/
theorem Describes.declares_iff (h : w.Describes specifier t) (hname : IsDeclarable name.toList) :
    Declares specifier (Text.tokens name.toList) (w.declare name) t ↔
      (w.category = .functionPointer → w.reference = .none ∨ w.extents = []) := by
  cases h with
  | ordinary hcategory =>
      rw [declare_of_ordinary hcategory]
      exact iff_of_true (w.declares_declareOrdinary hname) fun h => absurd h hcategory
  | callback hw hresult _ hclause =>
      rw [hw.declares_layers_iff hresult hname]
      simp [hw.category, hclause]

theorem balanced_flatten_of_isOperator {ops : List (List Char)}
    (hops : ∀ token ∈ ops, isOperator token = true) : Text.Balanced ops.flatten := by
  have hmark {c : Char} (hc : c ∉ ['*', '&'] ++ ("const".toList ++ "volatile".toList)) :
      c ∉ ops.flatten := by
    intro hmem
    obtain ⟨token, htoken, hmem⟩ := List.mem_flatten.mp hmem
    have h := hops token htoken
    simp only [isOperator, isQualifier, Bool.or_eq_true, decide_eq_true_eq] at h
    rcases h with (rfl | rfl) | (rfl | rfl)
    all_goals exact hc (by simp_all)
  exact Text.balanced_of_notMem (hmark (by decide)) (hmark (by decide))

theorem balanced_flatten_extentTokens (w : Written) :
    Text.Balanced (extentTokens w.extents).flatten := by
  have hmark {c : Char} (hc : Text.isWordChar c = false) (hbracket : c ≠ '[' ∧ c ≠ ']') :
      c ∉ w.extentsSpelling.toList := by
    rw [toList_extentsSpelling]
    simp [hbracket, fun e : Extent => e.isWord_digits.notMem hc]
  rw [← tokens_extentsSpelling, Text.balanced_flatten_tokens_iff]
  exact Text.balanced_of_notMem (hmark (by decide) (by decide)) (hmark (by decide) (by decide))

theorem balanced_qualifiedName (hname : Text.Balanced w.name.toList) :
    Text.Balanced w.qualifiedName := by
  have hgiven (given : Bool) {word : List Char} (hword : Text.Balanced word) :
      Text.Balanced (if given then word else []) := by
    cases given
    · exact ⟨by simp, rfl⟩
    · exact hword
  exact (hgiven _ (by decide)).append ((hgiven _ (by decide)).append hname)

/-- A declaration closes its parentheses. -/
theorem Describes.balanced_declare (h : w.Describes specifier t) (hname : Text.IsWord name.toList) :
    Text.Balanced (w.declare name).toList := by
  have hlevels (levels : List Cv) := balanced_flatten_of_isOperator (isOperator_levelTokens levels)
  have hreference := balanced_flatten_of_isOperator (isOperator_referenceTokens w.reference)
  have hnamed := Text.balanced_flatten_tokens_iff.mpr hname.balanced
  have hextents := w.balanced_flatten_extentTokens
  rw [← Text.balanced_flatten_tokens_iff]
  cases h with
  | ordinary hcategory hbase =>
      have hqualified := Text.balanced_flatten_tokens_iff.mpr (balanced_qualifiedName hbase)
      rw [declare_of_ordinary hcategory, tokens_declareOrdinary, nameTokens]
      split
      · simpa using hqualified.append ((hlevels w.pointers).append
          (hreference.append (hnamed.append hextents)))
      · simpa using hqualified.append ((hlevels w.pointers).append
          ((hreference.append hnamed).wrap.append hextents))
  | callback hw _ hclose hclause =>
      have hresult := Text.balanced_flatten_tokens_iff.mpr
        (Text.balanced_of_notMem hw.notOpen hclose)
      have hclause := Text.balanced_flatten_tokens_iff.mpr hclause
      rw [hw.tokens_declare]
      simpa using hresult.append (((hlevels (w.base :: w.pointers)).append
        (hreference.append (hnamed.append hextents))).wrap.append hclause.wrap)

end Written

end Understudy
