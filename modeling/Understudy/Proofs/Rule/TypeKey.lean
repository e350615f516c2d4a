import Understudy.Proofs.RuleBook.OwnSpelling

/-! # Type rules and the tokens of their keys

The key of a type rule is a sigil and the text of a type. The rule keeps the text normalised, and
files it by what it shows. Both follow from the tokens of the text, so two type rules are about the
same type exactly when their keys have the same sigil and the same tokens after it, wherever the
blanks are.
-/

namespace Understudy

namespace Text

variable {first second : List Char}

theorem normalise_eq_iff_sameTokens :
    normalise first = normalise second ↔ SameTokens first second := by
  rw [normalise_eq_iff_tokens_eq, sameTokens_iff]

end Text

namespace Selector

variable {key type text : List Char} {role other : Role} {selector : Selector}

/-- Keys of one role are filed alike when the normalised texts are the same. -/
theorem ofTypeText_eq_iff :
    ofTypeText role type = ofTypeText other text ↔ role = other ∧ Text.SameTokens type text := by
  rw [← Text.normalise_eq_iff_sameTokens]
  constructor
  · intro h
    have hspelling : String.ofList (Text.normalise type) = String.ofList (Text.normalise text) := by
      unfold ofTypeText at h
      split at h <;> split at h
      · exact (typeSpelling.inj h).2
      · cases h
      · cases h
      · exact (typeName.inj h).2
    have hrole := congrArg Selector.role h
    rw [role_ofTypeText, role_ofTypeText] at hrole
    exact ⟨hrole, String.ofList_inj.mp hspelling⟩
  · rintro ⟨rfl, h⟩
    rw [ofTypeText, ofTypeText, h]

theorem eq_ofTypeText_of_written (h : Written .type key selector) :
    ∃ role type, key = role.sigil.toList ++ type ∧ selector = ofTypeText role type := by
  cases h with
  | @typeSpelling role type _ hshows => exact ⟨role, type, rfl, (ofTypeText_of_shows hshows).symm⟩
  | @typeName role type _ hshows => exact ⟨role, type, rfl, (ofTypeText_of_not hshows).symm⟩

theorem sigil_append_inj (h : role.sigil.toList ++ type = other.sigil.toList ++ text) :
    role = other ∧ type = text := by
  cases role <;> cases other
  · exact ⟨rfl, List.append_cancel_left h⟩
  · cases h
  · cases h
  · exact ⟨rfl, List.append_cancel_left h⟩

end Selector

namespace Rule

variable {text : String} {type other : List Char} {role role' : Role} {rule : Rule}

/-- The key of a type rule, which stands before the first `=`, is the sigil of a role and the text
of a type. Blanks around the key do not belong to it. -/
inductive HasTypeKey (text : String) (role : Role) (type : List Char) : Prop
  | intro {key value : List Char} (htext : text.toList = key ++ '=' :: value) (hkey : '=' ∉ key)
      (hsigil : Text.trim key = role.sigil.toList ++ type)

theorem HasTypeKey.unique (h : HasTypeKey text role type) (h' : HasTypeKey text role' other) :
    role = role' ∧ type = other := by
  obtain ⟨htext, hkey, hsigil⟩ := h
  obtain ⟨htext', hkey', hsigil'⟩ := h'
  have hcut := (Text.cut_eq_some_iff.mpr ⟨htext, hkey⟩).symm.trans
    (Text.cut_eq_some_iff.mpr ⟨htext', hkey'⟩)
  obtain ⟨rfl, -⟩ := Prod.mk.inj (Option.some.inj hcut)
  exact Selector.sigil_append_inj (hsigil.symm.trans hsigil')

/-- A type rule that is read is filed by the key of its text. -/
theorem exists_hasTypeKey_of_parse (h : parse .type text = .ok rule) :
    ∃ role type, HasTypeKey text role type ∧ rule.selector = .ofTypeText role type := by
  obtain ⟨htext, hkey, hselector, -⟩ := parse_eq_ok_iff_written.mp h
  obtain ⟨role, type, hsigil, hfiled⟩ := Selector.eq_ofTypeText_of_written hselector
  exact ⟨role, type, .intro htext hkey hsigil, hfiled⟩

theorem selector_of_hasTypeKey (h : parse .type text = .ok rule)
    (hkey : HasTypeKey text role type) : rule.selector = .ofTypeText role type := by
  obtain ⟨role', other, hkey', hfiled⟩ := exists_hasTypeKey_of_parse h
  obtain ⟨rfl, rfl⟩ := hkey.unique hkey'
  exact hfiled

/-- Texts are normalised alike exactly when they are read as the same tokens, and normalising a
second time changes nothing. So two type rules are filed alike exactly when their keys have the same
sigil and the same tokens after it. -/
theorem filed_alike_iff_sameTokens :
    (∀ first second, Text.normalise first = Text.normalise second ↔
      Text.SameTokens first second) ∧
    (∀ text, Text.normalise (Text.normalise text) = Text.normalise text) ∧
    (∀ text rule, parse .type text = .ok rule → ∃ role type, HasTypeKey text role type) ∧
    ∀ first second rule rule', parse .type first = .ok rule → parse .type second = .ok rule' →
      ∀ role type role' type', HasTypeKey first role type → HasTypeKey second role' type' →
        (rule.selector = rule'.selector ↔ role = role' ∧ Text.SameTokens type type') := by
  refine ⟨fun _ _ => Text.normalise_eq_iff_sameTokens, Text.normalise_normalise, ?_, ?_⟩
  · intro text rule hparse
    obtain ⟨role, type, hkey, -⟩ := exists_hasTypeKey_of_parse hparse
    exact ⟨role, type, hkey⟩
  · intro first second rule rule' hfirst hsecond role type role' type' hkey hkey'
    rw [selector_of_hasTypeKey hfirst hkey, selector_of_hasTypeKey hsecond hkey',
      Selector.ofTypeText_eq_iff]

/-- Two rules for one type, with blanks in different places. -/
theorem filed_alike_of_blanks :
    let first := "#unsigned int*=Output"
    let second := " # unsigned\t int * = Skip"
    let selector := Selector.typeSpelling .parameter "unsigned int*"
    parse .type first = .ok { selector, treatment := .output } ∧
      parse .type second = .ok { selector, treatment := .skip } ∧
      HasTypeKey first .parameter "unsigned int*".toList ∧
      HasTypeKey second .parameter " unsigned\t int *".toList ∧
      Text.SameTokens "unsigned int*".toList " unsigned\t int *".toList := by
  intro first second selector
  have hfirst : parse .type first = .ok { selector, treatment := .output } := by decide
  have hsecond : parse .type second = .ok { selector, treatment := .skip } := by decide
  have htext : first.toList = "#unsigned int*".toList ++ '=' :: "Output".toList := by decide
  have htext' : second.toList = " # unsigned\t int * ".toList ++ '=' :: " Skip".toList := by decide
  have hkey : HasTypeKey first .parameter "unsigned int*".toList :=
    .intro htext (by decide) (by decide)
  have hkey' : HasTypeKey second .parameter " unsigned\t int *".toList :=
    .intro htext' (by decide) (by decide)
  have hfiled := filed_alike_iff_sameTokens.2.2.2 _ _ _ _ hfirst hsecond _ _ _ _ hkey hkey'
  exact ⟨hfirst, hsecond, hkey, hkey', (hfiled.mp rfl).2⟩

end Rule

end Understudy
