import Understudy.Proofs.Classification.Transparency
import Understudy.Proofs.Rule.RoundTrip
import Understudy.Proofs.Text.TokenSequence

/-! # Rules for a type's own spelling

The key of a type rule is filed as a whole spelling when it shows more than a base name, and as a
base name when it does not. A type whose spelling shows no more than a base name is that base name
alone, with no declarator around it. So a rule that is keyed by a type's own spelling is found for
the type however it is filed, and it applies to the shape of the type.
-/

namespace Understudy

namespace Selector

variable {role : Role} {text : List Char}

/-- Normalising a spelling hides nothing that it shows. -/
theorem showsDeclarator_normalise_iff :
    ShowsDeclarator (Text.normalise text) ↔ ShowsDeclarator text := by
  have hmark {c : Char} (hblank : Text.isBlank c = false) :
      c ∈ Text.normalise text ↔ c ∈ text := Text.mem_normalise_iff hblank
  rw [ShowsDeclarator, ShowsDeclarator, hmark (by decide), hmark (by decide), hmark (by decide),
    Text.showsWord_normalise_iff (by decide) (by decide),
    Text.showsWord_normalise_iff (by decide) (by decide)]

/-- The selector of a type rule that is keyed by a text. -/
def ofTypeText (role : Role) (text : List Char) : Selector :=
  if showsDeclarator (Text.normalise text) then
    .typeSpelling role (String.ofList (Text.normalise text))
  else .typeName role (String.ofList (Text.normalise text))

theorem ofTypeText_of_shows (h : ShowsDeclarator (Text.normalise text)) :
    ofTypeText role text = .typeSpelling role (String.ofList (Text.normalise text)) :=
  if_pos (showsDeclarator_iff.mpr h)

theorem ofTypeText_of_not (h : ¬ ShowsDeclarator (Text.normalise text)) :
    ofTypeText role text = .typeName role (String.ofList (Text.normalise text)) :=
  if_neg (mt showsDeclarator_iff.mp h)

theorem role_ofTypeText : (ofTypeText role text).role = role := by
  unfold ofTypeText
  split <;> rfl

/-- Blanks around the key of a type rule change nothing. -/
theorem normalise_trimEnd (text : List Char) :
    Text.normalise (Text.trimEnd text) = Text.normalise text := by
  obtain ⟨gap, hgap, hsplit⟩ := Text.exists_eq_trimEnd_append text
  apply Text.normalise_eq_iff_tokens_eq.mpr
  conv_rhs => rw [hsplit]
  exact (Text.tokens_append_gap hgap).symm

theorem trim_sigil_append (role : Role) (text : List Char) :
    Text.trim (role.sigil.toList ++ text) = role.sigil.toList ++ Text.trimEnd text := by
  have hmark {c : Char} (hblank : Text.isBlank c = false) :
      Text.trim ([] ++ c :: text) = [] ++ c :: Text.trimEnd text := Text.trim_append_cons hblank
  cases role with
  | parameter => exact hmark (c := '#') (by decide)
  | result => exact hmark (c := '@') (by decide)

theorem written_ofTypeText (hne : Text.normalise text ≠ []) :
    Written .type (Text.trim (role.sigil.toList ++ text)) (ofTypeText role text) := by
  rw [trim_sigil_append]
  rw [← normalise_trimEnd] at hne
  have hcontent := Text.normalise_ne_nil_iff.mp hne
  by_cases hshows : ShowsDeclarator (Text.normalise text)
  · rw [ofTypeText_of_shows hshows, ← normalise_trimEnd]
    rw [← normalise_trimEnd] at hshows
    exact .typeSpelling hcontent hshows
  · rw [ofTypeText_of_not hshows, ← normalise_trimEnd]
    rw [← normalise_trimEnd] at hshows
    exact .typeName hcontent hshows

end Selector

/-! ## What a spelling shows -/

namespace Callback

theorem mem_head_of_cutStar {text head rest : List Char} (h : cutStar text = some (head, rest)) :
    '*' ∈ head := by
  induction text using cutStar.induct generalizing head with
  | case1 rest =>
      rw [cutStar] at h
      cases h
      decide
  | case2 c rest hc ih =>
      rw [cutStar] at h
      · obtain ⟨⟨before, after⟩, hrest, hparts⟩ := Option.map_eq_some_iff.mp h
        cases hparts
        exact List.mem_cons_of_mem c (ih hrest)
      · exact hc
  | case3 => cases h

/-- A function pointer shows the `*` that its declarator is put after. -/
theorem mem_declare_of_ofSpelling? {name declared : String} {callback : Callback}
    (h : ofSpelling? name = some callback) (w : Written) :
    '*' ∈ (callback.declare w declared).toList := by
  unfold ofSpelling? at h
  obtain ⟨⟨head, rest⟩, hstar, h⟩ := Option.bind_eq_some_iff.mp h
  obtain ⟨⟨inside, after⟩, -, h⟩ := Option.bind_eq_some_iff.mp h
  cases h
  rw [declare, String.toList_ofList, List.append_assoc]
  exact List.mem_append_left _ (mem_head_of_cutStar hstar)

end Callback

namespace Written

variable {w : Written} {name : String}

theorem exists_declareOrdinary_eq (w : Written) (name : String) :
    ∃ rest, w.declareOrdinary name = w.specifier ++ rest := by
  unfold declareOrdinary
  split
  · exact ⟨_, String.append_assoc⟩
  split
  · exact ⟨_, by rw [String.append_assoc, String.append_assoc]⟩
  · exact ⟨_, by simp only [String.append_assoc]; rfl⟩

theorem mem_declareOrdinary_of_pointers (h : w.pointers ≠ []) :
    '*' ∈ (w.declareOrdinary name).toList := by
  obtain ⟨level, levels, hlevels⟩ := List.exists_cons_of_ne_nil h
  obtain ⟨rest, hrest⟩ := w.exists_declareOrdinary_eq name
  rw [hrest, specifier, hlevels, pointersSpelling]
  simp

theorem mem_declareOrdinary_of_reference (h : w.reference ≠ .none) :
    '&' ∈ (w.declareOrdinary name).toList := by
  have hmark : '&' ∈ w.reference.spelling.toList := by
    cases hreference : w.reference with
    | none => exact absurd hreference h
    | lvalue | rvalue => decide
  unfold declareOrdinary
  rw [if_neg h]
  split
  · simp [hmark]
  · simp [hmark]

theorem mem_extentsSpelling (h : w.extents ≠ []) : '[' ∈ w.extentsSpelling.toList := by
  obtain ⟨extent, extents, hextents⟩ := List.exists_cons_of_ne_nil h
  rw [extentsSpelling, hextents, List.map_cons, String.join_cons, String.toList_append]
  apply List.mem_append_left
  cases extent <;> simp [Extent.spelling]

theorem mem_declareOrdinary_of_extents (h : w.extents ≠ []) :
    '[' ∈ (w.declareOrdinary name).toList := by
  have hmark := mem_extentsSpelling h
  unfold declareOrdinary
  rw [if_neg (by simpa using h)]
  split <;> simp [hmark]

/-- A word with a space after it at the start of a text is shown there. -/
theorem showsWord_append_space (word rest : List Char) :
    Text.ShowsWord word (word ++ ' ' :: rest) := by
  refine ⟨[], ' ' :: rest, rfl, by simp, ?_⟩
  rintro _ ⟨⟩
  decide

/-- A qualifier of the base name is the first word of the spelling. -/
theorem showsDeclarator_of_isQualified (h : w.base.isQualified = true) :
    Selector.ShowsDeclarator (w.declareOrdinary name).toList := by
  obtain ⟨rest, hrest⟩ := w.exists_declareOrdinary_eq name
  rw [hrest, specifier]
  by_cases hconst : w.base.isConst = true
  · rw [if_pos hconst]
    refine .inr (.inr (.inr (.inl ?_)))
    simp only [String.toList_append, List.append_assoc]
    exact showsWord_append_space "const".toList _
  · have hvolatile : w.base.isVolatile = true := by
      simpa [Cv.isQualified, hconst] using h
    rw [if_neg hconst, if_pos hvolatile]
    refine .inr (.inr (.inr (.inr ?_)))
    simp only [String.toList_append, List.append_assoc]
    exact showsWord_append_space "volatile".toList _

/-- What shows no more than a base name is the base name alone. -/
theorem plain_of_not_showsDeclarator
    (h : ¬ Selector.ShowsDeclarator (w.declare "").toList) :
    w.isPlain = true ∧ w.declare "" = w.name := by
  cases hcallback : w.callback? with
  | some callback =>
      have hspelled : Callback.ofSpelling? w.name = some callback := by
        unfold callback? at hcallback
        split at hcallback
        · exact hcallback
        · cases hcallback
      rw [declare, hcallback] at h
      exact absurd (.inl (Callback.mem_declare_of_ofSpelling? hspelled w)) h
  | none =>
      rw [declare, hcallback] at h ⊢
      have hpointers : w.pointers = [] := by
        by_contra hne
        exact h (.inl (mem_declareOrdinary_of_pointers hne))
      have hreference : w.reference = .none := by
        by_contra hne
        exact h (.inr (.inl (mem_declareOrdinary_of_reference hne)))
      have hextents : w.extents = [] := by
        by_contra hne
        exact h (.inr (.inr (.inl (mem_declareOrdinary_of_extents hne))))
      have hbase : w.base.isQualified = false := by
        by_contra hqualified
        exact h (showsDeclarator_of_isQualified (by simpa using hqualified))
      obtain ⟨hconst, hvolatile⟩ := Bool.or_eq_false_iff.mp hbase
      constructor
      · simp [isPlain, hpointers, hreference, hextents]
      · simp [declareOrdinary, specifier, pointersSpelling, hpointers, hreference, hextents, hconst,
          hvolatile]

end Written

/-! ## What the rule decides -/

namespace Treatment

/-- The kind of a treatment, without the length of a buffer. -/
def kind : Treatment → Kind
  | scalar s => .scalar s
  | output => .output
  | memoryBuffer _ => .memoryBuffer
  | object tag => .object tag
  | skip => .skip

theorem kind_passing (treatment : Treatment) (type : CType) :
    (treatment.passing type).kind = treatment.kind := by
  cases treatment <;> rfl

variable {role : Role} {token : List Char} {treatment : Treatment}

theorem Named.ne_object (h : Named role token none treatment) (tag : String) :
    treatment ≠ .object tag := by
  cases h <;> simp

end Treatment

namespace Rule

variable {rule : Rule} {role : Role} {token : List Char} {type looked : CType} {c : Classification}

/-- A kind that takes no argument is the kind of what its type rule classifies. -/
theorem kind_of_typed (hkind : Treatment.Named role token none rule.treatment)
    (h : rule.classifyTyped? role type looked = some c) :
    c.passing.kind = rule.treatment.kind := by
  cases role with
  | parameter =>
      rcases classifyParameter_of_typed h with rfl | ⟨tag, hobject, -⟩
      · exact rule.treatment.kind_passing type
      · exact absurd hobject (hkind.ne_object tag)
  | result =>
      obtain ⟨s, hscalar⟩ := hkind.exists_scalar
      rw [classifyResult_of_typed h, classifyResult, hscalar]
      rfl

/-- A rule for a base name applies to the base name alone. -/
theorem exists_typed_of_isPlain (hkind : Treatment.Named role token none rule.treatment)
    (hplain : looked.isPlain = true) : ∃ c, rule.classifyTyped? role type looked = some c := by
  cases role with
  | parameter =>
      rw [classifyTyped?, classifyTypedParameter?]
      split
      next tag _ hobject => exact absurd hobject (hkind.ne_object tag)
      next => exact ⟨_, if_pos hplain⟩
      next => exact ⟨_, rfl⟩
  | result =>
      rw [classifyTyped?, classifyTypedResult?]
      split
      next => exact ⟨_, if_pos hplain⟩
      next => exact ⟨_, rfl⟩

/-- A rule for a whole spelling applies to whatever is spelled so. -/
theorem exists_typed_of_typeSpelling {spelling : String}
    (hselector : rule.selector = .typeSpelling role spelling) :
    ∃ c, rule.classifyTyped? role type looked = some c := by
  cases hgiven : rule.classifyTyped? role type looked with
  | some c => exact ⟨c, rfl⟩
  | none =>
      obtain ⟨other, name, hname⟩ := exists_typeName_of_typed hgiven
      rw [hselector] at hname
      cases hname

/-- A text of a type rule without a modifier, for a kind that takes no argument. -/
theorem parse_typeText {token text : String} {treatment : Treatment}
    (hkind : Treatment.Named role token.toList none treatment) (hsign : '=' ∉ text.toList)
    (hne : Text.normalise text.toList ≠ []) :
    parse .type (role.sigil ++ text ++ "=" ++ token) =
      .ok { selector := .ofTypeText role text.toList, treatment } := by
  have htext : (role.sigil ++ text ++ "=" ++ token).toList =
      role.sigil.toList ++ text.toList ++ '=' :: token.toList := by
    simp
  have hkey : '=' ∉ role.sigil.toList ++ text.toList := by
    rw [List.mem_append, not_or]
    refine ⟨?_, hsign⟩
    cases role <;> decide
  refine parse_of_kind htext hkey (Selector.written_ofTypeText hne) ?_ rfl
  rwa [Selector.role_ofTypeText]

end Rule

namespace RuleBook

variable {rule : Rule} {role : Role} {type : CType} {text : String}

/-- The only rule of a book is found for a type that is spelled as its key, however it is filed. -/
theorem typeRule?_of_ownSpelling (hselector : rule.selector = .ofTypeText role text.toList)
    (hspelling : Text.normalise text.toList = Text.normalise type.spelling.toList) :
    typeRule? { typeRules := [rule] } type role = some rule := by
  rw [typeRule?_eq]
  by_cases hshows : Selector.ShowsDeclarator (Text.normalise text.toList)
  · rw [Selector.ofTypeText_of_shows hshows, hspelling] at hselector
    simp [find?, normalised, hselector]
  · rw [Selector.ofTypeText_of_not hshows] at hselector
    rw [hspelling, Selector.showsDeclarator_normalise_iff] at hshows
    have hname := (Written.plain_of_not_showsDeclarator hshows).2
    rw [hspelling, CType.spelling, CType.declare, hname] at hselector
    simp [find?, Rule.namesType, normalised, hselector]

/-- The rule applies to the type, however it is filed. -/
theorem exists_typed_of_ownSpelling {token : List Char} (type : CType)
    (hkind : Treatment.Named role token none rule.treatment)
    (hselector : rule.selector = .ofTypeText role text.toList)
    (hspelling : Text.normalise text.toList = Text.normalise type.spelling.toList) :
    ∃ c, rule.classifyTyped? role type type = some c := by
  by_cases hshows : Selector.ShowsDeclarator (Text.normalise text.toList)
  · rw [Selector.ofTypeText_of_shows hshows] at hselector
    exact Rule.exists_typed_of_typeSpelling hselector
  · rw [hspelling, Selector.showsDeclarator_normalise_iff] at hshows
    exact Rule.exists_typed_of_isPlain hkind (Written.plain_of_not_showsDeclarator hshows).1

/-- A rule for a type's own spelling, with any kind that takes no argument and that the role allows,
is accepted, is found for the type and decides how the type is classified. -/
theorem ownSpelling_decides {token : String} {treatment : Treatment}
    (hkind : Treatment.Named role token.toList none treatment) (hsign : '=' ∉ text.toList)
    (hne : Text.normalise text.toList ≠ [])
    (hspelling : Text.normalise text.toList = Text.normalise type.spelling.toList) :
    ∃ rule book, add {} .type (role.sigil ++ text ++ "=" ++ token) = .ok book ∧
      book = { typeRules := [rule] } ∧ rule.selector.role = role ∧ rule.treatment = treatment ∧
      rule.modifier? = none ∧ book.typeRule? type role = some rule ∧
      (book.classifyType type role).passing.kind = treatment.kind ∧
      (book.classifyType type role).origin = .typeRule := by
  have hparse := Rule.parse_typeText hkind hsign hne
  obtain ⟨rule, hrule⟩ : ∃ rule : Rule,
      rule = { selector := .ofTypeText role text.toList, treatment } := ⟨_, rfl⟩
  rw [← hrule] at hparse
  have hselector : rule.selector = .ofTypeText role text.toList := by rw [hrule]
  have htreatment : rule.treatment = treatment := by rw [hrule]
  have hfound := typeRule?_of_ownSpelling hselector hspelling
  rw [← htreatment] at hkind
  obtain ⟨c, hc⟩ := exists_typed_of_ownSpelling type hkind hselector hspelling
  have hdecision : typeDecision? { typeRules := [rule] } role type = some c :=
    Option.bind_eq_some_iff.mpr ⟨rule, hfound, hc⟩
  have hclassified : classifyType { typeRules := [rule] } type role = c := by
    rw [classifyType_eq, hdecision, Option.getD_some]
  refine ⟨rule, { typeRules := [rule] }, ?_, rfl, ?_, htreatment, by rw [hrule], hfound, ?_, ?_⟩
  · exact add_eq_ok_iff.mpr ⟨rule, hparse, by simp [rules], rfl⟩
  · rw [hselector, Selector.role_ofTypeText]
  · rw [hclassified, Rule.kind_of_typed hkind hc, htreatment]
  · rw [hclassified]
    exact Rule.origin_of_typed hc

/-- A function pointer that is `const`, written with blanks in other places than it is printed. -/
theorem ownSpelling_decides_function_pointer :
    let type : CType :=
      .plain { name := "void (*)(int)", category := .functionPointer, base := { isConst := true } }
    let text := " void( * const ) ( int )"
    type.spelling = "void (*const)(int)" ∧
      Treatment.Named .parameter "Pointer".toList none (.scalar .pointer) ∧ '=' ∉ text.toList ∧
      Text.normalise text.toList ≠ [] ∧
      Text.normalise text.toList = Text.normalise type.spelling.toList ∧
      ∃ rule book, add {} .type "# void( * const ) ( int )=Pointer" = .ok book ∧
        book = { typeRules := [rule] } ∧ book.typeRule? type .parameter = some rule ∧
        (book.classifyType type .parameter).passing.kind = .scalar .pointer ∧
        (book.classifyType type .parameter).origin = .typeRule := by
  intro type text
  have hspelling : type.spelling = "void (*const)(int)" := by decide
  have hkind : Treatment.Named .parameter "Pointer".toList none (.scalar .pointer) :=
    .scalar .parameter .pointer
  have hsign : '=' ∉ text.toList := by decide
  have hne : Text.normalise text.toList ≠ [] := by decide
  have hsame : Text.normalise text.toList = Text.normalise type.spelling.toList := by decide
  obtain ⟨rule, book, hadd, hbook, -, -, -, hfound, hpasses, horigin⟩ :=
    ownSpelling_decides hkind hsign hne hsame
  exact ⟨hspelling, hkind, hsign, hne, hsame, rule, book, hadd, hbook, hfound, hpasses, horigin⟩

end RuleBook

end Understudy
