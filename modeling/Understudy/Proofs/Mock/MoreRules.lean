import Understudy.Proofs.Classification.Decision
import Understudy.Proofs.Mock.Mockable
import Understudy.Proofs.Rule.RoundTrip

/-! # More rules, no fewer mocks

A rule that comes after others may take their place in some look-ups, but what it decides on is
supported, and what it leaves alone is decided as before: a rule for a base name that does not apply
to the shape of a type was either there before, or nothing else was. So a declaration that can be
mocked stays so under any further rules. Where only parameters stand in the way, leaving out each of
their names removes every obstacle, and these rules can always be added.
-/

namespace Understudy

namespace RuleBook

variable {book next : RuleBook} {d : Declaration}

/-- A book with the rules of another, and perhaps more after them. -/
structure ExtendedBy (book next : RuleBook) : Prop where
  resolveAliases_eq : next.resolveAliases = book.resolveAliases
  rules_kept : ∀ level, book.rules level <+: next.rules level

theorem extendedBy_extend (book : RuleBook) (level : Level) (rules : List Rule) :
    book.ExtendedBy (book.extend level rules) := by
  constructor
  · cases level <;> rfl
  · intro other
    rw [rules_extend]
    split
    · exact List.prefix_append _ _
    · exact List.prefix_rfl

theorem extendedBy_of_add {level : Level} {text : String}
    (hnext : book.add level text = .ok next) : book.ExtendedBy next := by
  obtain ⟨rule, -, -, rfl⟩ := add_eq_ok_iff.mp hnext
  have happend : book.extend level [rule] = book.append level rule := by
    rw [extend_cons, extend_nil]
  rw [← happend]
  exact book.extendedBy_extend level [rule]

namespace ExtendedBy

variable {function name : String} {role : Role} {type : CType}

theorem parameterRule?_eq_none (h : book.ExtendedBy next)
    (hnone : next.parameterRule? function name = none) :
    book.parameterRule? function name = none := by
  rw [parameterRule?_eq, Option.or_eq_none_iff] at hnone ⊢
  have hkept := h.rules_kept .parameter
  exact ⟨hkept.find?_eq_none hnone.1, hkept.find?_eq_none hnone.2⟩

theorem resultRule?_eq_none (h : book.ExtendedBy next)
    (hnone : next.resultRule? function = none) : book.resultRule? function = none :=
  (h.rules_kept .parameter).find?_eq_none hnone

/-- Where no type rule decides, none decided before the further rules came. The rule for the whole
spelling always applies, so there is none, and the first rule for the base name is still the
first. -/
theorem typeDecision?_eq_none (h : book.ExtendedBy next)
    (hnone : next.typeDecision? role type = none) : book.typeDecision? role type = none := by
  have hlooked : next.lookedUp type = book.lookedUp type := by
    simp only [lookedUp, h.resolveAliases_eq]
  have hkept := h.rules_kept .type
  rw [typeDecision?, Option.bind_eq_none_iff] at hnone ⊢
  rw [hlooked] at hnone
  have hspelling : find? next.typeRules
      (.typeSpelling role (normalised (book.lookedUp type).spelling)) = none := by
    cases hfound : find? next.typeRules
        (.typeSpelling role (normalised (book.lookedUp type).spelling)) with
    | none => rfl
    | some other =>
        -- A rule that is found and then left aside is for a base name, not for a spelling.
        have hidle := hnone other (by rw [typeRule?_eq, hfound, Option.some_or])
        obtain ⟨_, _, hname⟩ := Rule.exists_typeName_of_typed hidle
        rw [(mem_of_find? hfound).2] at hname
        cases hname
  have hbefore : find? book.typeRules
      (.typeSpelling role (normalised (book.lookedUp type).spelling)) = none :=
    hkept.find?_eq_none hspelling
  intro rule hrule
  apply hnone rule
  rw [typeRule?_eq, hbefore, Option.none_or] at hrule
  rw [typeRule?_eq, hspelling, Option.none_or]
  exact hkept.find?_eq_some hrule

theorem isUnsupported_classifyType (h : book.ExtendedBy next)
    (hnext : (next.classifyType type role).isUnsupported = true) :
    (book.classifyType type role).isUnsupported = true := by
  obtain ⟨hdecision, htype⟩ := isUnsupported_classifyType_iff.mp hnext
  exact isUnsupported_classifyType_iff.mpr ⟨h.typeDecision?_eq_none hdecision, htype⟩

theorem isUnsupported_classifyParameter (h : book.ExtendedBy next) {p : Parameter}
    (hnext : (next.classifyParameter function p).isUnsupported = true) :
    (book.classifyParameter function p).isUnsupported = true := by
  obtain ⟨hrule, htype⟩ := isUnsupported_classifyParameter_iff.mp hnext
  exact isUnsupported_classifyParameter_iff.mpr
    ⟨h.parameterRule?_eq_none hrule, h.isUnsupported_classifyType htype⟩

theorem exists_isUnsupported_classifyResult? (h : book.ExtendedBy next)
    (hnext : ∃ c, next.classifyResult? function type = some c ∧ c.isUnsupported = true) :
    ∃ c, book.classifyResult? function type = some c ∧ c.isUnsupported = true := by
  obtain ⟨hvoid, hrule, htype⟩ := exists_isUnsupported_classifyResult?_iff.mp hnext
  exact exists_isUnsupported_classifyResult?_iff.mpr
    ⟨hvoid, h.resultRule?_eq_none hrule, h.isUnsupported_classifyType htype⟩

theorem ofResult?_eq_none (h : book.ExtendedBy next)
    (hresult : Obstacle.ofResult? type (book.classifyResult? function type) = none) :
    Obstacle.ofResult? type (next.classifyResult? function type) = none := by
  rw [Obstacle.ofResult?_eq_none_iff] at hresult ⊢
  intro c hc
  rw [Bool.eq_false_iff]
  intro hunsupported
  obtain ⟨before, hbefore, hunsupported⟩ :=
    h.exists_isUnsupported_classifyResult? ⟨c, hc, hunsupported⟩
  rw [hresult before hbefore] at hunsupported
  cases hunsupported

theorem isMockable (h : book.ExtendedBy next) (hmockable : (book.analyse d).isMockable = true) :
    (next.analyse d).isMockable = true := by
  obtain ⟨htraits, hresult, hparameters⟩ := isMockable_analyse_iff.mp hmockable
  rw [← Obstacle.ofResult?_eq_none_iff] at hresult
  refine isMockable_analyse_iff.mpr
    ⟨htraits, Obstacle.ofResult?_eq_none_iff.mp (h.ofResult?_eq_none hresult), ?_⟩
  intro p hp
  rw [Bool.eq_false_iff]
  intro hunsupported
  have hbefore := h.isUnsupported_classifyParameter hunsupported
  rw [hparameters p hp] at hbefore
  cases hbefore

end ExtendedBy

end RuleBook

/-! ## Leaving parameters out -/

/-- A name that the key of a rule can hold. Every identifier is one, in whatever alphabet. -/
structure Selector.IsKeyName (name : List Char) : Prop where
  hasContent : Text.HasContent name
  isTrimmed : Text.IsTrimmed name
  notMem : '=' ∉ name
  getLast?_ne : name.getLast? ≠ some '@'

theorem Selector.IsKeyName.of_isWord {name : List Char} (hname : name ≠ [])
    (hword : Text.IsWord name) : Selector.IsKeyName name where
  hasContent := by
    obtain ⟨c, hc⟩ := List.exists_mem_of_ne_nil name hname
    exact ⟨c, hc, Text.isBlank_eq_false_of_isWordChar (hword c hc)⟩
  isTrimmed := hword.isTrimmed
  notMem hmem := absurd (hword '=' hmem) (by decide)
  getLast?_ne hlast := absurd (hword '@' (List.mem_of_getLast? hlast)) (by decide)

namespace Rule

/-- The rule that leaves out every parameter of a name. -/
def skipping (name : String) : Rule where
  selector := .parameterName name
  treatment := .skip

theorem render_skipping (name : String) : (skipping name).render = "#" ++ name ++ "=Skip" := by
  rw [← String.toList_inj, toList_render]
  simp [skipping, shownValue, Selector.render, Treatment.render, ValueParts.slashed]

theorem parse_render_skipping {name : String} (hname : Selector.IsKeyName name.toList) :
    parse .parameter (skipping name).render = .ok (skipping name) := by
  have htext : (skipping name).render.toList = '#' :: name.toList ++ '=' :: "Skip".toList := by
    rw [render_skipping]
    simp
  have hempty : Text.IsGap [] := by simp [Text.IsGap]
  refine parse_of_kind htext ?_ ?_ .skip rfl
  · simp [hname.notMem]
  · rw [(hname.isTrimmed.cons (by decide)).trim_eq]
    have hwritten := Selector.Written.parameterName hempty hname.hasContent hname.getLast?_ne
    rwa [hname.isTrimmed.trim_eq, String.ofList_toList] at hwritten

end Rule

namespace RuleBook

variable {book : RuleBook} {d : Declaration} {function : String} {names : List String}

theorem classifyParameter_extend_skipping {p : Parameter} (hp : p.name ∈ names) :
    ((book.extend .parameter (names.map Rule.skipping)).classifyParameter
      function p).isUnsupported = false := by
  rw [Bool.eq_false_iff]
  intro hunsupported
  have hrule := (isUnsupported_classifyParameter_iff.mp hunsupported).1
  rw [parameterRule?_eq, Option.or_eq_none_iff] at hrule
  have hmem : Rule.skipping p.name ∈
      (book.extend .parameter (names.map Rule.skipping)).parameterRules :=
    List.mem_append_right _ (List.mem_map_of_mem hp)
  have hother := List.find?_eq_none.mp hrule.2 _ hmem
  simp [Rule.skipping] at hother

/-- Rules that leave out unsupported parameters can always be added: no rule with such a key was
there, for it would have decided on the parameter. -/
theorem addAll_skipping (function : String) (hnodup : names.Nodup)
    (hkeys : ∀ name ∈ names, Selector.IsKeyName name.toList)
    (hfree : ∀ name ∈ names, ∃ p : Parameter, p.name = name ∧
      (book.classifyParameter function p).isUnsupported = true) :
    book.addAll .parameter (names.map fun name => "#" ++ name ++ "=Skip") =
      .ok (book.extend .parameter (names.map Rule.skipping)) := by
  refine addAll_eq_ok_iff.mpr ⟨names.map Rule.skipping, ?_, ?_, ?_, rfl⟩
  · refine List.forall₂_map_left_iff.mpr (List.forall₂_map_right_iff.mpr ?_)
    refine List.forall₂_same.mpr fun name hname => ?_
    rw [← Rule.render_skipping]
    exact Rule.parse_render_skipping (hkeys name hname)
  · refine List.pairwise_map.mpr (hnodup.imp fun hne hsame => hne ?_)
    simpa [Rule.skipping] using hsame
  · intro earlier hearlier rule hrule hsame
    obtain ⟨name, hname, rfl⟩ := List.mem_map.mp hrule
    obtain ⟨p, rfl, hunsupported⟩ := hfree name hname
    have hnone := (isUnsupported_classifyParameter_iff.mp hunsupported).1
    rw [parameterRule?_eq, Option.or_eq_none_iff] at hnone
    exact List.find?_eq_none.mp hnone.2 earlier hearlier (decide_eq_true hsame)

/-- A rule never costs a mock. A declaration that can be mocked stays so under every rule that can
be added, of either level. And when nothing but its parameters stands in the way, it can be mocked
once each name of an unsupported parameter is left out, in any order, and every one of these rules
can be added. -/
theorem mocks_kept_and_gained (book : RuleBook) (d : Declaration) :
    (∀ level text next, book.add level text = .ok next →
      (book.analyse d).isMockable = true → (next.analyse d).isMockable = true) ∧
    ∀ name type, (book.analyse d).obstacle? = some (.unsupportedParameter name type) →
      ∀ names : List String, names.Nodup →
        (∀ name, name ∈ names ↔ ∃ p ∈ d.parameters, p.name = name ∧
          (book.classifyParameter d.qualifiedName p).isUnsupported = true) →
        (∀ name ∈ names, Selector.IsKeyName name.toList) →
        ∃ next, book.addAll .parameter (names.map fun name => "#" ++ name ++ "=Skip") = .ok next ∧
          (next.analyse d).isMockable = true := by
  constructor
  · exact fun _ _ _ hnext hmockable => (extendedBy_of_add hnext).isMockable hmockable
  intro name type hobstacle names hnodup hnames hkeys
  have hadded := book.extendedBy_extend .parameter (names.map Rule.skipping)
  refine ⟨_, addAll_skipping d.qualifiedName hnodup hkeys ?_, ?_⟩
  · intro name hname
    obtain ⟨p, -, hp⟩ := (hnames name).mp hname
    exact ⟨p, hp⟩
  · obtain ⟨htraits, hresult⟩ := Obstacle.of_find?_eq_unsupportedParameter hobstacle
    refine isMockable_analyse_iff.mpr
      ⟨htraits, Obstacle.ofResult?_eq_none_iff.mp (hadded.ofResult?_eq_none hresult), ?_⟩
    intro p hp
    by_cases hmem : p.name ∈ names
    · exact classifyParameter_extend_skipping hmem
    · -- What is unsupported now was so before, and then its name is one of those left out.
      rw [Bool.eq_false_iff]
      intro hunsupported
      exact hmem ((hnames p.name).mpr
        ⟨p, hp, rfl, hadded.isUnsupported_classifyParameter hunsupported⟩)

/-- Two records passed by value are left out, and the mock stands when a rule for their type comes
after that. -/
theorem mocks_kept_and_gained_of_records :
    let d : Declaration :=
      { qualifiedName := "f"
        parameters := Parameter.ofList
          [("a", .record "R"), ("n", .arithmetic .int), ("b", .record "R")]
        returnType := .void }
    let book : RuleBook := {}
    (book.analyse d).obstacle? = some (.unsupportedParameter "a" "R") ∧
      ∃ next, book.addAll .parameter ["#b=Skip", "#a=Skip"] = .ok next ∧
        (next.analyse d).isMockable = true ∧
          ∃ last, next.add .type "#R=Object(Tag)" = .ok last ∧
            (last.analyse d).isMockable = true := by
  intro d book
  have hobstacle : (book.analyse d).obstacle? = some (.unsupportedParameter "a" "R") := by decide
  have hnames : ∀ name, name ∈ ["b", "a"] ↔ ∃ p ∈ d.parameters, p.name = name ∧
      (book.classifyParameter d.qualifiedName p).isUnsupported = true := by
    have hshown : (d.parameters.filter fun p =>
        (book.classifyParameter d.qualifiedName p).isUnsupported).map Parameter.name =
          ["a", "b"] := by decide
    intro name
    have hswapped : name ∈ ["b", "a"] ↔ name ∈ ["a", "b"] := by simp [or_comm]
    rw [hswapped, ← hshown, List.mem_map]
    simp only [List.mem_filter, and_assoc]
    exact exists_congr fun p => and_congr_right fun _ => and_comm
  have hkeys : ∀ name ∈ ["b", "a"], Selector.IsKeyName name.toList := by
    intro name hname
    rcases List.mem_pair.mp hname with rfl | rfl <;> exact .of_isWord (by decide) (by decide)
  obtain ⟨next, hnext, hmockable⟩ :=
    (mocks_kept_and_gained book d).2 _ _ hobstacle ["b", "a"] (by decide) hnames hkeys
  have hlast : next.add .type "#R=Object(Tag)" = .ok (next.append .type
      { selector := .typeName .parameter "R", treatment := .object "Tag" }) := by
    cases hnext
    decide
  exact ⟨hobstacle, next, hnext, hmockable, _, hlast,
    (mocks_kept_and_gained next d).1 _ _ _ hlast hmockable⟩

end RuleBook

end Understudy
