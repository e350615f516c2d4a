import Mathlib.Data.List.Nodup
import Mathlib.Data.List.Pairwise
import Understudy.Proofs.RuleBook.Reachable

/-! # Rearranged options

Rules are looked up by scanning a list for the first that fits, but the order of the list is seldom
visible: as no two rules of a list have the same selector, at most one rule fits each key. Only a
type has two names to fit, the written one and the one without its tag word, and only there can the
first of two rules be preferred for its place.
-/

namespace Understudy

namespace Rule

variable {level : Level} {texts arranged : List String} {rules : List Rule}

/-- The rules that texts give, without the texts that cannot be read. -/
def read (level : Level) (texts : List String) : List Rule :=
  texts.filterMap fun text => (parse level text).toOption

theorem toOption_parse_eq_some_iff {text : String} {rule : Rule} :
    (parse level text).toOption = some rule ↔ parse level text = .ok rule := by
  cases parse level text <;> simp [Except.toOption]

theorem read_cons {text : String} {rule : Rule} (h : parse level text = .ok rule) :
    read level (text :: texts) = rule :: read level texts := by
  have hread := toOption_parse_eq_some_iff.mpr h
  simp only [read, List.filterMap_cons, hread]

theorem forall₂_parse_iff :
    List.Forall₂ (fun text rule => parse level text = .ok rule) texts rules ↔
      (∀ text ∈ texts, ∃ rule, parse level text = .ok rule) ∧ rules = read level texts := by
  induction texts generalizing rules with
  | nil => simp [read]
  | cons text texts ih =>
      rw [List.forall₂_cons_left_iff]
      constructor
      · rintro ⟨rule, rest, hrule, hrest, rfl⟩
        obtain ⟨hreads, rfl⟩ := ih.mp hrest
        exact ⟨List.forall_mem_cons.mpr ⟨⟨rule, hrule⟩, hreads⟩, (read_cons hrule).symm⟩
      · rintro ⟨hreads, rfl⟩
        obtain ⟨⟨rule, hrule⟩, hreads⟩ := List.forall_mem_cons.mp hreads
        exact ⟨rule, read level texts, hrule, ih.mpr ⟨hreads, rfl⟩, read_cons hrule⟩

/-- Texts that can all be rules of one list: each is read, and no two give the same selector. -/
structure Acceptable (level : Level) (texts : List String) : Prop where
  reads : ∀ text ∈ texts, ∃ rule, parse level text = .ok rule
  apart : texts.Pairwise fun a b => ∀ first second, parse level a = .ok first →
    parse level b = .ok second → first.selector ≠ second.selector

theorem Acceptable.of_perm (h : Acceptable level texts) (hperm : texts.Perm arranged) :
    Acceptable level arranged where
  reads text hmem := h.reads text (hperm.mem_iff.mpr hmem)
  apart := by
    refine hperm.pairwise h.apart fun {a b} hne first second hfirst hsecond => ?_
    exact (hne second first hsecond hfirst).symm

theorem pairwise_read_iff :
    (read level texts).Pairwise (fun a b => a.selector ≠ b.selector) ↔
      texts.Pairwise fun a b => ∀ first second, parse level a = .ok first →
        parse level b = .ok second → first.selector ≠ second.selector := by
  rw [read, List.pairwise_filterMap]
  simp only [toOption_parse_eq_some_iff]
  constructor <;> intro h <;> refine h.imp fun hne => ?_
  · exact fun first second hfirst hsecond => hne first hfirst second hsecond
  · exact fun first hfirst second hsecond => hne first second hfirst hsecond

end Rule

namespace RuleBook

variable {book other : RuleBook} {resolveAliases : Bool}
  {parameters types parameters' types' : List String}

/-- Options give a book exactly when each of the two lists is acceptable, and the book has the rules
that they give. -/
theorem ofOptions_eq_ok_iff :
    ofOptions resolveAliases parameters types = .ok book ↔
      Rule.Acceptable .parameter parameters ∧ Rule.Acceptable .type types ∧
        book = { resolveAliases
                 parameterRules := Rule.read .parameter parameters
                 typeRules := Rule.read .type types } := by
  rw [ofOptions, bind_eq_ok_iff]
  constructor
  · rintro ⟨middle, hmiddle, hbook⟩
    obtain ⟨_, hread, hapart, -, rfl⟩ := addAll_eq_ok_iff.mp hmiddle
    obtain ⟨hparameters, rfl⟩ := Rule.forall₂_parse_iff.mp hread
    obtain ⟨_, hread', hapart', -, rfl⟩ := addAll_eq_ok_iff.mp hbook
    obtain ⟨htypes, rfl⟩ := Rule.forall₂_parse_iff.mp hread'
    exact ⟨⟨hparameters, Rule.pairwise_read_iff.mp hapart⟩,
      ⟨htypes, Rule.pairwise_read_iff.mp hapart'⟩, rfl⟩
  · rintro ⟨hparameters, htypes, rfl⟩
    refine ⟨extend { resolveAliases } .parameter (Rule.read .parameter parameters), ?_, ?_⟩
    · refine addAll_eq_ok_iff.mpr ⟨_, Rule.forall₂_parse_iff.mpr ⟨hparameters.reads, rfl⟩,
        Rule.pairwise_read_iff.mpr hparameters.apart, ?_, rfl⟩
      simp [rules]
    · refine addAll_eq_ok_iff.mpr ⟨_, Rule.forall₂_parse_iff.mpr ⟨htypes.reads, rfl⟩,
        Rule.pairwise_read_iff.mpr htypes.apart, ?_, rfl⟩
      simp [extend, rules]

theorem exists_ofOptions_iff :
    (∃ book, ofOptions resolveAliases parameters types = .ok book) ↔
      Rule.Acceptable .parameter parameters ∧ Rule.Acceptable .type types := by
  simp only [ofOptions_eq_ok_iff, exists_and_left, exists_eq, and_true]

/-- Books with the same rules, in whatever order, in which no two rules of a list have the same
selector. -/
structure Rearranges (book other : RuleBook) : Prop where
  perm : ∀ level, (book.rules level).Perm (other.rules level)
  apart : ∀ level, (book.rules level).Pairwise fun a b => a.selector ≠ b.selector

theorem rearranges_of_perm (hparameters : parameters.Perm parameters') (htypes : types.Perm types')
    (hbook : ofOptions resolveAliases parameters types = .ok book)
    (hother : ofOptions resolveAliases parameters' types' = .ok other) : book.Rearranges other := by
  obtain ⟨hparametersOk, htypesOk, rfl⟩ := ofOptions_eq_ok_iff.mp hbook
  obtain ⟨-, -, rfl⟩ := ofOptions_eq_ok_iff.mp hother
  constructor <;> intro level <;> cases level
  · exact hparameters.filterMap _
  · exact htypes.filterMap _
  · exact Rule.pairwise_read_iff.mpr hparametersOk.apart
  · exact Rule.pairwise_read_iff.mpr htypesOk.apart

/-! ## Scans with one answer -/

section Scan

variable {rules arranged : List Rule} {p : Rule → Bool} {selector : Selector} {rule : Rule}

/-- Where at most one rule fits, a scan finds it wherever it stands. -/
theorem scan_eq_some_iff_of_unique
    (hunique : ∀ a ∈ rules, ∀ b ∈ rules, p a = true → p b = true → a = b) :
    rules.find? p = some rule ↔ rule ∈ rules ∧ p rule = true := by
  constructor
  · exact fun h => ⟨List.mem_of_find?_eq_some h, List.find?_some h⟩
  · rintro ⟨hmem, hp⟩
    obtain ⟨found, hfound⟩ := Option.isSome_iff_exists.mp (List.find?_isSome.mpr ⟨rule, hmem, hp⟩)
    rw [hfound, hunique found (List.mem_of_find?_eq_some hfound) rule hmem
      (List.find?_some hfound) hp]

theorem scan_eq_of_perm (hperm : rules.Perm arranged)
    (hunique : ∀ a ∈ rules, ∀ b ∈ rules, p a = true → p b = true → a = b) :
    rules.find? p = arranged.find? p := by
  have hunique' : ∀ a ∈ arranged, ∀ b ∈ arranged, p a = true → p b = true → a = b :=
    fun a ha b hb => hunique a (hperm.mem_iff.mpr ha) b (hperm.mem_iff.mpr hb)
  ext rule
  rw [scan_eq_some_iff_of_unique hunique, scan_eq_some_iff_of_unique hunique', hperm.mem_iff]

theorem eq_of_selector_eq (hapart : rules.Pairwise fun a b => a.selector ≠ b.selector)
    {a b : Rule} (ha : a ∈ rules) (hb : b ∈ rules) (hsame : a.selector = b.selector) : a = b :=
  List.inj_on_of_nodup_map (List.pairwise_map.mpr hapart) ha hb hsame

theorem unique_of_apart (hapart : rules.Pairwise fun a b => a.selector ≠ b.selector)
    (selector : Selector) :
    ∀ a ∈ rules, ∀ b ∈ rules, decide (a.selector = selector) = true →
      decide (b.selector = selector) = true → a = b := by
  intro a ha b hb hsame hsame'
  exact eq_of_selector_eq hapart ha hb
    ((of_decide_eq_true hsame).trans (of_decide_eq_true hsame').symm)

theorem find?_selector_eq_some_iff (hapart : rules.Pairwise fun a b => a.selector ≠ b.selector) :
    find? rules selector = some rule ↔ rule ∈ rules ∧ rule.selector = selector := by
  rw [find?, scan_eq_some_iff_of_unique (unique_of_apart hapart selector), decide_eq_true_iff]

theorem find?_selector_eq_none_iff :
    find? rules selector = none ↔ ∀ rule ∈ rules, rule.selector ≠ selector := by
  simp [find?]

end Scan

/-! ## Look-ups in rearranged books -/

/-- How rules for parameters and return values are found: by their selectors, the one for a
parameter of a function before the one for its name. -/
structure FindsBySelector (book : RuleBook) : Prop where
  parameterRule?_eq_some_iff : ∀ function name rule,
    book.parameterRule? function name = some rule ↔
      rule ∈ book.parameterRules ∧ (rule.selector = .functionParameter function name ∨
        rule.selector = .parameterName name ∧
          ∀ specific ∈ book.parameterRules, specific.selector ≠ .functionParameter function name)
  resultRule?_eq_some_iff : ∀ function rule,
    book.resultRule? function = some rule ↔
      rule ∈ book.parameterRules ∧ rule.selector = .functionResult function

/-- How far the look-ups of two books agree. -/
structure LooksUpAlike (book other : RuleBook) : Prop where
  parameterRule?_eq : ∀ function name,
    book.parameterRule? function name = other.parameterRule? function name
  resultRule?_eq : ∀ function, book.resultRule? function = other.resultRule? function
  /-- A type that at most one rule names. -/
  typeRule?_eq : ∀ type role,
    (∀ a ∈ book.typeRules, ∀ b ∈ book.typeRules,
      a.namesType type role = true → b.namesType type role = true → a = b) →
    book.typeRule? type role = other.typeRule? type role
  /-- Where the order is visible, one rule is for the written name and another one is for the name
  without its tag word. -/
  tagged_of_ne : ∀ type role, book.typeRule? type role ≠ other.typeRule? type role →
    normalised type.written.name ≠ normalised type.bareName ∧
      (∃ a ∈ book.typeRules, a.selector = .typeName role (normalised type.written.name)) ∧
      ∃ b ∈ book.typeRules, b.selector = .typeName role (normalised type.bareName)

theorem findsBySelector (hapart : book.parameterRules.Pairwise fun a b => a.selector ≠ b.selector) :
    book.FindsBySelector where
  parameterRule?_eq_some_iff function name rule := by
    rw [parameterRule?_eq, Option.or_eq_some_iff, find?_selector_eq_some_iff hapart,
      find?_selector_eq_some_iff hapart, find?_selector_eq_none_iff]
    tauto
  resultRule?_eq_some_iff function rule := find?_selector_eq_some_iff hapart

namespace Rearranges

variable (h : book.Rearranges other)
include h

theorem find?_eq (level : Level) (selector : Selector) :
    find? (book.rules level) selector = find? (other.rules level) selector :=
  scan_eq_of_perm (h.perm level) (unique_of_apart (h.apart level) selector)

theorem typeRule?_eq {type : CType} {role : Role}
    (hunique : ∀ a ∈ book.typeRules, ∀ b ∈ book.typeRules,
      a.namesType type role = true → b.namesType type role = true → a = b) :
    book.typeRule? type role = other.typeRule? type role := by
  have hspelling := h.find?_eq .type (.typeSpelling role (normalised type.spelling))
  have hname := scan_eq_of_perm (h.perm .type) hunique
  simp only [rules] at hspelling hname
  rw [RuleBook.typeRule?_eq, RuleBook.typeRule?_eq, hspelling, hname]

/-- Two rules that name a type have different selectors, so they name it in its two ways. -/
theorem tagged_of_ne {type : CType} {role : Role}
    (hne : book.typeRule? type role ≠ other.typeRule? type role) :
    normalised type.written.name ≠ normalised type.bareName ∧
      (∃ a ∈ book.typeRules, a.selector = .typeName role (normalised type.written.name)) ∧
      ∃ b ∈ book.typeRules, b.selector = .typeName role (normalised type.bareName) := by
  have hmany := mt h.typeRule?_eq hne
  push Not at hmany
  obtain ⟨a, ha, b, hb, hnames, hnames', hdifferent⟩ := hmany
  have hselectors : a.selector ≠ b.selector := fun hsame =>
    hdifferent (eq_of_selector_eq (h.apart .type) ha hb hsame)
  simp only [Rule.namesType, Bool.or_eq_true, decide_eq_true_eq] at hnames hnames'
  -- Two rules for one of the names would have the same selector.
  rcases hnames with hwritten | hbare <;> rcases hnames' with hwritten' | hbare'
  · exact absurd (hwritten.trans hwritten'.symm) hselectors
  · refine ⟨fun hsame => hselectors ?_, ⟨a, ha, hwritten⟩, ⟨b, hb, hbare'⟩⟩
    rw [hwritten, hbare', hsame]
  · refine ⟨fun hsame => hselectors ?_, ⟨b, hb, hwritten'⟩, ⟨a, ha, hbare⟩⟩
    rw [hbare, hwritten', hsame]
  · exact absurd (hbare.trans hbare'.symm) hselectors

theorem looksUpAlike : book.LooksUpAlike other where
  parameterRule?_eq function name := by
    have hspecific := h.find?_eq .parameter (.functionParameter function name)
    have hname := h.find?_eq .parameter (.parameterName name)
    simp only [rules] at hspecific hname
    rw [RuleBook.parameterRule?_eq, RuleBook.parameterRule?_eq, hspecific, hname]
  resultRule?_eq function := h.find?_eq .parameter (.functionResult function)
  typeRule?_eq _ _ := h.typeRule?_eq
  tagged_of_ne _ _ := h.tagged_of_ne

end Rearranges

/-- The order of options does not matter. Rearranged options are accepted or refused alike, and the
books that they give look up the same rules, but for a type that one rule names with its tag word
and another one without. -/
theorem looksUpAlike_of_perm (hparameters : parameters.Perm parameters')
    (htypes : types.Perm types') (resolveAliases : Bool) :
    ((∃ book, ofOptions resolveAliases parameters types = .ok book) ↔
      Rule.Acceptable .parameter parameters ∧ Rule.Acceptable .type types) ∧
    ((∃ book, ofOptions resolveAliases parameters types = .ok book) ↔
      ∃ book, ofOptions resolveAliases parameters' types' = .ok book) ∧
    ∀ book other, ofOptions resolveAliases parameters types = .ok book →
      ofOptions resolveAliases parameters' types' = .ok other →
        book.FindsBySelector ∧ book.LooksUpAlike other := by
  refine ⟨exists_ofOptions_iff, ?_, fun book other hbook hother => ?_⟩
  · rw [exists_ofOptions_iff, exists_ofOptions_iff]
    exact and_congr ⟨fun h => h.of_perm hparameters, fun h => h.of_perm hparameters.symm⟩
      ⟨fun h => h.of_perm htypes, fun h => h.of_perm htypes.symm⟩
  · have hrearranges := rearranges_of_perm hparameters htypes hbook hother
    exact ⟨findsBySelector (hrearranges.apart .parameter), hrearranges.looksUpAlike⟩

/-- Rearranged options of which two name one type, with its tag word and without. All other look-ups
agree, and for that type the first of the two rules is found. -/
theorem looksUpAlike_of_tagged_pair :
    let tagged := CType.record "struct P"
    ∃ book other,
      ofOptions false ["#a=Int", "f#a=Skip"] ["#struct P=Object(Tag)", "#P=Skip"] = .ok book ∧
      ofOptions false ["f#a=Skip", "#a=Int"] ["#P=Skip", "#struct P=Object(Tag)"] = .ok other ∧
      book.LooksUpAlike other ∧
      book.typeRule? (.record "P") .parameter = other.typeRule? (.record "P") .parameter ∧
      book.typeRule? tagged .parameter ≠ other.typeRule? tagged .parameter := by
  intro tagged
  obtain ⟨-, halike, hagree⟩ :=
    looksUpAlike_of_perm (List.Perm.swap "f#a=Skip" "#a=Int" [])
      (List.Perm.swap "#P=Skip" "#struct P=Object(Tag)" []) false
  have hbook : ∃ book,
      ofOptions false ["#a=Int", "f#a=Skip"] ["#struct P=Object(Tag)", "#P=Skip"] = .ok book :=
    ⟨_, rfl⟩
  obtain ⟨other, hother⟩ := halike.mp hbook
  obtain ⟨book, hbook⟩ := hbook
  have hlooks := (hagree book other hbook hother).2
  refine ⟨book, other, hbook, hother, hlooks, hlooks.typeRule?_eq _ _ ?_, ?_⟩
  · cases hbook
    decide
  · cases hbook
    cases hother
    decide

end RuleBook

end Understudy
