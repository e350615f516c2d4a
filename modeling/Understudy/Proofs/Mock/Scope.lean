import Understudy.Proofs.Classification.WellFormed
import Understudy.Proofs.Mock.Head
import Understudy.Proofs.Mock.Mentions
import Understudy.Proofs.Mock.Mockable

/-! # Parameters in scope

What the body of a mock mentions should be in scope there. The head names every parameter but those
that a rule leaves out. A modifier or a length that another rule gives may mention such a parameter
all the same.
-/

namespace Understudy

/-! ## Declarations with a name -/

theorem Callback.length_lt_addWord (start : List Char) {word : List Char} (hne : word ≠ []) :
    start.length < (addWord start word).length := by
  have hpos := List.length_pos_iff.mpr hne
  unfold addWord
  split <;> simp only [List.length_append, List.length_cons] <;> omega

theorem Callback.length_declarator_lt (callback : Callback) (w : Written) {name : String}
    (hname : name ≠ "") :
    (callback.declarator w "").length < (callback.declarator w name).length := by
  obtain ⟨start, hdeclarator⟩ : ∃ start, ∀ name, callback.declarator w name =
      (if name.isEmpty then start else addWord start name.toList) ++ w.extentsSpelling.toList :=
    ⟨_, fun _ => rfl⟩
  have hnone : "".isEmpty = true := rfl
  have hempty : ¬ name.isEmpty = true := fun h => hname (String.isEmpty_iff.mp h)
  have hne : name.toList ≠ [] := by simpa using hname
  have hword := length_lt_addWord start hne
  rw [hdeclarator, hdeclarator, if_pos hnone, if_neg hempty, List.length_append,
    List.length_append]
  omega

theorem Written.length_namePart_lt (w : Written) {name : List Char} (hname : name ≠ []) :
    (w.namePart []).length < (w.namePart name).length := by
  have hpos := List.length_pos_iff.mpr hname
  have hbefore : (w.beforeName false).length ≤ (w.beforeName (!name.isEmpty)).length := by
    rw [List.isEmpty_eq_false_iff.mpr hname]
    unfold beforeName
    split <;> simp
  simp only [namePart, List.length_append, List.isEmpty_nil, Bool.not_true, List.length_nil]
  omega

/-- A declaration with a name says more than one without. -/
theorem Written.declare_ne_of_name (w : Written) {name : String} (hname : name ≠ "") :
    w.declare "" ≠ w.declare name := by
  intro h
  have hlength := congrArg (·.toList.length) h
  unfold declare at hlength
  split at hlength
  next callback _ =>
    have hlt := callback.length_declarator_lt w hname
    simp only [Callback.declare, String.toList_ofList, List.length_append] at hlength
    omega
  next =>
    have hne : name.toList ≠ [] := by simpa using hname
    have hlt := w.length_namePart_lt hne
    simp only [toList_declareOrdinary, List.length_append] at hlength
    have hnone : "".toList = [] := rfl
    rw [hnone] at hlength
    omega

/-! ## Parameters that a rule leaves out -/

theorem Treatment.passing_eq_skip_iff {treatment : Treatment} {type : CType} :
    treatment.passing type = .skip ↔ treatment = .skip := by
  cases treatment <;> simp [passing]

namespace RuleBook

variable {book : RuleBook} {function : String} {p : Parameter}

/-- The rule that decides on a parameter: the one for the parameter, or else the one for its type,
if that applies. -/
def decidingRule? (book : RuleBook) (function : String) (p : Parameter) : Option Rule :=
  book.parameterRule? function p.name <|>
    (book.typeRule? (book.lookedUp p.type) .parameter).filter fun rule =>
      (rule.classifyTypedParameter? p.type (book.lookedUp p.type)).isSome

/-- A rule says to leave the parameter out. -/
def LeavesOut (book : RuleBook) (function : String) (p : Parameter) : Prop :=
  ∃ rule ∈ book.decidingRule? function p, rule.treatment = .skip

instance (book : RuleBook) (function : String) (p : Parameter) :
    Decidable (book.LeavesOut function p) :=
  inferInstanceAs (Decidable (∃ rule ∈ book.decidingRule? function p, rule.treatment = .skip))

/-- Where no rule decides, the type does. -/
theorem classifyParameter_of_undecided (h : book.decidingRule? function p = none) :
    book.classifyParameter function p = Classification.ofParameterType p.type := by
  rw [decidingRule?, Option.orElse_eq_orElse, Option.orElse_eq_or, Option.or_eq_none_iff] at h
  obtain ⟨hrule, htyped⟩ := h
  have hdecision : book.typeDecision? .parameter p.type = none := by
    rw [typeDecision?, Option.bind_eq_none_iff]
    intro rule hfound
    have hkept := Option.filter_eq_none_iff.mp htyped rule hfound
    simpa [Rule.classifyTyped?] using hkept
  rw [classifyParameter_of_no_rule hrule, hdecision]
  rfl

/-- What the deciding rule skips is what it leaves out. -/
theorem passing_eq_skip_of_decided {rule : Rule} (h : book.decidingRule? function p = some rule) :
    (book.classifyParameter function p).passing = .skip ↔ rule.treatment = .skip := by
  rw [decidingRule?, Option.orElse_eq_orElse, Option.orElse_eq_or, Option.or_eq_some_iff] at h
  rcases h with hrule | ⟨hrule, htyped⟩
  · rw [classifyParameter, hrule]
    exact Treatment.passing_eq_skip_iff
  · obtain ⟨hfound, happlies⟩ := Option.filter_eq_some_iff.mp htyped
    obtain ⟨c, hgiven⟩ := Option.isSome_iff_exists.mp happlies
    have hdecision : book.typeDecision? .parameter p.type = some c := by
      rw [typeDecision?, hfound]
      exact hgiven
    rw [classifyParameter_of_no_rule hrule, hdecision, Option.getD_some]
    rcases Rule.classifyParameter_of_typed hgiven with rfl | ⟨tag, hobject, rfl⟩
    · exact Treatment.passing_eq_skip_iff
    · simp [hobject]

/-- A supported parameter is skipped only because a rule leaves it out. -/
theorem passing_eq_skip_iff
    (hsupported : (book.classifyParameter function p).isUnsupported = false) :
    (book.classifyParameter function p).passing = .skip ↔ book.LeavesOut function p := by
  cases hdeciding : book.decidingRule? function p with
  | some rule => simp [LeavesOut, hdeciding, passing_eq_skip_of_decided hdeciding]
  | none =>
      have horigin := (Classification.unruled_ofParameterType p.type).origin
      rw [← classifyParameter_of_undecided hdeciding] at horigin
      have hpassing : (book.classifyParameter function p).passing ≠ .skip := fun hskip =>
        absurd (Classification.isUnsupported_iff.mpr ⟨hskip, horigin⟩) (by simp [hsupported])
      simp [LeavesOut, hdeciding, hpassing]

end RuleBook

/-! ## Named parameters -/

/-- The head of the mock lists the parameter as a declaration of the name. -/
def Analysis.Lists (a : Analysis) (p : Parameter) (name : String) : Prop :=
  (p, p.type.declare name) ∈ a.declaration.parameters.zip a.mockParameters

instance (a : Analysis) (p : Parameter) (name : String) : Decidable (a.Lists p name) :=
  inferInstanceAs (Decidable ((p, p.type.declare name) ∈ _))

namespace RuleBook

variable {book : RuleBook} {d : Declaration} {p : Parameter} {name : String}

theorem lists_iff (hp : p ∈ d.parameters) : (book.analyse d).Lists p name ↔
    p.type.declare (Analysis.shownName p (book.classifyParameter d.qualifiedName p)) =
      p.type.declare name := by
  have hzip : (book.analyse d).declaration.parameters.zip (book.analyse d).mockParameters =
      d.parameters.map fun p =>
        (p, p.type.declare (Analysis.shownName p (book.classifyParameter d.qualifiedName p))) := by
    rw [Analysis.mockParameters_eq, analyse, List.map_map]
    exact (List.zip_map_right ..).trans (by simp [List.zip_eq_zipWith])
  rw [Analysis.Lists, hzip, List.mem_map]
  constructor
  · rintro ⟨q, -, hentry⟩
    obtain ⟨rfl, htext⟩ := Prod.mk.inj hentry
    exact htext
  · intro htext
    exact ⟨p, hp, by rw [htext]⟩

/-- A parameter of a mockable declaration stands in the head with its name unless a rule leaves it
out, and then it has none. -/
theorem lists_name_iff (hmockable : (book.analyse d).isMockable = true) (hp : p ∈ d.parameters)
    (hname : p.name ≠ "") :
    ((book.analyse d).Lists p p.name ↔ ¬ book.LeavesOut d.qualifiedName p) ∧
      ((book.analyse d).Lists p "" ↔ book.LeavesOut d.qualifiedName p) := by
  have hsupported := (isMockable_analyse_iff.mp hmockable).2.2 p hp
  have hne := p.type.written.declare_ne_of_name hname
  rw [lists_iff hp, lists_iff hp, ← passing_eq_skip_iff hsupported]
  by_cases hskip : (book.classifyParameter d.qualifiedName p).passing = .skip
  · have hshown : Analysis.shownName p (book.classifyParameter d.qualifiedName p) = "" := by
      rw [Analysis.shownName, hskip]
    rw [hshown]
    exact ⟨iff_of_false hne (not_not_intro hskip), iff_of_true rfl hskip⟩
  · have hshown : Analysis.shownName p (book.classifyParameter d.qualifiedName p) = p.name := by
      unfold Analysis.shownName
      split
      next hpassing => exact absurd hpassing hskip
      next => rfl
    rw [hshown]
    exact ⟨iff_of_true rfl hskip, iff_of_false hne.symm hskip⟩

/-- Each parameter that the body of a mock mentions is named in its head, unless a rule leaves it
out. The body mentions its own words and what the expressions in it say. -/
theorem mentions_named_iff (book : RuleBook) (d : Declaration)
    (hmockable : (book.analyse d).isMockable = true) :
    let a := book.analyse d
    (∀ p ∈ d.parameters, a.Mentions p.name →
      (a.Lists p p.name ↔ ¬ book.LeavesOut d.qualifiedName p) ∧
        (a.Lists p "" ↔ book.LeavesOut d.qualifiedName p)) ∧
    (a.ClosesLiterals → ∀ name, a.Mentions name ↔ name.toList ∈ a.ownWords ∨
      ∃ e ∈ a.expressions, name.toList ∈ Text.identifiers e.toList) := by
  intro a
  refine ⟨fun p hp hmentioned => lists_name_iff hmockable hp ?_, Analysis.mentions_iff⟩
  rintro hnone
  rw [hnone] at hmentioned
  exact Text.ne_nil_of_mem_identifiers hmentioned rfl

/-- A rule gives a length that mentions a named parameter. -/
theorem mentions_named_of_buffer_rule :
    let book : RuleBook :=
      { parameterRules :=
          [{ selector := .functionParameter "f" "data", treatment := .memoryBuffer "len" }] }
    let len : Parameter := ⟨"len", 1, CType.arithmetic .unsignedLong⟩
    let d : Declaration :=
      { qualifiedName := "f", returnType := CType.void
        parameters := [⟨"data", 0, CType.void.withConst.pointer⟩, len] }
    (book.analyse d).ClosesLiterals ∧ (book.analyse d).Mentions "len" ∧
      (book.analyse d).Lists len "len" ∧
      (book.analyse d).mockHead = "void f(const void * data, unsigned long len)" := by
  intro book len d
  obtain ⟨hlists, hmentions⟩ := mentions_named_iff book d (by decide)
  have hlinks : (book.analyse d).mockCall.links =
      [.memoryBuffer "data" "data" "len", .scalar .unsignedLongInt "len" "len"] := by decide
  have hcloses : (book.analyse d).ClosesLiterals :=
    { front := by decide
      back := by decide
      function := by decide
      links := by
        rw [hlinks]
        exact List.forall_mem_cons.mpr
          ⟨⟨by decide, by decide⟩, List.forall_mem_singleton.mpr ⟨by decide, by decide⟩⟩ }
  have hlen : (book.analyse d).Mentions "len" :=
    (hmentions hcloses "len").mpr (.inr ⟨"len", by decide, by decide⟩)
  exact ⟨hcloses, hlen, (hlists len (by decide) hlen).1.mpr (by decide), by decide⟩

/-- A rule gives a length that mentions a parameter which another rule leaves out. -/
theorem mentions_left_out :
    let book : RuleBook :=
      { parameterRules :=
          [{ selector := .functionParameter "f" "data", treatment := .memoryBuffer "len" },
            { selector := .functionParameter "f" "len", treatment := .skip }] }
    let len : Parameter := ⟨"len", 1, CType.arithmetic .unsignedLong⟩
    let d : Declaration :=
      { qualifiedName := "f", returnType := CType.void
        parameters := [⟨"data", 0, CType.void.withConst.pointer⟩, len] }
    ofOptions false ["f#data=MemoryBuffer(len)", "f#len=Skip"] [] = .ok book ∧
      (book.analyse d).isMockable = true ∧ (book.analyse d).Mentions "len" ∧
      ¬ (book.analyse d).Lists len "len" ∧
      (book.analyse d).mockHead = "void f(const void * data, unsigned long)" := by
  intro book len d
  exact ⟨by decide, by decide, by decide +kernel, by decide, by decide⟩

end RuleBook

end Understudy
