import Understudy.Proofs.Rule.Reading

/-! # Printed rules are read back

Printing leaves out the blanks that a rule's text may have and nothing else, so by the grammar a
printed rule writes the rule that it was printed from. The law is shown part by part, each from the
way in which the part was first written. The printed rules of a book, added in order to an empty
one, therefore give the same book: their selectors are as distinct as they were.
-/

namespace Understudy

theorem Text.IsWord.isTrimmed {text : List Char} (h : Text.IsWord text) : Text.IsTrimmed text where
  head _ hc := Text.isBlank_eq_false_of_isWordChar (h _ (List.mem_of_head? hc))
  last _ hc := Text.isBlank_eq_false_of_isWordChar (h _ (List.mem_of_getLast? hc))

/-- Blanks are no parentheses. -/
theorem Text.Balanced.trim {text : List Char} (h : Text.Balanced text) :
    Text.Balanced (Text.trim text) := by
  obtain ⟨before, after, hbefore, hafter, hsplit⟩ := Text.exists_eq_append_trim text
  have hopen {gap : List Char} (hgap : Text.IsGap gap) : gap.count '(' = 0 :=
    List.count_eq_zero.mpr (hgap.notMem (by decide))
  have hclose {gap : List Char} (hgap : Text.IsGap gap) : gap.count ')' = 0 :=
    List.count_eq_zero.mpr (hgap.notMem (by decide))
  constructor
  · rintro start ⟨rest, hstart⟩
    -- With the blanks in front of it, a start of the trimmed text is one of the text.
    have hlonger := h.closed_le (before ++ start) ⟨rest ++ after, by
      rw [List.append_assoc, ← List.append_assoc start, hstart, ← List.append_assoc, ← hsplit]⟩
    rwa [List.count_append, List.count_append, hopen hbefore, hclose hbefore, Nat.zero_add,
      Nat.zero_add] at hlonger
  · have hall := h.closed_eq
    rw [hsplit] at hall
    simpa only [List.count_append, hopen hbefore, hopen hafter, hclose hbefore, hclose hafter,
      Nat.zero_add, Nat.add_zero] using hall

/-! ## Keys -/

namespace Selector

variable {level : Level} {key : List Char} {selector : Selector}

/-- A trimmed key ends as the name that stands at its end. -/
theorem getLast?_trim_of_isTrimmed {front name : List Char}
    (htrimmed : Text.IsTrimmed (front ++ '#' :: name)) (hname : Text.HasContent name) :
    (Text.trim name).getLast? = name.getLast? := by
  obtain ⟨before, after, -, hafter, hsplit⟩ := Text.exists_eq_append_trim name
  have hnil : after = [] := by
    -- A blank at the end of the name would be one at the end of the key.
    by_contra hne
    have hlast := List.getLast?_eq_some_getLast hne
    have hblank := hafter _ (List.getLast_mem hne)
    rw [hsplit] at htrimmed
    have hkept := htrimmed.last (after.getLast hne) (by
      simp [List.getLast?_append, List.getLast?_cons, hlast])
    rw [hblank] at hkept
    cases hkept
  rw [hnil, List.append_nil] at hsplit
  obtain ⟨c, hc⟩ := Option.ne_none_iff_exists'.mp
    (mt List.getLast?_eq_none_iff.mp (Text.trim_ne_nil_iff.mpr hname))
  conv_rhs => rw [hsplit]
  rw [List.getLast?_append, hc, Option.some_or]

/-- The printed form of a selector is a key of it. With blanks at the end of the key, trimming a
parameter could uncover an `@`. -/
theorem Written.render (h : Written level key selector) (htrimmed : Text.IsTrimmed key) :
    Written level selector.render.toList selector := by
  cases h with
  | @functionResult function hfunction hmark =>
      have hwritten := Written.functionResult hfunction.trim (mt Text.mem_of_mem_trim hmark)
      rw [Text.trim_trim] at hwritten
      simpa [Selector.render] using hwritten
  | @functionParameter function parameter hfunction hmark hparameter hlast =>
      rw [← getLast?_trim_of_isTrimmed htrimmed hparameter] at hlast
      have hwritten := Written.functionParameter hfunction.trim (mt Text.mem_of_mem_trim hmark)
        hparameter.trim hlast
      rw [Text.trim_trim, Text.trim_trim] at hwritten
      simpa [Selector.render] using hwritten
  | @parameterName gap parameter hgap hparameter hlast =>
      rw [← getLast?_trim_of_isTrimmed htrimmed hparameter] at hlast
      have hempty : Text.IsGap [] := by simp [Text.IsGap]
      have hwritten := Written.parameterName hempty hparameter.trim hlast
      rw [Text.trim_trim] at hwritten
      simpa [Selector.render] using hwritten
  | @typeSpelling role type htype hshows =>
      rw [← Text.normalise_normalise] at hshows
      have hwritten := @Written.typeSpelling role _ htype.normalise hshows
      rw [Text.normalise_normalise] at hwritten
      simpa [Selector.render] using hwritten
  | @typeName role type htype hshows =>
      rw [← Text.normalise_normalise] at hshows
      have hwritten := @Written.typeName role _ htype.normalise hshows
      rw [Text.normalise_normalise] at hwritten
      simpa [Selector.render] using hwritten

theorem isTrimmed_sigil (role : Role) : Text.IsTrimmed role.sigil.toList := by
  cases role <;> exact .singleton (by decide)

theorem Written.isTrimmed_render (h : Written level key selector) :
    Text.IsTrimmed selector.render.toList := by
  cases h with
  | @functionResult function =>
      have htrimmed := (Text.isTrimmed_trim function).append (.singleton (c := '@') (by decide))
      simpa [Selector.render] using htrimmed
  | @functionParameter function parameter =>
      have htrimmed := (Text.isTrimmed_trim function).append
        ((Text.isTrimmed_trim parameter).cons (c := '#') (by decide))
      simpa [Selector.render] using htrimmed
  | @parameterName gap parameter =>
      have htrimmed := (Text.isTrimmed_trim parameter).cons (c := '#') (by decide)
      simpa [Selector.render] using htrimmed
  | @typeSpelling role type | @typeName role type =>
      have htrimmed := (isTrimmed_sigil role).append (Text.isTrimmed_normalise type)
      simpa [Selector.render] using htrimmed

theorem Written.notMem_render (h : Written level key selector) (hkey : '=' ∉ key) :
    '=' ∉ selector.render.toList := by
  have htrim {text : List Char} (htext : '=' ∉ text) : '=' ∉ Text.trim text :=
    mt Text.mem_of_mem_trim htext
  have hnormalise {text : List Char} (htext : '=' ∉ text) : '=' ∉ Text.normalise text :=
    mt (Text.mem_normalise_iff (by decide)).mp htext
  cases h with
  | functionResult | functionParameter | parameterName =>
      simp only [List.mem_append, List.mem_cons, not_or] at hkey
      simp [Selector.render, htrim, hkey]
  | typeSpelling | typeName =>
      simp only [List.mem_append, not_or] at hkey
      simp [Selector.render, hnormalise, hkey]

end Selector

/-! ## Values -/

namespace Treatment

variable {role : Role} {token argument : List Char} {argument? : Option (List Char)}
  {treatment : Treatment}

/-- An argument in its parentheses, without blanks around them. -/
def enclosed : Option (List Char) → List Char
  | none => []
  | some argument => '(' :: (argument ++ [')'])

/-- A kind is shown by its word and its argument. -/
theorem Named.render_eq (h : Named role token argument? treatment) :
    treatment.render.toList = token ++ enclosed argument? := by
  cases h with
  | scalar => simp [Treatment.render, enclosed]
  | output | skip => rfl
  | memoryBuffer | object => simp [Treatment.render, enclosed]

theorem ArgumentWritten.enclosed (h : ArgumentWritten argument argument?) :
    ArgumentWritten (enclosed argument?) argument? := by
  cases h with
  | absent => exact .absent (by simp [Text.IsGap, Treatment.enclosed])
  | present _ hbalanced hargument _ =>
      have hempty : Text.IsGap [] := by simp [Text.IsGap]
      have hwritten := ArgumentWritten.present hempty hbalanced.trim hargument.trim hempty
      rwa [Text.trim_trim] at hwritten

theorem ArgumentWritten.isTrimmed_enclosed (h : ArgumentWritten argument argument?) :
    Text.IsTrimmed (Treatment.enclosed argument?) := by
  cases h with
  | absent => exact .nil
  | present =>
      exact .cons (by decide) ((Text.isTrimmed_trim _).append (.singleton (by decide)))

end Treatment

namespace Modifier

variable {text : List Char} {modifier : Modifier}

theorem Written.render (h : Written text modifier) :
    Written modifier.render.toList modifier := by
  obtain ⟨hfront, hback⟩ := h
  have hwritten := Written.intro (mt Text.mem_of_mem_trim hfront) (mt Text.mem_of_mem_trim hback)
  rw [Text.trim_trim, Text.trim_trim] at hwritten
  simpa [Modifier.render, Modifier.apply] using hwritten

theorem Written.isTrimmed_render (h : Written text modifier) :
    Text.IsTrimmed modifier.render.toList := by
  obtain @⟨front, back, -, -⟩ := h
  have htrimmed := (Text.isTrimmed_trim front).append
    ((Text.isTrimmed_trim back).cons (c := '$') (by decide))
  simpa [Modifier.render, Modifier.apply] using htrimmed

end Modifier

namespace Rule

variable {level : Level} {text : String} {rule : Rule} {role : Role} {value : List Char}
  {treatment : Treatment} {modifier? : Option Modifier}

/-- A value as a rule shows it. -/
def shownValue (treatment : Treatment) (modifier? : Option Modifier) : List Char :=
  treatment.render.toList ++
    ValueParts.slashed (modifier?.map fun modifier => modifier.render.toList)

theorem ValueWritten.render (h : ValueWritten role value treatment modifier?) :
    ValueWritten role (shownValue treatment modifier?) treatment modifier? := by
  unfold shownValue
  cases h with
  | plain hnamed hargument =>
      rw [hnamed.render_eq, Option.map_none, ValueParts.slashed, List.append_nil]
      exact .plain hnamed hargument.enclosed
  | modified hnamed hargument hmodifier =>
      rw [hnamed.render_eq, Option.map_some, ValueParts.slashed, List.append_assoc]
      exact .modified hnamed hargument.enclosed hmodifier.render

theorem ValueWritten.isTrimmed_render (h : ValueWritten role value treatment modifier?) :
    Text.IsTrimmed (shownValue treatment modifier?) := by
  unfold shownValue
  cases h with
  | plain hnamed hargument =>
      rw [hnamed.render_eq]
      exact (hnamed.isWord.isTrimmed.append hargument.isTrimmed_enclosed).append .nil
  | modified hnamed hargument hmodifier =>
      rw [hnamed.render_eq]
      exact (hnamed.isWord.isTrimmed.append hargument.isTrimmed_enclosed).append
        (hmodifier.isTrimmed_render.cons (by decide))

/-- A key and a kind that takes no argument are read as the rule that they write. -/
theorem parse_of_kind {key token : List Char} (htext : text.toList = key ++ '=' :: token)
    (hkey : '=' ∉ key) (hselector : Selector.Written level (Text.trim key) rule.selector)
    (hkind : Treatment.Named rule.selector.role token none rule.treatment)
    (hmodifier : rule.modifier? = none) : parse level text = .ok rule := by
  have hnogap : Text.IsGap [] := by simp [Text.IsGap]
  apply parse_eq_ok_iff_written.mpr
  refine .intro htext hkey hselector ?_
  rw [hkind.isWord.isTrimmed.trim_eq, hmodifier, ← List.append_nil token]
  exact .plain hkind (.absent hnogap)

theorem toList_render (rule : Rule) :
    rule.render.toList =
      rule.selector.render.toList ++ '=' :: shownValue rule.treatment rule.modifier? := by
  obtain ⟨selector, treatment, modifier?⟩ := rule
  cases modifier? <;> simp [Rule.render, shownValue, ValueParts.slashed]

/-- A rule's printed form writes the rule. -/
theorem Written.render (h : Written level text rule) : Written level rule.render rule := by
  obtain ⟨-, hkey, hselector, hvalue⟩ := h
  refine .intro rule.toList_render (hselector.notMem_render (mt Text.mem_of_mem_trim hkey)) ?_ ?_
  · rw [hselector.isTrimmed_render.trim_eq]
    exact hselector.render (Text.isTrimmed_trim _)
  · rw [hvalue.isTrimmed_render.trim_eq]
    exact hvalue.render

theorem parse_render (h : parse level text = .ok rule) : parse level rule.render = .ok rule :=
  parse_eq_ok_iff_written.mpr (parse_eq_ok_iff_written.mp h).render

end Rule

/-! ## Rule books -/

namespace RuleBook

variable {book next : RuleBook} {level : Level} {rules : List Rule}

/-- The rule books that adding rule texts leads to, in any order of the two levels. -/
inductive Reachable : RuleBook → Prop
  | empty (resolveAliases : Bool) : Reachable { resolveAliases }
  | add {book next : RuleBook} {level : Level} {text : String} (hbook : Reachable book)
      (hnext : book.add level text = .ok next) : Reachable next

/-- A book whose rules can be printed and read back in order. -/
structure Printable (book : RuleBook) : Prop where
  reads : ∀ level, ∀ rule ∈ book.rules level, Rule.parse level rule.render = .ok rule
  distinct : ∀ level, (book.rules level).Pairwise fun a b => a.selector ≠ b.selector

theorem Printable.add {text : String} (h : Printable book)
    (hnext : book.add level text = .ok next) : Printable next := by
  obtain ⟨rule, hparse, hfree, rfl⟩ := add_eq_ok_iff.mp hnext
  constructor
  · intro other earlier hmem
    rcases mem_rules_append.mp hmem with hmem | ⟨rfl, rfl⟩
    · exact h.reads other earlier hmem
    · exact Rule.parse_render hparse
  · intro other
    rw [rules_append]
    split
    next hsame =>
      subst hsame
      refine List.pairwise_append.mpr ⟨h.distinct other, List.pairwise_singleton _ _, ?_⟩
      intro earlier hmem last hlast
      rw [List.mem_singleton.mp hlast]
      exact hfree earlier hmem
    next => exact h.distinct other

theorem Reachable.printable (h : Reachable book) : Printable book := by
  induction h with
  | empty resolveAliases =>
      constructor
      · intro level rule hmem
        cases level <;> cases hmem
      · intro level
        cases level <;> exact .nil
  | add _ hnext ih => exact ih.add hnext

/-- Printed rules add the rules that they were printed from. -/
theorem addAll_render (hreads : ∀ rule ∈ rules, Rule.parse level rule.render = .ok rule)
    (hdistinct : (book.rules level ++ rules).Pairwise fun a b => a.selector ≠ b.selector) :
    book.addAll level (rules.map Rule.render) = .ok (book.extend level rules) := by
  obtain ⟨-, hapart, hfresh⟩ := List.pairwise_append.mp hdistinct
  refine addAll_eq_ok_iff.mpr ⟨rules, ?_, hapart, hfresh, rfl⟩
  exact List.forall₂_map_left_iff.mpr (List.forall₂_same.mpr hreads)

/-- The printed rules of a book give the book. -/
theorem Printable.ofOptions_render (h : Printable book) :
    ofOptions book.resolveAliases (book.parameterRules.map Rule.render)
      (book.typeRules.map Rule.render) = .ok book := by
  have hparameters : addAll { resolveAliases := book.resolveAliases } .parameter
      (book.parameterRules.map Rule.render) =
        .ok { resolveAliases := book.resolveAliases, parameterRules := book.parameterRules } :=
    addAll_render (h.reads .parameter) (h.distinct .parameter)
  have htypes : addAll
      { resolveAliases := book.resolveAliases, parameterRules := book.parameterRules } .type
      (book.typeRules.map Rule.render) = .ok book :=
    addAll_render (h.reads .type) (h.distinct .type)
  exact bind_eq_ok_iff.mpr ⟨_, hparameters, htypes⟩

/-- Whatever rule a text gives, the printed form of the rule gives it again, and whatever rules were
added to a book in whatever order, their printed forms give the same book. -/
theorem read_back_from_render :
    (∀ level text rule, Rule.parse level text = .ok rule →
      Rule.parse level rule.render = .ok rule) ∧
    ∀ book, Reachable book →
      ofOptions book.resolveAliases (book.parameterRules.map Rule.render)
        (book.typeRules.map Rule.render) = .ok book :=
  ⟨fun _ _ _ => Rule.parse_render, fun _ hbook => hbook.printable.ofOptions_render⟩

theorem read_back_from_render_of_nested_argument :
    let rule : Rule :=
      { selector := .functionParameter "ns::f" "x"
        treatment := .memoryBuffer "g($ / (2))"
        modifier? := some { front := "&(", back := ")" } }
    Rule.parse .parameter " ns::f # x = MemoryBuffer ( g($ / (2)) ) / &( $ ) " = .ok rule ∧
      Rule.parse .parameter "ns::f#x=MemoryBuffer(g($ / (2)))/&($)" = .ok rule ∧
      Reachable { parameterRules := [rule] } ∧
      ofOptions false ["ns::f#x=MemoryBuffer(g($ / (2)))/&($)"] [] =
        .ok { parameterRules := [rule] } := by
  intro rule
  have hparse : Rule.parse .parameter " ns::f # x = MemoryBuffer ( g($ / (2)) ) / &( $ ) " =
      .ok rule := by
    decide
  have hbook : Reachable { parameterRules := [rule] } :=
    .add (.empty false) (add_eq_ok_iff.mpr ⟨rule, hparse, by simp [rules], rfl⟩)
  exact ⟨hparse, read_back_from_render.1 _ _ _ hparse, hbook, read_back_from_render.2 _ hbook⟩

end RuleBook

end Understudy
