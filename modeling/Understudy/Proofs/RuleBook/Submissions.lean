import Understudy.Proofs.RuleBook.Reachable
import Understudy.Proofs.Rule.WellFormed

/-! # Rule books grow by accepted texts

A rule book is built by submitting texts to it, at either level and in any order, and a refused text
does not end the work. A text is either read as a rule with a free selector and then put at the end
of its list, or it is refused and the book stays as it is. So the lists hold the accepted rules in
the order in which they came, and what each acceptance has checked holds of every book on the way.
-/

namespace Understudy

structure Submission where
  level : Level
  text : String
  deriving DecidableEq, Repr

/-- How a submission is answered. -/
abbrev Answer := Except OptionError Unit

namespace RuleBook

/-- Submits a text to the book at hand. It is read first, then its selector is looked for, and then
the rule is put at the end of its list. -/
def submit (s : Submission) : StateM RuleBook Answer := do
  match Rule.parse s.level s.text with
  | .error defect => return .error { option := s.text, defect }
  | .ok rule =>
    if ((← get).rules s.level).any fun earlier => earlier.selector = rule.selector then
      return .error { option := s.text, defect := .duplicate }
    modify fun book => book.append s.level rule
    return .ok ()

/-- Submits texts one after the other, and notes the answers. -/
def submitAll (submissions : List Submission) : StateM RuleBook (List (Submission × Answer)) :=
  submissions.mapM fun s => do return (s, ← submit s)

variable {book next : RuleBook} {s : Submission} {answer : Answer}

/-- A submission adds the rule of its text, and where there is no such book it keeps the old one. -/
theorem submit_eq :
    submit s book =
      match book.add s.level s.text with
      | .ok next => (.ok (), next)
      | .error error => (.error error, book) := by
  unfold submit add
  cases Rule.parse s.level s.text with
  | error defect => rfl
  | ok rule =>
      -- Asking for the book at hand gives the book that the run started with.
      change (if (book.rules s.level).any (fun earlier => earlier.selector = rule.selector) then _
        else _ : StateM RuleBook Answer) book = _
      by_cases htaken : (book.rules s.level).any fun earlier => earlier.selector = rule.selector
      · rw [if_pos htaken]
        simp only [htaken, if_true]
        rfl
      · rw [if_neg htaken]
        simp only [htaken, if_false, Bool.false_eq_true]
        rfl

/-! ## One submission -/

/-- What a submission to a book can do. -/
inductive Step (book : RuleBook) (s : Submission) : Answer → RuleBook → Prop where
  /-- The text has a defect of its own. -/
  | unread {defect : Defect} (hread : Rule.parse s.level s.text = .error defect)
      (hdefect : defect ≠ .duplicate) : Step book s (.error { option := s.text, defect }) book
  /-- The text is read, but an earlier rule of its list has the same selector. -/
  | taken {rule earlier : Rule} (hread : Rule.parse s.level s.text = .ok rule)
      (hearlier : earlier ∈ book.rules s.level) (hsame : earlier.selector = rule.selector) :
      Step book s (.error { option := s.text, defect := .duplicate }) book
  | accepted {rule : Rule} (hread : Rule.parse s.level s.text = .ok rule)
      (hfree : ∀ earlier ∈ book.rules s.level, earlier.selector ≠ rule.selector) :
      Step book s (.ok ()) (book.append s.level rule)

theorem step_submit (s : Submission) (book : RuleBook) :
    book.Step s (submit s book).1 (submit s book).2 := by
  rw [submit_eq, add]
  cases hread : Rule.parse s.level s.text with
  | error defect =>
      refine .unread hread fun hduplicate => ?_
      rw [hduplicate] at hread
      exact Rule.parse_ne_duplicate s.level s.text hread
  | ok rule =>
      by_cases htaken : (book.rules s.level).any fun earlier => earlier.selector = rule.selector
      · obtain ⟨earlier, hearlier, hsame⟩ := List.any_eq_true.mp htaken
        simp only [htaken, if_true]
        exact .taken hread hearlier (of_decide_eq_true hsame)
      · simp only [htaken, if_false, Bool.false_eq_true]
        refine .accepted hread fun earlier hearlier hsame => htaken ?_
        exact List.any_eq_true.mpr ⟨earlier, hearlier, decide_eq_true hsame⟩

theorem Step.submit_eq (h : book.Step s answer next) : submit s book = (answer, next) := by
  rw [RuleBook.submit_eq, add]
  cases h with
  | unread hread => rw [hread]
  | @taken rule earlier hread hearlier hsame =>
      have htaken : ((book.rules s.level).any fun earlier => earlier.selector = rule.selector) =
          true := List.any_eq_true.mpr ⟨earlier, hearlier, decide_eq_true hsame⟩
      simp only [hread, htaken, if_true]
  | accepted hread hfree =>
      have hfree := List.any_eq_false.mpr fun earlier hearlier =>
        decide_eq_true_iff.not.mpr (hfree earlier hearlier)
      simp only [hread, hfree, if_false, Bool.false_eq_true]

/-- A submission does what a step can do, and nothing else. -/
theorem submit_eq_iff : submit s book = (answer, next) ↔ book.Step s answer next := by
  constructor
  · intro h
    have hstep := step_submit s book
    rwa [h] at hstep
  · exact Step.submit_eq

/-- The rule that an answered submission has put into the list of a level. -/
def acceptedRule? (level : Level) : Submission × Answer → Option Rule
  | (s, .ok ()) => if s.level = level then (Rule.parse s.level s.text).toOption else none
  | (_, .error _) => none

theorem Step.rules_eq (h : book.Step s answer next) (level : Level) :
    next.rules level = book.rules level ++ (acceptedRule? level (s, answer)).toList := by
  cases h with
  | unread | taken => exact (List.append_nil _).symm
  | accepted hread =>
      rw [rules_append]
      by_cases hlevel : level = s.level
      · simp [acceptedRule?, hlevel, hread, Except.toOption]
      · simp [acceptedRule?, hlevel, Ne.symm hlevel]

/-- What every acceptance has checked. -/
structure WellFormed (book : RuleBook) : Prop where
  apart : ∀ level, (book.rules level).Pairwise fun a b => a.selector ≠ b.selector
  wellFormed : ∀ level, ∀ rule ∈ book.rules level, rule.WellFormed

theorem wellFormed_empty (resolveAliases : Bool) : ({ resolveAliases } : RuleBook).WellFormed := by
  constructor <;> intro level <;> cases level <;> simp [rules]

theorem Step.wellFormed (h : book.Step s answer next) (hbook : book.WellFormed) :
    next.WellFormed := by
  cases h with
  | unread | taken => exact hbook
  | @accepted rule hread hfree =>
      -- Only the list of the submission's level has a new rule, which is the last.
      constructor <;> intro level <;> rw [rules_append]
      · split
        · rename_i hlevel
          refine List.pairwise_append.mpr ⟨hbook.apart level, List.pairwise_singleton _ _, ?_⟩
          intro earlier hearlier later hlater
          rw [List.mem_singleton.mp hlater]
          exact hfree earlier (hlevel ▸ hearlier)
        · exact hbook.apart level
      · split
        · refine List.forall_mem_append.mpr ⟨hbook.wellFormed level, fun later hlater => ?_⟩
          rw [List.mem_singleton.mp hlater]
          exact Rule.wellFormed_of_parse hread
        · exact hbook.wellFormed level

/-! ## Submissions one after the other -/

section Run

variable {submissions : List Submission}

theorem submitAll_nil : submitAll [] book = ([], book) := rfl

theorem submitAll_cons (rest : List Submission) :
    submitAll (s :: rest) book =
      ((s, (submit s book).1) :: (submitAll rest (submit s book).2).1,
        (submitAll rest (submit s book).2).2) := by
  simp only [submitAll, List.mapM_cons]
  rfl

theorem submitAll_append (submissions more : List Submission) :
    submitAll (submissions ++ more) book =
      ((submitAll submissions book).1 ++ (submitAll more (submitAll submissions book).2).1,
        (submitAll more (submitAll submissions book).2).2) := by
  induction submissions generalizing book with
  | nil => rfl
  | cons s rest ih =>
      rw [List.cons_append, submitAll_cons, submitAll_cons, ih]
      rfl

theorem map_fst_submitAll : (submitAll submissions book).1.map Prod.fst = submissions := by
  induction submissions generalizing book with
  | nil => rfl
  | cons s rest ih =>
      rw [submitAll_cons, List.map_cons, ih]

/-- The lists of a book grow by the rules that are accepted, in their order. -/
theorem rules_submitAll (level : Level) :
    (submitAll submissions book).2.rules level =
      book.rules level ++ (submitAll submissions book).1.filterMap (acceptedRule? level) := by
  induction submissions generalizing book with
  | nil => simp [submitAll_nil]
  | cons s rest ih =>
      rw [submitAll_cons, ih, (step_submit s book).rules_eq, List.append_assoc]
      cases haccepted : acceptedRule? level (s, (submit s book).1) <;> simp [haccepted]

theorem wellFormed_submitAll (hbook : book.WellFormed) :
    (submitAll submissions book).2.WellFormed := by
  induction submissions generalizing book with
  | nil => exact hbook
  | cons s rest ih =>
      rw [submitAll_cons]
      exact ih ((step_submit s book).wellFormed hbook)

/-- A book grows by accepted rules and in no other way. Each submission either leaves it as it is or
puts one rule at the end of one list, so the lists are the accepted rules in their order, none of
them is lost later, and each holds what acceptance has checked. -/
theorem grows_by_accepted_rules (resolveAliases : Bool) (submissions : List Submission) :
    ∃ log book, submitAll submissions { resolveAliases } = (log, book) ∧
      log.map Prod.fst = submissions ∧
      (∀ level, book.rules level = log.filterMap (acceptedRule? level)) ∧
      (∀ more level, book.rules level <+:
        (submitAll (submissions ++ more) { resolveAliases }).2.rules level) ∧
      (∀ s answer next, submit s book = (answer, next) ↔ book.Step s answer next) ∧
      book.WellFormed ∧
      ∀ level, ∀ rule ∈ book.rules level, rule.treatment.length?.isSome = true ↔
        ∃ length, rule.treatment = .memoryBuffer length := by
  refine ⟨(submitAll submissions { resolveAliases }).1, (submitAll submissions { resolveAliases }).2,
    rfl, map_fst_submitAll, fun level => ?_, fun more level => ?_, fun _ _ _ => submit_eq_iff,
    wellFormed_submitAll (wellFormed_empty resolveAliases), ?_⟩
  · rw [rules_submitAll]
    cases level <;> rfl
  · rw [submitAll_append]
    exact ⟨_, (rules_submitAll level).symm⟩
  · intro level rule _
    cases rule.treatment <;> simp [Treatment.length?]

/-- A key may be spelled in several ways, and each level has its own keys. -/
example :
    submitAll [⟨.parameter, "#a=Int"⟩, ⟨.parameter, " # a = Skip"⟩, ⟨.type, "#a=Skip"⟩,
        ⟨.parameter, "a"⟩] {} =
      ([(⟨.parameter, "#a=Int"⟩, .ok ()),
        (⟨.parameter, " # a = Skip"⟩, .error { option := " # a = Skip", defect := .duplicate }),
        (⟨.type, "#a=Skip"⟩, .ok ()),
        (⟨.parameter, "a"⟩, .error { option := "a", defect := .missingSeparator })],
        { parameterRules := [{ selector := .parameterName "a", treatment := .scalar .int }]
          typeRules := [{ selector := .typeName .parameter "a", treatment := .skip }] }) := rfl

/-- Texts are all added exactly when none of them is refused. -/
theorem addAll_eq_ok_iff_submitAll {level : Level} {texts : List String} :
    book.addAll level texts = .ok next ↔
      (submitAll (texts.map (Submission.mk level)) book).2 = next ∧
        ∀ entry ∈ (submitAll (texts.map (Submission.mk level)) book).1, entry.2 = .ok () := by
  induction texts generalizing book with
  | nil =>
      rw [List.map_nil, submitAll_nil]
      constructor
      · intro h
        cases h
        exact ⟨rfl, by simp⟩
      · rintro ⟨rfl, -⟩
        rfl
  | cons text texts ih =>
      simp only [addAll, List.foldlM_cons] at ih ⊢
      rw [bind_eq_ok_iff, List.map_cons, submitAll_cons, submit_eq]
      cases hadd : book.add level text with
      | error error => simp
      | ok middle => simp [ih]

/-- Options give a book exactly when none of them is refused, and then it is what their submissions
leave. -/
theorem ofOptions_eq_ok_iff_submitAll {resolveAliases : Bool} {parameters types : List String} :
    let run := submitAll (parameters.map (Submission.mk .parameter) ++
      types.map (Submission.mk .type)) { resolveAliases }
    ofOptions resolveAliases parameters types = .ok book ↔
      run.2 = book ∧ ∀ entry ∈ run.1, entry.2 = .ok () := by
  intro run
  simp only [run, submitAll_append, List.forall_mem_append]
  rw [ofOptions, bind_eq_ok_iff]
  constructor
  · rintro ⟨middle, hmiddle, hbook⟩
    obtain ⟨rfl, hparameters⟩ := addAll_eq_ok_iff_submitAll.mp hmiddle
    obtain ⟨hbook, htypes⟩ := addAll_eq_ok_iff_submitAll.mp hbook
    exact ⟨hbook, hparameters, htypes⟩
  · rintro ⟨hbook, hparameters, htypes⟩
    exact ⟨_, addAll_eq_ok_iff_submitAll.mpr ⟨rfl, hparameters⟩,
      addAll_eq_ok_iff_submitAll.mpr ⟨hbook, htypes⟩⟩

end Run

end RuleBook

end Understudy
