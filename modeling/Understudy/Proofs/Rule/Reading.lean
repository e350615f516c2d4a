import Understudy.Proofs.Rule.Parenthesis
import Understudy.Proofs.RuleBook.Reachable

/-! # Rules are read by their grammar

Reading accepts exactly the texts that the grammar gives a rule, and gives that rule. Each part of a
text is read by a function of its own, so the law is proved part by part: the key, the argument up
to the parenthesis that closes it, the kind and the modifier. A text has at most one rule, whatever
its characters are.
-/

namespace Understudy

/-! ## Keys -/

namespace Selector

variable {key function spelling : List Char} {selector : Selector}

theorem showsDeclarator_iff : showsDeclarator spelling = true ↔ ShowsDeclarator spelling := by
  have hconst : "const".toList ∈ Text.words spelling ↔
      Text.ShowsWord "const".toList spelling :=
    Text.mem_words_iff (by decide) (by decide)
  have hvolatile : "volatile".toList ∈ Text.words spelling ↔
      Text.ShowsWord "volatile".toList spelling :=
    Text.mem_words_iff (by decide) (by decide)
  simp only [showsDeclarator, ShowsDeclarator, ← hconst, ← hvolatile, Bool.or_eq_true,
    List.any_eq_true, decide_eq_true_eq]
  constructor
  · rintro (⟨c, hc, (rfl | rfl) | rfl⟩ | ⟨word, hword, rfl | rfl⟩)
    · exact .inl hc
    · exact .inr (.inl hc)
    · exact .inr (.inr (.inl hc))
    · exact .inr (.inr (.inr (.inl hword)))
    · exact .inr (.inr (.inr (.inr hword)))
  · rintro (hc | hc | hc | hword | hword)
    · exact .inl ⟨'*', hc, .inl (.inl rfl)⟩
    · exact .inl ⟨'&', hc, .inl (.inr rfl)⟩
    · exact .inl ⟨'[', hc, .inr rfl⟩
    · exact .inr ⟨_, hword, .inl rfl⟩
    · exact .inr ⟨_, hword, .inr rfl⟩

theorem functionOfResultKey?_eq_some_iff :
    functionOfResultKey? key = some function ↔ key = function ++ ['@'] := by
  unfold functionOfResultKey?
  constructor
  · intro h
    split at h
    next hlast =>
      obtain ⟨before, rfl⟩ := List.getLast?_eq_some_iff.mp hlast
      cases h
      rw [List.dropLast_concat]
    next => cases h
  · rintro rfl
    rw [if_pos List.getLast?_concat, List.dropLast_concat]

theorem functionOfResultKey?_eq_none_iff :
    functionOfResultKey? key = none ↔ key.getLast? ≠ some '@' := by
  unfold functionOfResultKey?
  split
  next hlast => simp [hlast]
  next hlast => simp [hlast]

/-- The mark between function and parameter is no `@`, so a key ends in `@` when its parameter
does. -/
theorem getLast?_key {parameter : List Char} :
    (function ++ '#' :: parameter).getLast? = some '@' ↔ parameter.getLast? = some '@' := by
  rw [List.getLast?_append, List.getLast?_cons, Option.some_or]
  cases parameter.getLast? with
  | none => simp
  | some c => simp

theorem written_of_parseParameterKey (h : parseParameterKey key = .ok selector) :
    Written .parameter key selector := by
  unfold parseParameterKey at h
  cases hresult : functionOfResultKey? key with
  | some function =>
      rw [functionOfResultKey?_eq_some_iff.mp hresult]
      rw [hresult] at h
      dsimp only at h
      split at h
      · cases h
      next hname =>
        rw [Bool.or_eq_true, not_or, List.isEmpty_iff, decide_eq_true_eq,
          Text.mem_trim_iff (by decide)] at hname
        cases h
        exact .functionResult (Text.trim_ne_nil_iff.mp hname.1) hname.2
  | none =>
      have hlast := functionOfResultKey?_eq_none_iff.mp hresult
      rw [hresult] at h
      cases hcut : Text.cut '#' key with
      | none =>
          rw [hcut] at h
          cases h
      | some halves =>
          obtain ⟨function, parameter⟩ := halves
          rw [hcut] at h
          obtain ⟨rfl, hmark⟩ := Text.cut_eq_some_iff.mp hcut
          rw [ne_eq, getLast?_key] at hlast
          simp only [List.isEmpty_iff] at h
          split at h
          · cases h
          next hparameter =>
            have hparameter := Text.trim_ne_nil_iff.mp hparameter
            split at h
            next hfunction =>
              cases h
              exact .parameterName (Text.trim_eq_nil_iff.mp hfunction) hparameter hlast
            next hfunction =>
              cases h
              exact .functionParameter (Text.trim_ne_nil_iff.mp hfunction) hmark hparameter hlast

theorem parseParameterKey_of_written (h : Written .parameter key selector) :
    parseParameterKey key = .ok selector := by
  unfold parseParameterKey
  cases h with
  | functionResult hfunction hmark =>
      rw [functionOfResultKey?_eq_some_iff.mpr rfl]
      have hname := Text.trim_ne_nil_iff.mpr hfunction
      rw [← Text.mem_trim_iff (by decide)] at hmark
      simp [hname, hmark]
  | functionParameter hfunction hmark hparameter hlast =>
      rw [functionOfResultKey?_eq_none_iff.mpr (mt getLast?_key.mp hlast),
        Text.cut_eq_some_iff.mpr ⟨rfl, hmark⟩]
      simp [Text.trim_ne_nil_iff.mpr hfunction, Text.trim_ne_nil_iff.mpr hparameter]
  | parameterName hgap hparameter hlast =>
      have hmark : '#' ∉ _ := fun hmem => absurd (hgap '#' hmem) (by decide)
      rw [functionOfResultKey?_eq_none_iff.mpr (mt getLast?_key.mp hlast),
        Text.cut_eq_some_iff.mpr ⟨rfl, hmark⟩]
      simp [Text.trim_eq_nil_iff.mpr hgap, Text.trim_ne_nil_iff.mpr hparameter]

theorem written_of_ofType {role : Role} {type : List Char}
    (h : parseTypeKey.ofType role (Text.normalise type) = .ok selector) :
    Written .type (role.sigil.toList ++ type) selector := by
  unfold parseTypeKey.ofType at h
  split at h
  · cases h
  next hempty =>
    rw [List.isEmpty_iff] at hempty
    have htype := Text.normalise_ne_nil_iff.mp hempty
    split at h
    next hshows =>
      cases h
      exact .typeSpelling htype (showsDeclarator_iff.mp hshows)
    next hshows =>
      cases h
      exact .typeName htype (mt showsDeclarator_iff.mpr hshows)

theorem parseTypeKey_sigil (role : Role) (type : List Char) :
    parseTypeKey (role.sigil.toList ++ type) = parseTypeKey.ofType role (Text.normalise type) := by
  cases role <;> rfl

theorem written_of_parseTypeKey (h : parseTypeKey key = .ok selector) :
    Written .type key selector := by
  unfold parseTypeKey at h
  split at h
  · exact written_of_ofType h
  · exact written_of_ofType h
  · cases h

theorem parseTypeKey_of_written (h : Written .type key selector) :
    parseTypeKey key = .ok selector := by
  cases h with
  | typeSpelling htype hshows =>
      rw [parseTypeKey_sigil, parseTypeKey.ofType, if_pos (showsDeclarator_iff.mpr hshows)]
      simp [Text.normalise_ne_nil_iff.mpr htype]
  | typeName htype hshows =>
      rw [parseTypeKey_sigil, parseTypeKey.ofType, if_neg (mt showsDeclarator_iff.mp hshows)]
      simp [Text.normalise_ne_nil_iff.mpr htype]

theorem parse_eq_ok_iff {level : Level} :
    parse level key = .ok selector ↔ Written level key selector := by
  cases level with
  | parameter => exact ⟨written_of_parseParameterKey, parseParameterKey_of_written⟩
  | type => exact ⟨written_of_parseTypeKey, parseTypeKey_of_written⟩

theorem Written.ne_nil {level : Level} (h : Written level key selector) : key ≠ [] := by
  cases h with
  | functionResult | functionParameter | parameterName => simp
  | typeSpelling htype | typeName htype =>
      obtain ⟨c, hc, -⟩ := htype
      exact List.append_ne_nil_of_right_ne_nil _ (List.ne_nil_of_mem hc)

end Selector

/-! ## Modifiers -/

namespace Modifier

variable {text front back : List Char} {modifier : Modifier}

theorem parse_of_notMem (h : '$' ∉ text) : ∀ modifier, parse text ≠ .ok modifier := by
  intro modifier hparse
  have hcut : Text.cut '$' (Text.trim text) = .none :=
    Text.cut_eq_none_iff.mpr fun hmark => h (Text.mem_of_mem_trim hmark)
  simp only [parse, hcut] at hparse
  split at hparse <;> cases hparse

/-- The first `$` of a text is the first of what trimming leaves. -/
theorem parse_append (hfront : '$' ∉ front) :
    parse (front ++ '$' :: back) =
      if '$' ∈ back then .error .multiplePlaceholders
      else .ok { front := String.ofList (Text.trim front)
                 back := String.ofList (Text.trim back) } := by
  have hblank : Text.isBlank '$' = false := by decide
  have hstart : '$' ∉ Text.trimStart front := by
    rwa [← Text.mem_trim_iff hblank, Text.trim_trimStart, Text.mem_trim_iff hblank]
  have hback : '$' ∈ Text.trimEnd back ↔ '$' ∈ back := by
    rw [← Text.mem_trim_iff hblank, Text.trim_trimEnd, Text.mem_trim_iff hblank]
  simp only [parse, Text.trim_append_cons hblank, Text.cut_eq_some_iff.mpr ⟨rfl, hstart⟩,
    Text.trim_trimStart, Text.trim_trimEnd, hback]
  simp

theorem parse_eq_ok_iff : parse text = .ok modifier ↔ Written text modifier := by
  constructor
  · intro h
    have hmark : '$' ∈ text := by
      by_contra hmark
      exact parse_of_notMem hmark modifier h
    cases hcut : Text.cut '$' text with
    | none => exact absurd hmark (Text.cut_eq_none_iff.mp hcut)
    | some halves =>
        obtain ⟨rfl, hfront⟩ := Text.cut_eq_some_iff.mp hcut
        rw [parse_append hfront] at h
        split at h
        · cases h
        next hback =>
          cases h
          exact .intro hfront hback
  · rintro ⟨hfront, hback⟩
    rw [parse_append hfront, if_neg hback]

end Modifier

/-! ## Values -/

namespace ValueParts

variable {value token argument rest : List Char} {argument? modifier? : Option (List Char)}
  {parts : ValueParts}

/-- The end of a value, from the `/` of its modifier on. -/
def slashed : Option (List Char) → List Char
  | none => []
  | some modifier => '/' :: modifier

theorem ofRest_eq_ok_iff : ofRest token argument? rest = .ok parts ↔
    ∃ modifier?, rest = slashed modifier? ∧ parts = { token, argument?, modifier? } := by
  constructor
  · intro h
    unfold ofRest at h
    split at h
    · cases h
      exact ⟨none, rfl, rfl⟩
    · cases h
      exact ⟨some _, rfl, rfl⟩
    · cases h
  · rintro ⟨modifier?, rfl, rfl⟩
    cases modifier? <;> rfl

theorem trimStart_gap_append_slashed {gap : List Char} (hgap : Text.IsGap gap) :
    Text.trimStart (gap ++ slashed modifier?) = slashed modifier? := by
  rw [Text.trimStart_gap_append hgap]
  cases modifier? <;> rfl

/-- What follows the word of a kind begins with no word character. -/
theorem endsWord_argument (hargument : Treatment.ArgumentWritten argument argument?) :
    Text.EndsWord (argument ++ slashed modifier?) := by
  cases hargument with
  | absent hgap =>
      refine Text.endsWord_gap_append hgap ?_
      cases modifier? with
      | none => simp [Text.EndsWord, slashed]
      | some modifier =>
          rintro _ ⟨⟩
          decide
  | present hbefore =>
      rw [List.append_assoc]
      refine Text.endsWord_gap_append hbefore ?_
      rintro _ ⟨⟩
      decide

/-- A word, its argument and a modifier are divided where they were put together. -/
theorem parse_of_written (htoken : Text.IsWord token)
    (hargument : Treatment.ArgumentWritten argument argument?) (modifier? : Option (List Char)) :
    parse (token ++ (argument ++ slashed modifier?)) = .ok { token, argument?, modifier? } := by
  have hends : Text.EndsWord (argument ++ slashed modifier?) := endsWord_argument hargument
  simp only [parse, Text.takeWhile_append_of_isWord htoken hends,
    Text.dropWhile_append_of_isWord htoken hends]
  cases hargument with
  | absent hgap =>
      rw [trimStart_gap_append_slashed hgap]
      cases modifier? <;> rfl
  | @present before inside after hbefore hbalanced hinside hafter =>
      have hopen : Text.trimStart (before ++ '(' :: (inside ++ ')' :: after) ++ slashed modifier?) =
          '(' :: (inside ++ ')' :: (after ++ slashed modifier?)) := by
        rw [List.append_assoc, Text.trimStart_gap_append hbefore, Text.trimStart_of_head]
        · simp only [List.append_assoc, List.cons_append]
        · rintro _ ⟨⟩
          decide
      have hclose : closeParenthesis 0 (inside ++ ')' :: (after ++ slashed modifier?)) =
          some (inside, after ++ slashed modifier?) :=
        closeParenthesis_eq_some_iff.mpr ⟨rfl, closes_zero_iff.mpr hbalanced⟩
      simp only [hopen, hclose]
      rw [trimStart_gap_append_slashed hafter]
      exact ofRest_eq_ok_iff.mpr ⟨modifier?, rfl, rfl⟩

/-- What is divided was put together as the grammar says, unless the argument is empty: that is
refused only with the kind. -/
theorem exists_of_parse (h : parse value = .ok parts) :
    ∃ argument, value = parts.token ++ (argument ++ slashed parts.modifier?) ∧
      (parts.argument? = some [] ∨ Treatment.ArgumentWritten argument parts.argument?) := by
  have hvalue := (List.takeWhile_append_dropWhile (p := Text.isWordChar) (l := value)).symm
  obtain ⟨gap, hgap, htail⟩ :=
    Text.exists_eq_append_trimStart (value.dropWhile Text.isWordChar)
  rw [htail] at hvalue
  simp only [parse] at h
  split at h
  next rest hopen =>
    rw [hopen] at hvalue
    split at h
    · cases h
    next inside rest hclose =>
      obtain ⟨rfl, hcloses⟩ := closeParenthesis_eq_some_iff.mp hclose
      obtain ⟨modifier?, hrest, rfl⟩ := ofRest_eq_ok_iff.mp h
      obtain ⟨after, hafter, hsplit⟩ := Text.exists_eq_append_trimStart rest
      rw [hrest] at hsplit
      refine ⟨gap ++ '(' :: (inside ++ ')' :: after), ?_, ?_⟩
      · rw [hsplit] at hvalue
        simpa only [List.append_assoc, List.cons_append] using hvalue
      · by_cases hinside : Text.trim inside = []
        · exact .inl (congrArg some hinside)
        · exact .inr (.present hgap (closes_zero_iff.mp hcloses)
            (Text.trim_ne_nil_iff.mp hinside) hafter)
  next hplain =>
    obtain ⟨modifier?, hrest, rfl⟩ := ofRest_eq_ok_iff.mp h
    rw [hrest] at hvalue
    exact ⟨gap, hvalue, .inr (.absent hgap)⟩

end ValueParts

namespace Treatment

variable {role : Role} {token argument : List Char} {argument? : Option (List Char)}
  {parts : ValueParts} {treatment : Treatment}

theorem ArgumentWritten.ne_some_nil (h : ArgumentWritten argument argument?) :
    argument? ≠ some [] := by
  cases h with
  | absent => simp
  | present _ _ hargument => simp [Text.trim_ne_nil_iff.mpr hargument]

theorem Named.isWord (h : Named role token argument? treatment) : Text.IsWord token := by
  cases h with
  | scalar _ s => cases s <;> decide
  | output | skip | memoryBuffer | object => decide

theorem Named.ne_nil (h : Named role token argument? treatment) : token ≠ [] := by
  cases h with
  | scalar _ s => cases s <;> decide
  | output | skip | memoryBuffer | object => decide

/-- A word that is looked up with its argument names a kind of parameters. -/
theorem named_of_ofToken?
    (h : ofToken? (String.ofList token) (argument?.map String.ofList) = some treatment) :
    Named .parameter token argument? treatment := by
  have hword {word : String} (hsame : String.ofList token = word) : token = word.toList := by
    rw [← hsame, String.toList_ofList]
  cases argument? with
  | none =>
      simp only [Option.map_none, ofToken?] at h
      split at h
      next hsame =>
        cases h
        rw [hword hsame]
        exact .output
      split at h
      next hsame =>
        cases h
        rw [hword hsame]
        exact .skip
      obtain ⟨s, hs, rfl⟩ := Option.map_eq_some_iff.mp h
      rw [hword (Scalar.token_of_ofToken? hs).symm]
      exact .scalar .parameter s
  | some argument =>
      simp only [Option.map_some, ofToken?] at h
      split at h
      next hsame =>
        cases h
        rw [hword hsame]
        exact .memoryBuffer argument
      split at h
      next hsame =>
        cases h
        rw [hword hsame]
        exact .object argument
      cases h

/-- The words that need an argument are those of the kinds that have one. -/
theorem Named.needsArgument_eq (h : Named role token argument? treatment) :
    needsArgument (String.ofList token) = argument?.isSome := by
  cases h with
  | scalar _ s => cases s <;> decide
  | output | skip => decide
  | memoryBuffer | object => rfl

theorem Named.ofToken?_eq (h : Named role token argument? treatment) :
    ofToken? (String.ofList token) (argument?.map String.ofList) = some treatment := by
  cases h with
  | scalar _ s => cases s <;> rfl
  | output | skip | memoryBuffer | object => rfl

theorem Named.exists_scalar (h : Named .result token argument? treatment) :
    ∃ s, treatment = .scalar s := by
  cases h
  exact ⟨_, rfl⟩

/-- Either role takes every scalar. -/
theorem Named.of_scalar {s : Scalar} (h : Named role token argument? (.scalar s)) (other : Role) :
    Named other token argument? (.scalar s) := by
  cases h
  exact .scalar other s

theorem ofToken?_of_ofParts (h : ofParts role parts = .ok treatment) :
    ofToken? (String.ofList parts.token) (parts.argument?.map String.ofList) = some treatment ∧
      (needsArgument (String.ofList parts.token) && parts.argument?.all List.isEmpty) = false := by
  simp only [ofParts] at h
  split at h
  · cases h
  split at h
  · cases h
  next hargument =>
    rw [Bool.not_eq_true] at hargument
    split at h
    next hnamed => cases h; exact ⟨hnamed, hargument⟩
    next => cases h
    next hnamed => cases h; exact ⟨hnamed, hargument⟩
    next => cases h

/-- The parts of a value make a treatment when they name one and the argument is not empty. -/
theorem ofParts_eq_ok_iff :
    ofParts role parts = .ok treatment ↔
      parts.argument? ≠ some [] ∧ Named role parts.token parts.argument? treatment := by
  constructor
  · intro h
    obtain ⟨htoken, hargument⟩ := ofToken?_of_ofParts h
    have hnamed := named_of_ofToken? htoken
    rw [hnamed.needsArgument_eq] at hargument
    refine ⟨fun hempty => by simp [hempty] at hargument, ?_⟩
    cases role with
    | parameter => exact hnamed
    | result =>
        obtain ⟨s, rfl⟩ := exists_scalar_of_ofParts h
        exact hnamed.of_scalar .result
  · rintro ⟨hargument, hnamed⟩
    have hgiven : (parts.argument?.isSome && parts.argument?.all List.isEmpty) = false := by
      cases hwritten : parts.argument? with
      | none => rfl
      | some argument => simpa [hwritten] using hargument
    simp only [ofParts, hnamed.needsArgument_eq, hgiven, hnamed.ofToken?_eq, List.isEmpty_iff,
      if_neg hnamed.ne_nil]
    cases role with
    | parameter => rfl
    | result =>
        obtain ⟨s, rfl⟩ := hnamed.exists_scalar
        rfl

end Treatment

namespace Rule

/-- A value is written when each of its parts is read. -/
theorem valueWritten_iff {role : Role} {value : List Char} {treatment : Treatment}
    {modifier? : Option Modifier} :
    ValueWritten role value treatment modifier? ↔
      ∃ parts, ValueParts.parse value = .ok parts ∧
        Treatment.ofParts role parts = .ok treatment ∧
        parts.modifier?.mapM Modifier.parse = .ok modifier? := by
  constructor
  · intro h
    cases h with
    | plain hnamed hargument =>
        have hparse := ValueParts.parse_of_written hnamed.isWord hargument none
        rw [ValueParts.slashed, List.append_nil] at hparse
        exact ⟨_, hparse, Treatment.ofParts_eq_ok_iff.mpr ⟨hargument.ne_some_nil, hnamed⟩, rfl⟩
    | modified hnamed hargument hmodifier =>
        refine ⟨_, ValueParts.parse_of_written hnamed.isWord hargument (some _),
          Treatment.ofParts_eq_ok_iff.mpr ⟨hargument.ne_some_nil, hnamed⟩, ?_⟩
        simp [Modifier.parse_eq_ok_iff.mpr hmodifier, Functor.map, Except.map]
  · rintro ⟨parts, hparse, htreatment, hmodifier⟩
    obtain ⟨argument, hvalue, hargument⟩ := ValueParts.exists_of_parse hparse
    obtain ⟨hne, hnamed⟩ := Treatment.ofParts_eq_ok_iff.mp htreatment
    have hargument := hargument.resolve_left hne
    rw [hvalue]
    cases hwritten : parts.modifier? with
    | none =>
        rw [hwritten] at hmodifier
        cases hmodifier
        rw [ValueParts.slashed, List.append_nil]
        exact .plain hnamed hargument
    | some text =>
        rw [hwritten] at hmodifier
        cases hread : Modifier.parse text with
        | error defect => simp [hread, Functor.map, Except.map] at hmodifier
        | ok modifier =>
            simp only [Option.mapM_some, hread, Functor.map, Except.map] at hmodifier
            cases hmodifier
            exact .modified hnamed hargument (Modifier.parse_eq_ok_iff.mp hread)

theorem ValueWritten.ne_nil {role : Role} {value : List Char} {treatment : Treatment}
    {modifier? : Option Modifier} (h : ValueWritten role value treatment modifier?) :
    value ≠ [] := by
  cases h with
  | plain hnamed | modified hnamed => exact List.append_ne_nil_of_left_ne_nil hnamed.ne_nil _

variable {level : Level} {text : String} {rule : Rule}

theorem parse_eq_ok_iff_written : parse level text = .ok rule ↔ Written level text rule := by
  rw [parse_eq_ok_iff]
  constructor
  · rintro ⟨key, value, parts, hcut, -, hselector, -, hparts, htreatment, hmodifier⟩
    obtain ⟨htext, hkey⟩ := Text.cut_eq_some_iff.mp hcut
    exact .intro htext hkey (Selector.parse_eq_ok_iff.mp hselector)
      (valueWritten_iff.mpr ⟨parts, hparts, htreatment, hmodifier⟩)
  · rintro ⟨htext, hkey, hselector, hvalue⟩
    obtain ⟨parts, hparts, htreatment, hmodifier⟩ := valueWritten_iff.mp hvalue
    exact ⟨_, _, parts, Text.cut_eq_some_iff.mpr ⟨htext, hkey⟩, hselector.ne_nil,
      Selector.parse_eq_ok_iff.mpr hselector, hvalue.ne_nil, hparts, htreatment, hmodifier⟩

/-- A text is read as a rule exactly when the grammar gives it that rule. On the way, no parenthesis
is closed that was not opened before. -/
theorem reads_exactly_written :
    (∀ level text rule, parse level text = .ok rule ↔ Written level text rule) ∧
      ∀ rest, ValueParts.closeCounted 0 ('(' :: rest) =
        some ((ValueParts.closeParenthesis 0 rest).map fun parts => ('(' :: parts.1, parts.2)) := by
  refine ⟨fun _ _ _ => parse_eq_ok_iff_written, fun rest => ?_⟩
  rw [ValueParts.closeCounted, ValueParts.closeCounted_succ]
  rfl

end Rule

end Understudy
