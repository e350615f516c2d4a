import Understudy.Proofs.CType.Declarator
import Understudy.Proofs.CType.Unambiguous

/-! # What declarations read as

A declaration should read as what is written for its type: a reference to an array of the pointer
levels over the base name. In the usual layout it does. A function pointer has its parts inside the
parentheses of its spelling, where a reference stands between the name and the extents.
-/

namespace Understudy

open Declarator

namespace Reading

/-- Pointer levels over a type, the innermost first. -/
def pointTo (levels : List Cv) (t : Reading) : Reading := levels.foldl (fun t cv => .pointer cv t) t

/-- An array with extents, the outermost first. -/
def arrayOf (extents : List Extent) (t : Reading) : Reading :=
  extents.foldr (fun extent t => .array (Text.tokens extent.digits) t) t

def refer : Reference → Reading → Reading
  | .none, t => t
  | .lvalue, t => .lvalue t
  | .rvalue, t => .rvalue t

/-- The parameter clauses of the functions in a type. -/
def clauses : Reading → List (List (List Char))
  | named _ => []
  | pointer _ t | lvalue t | rvalue t | array _ t => t.clauses
  | function clause _ t => clause :: t.clauses

variable {t : Reading} {levels : List Cv} {extents : List Extent} {kind : Reference}

@[simp] theorem clauses_pointTo : (pointTo levels t).clauses = t.clauses := by
  induction levels generalizing t with
  | nil => rfl
  | cons cv levels ih => exact ih

@[simp] theorem clauses_arrayOf : (arrayOf extents t).clauses = t.clauses := by
  induction extents with
  | nil => rfl
  | cons extent extents ih => exact ih

@[simp] theorem clauses_refer : (refer kind t).clauses = t.clauses := by cases kind <;> rfl

/-- An array of references is no reference to an array. -/
theorem arrayOf_refer_eq_iff :
    arrayOf extents (refer kind t) = refer kind (arrayOf extents t) ↔
      kind = .none ∨ extents = [] := by
  cases extents with
  | nil => simp [arrayOf]
  | cons extent extents => cases kind <;> simp [arrayOf, refer]

end Reading

/-- What is written on a base name says about the type of the base name. -/
def Written.layers (w : Written) (t : Reading) : Reading :=
  .refer w.reference (.arrayOf w.extents (.pointTo w.pointers t))

/-! ## Tokens -/

namespace Text

variable {text rest : List Char}

/-- Tokens leave out blanks and nothing else. -/
theorem flatten_tokens (text : List Char) :
    (tokens text).flatten = text.filter fun c => !isBlank c := by
  induction text using run_induction with
  | nil => rfl
  | other c rest hc ih =>
      by_cases hblank : isBlank c = true
      · rw [tokens_cons_of_blank hblank, ih, List.filter_cons_of_neg (by simp [hblank])]
      · rw [Bool.not_eq_true] at hblank
        rw [tokens_cons_of_mark hblank hc, List.flatten_cons, ih,
          List.filter_cons_of_pos (by simp [hblank]), List.singleton_append]
  | run word rest hne hword hrest ih =>
      have hkept : word.filter (fun c => !isBlank c) = word :=
        List.filter_eq_self.mpr fun c hc => by simp [isBlank_eq_false_of_isWordChar (hword c hc)]
      rw [tokens_append_of_isWord hne hword hrest, List.flatten_cons, ih, List.filter_append, hkept]

theorem balanced_flatten_tokens_iff : Balanced (tokens text).flatten ↔ Balanced text := by
  have hopen (text : List Char) : (text.filter fun c => !isBlank c).count '(' = text.count '(' :=
    List.count_filter (by decide)
  have hclose (text : List Char) : (text.filter fun c => !isBlank c).count ')' = text.count ')' :=
    List.count_filter (by decide)
  rw [flatten_tokens]
  constructor
  · intro h
    refine ⟨fun before hbefore => ?_, by rw [← hclose, ← hopen, h.closed_eq]⟩
    rw [← hclose, ← hopen]
    exact h.closed_le _ (hbefore.filter _)
  · intro h
    refine ⟨fun before hbefore => ?_, by rw [hclose, hopen, h.closed_eq]⟩
    obtain ⟨after, hafter⟩ := hbefore
    obtain ⟨start, rest, rfl, rfl, -⟩ := List.filter_eq_append_iff.mp hafter.symm
    rw [hclose, hopen]
    exact h.closed_le _ ⟨rest, rfl⟩

theorem tokens_of_isWord (hne : text ≠ []) (hword : IsWord text) : tokens text = [text] := by
  have h := tokens_append_of_isWord hne hword (by simp [EndsWord] : EndsWord [])
  rwa [List.append_nil] at h

end Text

/-- The tokens of the qualifiers of a level. -/
def Cv.tokens (cv : Cv) : List (List Char) := Text.tokens cv.spelling.toList

/-- The tokens of pointer levels, the innermost first. -/
def levelTokens (levels : List Cv) : List (List Char) := levels.flatMap fun cv => ['*'] :: cv.tokens

def Reference.tokens (kind : Reference) : List (List Char) := Text.tokens kind.spelling.toList

def extentTokens (extents : List Extent) : List (List Char) :=
  extents.flatMap fun extent => ['['] :: (Text.tokens extent.digits ++ [[']']])

theorem Cv.ofTokens_reverse_tokens (cv : Cv) : Cv.ofTokens cv.tokens.reverse = cv := by
  obtain ⟨isConst, isVolatile⟩ := cv
  cases isConst <;> cases isVolatile <;> decide

theorem Cv.isQualifier_of_mem_tokens (cv : Cv) : ∀ token ∈ cv.tokens, isQualifier token = true := by
  obtain ⟨isConst, isVolatile⟩ := cv
  cases isConst <;> cases isVolatile <;> decide

namespace Written

variable {w : Written} {rest : List Char} {levels : List Cv}

theorem endsWord_pointersSpelling_append {afterWord : Bool} (hrest : Text.EndsWord rest) :
    Text.EndsWord ((pointersSpelling afterWord levels).toList ++ rest) := by
  cases levels with
  | nil => exact hrest
  | cons level levels =>
      rw [toList_pointersSpelling_cons]
      cases afterWord <;> rintro _ ⟨⟩ <;> decide

theorem tokens_pointersSpelling_append {afterWord : Bool} (hrest : Text.EndsWord rest) :
    Text.tokens ((pointersSpelling afterWord levels).toList ++ rest) =
      levelTokens levels ++ Text.tokens rest := by
  induction levels generalizing afterWord with
  | nil => rfl
  | cons level levels ih =>
      have hgap : Text.IsGap (if afterWord then [' '] else []) := by
        cases afterWord <;> decide
      rw [toList_pointersSpelling_cons, List.append_assoc, Text.tokens_gap_append hgap,
        List.cons_append, Text.tokens_cons_of_mark (by decide) (by decide), List.append_assoc,
        Text.tokens_append (.inr (endsWord_pointersSpelling_append hrest)), ih]
      simp [levelTokens, Cv.tokens]

theorem tokens_extentsSpelling (w : Written) :
    Text.tokens w.extentsSpelling.toList = extentTokens w.extents := by
  rw [toList_extentsSpelling, extentTokens]
  induction w.extents with
  | nil => rfl
  | cons extent extents ih =>
      rw [List.flatMap_cons, List.flatMap_cons, List.cons_append,
        Text.tokens_cons_of_mark (by decide) (by decide), List.append_assoc,
        Text.tokens_append (.inr (by rintro _ ⟨⟩; decide)), List.singleton_append,
        Text.tokens_cons_of_mark (by decide) (by decide), ih]
      simp

/-- The tokens around a declared name, from the pointer levels on, in the usual layout. -/
def nameTokens (w : Written) (name : List (List Char)) : List (List Char) :=
  if w.extents = [] ∨ w.reference = .none then
    w.reference.tokens ++ (name ++ extentTokens w.extents)
  else ['('] :: (w.reference.tokens ++ (name ++ [')'] :: extentTokens w.extents))

theorem tokens_reference_append (kind : Reference) (rest : List Char) :
    Text.tokens (kind.spelling.toList ++ rest) = kind.tokens ++ Text.tokens rest :=
  Text.tokens_append (.inl (by cases kind <;> rintro _ ⟨⟩ <;> decide))

theorem endsWord_extentsSpelling (w : Written) : Text.EndsWord w.extentsSpelling.toList := by
  rw [toList_extentsSpelling]
  cases w.extents <;> rintro _ ⟨⟩
  decide

theorem tokens_name_append (w : Written) (name : List Char) :
    Text.tokens (name ++ w.extentsSpelling.toList) =
      Text.tokens name ++ extentTokens w.extents := by
  rw [← tokens_extentsSpelling]
  exact Text.tokens_append (.inr w.endsWord_extentsSpelling)

theorem tokens_namePart (w : Written) (name : List Char) :
    Text.tokens (w.namePart name) = w.nameTokens (Text.tokens name) := by
  have hspace (isNamed : Bool) : Text.IsGap (if isNamed then [' '] else []) := by
    cases isNamed <;> decide
  by_cases hplain : w.extents = [] ∨ w.reference = .none
  · rw [namePart, nameTokens, if_pos hplain, afterName, if_pos hplain, List.nil_append,
      ← tokens_name_append, beforeName]
    by_cases hnil : w.extents = []
    · rw [if_pos hnil, List.append_assoc]
      cases w.reference with
      | none => exact Text.tokens_gap_append (hspace _)
      | lvalue | rvalue =>
          rw [if_neg (by decide), List.cons_append, Text.tokens_cons_of_blank (by decide),
            tokens_reference_append, Text.tokens_gap_append (hspace _)]
    · have hreference := hplain.resolve_left hnil
      rw [if_neg hnil, if_pos hreference, hreference, List.cons_append,
        Text.tokens_cons_of_blank (by decide)]
      rfl
  · obtain ⟨hnil, hreference⟩ := not_or.mp hplain
    rw [namePart, nameTokens, beforeName, afterName, if_neg hplain, if_neg hplain, if_neg hnil,
      if_neg hreference, List.cons_append, Text.tokens_cons_of_blank (by decide), List.cons_append,
      Text.tokens_cons_of_mark (by decide) (by decide), tokens_reference_append,
      Text.tokens_append (.inr (by rintro _ ⟨⟩; decide)), List.singleton_append,
      Text.tokens_cons_of_mark (by decide) (by decide), tokens_extentsSpelling]

theorem tokens_declareOrdinary (w : Written) (name : String) :
    Text.tokens (w.declareOrdinary name).toList = Text.tokens w.qualifiedName ++
      (levelTokens w.pointers ++ w.nameTokens (Text.tokens name.toList)) := by
  have hends : Text.EndsWord (w.namePart name.toList) := by
    rcases w.namePart_cases name.toList with ⟨hnil, -⟩ | ⟨more, hmore, -⟩
    · rw [hnil]
      decide
    · rw [hmore]
      rintro _ ⟨⟩
      decide
  rw [toList_declareOrdinary, Text.tokens_append (.inr (endsWord_pointersSpelling_append hends)),
    tokens_pointersSpelling_append hends, tokens_namePart]

end Written

namespace Callback

variable {w : Written} {start word result clause : List Char}

theorem tokens_addWord (hstart : '_' ∉ start) (word : List Char) :
    Text.tokens (addWord start word) = Text.tokens start ++ Text.tokens word := by
  unfold addWord
  split
  next => exact Text.tokens_append_of_gap (by decide : Text.IsGap [' ']) (by decide)
  next halphanum =>
    refine Text.tokens_append (.inl fun c hc => ?_)
    have hne : c ≠ '_' := fun h => hstart (h ▸ List.mem_of_getLast? hc)
    rw [hc] at halphanum
    simpa [Text.isWordChar, hne] using halphanum

theorem tokens_addPointer (start : List Char) (level : Cv) :
    Text.tokens (addPointer start level) = Text.tokens start ++ ['*'] :: level.tokens := by
  unfold addPointer
  rw [Text.tokens_append (.inr (by rintro _ ⟨⟩; decide)),
    Text.tokens_cons_of_mark (by decide) (by decide), Cv.tokens]
  split
  next => rfl
  next => rw [Text.tokens_append_gap (by decide)]

theorem notMem_addPointer (hstart : '_' ∉ start) (level : Cv) : '_' ∉ addPointer start level := by
  have hlevel : '_' ∉ level.spelling.toList := by
    obtain ⟨isConst, isVolatile⟩ := level
    cases isConst <;> cases isVolatile <;> decide
  unfold addPointer
  split <;> simp [hstart, hlevel]

/-- Further levels go after the declarator, and leave no `_` at its end. -/
theorem addPointers (hstart : '_' ∉ start) (levels : List Cv) :
    Text.tokens (levels.foldl addPointer start) = Text.tokens start ++ levelTokens levels ∧
      '_' ∉ levels.foldl addPointer start := by
  induction levels generalizing start with
  | nil => exact ⟨(List.append_nil _).symm, hstart⟩
  | cons level levels ih =>
      obtain ⟨htokens, hkept⟩ := ih (notMem_addPointer hstart level)
      refine ⟨?_, hkept⟩
      rw [List.foldl_cons, htokens, tokens_addPointer]
      simp [levelTokens]

theorem tokens_declarator {callback : Callback} (hinside : callback.inside = []) (w : Written)
    (name : String) : Text.tokens (callback.declarator w name) =
      w.base.tokens ++ (levelTokens w.pointers ++ (w.reference.tokens ++
        (Text.tokens name.toList ++ extentTokens w.extents))) := by
  have hbase : (if w.base.isVolatile then
      addWord (if w.base.isConst then addWord [] "const".toList else []) "volatile".toList
      else if w.base.isConst then addWord [] "const".toList else []) = w.base.spelling.toList := by
    obtain ⟨isConst, isVolatile⟩ := w.base
    cases isConst <;> cases isVolatile <;> decide
  have hstart : '_' ∉ w.base.spelling.toList := by
    obtain ⟨isConst, isVolatile⟩ := w.base
    cases isConst <;> cases isVolatile <;> decide
  obtain ⟨hpointed, hkept⟩ := addPointers hstart w.pointers
  have hreferred : '_' ∉ w.pointers.foldl addPointer w.base.spelling.toList ++
      w.reference.spelling.toList := by
    rw [List.mem_append, not_or]
    exact ⟨hkept, by cases w.reference <;> decide⟩
  have hreference : Text.EndsWord w.reference.spelling.toList := by cases w.reference <;> decide
  have htrim : Text.trim [] = [] := rfl
  simp only [declarator, hinside, htrim, hbase]
  rw [w.tokens_name_append]
  calc
    _ = Text.tokens (w.pointers.foldl addPointer w.base.spelling.toList ++
          w.reference.spelling.toList) ++ Text.tokens name.toList ++ extentTokens w.extents := by
      split
      next hname => simp [String.isEmpty_iff.mp hname, Text.tokens]
      next => rw [tokens_addWord hreferred]
    _ = _ := by
      rw [Text.tokens_append (.inr hreference), hpointed]
      simp only [List.append_assoc, Cv.tokens, Reference.tokens]

theorem cutStar_append (hresult : '(' ∉ result) (rest : List Char) :
    cutStar (result ++ '(' :: '*' :: rest) = some (result ++ ['(', '*'], rest) := by
  induction result with
  | nil => rfl
  | cons c result ih =>
      obtain ⟨hc, hresult⟩ := List.ne_and_not_mem_of_not_mem_cons hresult
      rw [List.cons_append, cutStar, ih hresult]
      · rfl
      · exact fun rest heq => absurd heq.symm hc

theorem ofSpelling?_eq_some {name : String} (hresult : '(' ∉ result)
    (hname : name.toList = result ++ " (*)(".toList ++ (clause ++ [')'])) :
    ofSpelling? name = some
      { head := result ++ " (*".toList, inside := []
        tail := ")(".toList ++ (clause ++ [')']) } := by
  have hspaced : '(' ∉ result ++ [' '] := by simp [hresult]
  have hcut := cutStar_append hspaced (")(".toList ++ (clause ++ [')']))
  have hparts : name.toList =
      result ++ [' '] ++ '(' :: '*' :: (")(".toList ++ (clause ++ [')'])) := by
    simp [hname]
  rw [ofSpelling?, hparts, hcut]
  simp [Text.cut]

end Callback

namespace Written

variable {w : Written} {result clause : List Char}

/-- A function pointer that is spelled as the result, a star in parentheses and the parameters. -/
structure IsCallback (w : Written) (result clause : List Char) : Prop where
  category : w.category = .functionPointer
  name : w.name.toList = result ++ " (*)(".toList ++ (clause ++ [')'])
  notOpen : '(' ∉ result

theorem IsCallback.tokens_declare (hw : w.IsCallback result clause) (name : String) :
    Text.tokens (w.declare name).toList = Text.tokens result ++
      (['('] :: (levelTokens (w.base :: w.pointers) ++ (w.reference.tokens ++
        (Text.tokens name.toList ++ (extentTokens w.extents ++
          [')'] :: ['('] :: (Text.tokens clause ++ [[')']])))))) := by
  rw [declare, callback?, if_pos hw.category, Callback.ofSpelling?_eq_some hw.notOpen hw.name]
  have hhead : Text.tokens (result ++ " (*".toList) = Text.tokens result ++ [['('], ['*']] :=
    Text.tokens_append_of_gap (by decide : Text.IsGap [' ']) (by decide)
  have hstarts : Text.StartsWord (result ++ " (*".toList) := by
    intro c hc
    rw [List.getLast?_append, show " (*".toList.getLast? = some '*' by decide] at hc
    cases hc
    decide
  have hclause : Text.tokens (clause ++ [')']) = Text.tokens clause ++ [[')']] :=
    Text.tokens_append (.inr (by rintro _ ⟨⟩; decide))
  have htail : Text.tokens (")(".toList ++ (clause ++ [')'])) =
      [')'] :: ['('] :: (Text.tokens clause ++ [[')']]) := by
    rw [← hclause]
    exact Text.tokens_append (.inl (by rintro _ ⟨⟩; decide))
  simp only [Callback.declare, String.toList_ofList]
  rw [Text.tokens_append (.inr (by rintro _ ⟨⟩; decide)), Text.tokens_append (.inl hstarts), hhead,
    Callback.tokens_declarator rfl, htail]
  simp [levelTokens]

end Written

namespace Declarator

variable {specifier before after ops : List (List Char)} {name : List Char} {t : Reading}

/-! ## Readings -/

theorem isOperator_levelTokens (levels : List Cv) :
    ∀ token ∈ levelTokens levels, isOperator token = true := by
  intro token htoken
  obtain ⟨cv, -, hcv⟩ := List.mem_flatMap.mp htoken
  rcases List.mem_cons.mp hcv with rfl | hcv
  · rfl
  · rw [isOperator, cv.isQualifier_of_mem_tokens token hcv, Bool.or_true]

theorem isOperator_referenceTokens (kind : Reference) :
    ∀ token ∈ kind.tokens, isOperator token = true := by
  cases kind <;> decide

/-- What stands in front of a name where a declarator ends after it is only operators. -/
theorem Outward.isOperator (h : Outward specifier before [] t) :
    ∀ token ∈ before, isOperator token = true := by
  generalize ha : ([] : List (List Char)) = after at h
  induction h with
  | specifier => exact List.forall_mem_nil _
  | array | function | group => cases ha
  | pointer _ hqualifiers _ ih =>
      refine List.forall_mem_append.mpr
        ⟨fun token htoken => ?_, List.forall_mem_cons.mpr ⟨rfl, ih ha⟩⟩
      rw [Declarator.isOperator, hqualifiers token htoken, Bool.or_true]
  | lvalue _ _ _ ih => exact List.forall_mem_cons.mpr ⟨rfl, ih ha⟩
  | rvalue _ _ ih => exact List.forall_mem_cons.mpr ⟨rfl, List.forall_mem_cons.mpr ⟨rfl, ih ha⟩⟩

theorem front_append (hops : ∀ token ∈ ops, isOperator token = true)
    (name rest : List (List Char)) : front name (ops ++ rest) = ops ++ front name rest := by
  induction ops with
  | nil => rfl
  | cons token ops ih =>
      obtain ⟨htoken, hops⟩ := List.forall_mem_cons.mp hops
      rw [List.cons_append, front, htoken, Bool.true_or, if_pos rfl, ih hops, List.cons_append]

theorem front_group {rest : List (List Char)}
    (hrest : rest.head? = some ['*'] ∨ rest.head? = some ['&']) (name : List (List Char)) :
    front name (['('] :: rest) = ['('] :: front name rest := by
  rw [front, if_pos]
  rcases hrest with hrest | hrest <;> simp [opensGroup, hrest]

/-- What a name may have after it, and what it may start with. -/
def Stops (rest : List (List Char)) : Prop :=
  ∀ token, rest.head? = some token → isOperator token = false ∧ token ≠ ['(']

theorem front_of_stops {rest : List (List Char)} (hrest : Stops rest) (name : List (List Char)) :
    front name rest = [] := by
  cases rest with
  | nil => rfl
  | cons token rest =>
      obtain ⟨hoperator, hopen⟩ := hrest token rfl
      rw [front, if_neg (by simp [hoperator, hopen])]

theorem stops_tokens_append (hname : IsDeclarable name) (hafter : Stops after) :
    Stops (Text.tokens name ++ after) := by
  by_cases hnil : name = []
  · rw [hnil]
    exact hafter
  · rw [Text.tokens_of_isWord hnil hname.isWord]
    rintro _ ⟨⟩
    have hmark {c : Char} (hc : Text.isWordChar c = false) : name ≠ [c] := by
      rintro rfl
      exact absurd (hname.isWord c List.mem_cons_self) (by simp [hc])
    refine ⟨?_, hmark (by decide)⟩
    simp only [isOperator, isQualifier, Bool.or_eq_false_iff, decide_eq_false_iff_not]
    exact ⟨⟨hmark (by decide), hmark (by decide)⟩, hname.ne_const, hname.ne_volatile⟩

theorem Outward.levels (hends : Ends after) (levels : List Cv)
    (h : Outward specifier before after t) :
    Outward specifier ((levelTokens levels).reverse ++ before) after (.pointTo levels t) := by
  induction levels generalizing before t with
  | nil => exact h
  | cons cv levels ih =>
      have hlevel :
          Outward specifier (cv.tokens.reverse ++ ['*'] :: before) after (.pointer cv t) := by
        have hpointer := Outward.pointer hends
          (fun token htoken => cv.isQualifier_of_mem_tokens token (List.mem_reverse.mp htoken)) h
        rwa [cv.ofTokens_reverse_tokens] at hpointer
      simpa [levelTokens, Reading.pointTo] using ih hlevel

theorem Outward.reference (hends : Ends after) (kind : Reference)
    (hbefore : before.head? ≠ some ['&']) (h : Outward specifier before after t) :
    Outward specifier (kind.tokens.reverse ++ before) after (.refer kind t) := by
  cases kind with
  | none => exact h
  | lvalue => exact .lvalue hends hbefore h
  | rvalue => exact .rvalue hends h

theorem Outward.extents (extents : List Extent) (h : Outward specifier before after t) :
    Outward specifier before (extentTokens extents ++ after) (.arrayOf extents t) := by
  induction extents with
  | nil => exact h
  | cons extent extents ih =>
      have hclose : [']'] ∉ Text.tokens extent.digits := by
        by_cases hnil : extent.digits = []
        · rw [hnil]
          decide
        · rw [Text.tokens_of_isWord hnil extent.isWord_digits, List.mem_singleton]
          rintro heq
          exact extent.isWord_digits.notMem (c := ']') (by decide) (heq ▸ List.mem_cons_self)
      simpa [extentTokens, Reading.arrayOf] using ih.array hclose

theorem head?_reverse_levelTokens_append {levels : List Cv} (hbefore : before.head? ≠ some ['&']) :
    ((levelTokens levels).reverse ++ before).head? ≠ some ['&'] := by
  have hnone : ['&'] ∉ (levelTokens levels).reverse := by
    rw [List.mem_reverse, levelTokens, List.mem_flatMap]
    rintro ⟨cv, -, hcv⟩
    rcases List.mem_cons.mp hcv with hstar | hcv
    · cases hstar
    · exact absurd (cv.isQualifier_of_mem_tokens _ hcv) (by decide)
  cases hlevels : (levelTokens levels).reverse with
  | nil => exact hbefore
  | cons token rest =>
      rintro ⟨⟩
      exact hnone (hlevels ▸ List.mem_cons_self)

theorem head?_referenceTokens_append {kind : Reference} (hkind : kind ≠ .none)
    (rest : List (List Char)) : (kind.tokens ++ rest).head? = some ['&'] := by
  cases kind with
  | none => exact absurd rfl hkind
  | lvalue | rvalue => rfl

theorem stops_extentTokens_append {rest : List (List Char)} (hrest : Stops rest)
    (extents : List Extent) : Stops (extentTokens extents ++ rest) := by
  cases extents with
  | nil => exact hrest
  | cons extent extents =>
      rintro _ ⟨⟩
      decide

theorem stops_nil : Stops [] := by simp [Stops]

/-- In the usual layout the pointer levels and the reference stand in front of the name. -/
theorem front_operators (levels : List Cv) (kind : Reference) {rest : List (List Char)}
    (hrest : Stops rest) (name : List (List Char)) :
    front name (levelTokens levels ++ (kind.tokens ++ rest)) =
      levelTokens levels ++ kind.tokens := by
  rw [front_append (isOperator_levelTokens _), front_append (isOperator_referenceTokens _),
    front_of_stops hrest, List.append_nil]

/-- With extents a reference stands in parentheses. -/
theorem front_reference (levels : List Cv) {kind : Reference} (hkind : kind ≠ .none)
    {rest : List (List Char)} (hrest : Stops rest) (name : List (List Char)) :
    front name (levelTokens levels ++ ['('] :: (kind.tokens ++ rest)) =
      levelTokens levels ++ ['('] :: kind.tokens := by
  rw [front_append (isOperator_levelTokens _),
    front_group (.inr (head?_referenceTokens_append hkind _)),
    front_append (isOperator_referenceTokens _), front_of_stops hrest, List.append_nil]

/-- In a function pointer all its levels and the reference stand in parentheses. -/
theorem front_callback (hops : ∀ token ∈ ops, isOperator token = true) (cv : Cv) (levels : List Cv)
    (kind : Reference) {rest : List (List Char)} (hrest : Stops rest) (name : List (List Char)) :
    front name (ops ++ ['('] :: (levelTokens (cv :: levels) ++ (kind.tokens ++ rest))) =
      ops ++ ['('] :: (levelTokens (cv :: levels) ++ kind.tokens) := by
  rw [front_append hops, front_group (.inl rfl), front_operators _ _ hrest]

theorem ends_close (rest : List (List Char)) : Ends ([')'] :: rest) := by
  rintro _ ⟨⟩
  rfl

theorem stops_close (rest : List (List Char)) : Stops ([')'] :: rest) := by
  rintro _ ⟨⟩
  decide

end Declarator

namespace Written

variable {w : Written} {specifier ops : List (List Char)} {returned : Reading}

/-- The operators in the usual layout, over a base name that takes up the specifier. -/
theorem outward_operators (w : Written) (specifier : List (List Char)) :
    Outward specifier (levelTokens w.pointers ++ w.reference.tokens).reverse []
      (.refer w.reference (.pointTo w.pointers (.named specifier))) := by
  have hlevels := (Outward.specifier : Outward specifier [] [] _).levels (by decide) w.pointers
  have hread := hlevels.reference (by decide) w.reference
    (head?_reverse_levelTokens_append (by simp))
  rwa [List.append_nil, ← List.reverse_append] at hread

/-- In the usual layout a declaration reads as what is written for its type. -/
theorem declares_declareOrdinary (w : Written) {name : String} (hname : IsDeclarable name.toList) :
    Declares (Text.tokens w.qualifiedName) (Text.tokens name.toList) (w.declareOrdinary name)
      (w.layers (.named (Text.tokens w.qualifiedName))) := by
  by_cases hplain : w.extents = [] ∨ w.reference = .none
  · have hread := (w.outward_operators (Text.tokens w.qualifiedName)).extents w.extents
    rw [Reading.arrayOf_refer_eq_iff.mpr hplain.symm] at hread
    refine ⟨_, _, ?_, ?_, hread⟩
    · rw [tokens_declareOrdinary, nameTokens, if_pos hplain, List.append_assoc, List.append_nil]
    · rw [List.append_assoc]
      exact front_operators _ _
        (stops_tokens_append hname (stops_extentTokens_append stops_nil _)) _
  · obtain ⟨-, hreference⟩ := not_or.mp hplain
    have hlevels := (Outward.specifier : Outward (Text.tokens w.qualifiedName) [] [] _).levels
      (by decide) w.pointers
    have hread := (hlevels.extents w.extents).group.reference (ends_close _) w.reference
      (by simp)
    refine ⟨levelTokens w.pointers ++ ['('] :: w.reference.tokens, _, ?_, ?_,
      by simpa [layers] using hread⟩
    · rw [tokens_declareOrdinary, nameTokens, if_neg hplain]
      simp
    · rw [List.append_assoc]
      exact front_reference _ hreference (stops_tokens_append hname (stops_close _)) _

/-- A text spells a result: it is a specifier with operators after it. -/
def SpellsResult (result : List Char) (specifier : List (List Char)) (t : Reading) : Prop :=
  ∃ ops, Text.tokens result = specifier ++ ops ∧ Outward specifier ops.reverse [] t

/-- A function pointer reads as an array of references where both are written. -/
theorem IsCallback.declares {result clause : List Char} (hw : w.IsCallback result clause)
    (hresult : SpellsResult result specifier returned) (hclause : Text.Balanced clause)
    {name : String} (hname : IsDeclarable name.toList) :
    Declares specifier (Text.tokens name.toList) (w.declare name)
      (.arrayOf w.extents (.refer w.reference (.pointTo w.pointers (.pointer w.base
        (.function (Text.tokens clause) false returned))))) := by
  obtain ⟨ops, hops, hread⟩ := hresult
  have hfunction := hread.function false (Text.balanced_flatten_tokens_iff.mpr hclause)
  have hlevels := hfunction.group.levels (ends_close _) (w.base :: w.pointers)
  have hdeclarator := (hlevels.reference (ends_close _) w.reference
    (head?_reverse_levelTokens_append (by simp))).extents w.extents
  refine ⟨ops ++ ['('] :: (levelTokens (w.base :: w.pointers) ++ w.reference.tokens), _, ?_, ?_,
    by simpa [Reading.pointTo] using hdeclarator⟩
  · rw [hw.tokens_declare, hops]
    simp
  · have hoperators : ∀ token ∈ ops, isOperator token = true :=
      fun token htoken => hread.isOperator token (List.mem_reverse.mpr htoken)
    rw [List.append_assoc, List.cons_append, List.append_assoc]
    exact front_callback hoperators _ _ _
      (stops_tokens_append hname (stops_extentTokens_append (stops_close _) _)) _

end Written

namespace Declarator

/-- The parameter clauses that are read are closed. -/
theorem Outward.balanced {specifier before after : List (List Char)} {t : Reading}
    (h : Outward specifier before after t) :
    ∀ clause ∈ t.clauses, Text.Balanced clause.flatten := by
  induction h with
  | specifier => exact List.forall_mem_nil _
  | function _ hclause _ ih => exact List.forall_mem_cons.mpr ⟨hclause, ih⟩
  | array _ _ ih | pointer _ _ _ ih | lvalue _ _ _ ih | rvalue _ _ ih | group _ ih => exact ih

end Declarator

/-- A clause that is not closed reads as no parameters of a function. -/
theorem Written.IsCallback.declares_layers_iff {w : Written} {result clause : List Char}
    {specifier : List (List Char)} {returned : Reading} {name : String}
    (hw : w.IsCallback result clause) (hresult : SpellsResult result specifier returned)
    (hname : IsDeclarable name.toList) :
    Declares specifier (Text.tokens name.toList) (w.declare name)
        (w.layers (.pointer w.base (.function (Text.tokens clause) false returned))) ↔
      (w.reference = .none ∨ w.extents = []) ∧ Text.Balanced clause := by
  constructor
  · intro h
    have hclause : Text.Balanced clause := by
      obtain ⟨before, after, -, -, houtward⟩ := h
      refine Text.balanced_flatten_tokens_iff.mp (houtward.balanced _ ?_)
      simp [layers, Reading.clauses]
    have hread := declares_unique (hw.declares hresult hclause hname) h
    exact ⟨Reading.arrayOf_refer_eq_iff.mp hread, hclause⟩
  · rintro ⟨hplain, hclause⟩
    have hread := hw.declares hresult hclause hname
    rwa [Reading.arrayOf_refer_eq_iff.mpr hplain] at hread

namespace CType

/-- A declaration with a function pointer, and its spelling, read as what is written for the pointer
unless a reference and extents are: then an array of references is declared. -/
theorem functionPointer_declares_iff (t : CType) (result clause : List Char)
    (specifier : List (List Char)) (returned : Reading) (name : String)
    (ht : t.written.IsCallback result clause)
    (hresult : Written.SpellsResult result specifier returned)
    (hname : IsDeclarable name.toList) :
    (Declares specifier (Text.tokens name.toList) (t.declare name)
        (t.written.layers
          (.pointer t.written.base (.function (Text.tokens clause) false returned))) ↔
      (t.reference = .none ∨ t.extents = []) ∧ Text.Balanced clause) ∧
    (Declares specifier [] t.spelling
        (t.written.layers
          (.pointer t.written.base (.function (Text.tokens clause) false returned))) ↔
      (t.reference = .none ∨ t.extents = []) ∧ Text.Balanced clause) :=
  ⟨ht.declares_layers_iff hresult hname,
    ht.declares_layers_iff hresult ⟨by decide, by decide, by decide⟩⟩

/-- `char *(*const *(&name))(int)` is read as it is meant. -/
theorem functionPointer_declares_of_reference :
    let t := plain
      { name := "char * (*)(int, void (*)(char))", category := .functionPointer
        base := ⟨true, false⟩, pointers := [{}], reference := .lvalue }
    t.declare "hook" = "char * (*const *&hook)(int, void (*)(char))" ∧
      Declares ["char".toList] ["hook".toList] (t.declare "hook")
        (.lvalue (.pointer {} (.pointer ⟨true, false⟩
          (.function (Text.tokens "int, void (*)(char)".toList) false
            (.pointer {} (.named ["char".toList])))))) := by
  intro t
  have ht : t.written.IsCallback "char *".toList "int, void (*)(char)".toList :=
    ⟨rfl, by decide, by decide⟩
  have hresult : Written.SpellsResult "char *".toList ["char".toList]
      (.pointer {} (.named ["char".toList])) :=
    ⟨[['*']], by decide, .pointer (by decide) (List.forall_mem_nil _) .specifier⟩
  exact ⟨by decide, (functionPointer_declares_iff t _ _ _ _ "hook" ht hresult (by decide)).1.mpr
    ⟨.inr rfl, by decide⟩⟩

/-- A reference to an array of function pointers is laid out as an array of references. -/
theorem functionPointer_declares_array_of_references :
    let t := plain
      { name := "void (*)(int)", category := .functionPointer, reference := .lvalue,
        extents := [some 4] }
    let callback : Reading := .pointer {} (.function ["int".toList] false (.named ["void".toList]))
    t.declare "cbs" = "void (*&cbs[4])(int)" ∧
      Declares ["void".toList] ["cbs".toList] (t.declare "cbs")
        (.array [['4']] (.lvalue callback)) ∧
      Declares ["void".toList] ["cbs".toList] "void (*(&cbs)[4])(int)"
        (.lvalue (.array [['4']] callback)) ∧
      ¬ Declares ["void".toList] ["cbs".toList] (t.declare "cbs")
        (.lvalue (.array [['4']] callback)) := by
  intro t callback
  have ht : t.written.IsCallback "void".toList "int".toList := ⟨rfl, by decide, by decide⟩
  have hresult : Written.SpellsResult "void".toList ["void".toList] (.named ["void".toList]) :=
    ⟨[], by decide, .specifier⟩
  have hread := ht.declares hresult (by decide) (by decide : IsDeclarable "cbs".toList)
  have hmeant : Outward ["void".toList] [['&'], ['('], ['*'], ['(']]
      [[')'], ['['], ['4'], [']'], [')'], ['('], "int".toList, [')']]
      (.lvalue (.array [['4']] callback)) := by
    have hfunction := (Outward.specifier : Outward ["void".toList] [] [] _).function false
      (by decide : Text.Balanced ["int".toList].flatten)
    have hpointer := hfunction.group.pointer (by decide) (List.forall_mem_nil _)
    exact .lvalue (by decide) (by decide) (hpointer.array (by decide : [']'] ∉ [['4']])).group
  refine ⟨by decide, hread, ⟨[['('], ['*'], ['('], ['&']], _, by decide, by decide, hmeant⟩, ?_⟩
  intro h
  cases declares_unique hread h

end CType

end Understudy
