import Mathlib.Data.List.Forall2
import Mathlib.Data.List.TakeWhile
import Understudy.Declaration
import Understudy.Proofs.CType.Layout

/-! # Declarations say one thing

The layout of a declaration leaves out what is not there and puts the declared name in four
different places. Still the text can be taken apart in one way only: the base name reaches to the
first mark or to the declared name, a pointer level to the next level or a space, and what is left
shows the reference and the extents. So two types that are spelled alike are written alike.
-/

namespace Understudy

/-- Whether a base name can hold a character: those of identifiers, colons and spaces. -/
def isBaseChar (c : Char) : Bool := Text.isWordChar c || c = ':' || c = ' '

/-- A base name of identifiers, colons and spaces, with no qualifier among its words. -/
structure IsBaseName (name : List Char) : Prop where
  chars : ∀ c ∈ name, isBaseChar c = true
  notConst : "const".toList ∉ name.splitOn ' '
  notVolatile : "volatile".toList ∉ name.splitOn ' '

instance : DecidablePred IsBaseName := fun name =>
  decidable_of_iff (name.all isBaseChar = true ∧ "const".toList ∉ name.splitOn ' ' ∧
      "volatile".toList ∉ name.splitOn ' ')
    ⟨fun h => ⟨List.all_eq_true.mp h.1, h.2.1, h.2.2⟩,
      fun h => ⟨List.all_eq_true.mpr h.chars, h.notConst, h.notVolatile⟩⟩

/-- An identifier that is no qualifier, or the empty name. -/
structure IsDeclarable (name : List Char) : Prop where
  isWord : Text.IsWord name
  ne_const : name ≠ "const".toList
  ne_volatile : name ≠ "volatile".toList

instance : DecidablePred IsDeclarable := fun name =>
  decidable_of_iff (Text.IsWord name ∧ name ≠ "const".toList ∧ name ≠ "volatile".toList)
    ⟨fun h => ⟨h.1, h.2.1, h.2.2⟩, fun h => ⟨h.isWord, h.ne_const, h.ne_volatile⟩⟩

namespace Written

variable {w v : Written} {first second rest more : List Char}

/-! ## The base name -/

theorem ne_word_append {name word : List Char} (h : word ∉ name.splitOn ' ') (hword : ' ' ∉ word)
    (rest : List Char) : name ≠ word ++ ' ' :: rest := by
  rintro rfl
  rw [List.splitOn_append_cons_self_of_not_mem hword] at h
  exact h List.mem_cons_self

/-- The qualifiers in front of a base name can be told from it. -/
theorem qualifiedName_inj (hw : IsBaseName w.name.toList) (hv : IsBaseName v.name.toList)
    (h : w.qualifiedName = v.qualifiedName) : w.base = v.base ∧ w.name = v.name := by
  have hconst {u : Written} (hu : IsBaseName u.name.toList) (rest : List Char) :
      (if u.base.isVolatile then "volatile ".toList else []) ++ u.name.toList ≠
        "const ".toList ++ rest := by
    split
    · simp
    · simpa using ne_word_append hu.notConst (by decide) rest
  have hvolatile {u : Written} (hu : IsBaseName u.name.toList) (rest : List Char) :
      u.name.toList ≠ "volatile ".toList ++ rest := by
    simpa using ne_word_append hu.notVolatile (by decide) rest
  obtain ⟨hisConst, h⟩ := Text.optional_append_inj (hconst hw) (hconst hv) h
  obtain ⟨hisVolatile, h⟩ := Text.optional_append_inj (hvolatile hw) (hvolatile hv) h
  exact ⟨congrArg₂ Cv.mk hisConst hisVolatile, String.toList_inj.mp h⟩

/-- What may follow a base name: nothing if no name is declared, or a space and then a mark, or a
space and the declared name, which has no space after it. -/
def FollowsName (isNamed : Bool) (rest : List Char) : Prop :=
  rest = [] ∧ isNamed = false ∨
    ∃ more, rest = ' ' :: more ∧
      ((∃ c, more.head? = some c ∧ isBaseChar c = false) ∨ isNamed = true ∧ ' ' ∉ more)

/-- No more base name can stand in front of what follows one. -/
theorem FollowsName.eq_nil {isNamed : Bool} (hfirst : ∀ c ∈ first, isBaseChar c = true)
    (h : FollowsName isNamed (first ++ rest)) (hrest : FollowsName isNamed rest) : first = [] := by
  cases first with
  | nil => rfl
  | cons c first =>
      exfalso
      rcases h with ⟨hnil, -⟩ | ⟨more, hmore, h⟩
      · cases hnil
      · obtain ⟨-, rfl⟩ := List.cons.inj hmore
        rcases h with ⟨d, hd, hmark⟩ | ⟨rfl, hspace⟩
        · -- A mark comes right after the space, and there is none in a base name.
          cases first with
          | nil =>
              rcases hrest with ⟨rfl, -⟩ | ⟨more, rfl, -⟩
              · cases hd
              · cases hd
                exact absurd hmark (by decide)
          | cons e first =>
              cases hd
              rw [hfirst d (by simp)] at hmark
              cases hmark
        · rcases hrest with ⟨-, hnamed⟩ | ⟨more, rfl, -⟩
          · cases hnamed
          · exact hspace (by simp)

/-- A base name ends in one place. -/
theorem append_followsName_inj {isNamed : Bool} {name other : List Char}
    (hname : ∀ c ∈ name, isBaseChar c = true) (hother : ∀ c ∈ other, isBaseChar c = true)
    (hrest : FollowsName isNamed rest) (hmore : FollowsName isNamed more)
    (h : name ++ rest = other ++ more) : name = other ∧ rest = more := by
  rcases List.append_eq_append_iff.mp h with ⟨between, rfl, rfl⟩ | ⟨between, rfl, rfl⟩
  · have hnil := FollowsName.eq_nil (fun c hc => hother c (List.mem_append_right _ hc)) hrest hmore
    simp [hnil]
  · have hnil := FollowsName.eq_nil (fun c hc => hname c (List.mem_append_right _ hc)) hmore hrest
    simp [hnil]

theorem isBaseChar_of_mem_qualifiedName (hw : IsBaseName w.name.toList) :
    ∀ c ∈ w.qualifiedName, isBaseChar c = true := by
  intro c hc
  simp only [qualifiedName, List.mem_append] at hc
  rcases hc with hc | hc | hc
  · split at hc
    · exact List.all_eq_true.mp (by decide) c hc
    · cases hc
  · split at hc
    · exact List.all_eq_true.mp (by decide) c hc
    · cases hc
  · exact hw.chars c hc

/-! ## Pointer levels -/

/-- What may follow a pointer level: nothing, a space with no `volatile` after it, or the next
level. -/
structure FollowsLevel (rest : List Char) : Prop where
  head : ∀ c, rest.head? = some c → c = ' ' ∨ c = '*'
  word : ∀ more, rest = ' ' :: more → more.takeWhile Text.isWordChar ≠ "volatile".toList

/-- What may follow the last pointer level. -/
structure FollowsLevels (rest : List Char) : Prop extends FollowsLevel rest where
  star : rest.head? ≠ some '*'
  spaceStar : ∀ more, rest = ' ' :: more → more.head? ≠ some '*'

theorem FollowsLevels.pointersSpelling (h : FollowsLevels rest) (afterWord : Bool)
    (levels : List Cv) :
    FollowsLevel ((pointersSpelling afterWord levels).toList ++ rest) := by
  cases levels with
  | nil => exact h.toFollowsLevel
  | cons level levels =>
      rw [toList_pointersSpelling_cons]
      cases afterWord with
      | true =>
          refine ⟨by simp, fun more hmore => ?_⟩
          rw [if_pos rfl, List.singleton_append, List.cons_append, List.cons_append] at hmore
          rw [← (List.cons.inj hmore).2, List.takeWhile_cons_of_neg (by decide)]
          decide
      | false => exact ⟨by simp, by simp⟩

/-- The `volatile` of a pointer level, after its `const` if it has that. -/
def volatileText (isConst : Bool) : List Char :=
  (if isConst then [' '] else []) ++ "volatile".toList

theorem toList_spelling (cv : Cv) : cv.spelling.toList =
    (if cv.isConst then "const".toList else []) ++
      if cv.isVolatile then volatileText cv.isConst else [] := by
  obtain ⟨isConst, isVolatile⟩ := cv
  cases isConst <;> cases isVolatile <;> decide

/-- What follows a pointer level starts with none of its qualifiers. -/
theorem FollowsLevel.ne_append (hrest : FollowsLevel rest) (hmore : FollowsLevel more)
    (isConst : Bool) : rest ≠ volatileText isConst ++ more := by
  rintro rfl
  cases isConst with
  | false => exact absurd (hrest.head 'v' rfl) (by decide)
  | true =>
      refine hrest.word _ rfl (Text.takeWhile_append_of_isWord (by decide) fun c hc => ?_)
      rcases hmore.head c hc with rfl | rfl <;> decide

/-- The qualifiers of a pointer level can be told from what follows it. -/
theorem spelling_append_inj {level other : Cv} (hrest : FollowsLevel rest)
    (hmore : FollowsLevel more)
    (h : level.spelling.toList ++ rest = other.spelling.toList ++ more) :
    level = other ∧ rest = more := by
  have hconst {rest : List Char} (hrest : FollowsLevel rest) (cv : Cv) (others : List Char) :
      (if cv.isVolatile then volatileText cv.isConst else []) ++ rest ≠
        "const".toList ++ others := by
    intro heq
    have hhead := congrArg List.head? heq
    split at hhead
    · cases hisConst : cv.isConst <;> rw [hisConst] at hhead <;> cases hhead
    · exact absurd (hrest.head 'c' hhead) (by decide)
  simp only [toList_spelling, List.append_assoc] at h
  obtain ⟨hisConst, h⟩ := Text.optional_append_inj (hconst hrest level) (hconst hmore other) h
  rw [hisConst] at h
  obtain ⟨isConst, isVolatile⟩ := level
  obtain ⟨isConst', isVolatile'⟩ := other
  cases isVolatile with
  | false =>
      cases isVolatile' with
      | false => exact ⟨congrArg₂ Cv.mk hisConst rfl, h⟩
      | true => exact absurd h (hrest.ne_append hmore _)
  | true =>
      cases isVolatile' with
      | false => exact absurd h.symm (hmore.ne_append hrest _)
      | true => exact ⟨congrArg₂ Cv.mk hisConst rfl, List.append_cancel_left h⟩

/-- The pointer levels can be told from what follows them. -/
theorem pointersSpelling_append_inj {afterWord : Bool} {levels others : List Cv}
    (hrest : FollowsLevels rest) (hmore : FollowsLevels more)
    (h : (pointersSpelling afterWord levels).toList ++ rest =
      (pointersSpelling afterWord others).toList ++ more) : levels = others ∧ rest = more := by
  have hno {rest tail : List Char} (hrest : FollowsLevels rest) (afterWord : Bool) :
      rest ≠ (if afterWord then [' '] else []) ++ '*' :: tail := by
    rintro rfl
    cases afterWord with
    | false => exact hrest.star rfl
    | true => exact hrest.spaceStar _ rfl rfl
  induction levels generalizing afterWord others with
  | nil =>
      cases others with
      | nil => exact ⟨rfl, h⟩
      | cons other others =>
          rw [toList_pointersSpelling_cons, List.append_assoc, List.cons_append] at h
          exact absurd h (hno hrest afterWord)
  | cons level levels ih =>
      cases others with
      | nil =>
          rw [toList_pointersSpelling_cons, List.append_assoc, List.cons_append] at h
          exact absurd h.symm (hno hmore afterWord)
      | cons other others =>
          rw [toList_pointersSpelling_cons, toList_pointersSpelling_cons, List.append_assoc,
            List.append_assoc, List.append_cancel_left_eq, List.cons_append, List.cons_append,
            List.cons.injEq, List.append_assoc, List.append_assoc] at h
          obtain ⟨rfl, h⟩ := spelling_append_inj (hrest.pointersSpelling _ levels)
            (hmore.pointersSpelling _ others) h.2
          obtain ⟨rfl, hafter⟩ := ih h
          exact ⟨rfl, hafter⟩

/-! ## The declared name and what is around it -/

/-- A word can be told from what stands in front of it and after it. -/
theorem append_word_append_inj {name other : List Char}
    (hfirst : ∀ c ∈ first, Text.isWordChar c = false)
    (hsecond : ∀ c ∈ second, Text.isWordChar c = false)
    (hname : name ≠ []) (hother : other ≠ []) (hnameWord : Text.IsWord name)
    (hotherWord : Text.IsWord other) (hrest : Text.EndsWord rest) (hmore : Text.EndsWord more)
    (h : first ++ (name ++ rest) = second ++ (other ++ more)) :
    first = second ∧ name = other ∧ rest = more := by
  have htake {front name rest : List Char} (hfront : ∀ c ∈ front, Text.isWordChar c = false)
      (hname : name ≠ []) (hword : Text.IsWord name) :
      (front ++ (name ++ rest)).takeWhile (fun c => !Text.isWordChar c) = front := by
    obtain ⟨c, tail, rfl⟩ := List.exists_cons_of_ne_nil hname
    rw [List.takeWhile_append_of_pos (by simpa using hfront), List.cons_append,
      List.takeWhile_cons_of_neg (by simp [hword c List.mem_cons_self]), List.append_nil]
  have hfront : first = second := by
    rw [← htake hfirst hname hnameWord, h, htake hsecond hother hotherWord]
  subst hfront
  have hafter := List.append_cancel_left h
  have hnames : name = other := by
    rw [← Text.takeWhile_append_of_isWord hnameWord hrest, hafter,
      Text.takeWhile_append_of_isWord hotherWord hmore]
  subst hnames
  exact ⟨rfl, rfl, List.append_cancel_left hafter⟩

theorem flatMap_digits_inj {extents others : List Extent}
    (h : (extents.flatMap fun e => '[' :: (Extent.digits e ++ [']'])) =
      others.flatMap fun e => '[' :: (Extent.digits e ++ [']'])) : extents = others := by
  induction extents generalizing others with
  | nil =>
      cases others with
      | nil => rfl
      | cons other others => cases h
  | cons extent extents ih =>
      cases others with
      | nil => cases h
      | cons other others =>
          rw [List.flatMap_cons, List.flatMap_cons, List.cons_append, List.cons_append,
            List.cons.injEq, List.append_assoc, List.append_assoc] at h
          have hcut (extent : Extent) (rest : List Char) :
              Text.cut ']' (extent.digits ++ ([']'] ++ rest)) = some (extent.digits, rest) :=
            Text.cut_eq_some_iff.mpr ⟨rfl, extent.isWord_digits.notMem (by decide)⟩
          have hparts := hcut extent (extents.flatMap fun e => '[' :: (Extent.digits e ++ [']']))
          rw [h.2, hcut other, Option.some.injEq, Prod.mk.injEq] at hparts
          rw [ih hparts.2.symm, Extent.digits_injective hparts.1]

theorem notWord_of_mem_beforeName {isNamed : Bool} :
    ∀ c ∈ w.beforeName isNamed, Text.isWordChar c = false := by
  intro c hc
  suffices hmark : c = ' ' ∨ c = '(' ∨ c = '&' by
    rcases hmark with rfl | rfl | rfl <;> decide
  have hreference : c ∈ w.reference.spelling.toList → c = '&' := by
    cases w.reference <;> simp [Reference.spelling]
  unfold beforeName at hc
  split at hc <;> split at hc <;> cases isNamed <;> simp at hc <;> tauto

theorem endsWord_afterName (w : Written) : Text.EndsWord w.afterName := by
  intro c hc
  rw [afterName, toList_extentsSpelling] at hc
  cases hextents : w.extents with
  | nil => simp [hextents] at hc
  | cons extent extents =>
      by_cases hreference : w.reference = .none
      all_goals
        simp only [hextents, hreference] at hc
        cases hc
        decide

/-- What is around the declared name shows the reference and the extents. -/
theorem around_inj {isNamed : Bool}
    (h : w.beforeName isNamed ++ w.afterName = v.beforeName isNamed ++ v.afterName) :
    w.reference = v.reference ∧ w.extents = v.extents := by
  simp only [beforeName, afterName, toList_extentsSpelling] at h
  generalize w.reference = reference, v.reference = other, w.extents = extents,
    v.extents = others at h ⊢
  cases extents with
  | nil =>
      cases others with
      | nil =>
          cases reference <;> cases other <;> cases isNamed <;> simp [Reference.spelling] at h ⊢
      | cons extent others =>
          cases reference <;> cases other <;> cases isNamed <;> simp [Reference.spelling] at h
  | cons extent extents =>
      cases others with
      | nil => cases reference <;> cases other <;> cases isNamed <;> simp [Reference.spelling] at h
      | cons extent' others =>
          refine ⟨?_, flatMap_digits_inj ?_⟩
          · cases reference <;> cases other <;> simp [Reference.spelling] at h ⊢
          · cases reference <;> cases other <;> simp [Reference.spelling] at h ⊢ <;> exact h

/-- After the pointer levels there is nothing more, or a space and then a mark or the name. -/
theorem namePart_cases (w : Written) (name : List Char) :
    w.namePart name = [] ∧ name = [] ∨
      ∃ more, w.namePart name = ' ' :: more ∧
        ((∃ c, more.head? = some c ∧ (c = '&' ∨ c = '(' ∨ c = '[')) ∨
          name ≠ [] ∧ more = name ++ w.afterName) := by
  have hafter : w.extents ≠ [] → w.reference = .none → w.afterName.head? = some '[' := by
    intro hextents hreference
    obtain ⟨extent, extents, hcons⟩ := List.exists_cons_of_ne_nil hextents
    simp [afterName, toList_extentsSpelling, hcons, hreference]
  by_cases hextents : w.extents = []
  · have hnone : w.afterName = [] := by simp [afterName, toList_extentsSpelling, hextents]
    cases hreference : w.reference with
    | none =>
        by_cases hname : name = []
        · exact .inl ⟨by simp [namePart, beforeName, hextents, hreference, hname, hnone], hname⟩
        · exact .inr ⟨_, by simp [namePart, beforeName, hextents, hreference, hname],
            .inr ⟨hname, rfl⟩⟩
    | lvalue | rvalue =>
        refine .inr ⟨_, by rw [namePart, beforeName, if_pos hextents, hreference]; rfl, .inl ?_⟩
        exact ⟨'&', rfl, .inl rfl⟩
  · by_cases hreference : w.reference = .none
    · refine .inr ⟨name ++ w.afterName, by simp [namePart, beforeName, hextents, hreference], ?_⟩
      by_cases hname : name = []
      · rw [hname, List.nil_append]
        exact .inl ⟨'[', hafter hextents hreference, .inr (.inr rfl)⟩
      · exact .inr ⟨hname, rfl⟩
    · have hpart : w.namePart name =
          ' ' :: ('(' :: w.reference.spelling.toList ++ (name ++ w.afterName)) := by
        rw [namePart, beforeName, if_neg hextents, if_neg hreference]
        rfl
      refine .inr ⟨_, hpart, .inl ?_⟩
      exact ⟨'(', rfl, .inr (.inl rfl)⟩

variable {name other : List Char}

theorem notMem_afterName (w : Written) : ' ' ∉ w.afterName := by
  have hspace (e : Extent) : ' ' ∉ e.digits := e.isWord_digits.notMem (by decide)
  rw [afterName, toList_extentsSpelling]
  split <;> simp [hspace]

theorem followsLevels_namePart (w : Written) (hname : IsDeclarable name) :
    FollowsLevels (w.namePart name) := by
  rcases w.namePart_cases name with ⟨hnil, -⟩ | ⟨more, hmore, h⟩
  · rw [hnil]
    exact ⟨⟨by simp, by simp⟩, by simp, by simp⟩
  · -- Neither a mark nor the declared name is a `*` or a `volatile`.
    have hstop : more.takeWhile Text.isWordChar ≠ "volatile".toList ∧ more.head? ≠ some '*' := by
      rcases h with ⟨c, hc, hmark⟩ | ⟨hne, rfl⟩
      · obtain ⟨rest, rfl⟩ := List.head?_eq_some_iff.mp hc
        rcases hmark with rfl | rfl | rfl <;> exact ⟨by simp [Text.isWordChar], by simp⟩
      · obtain ⟨c, rest, rfl⟩ := List.exists_cons_of_ne_nil hne
        rw [Text.takeWhile_append_of_isWord hname.isWord w.endsWord_afterName]
        refine ⟨hname.ne_volatile, fun hstar => ?_⟩
        cases hstar
        exact absurd (hname.isWord '*' List.mem_cons_self) (by decide)
    rw [hmore]
    refine ⟨⟨?_, ?_⟩, by simp, ?_⟩
    · rintro _ ⟨⟩
      exact .inl rfl
    · rintro _ ⟨⟩
      exact hstop.1
    · rintro _ ⟨⟩
      exact hstop.2

theorem followsName_append (w : Written) (hname : IsDeclarable name) :
    FollowsName (!name.isEmpty) ((pointersSpelling true w.pointers).toList ++ w.namePart name) := by
  cases w.pointers with
  | cons level levels =>
      rw [toList_pointersSpelling_cons]
      exact .inr ⟨_, rfl, .inl ⟨'*', rfl, by decide⟩⟩
  | nil =>
      change FollowsName _ (w.namePart name)
      rcases w.namePart_cases name with ⟨hnil, rfl⟩ | ⟨more, hmore, h⟩
      · exact .inl ⟨hnil, rfl⟩
      · refine .inr ⟨more, hmore, ?_⟩
        rcases h with ⟨c, hc, hmark⟩ | ⟨hne, rfl⟩
        · refine .inl ⟨c, hc, ?_⟩
          rcases hmark with rfl | rfl | rfl <;> decide
        · refine .inr ⟨by simpa using hne, ?_⟩
          rw [List.mem_append, not_or]
          exact ⟨hname.isWord.notMem (by decide), w.notMem_afterName⟩

/-- The declared name, the reference and the extents can be told apart. -/
theorem namePart_inj (hname : Text.IsWord name) (hother : Text.IsWord other)
    (hboth : name = [] ↔ other = []) (h : w.namePart name = v.namePart other) :
    name = other ∧ w.reference = v.reference ∧ w.extents = v.extents := by
  by_cases hnil : name = []
  · rw [hnil, hboth.mp hnil] at h
    exact ⟨hnil.trans (hboth.mp hnil).symm, around_inj h⟩
  · have hnil' : other ≠ [] := mt hboth.mpr hnil
    simp only [namePart, List.isEmpty_eq_false_iff.mpr hnil,
      List.isEmpty_eq_false_iff.mpr hnil'] at h
    obtain ⟨hbefore, rfl, hafter⟩ := append_word_append_inj notWord_of_mem_beforeName
      notWord_of_mem_beforeName hnil hnil' hname hother w.endsWord_afterName v.endsWord_afterName h
    exact ⟨rfl, around_inj (by rw [hbefore, hafter])⟩

/-! ## Declarations -/

/-- The same in every part that a declaration shows. -/
structure WrittenAlike (w v : Written) : Prop where
  name : w.name = v.name
  base : w.base = v.base
  pointers : w.pointers = v.pointers
  reference : w.reference = v.reference
  extents : w.extents = v.extents

/-- No function pointer, with a base name that a declaration can be taken apart from. -/
structure IsPlainlyNamed (w : Written) : Prop where
  ordinary : w.category ≠ .functionPointer
  baseName : IsBaseName w.name.toList

theorem declare_inj {name other : String} (hw : w.IsPlainlyNamed) (hv : v.IsPlainlyNamed)
    (hname : IsDeclarable name.toList) (hother : IsDeclarable other.toList)
    (hboth : name = "" ↔ other = "") (h : w.declare name = v.declare other) :
    name = other ∧ w.WrittenAlike v := by
  have hnil (name : String) : name.toList = [] ↔ name = "" := by simp
  have htext := congrArg String.toList h
  rw [declare_of_ordinary hw.ordinary, declare_of_ordinary hv.ordinary, toList_declareOrdinary,
    toList_declareOrdinary] at htext
  have hnamed : other.toList.isEmpty = name.toList.isEmpty := by
    rw [Bool.eq_iff_iff, List.isEmpty_iff, List.isEmpty_iff, hnil, hnil, hboth]
  have hfollows := v.followsName_append hother
  rw [hnamed] at hfollows
  obtain ⟨hbase, hrest⟩ := append_followsName_inj (isBaseChar_of_mem_qualifiedName hw.baseName)
    (isBaseChar_of_mem_qualifiedName hv.baseName) (w.followsName_append hname) hfollows htext
  obtain ⟨hcv, hbaseName⟩ := qualifiedName_inj hw.baseName hv.baseName hbase
  obtain ⟨hpointers, hpart⟩ := pointersSpelling_append_inj (w.followsLevels_namePart hname)
    (v.followsLevels_namePart hother) hrest
  obtain ⟨heq, hreference, hextents⟩ := namePart_inj hname.isWord hother.isWord
    (by rw [hnil, hnil, hboth]) hpart
  exact ⟨String.toList_inj.mp heq, hbaseName, hcv, hpointers, hreference, hextents⟩

/-- Spellings are declarations of the empty name, and take apart in the same way. -/
theorem spelling_inj {t u : CType} (ht : t.written.IsPlainlyNamed) (hu : u.written.IsPlainlyNamed)
    (h : t.spelling = u.spelling) : t.written.WrittenAlike u.written :=
  have hempty : IsDeclarable "".toList := ⟨by decide, by decide, by decide⟩
  (declare_inj ht hu hempty hempty Iff.rfl h).2

end Written

/-- The same text declares the same name with a type that is written alike. Types that are spelled
alike are written alike, so that what redeclares a function has parameters that are written as the
function's own. -/
theorem declarations_unambiguous :
    (∀ (t u : CType) (name other : String), t.written.IsPlainlyNamed → u.written.IsPlainlyNamed →
        IsDeclarable name.toList → IsDeclarable other.toList → (name = "" ↔ other = "") →
        t.declare name = u.declare other →
          name = other ∧ t.written.WrittenAlike u.written) ∧
      (∀ t u : CType, t.written.IsPlainlyNamed → u.written.IsPlainlyNamed →
        t.spelling = u.spelling → t.written.WrittenAlike u.written) ∧
      ∀ d e : Declaration, (∀ p ∈ d.parameters, p.type.written.IsPlainlyNamed) →
        (∀ p ∈ e.parameters, p.type.written.IsPlainlyNamed) → d.redeclares e = true →
          List.Forall₂ (fun p q => p.type.written.WrittenAlike q.type.written)
            d.parameters e.parameters := by
  refine ⟨fun t u name other ht hu hname hother hboth =>
    Written.declare_inj ht hu hname hother hboth,
    fun t u => Written.spelling_inj, fun d e hd he h => ?_⟩
  have hspellings : d.spellings = e.spellings := by
    simp only [Declaration.redeclares, Bool.and_eq_true, decide_eq_true_eq] at h
    exact h.2
  have hpairs : List.Forall₂ (fun p q : Parameter => p.type.spelling = q.type.spelling)
      d.parameters e.parameters := by
    rwa [Declaration.spellings, Declaration.spellings, ← List.forall₂_eq_eq_eq,
      List.forall₂_map_left_iff, List.forall₂_map_right_iff] at hspellings
  obtain ⟨hlength, hspelled⟩ := List.forall₂_iff_zip.mp hpairs
  refine List.forall₂_iff_zip.mpr ⟨hlength, fun {p q} hpair => ?_⟩
  obtain ⟨hp, hq⟩ := List.of_mem_zip hpair
  exact Written.spelling_inj (hd p hp) (he q hq) (hspelled hpair)

/-- Whether the definition of the class is visible is not written, and all the rest is. -/
theorem declarations_unambiguous_points :
    let points : Written :=
      { name := "geo::Point", category := .record, base := ⟨true, false⟩
        pointers := [⟨true, true⟩], reference := .lvalue, extents := [some 4, none] }
    let t := CType.plain points
    let u := CType.plain { points with category := .incomplete }
    let d : Declaration :=
      { qualifiedName := "f", parameters := [⟨"a", 0, t⟩, ⟨"b", 1, u⟩], returnType := CType.void }
    let e : Declaration :=
      { qualifiedName := "f", parameters := [⟨"p", 0, u⟩, ⟨"q", 1, t⟩], returnType := CType.void }
    (t.declare "pts" = "const geo::Point *const volatile (&pts)[4][]" ∧
        t.written.WrittenAlike u.written) ∧
      t.spelling = u.spelling ∧ d.redeclares e = true ∧
        List.Forall₂ (fun p q => p.type.written.WrittenAlike q.type.written)
          d.parameters e.parameters := by
  intro points t u d e
  have hbase : IsBaseName points.name.toList := by decide
  have ht : t.written.IsPlainlyNamed := ⟨by decide, hbase⟩
  have hu : u.written.IsPlainlyNamed := ⟨by decide, hbase⟩
  have hname : IsDeclarable "pts".toList := by decide
  have hredeclares : d.redeclares e = true := by decide
  exact ⟨⟨by decide, (declarations_unambiguous.1 t u "pts" "pts" ht hu hname hname Iff.rfl rfl).2⟩,
    rfl, hredeclares, declarations_unambiguous.2.2 d e (by simp [d, ht, hu]) (by simp [e, ht, hu])
      hredeclares⟩

end Understudy
