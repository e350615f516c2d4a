import Mathlib.Data.List.Infix
import Understudy.Proofs.CType.Layout
import Understudy.Proofs.Rule.Grammar

/-! # Reading a declaration

A declaration is a specifier and a declarator. The declarator is read from the declared name
outwards: what stands after the name binds first, up to the end or to a parenthesis that is closed,
then what stands in front of it, back to the specifier or to the parenthesis that is opened. The
specifier says what is left. A declarator that declares no name has one place where a name could
stand.
-/

namespace Understudy

instance : DecidablePred Text.Balanced := fun text =>
  decidable_of_iff ((∀ before ∈ text.inits, before.count ')' ≤ before.count '(') ∧
      text.count ')' = text.count '(')
    ⟨fun h => ⟨fun before hbefore => h.1 before ((List.mem_inits _ _).mpr hbefore), h.2⟩,
      fun h => ⟨fun before hbefore => h.closed_le before ((List.mem_inits _ _).mp hbefore),
        h.closed_eq⟩⟩

/-- A type as a declaration says it, with what binds to the name first on the outside. -/
inductive Reading where
  | named (specifier : List (List Char))
  | pointer (cv : Cv) (pointee : Reading)
  | lvalue (referent : Reading)
  | rvalue (referent : Reading)
  | array (extent : List (List Char)) (element : Reading)
  | function (clause : List (List Char)) (isConst : Bool) (result : Reading)
  deriving DecidableEq, Repr

/-- The qualifiers among some tokens. -/
def Cv.ofTokens (tokens : List (List Char)) : Cv where
  isConst := tokens.any fun token => token = "const".toList
  isVolatile := tokens.any fun token => token = "volatile".toList

namespace Declarator

def isQualifier (token : List Char) : Bool := token = "const".toList || token = "volatile".toList

/-- Whether a token stands in front of a declared name by itself. -/
def isOperator (token : List Char) : Bool := token = ['*'] || token = ['&'] || isQualifier token

/-- The end of a declarator, or of one in parentheses. -/
def Ends (after : List (List Char)) : Prop := ∀ token, after.head? = some token → token = [')']

instance : DecidablePred Ends := fun after =>
  decidable_of_iff ((after.head?.all fun token => token = [')']) = true) (by
    cases after <;> simp [Ends])

/-- What a declarator says about its name, read outwards. `before` and `after` are the tokens on the
two sides that are not read yet, the nearest first. -/
inductive Outward (specifier : List (List Char)) :
    List (List Char) → List (List Char) → Reading → Prop
  | specifier : Outward specifier [] [] (.named specifier)
  | array {before extent after : List (List Char)} {t : Reading} (hextent : [']'] ∉ extent)
      (h : Outward specifier before after t) :
      Outward specifier before (['['] :: (extent ++ [']'] :: after)) (.array extent t)
  | function {before clause after : List (List Char)} {t : Reading} (isConst : Bool)
      (hclause : Text.Balanced clause.flatten) (h : Outward specifier before after t) :
      Outward specifier before
        (['('] :: (clause ++ [')'] :: ((if isConst then ["const".toList] else []) ++ after)))
        (.function clause isConst t)
  | pointer {before qualifiers after : List (List Char)} {t : Reading} (hends : Ends after)
      (hqualifiers : ∀ token ∈ qualifiers, isQualifier token = true)
      (h : Outward specifier before after t) :
      Outward specifier (qualifiers ++ ['*'] :: before) after (.pointer (Cv.ofTokens qualifiers) t)
  | lvalue {before after : List (List Char)} {t : Reading} (hends : Ends after)
      (hbefore : before.head? ≠ some ['&']) (h : Outward specifier before after t) :
      Outward specifier (['&'] :: before) after (.lvalue t)
  | rvalue {before after : List (List Char)} {t : Reading} (hends : Ends after)
      (h : Outward specifier before after t) :
      Outward specifier (['&'] :: ['&'] :: before) after (.rvalue t)
  | group {before after : List (List Char)} {t : Reading} (h : Outward specifier before after t) :
      Outward specifier (['('] :: before) ([')'] :: after) t

/-- Whether a parenthesis with `rest` after it holds a declarator, and not the parameters of a
function. -/
def opensGroup (name rest : List (List Char)) : Bool :=
  rest.head?.any fun token =>
    token = ['*'] || token = ['&'] || token = ['('] || token = ['['] || name.head? = some token

/-- The tokens of a declarator that stand in front of the declared name. -/
def front (name : List (List Char)) : List (List Char) → List (List Char)
  | [] => []
  | token :: rest =>
    if isOperator token || (token = ['('] && opensGroup name rest) then token :: front name rest
    else []

end Declarator

/-- A text with a specifier in front declares a name, and reads as a type. -/
def Declares (specifier name : List (List Char)) (text : String) (t : Reading) : Prop :=
  ∃ before after, Text.tokens text.toList = specifier ++ (before ++ (name ++ after)) ∧
    Declarator.front name (before ++ (name ++ after)) = before ∧
    Declarator.Outward specifier before.reverse after t

namespace Declarator

variable {specifier before after clause name rest : List (List Char)} {token : List Char}
  {t u : Reading}

/-! ## A declaration reads in one way -/

theorem Outward.head?_after (h : Outward specifier before after t)
    (hhead : after.head? = some token) : token = ['['] ∨ token = ['('] ∨ token = [')'] := by
  induction h with
  | specifier => cases hhead
  | array | function | group =>
      cases hhead
      simp
  | pointer hends | lvalue hends | rvalue hends => exact .inr (.inr (hends _ hhead))

/-- A parameter clause ends in one place. -/
theorem clause_append_inj {other more : List (List Char)} (hclause : Text.Balanced clause.flatten)
    (hother : Text.Balanced other.flatten)
    (h : clause ++ [')'] :: rest = other ++ [')'] :: more) : clause = other ∧ rest = more := by
  have hwithin {clause between rest more : List (List Char)}
      (hclause : Text.Balanced clause.flatten) (hlonger : Text.Balanced (clause ++ between).flatten)
      (h : [')'] :: rest = between ++ [')'] :: more) : between = [] := by
    cases between with
    | nil => rfl
    | cons token between =>
        -- The longer clause would close the parenthesis in front of it.
        exfalso
        obtain ⟨rfl, -⟩ := List.cons.inj h
        have hle := hlonger.closed_le (clause.flatten ++ [')']) ⟨between.flatten, by simp⟩
        rw [List.count_append, List.count_append, hclause.closed_eq] at hle
        exact absurd hle (Nat.not_succ_le_self _)
  rcases List.append_eq_append_iff.mp h with ⟨between, rfl, hrest⟩ | ⟨between, rfl, hrest⟩
  · obtain rfl := hwithin hclause hother hrest
    exact ⟨(List.append_nil clause).symm, (List.cons.inj hrest).2⟩
  · obtain rfl := hwithin hother hclause hrest
    exact ⟨List.append_nil other, (List.cons.inj hrest).2.symm⟩

/-- What ends at a mark ends at the first one. -/
theorem append_cons_inj_of_notMem {mark : List Char} {first second rest more : List (List Char)}
    (hfirst : mark ∉ first) (hsecond : mark ∉ second)
    (h : first ++ mark :: rest = second ++ mark :: more) : first = second ∧ rest = more := by
  have hcut {first rest : List (List Char)} (hfirst : mark ∉ first) :
      (first ++ mark :: rest).takeWhile (· ≠ mark) = first := by
    rw [List.takeWhile_append_of_pos fun token htoken => ?_, List.takeWhile_cons_of_neg (by simp),
      List.append_nil]
    exact decide_eq_true (ne_of_mem_of_not_mem htoken hfirst)
  obtain rfl : first = second := by rw [← hcut hfirst, h, hcut hsecond]
  exact ⟨rfl, (List.cons.inj (List.append_cancel_left h)).2⟩

theorem head?_qualifiers {qualifiers : List (List Char)}
    (hqualifiers : ∀ token ∈ qualifiers, isQualifier token = true)
    (hhead : (qualifiers ++ ['*'] :: before).head? = some token) :
    token = ['*'] ∨ isQualifier token = true := by
  cases qualifiers with
  | nil => exact .inl (Option.some.inj hhead).symm
  | cons first qualifiers =>
      obtain rfl := Option.some.inj hhead
      exact .inr (hqualifiers _ List.mem_cons_self)

/-! ### Each step is forced -/

theorem Outward.specifier_inv (h : Outward specifier [] [] t) : t = .named specifier := by
  generalize hb : ([] : List (List Char)) = b at h
  cases h <;> simp_all

theorem Outward.array_inv {extent : List (List Char)} (hextent : [']'] ∉ extent)
    (h : Outward specifier before (['['] :: (extent ++ [']'] :: after)) t) :
    ∃ u, t = .array extent u ∧ Outward specifier before after u := by
  generalize ha : ['['] :: (extent ++ [']'] :: after) = a at h
  cases h with
  | specifier => cases ha
  | array hother h =>
      obtain ⟨rfl, rfl⟩ := append_cons_inj_of_notMem hextent hother (List.cons.inj ha).2
      exact ⟨_, rfl, h⟩
  | function | group => cases (List.cons.inj ha).1
  | pointer hends | lvalue hends | rvalue hends =>
      subst ha
      cases hends _ rfl

theorem Outward.function_inv (hclause : Text.Balanced clause.flatten)
    (h : Outward specifier before (['('] :: (clause ++ [')'] :: rest)) t) :
    ∃ isConst after u, rest = (if isConst then ["const".toList] else []) ++ after ∧
      t = .function clause isConst u ∧ Outward specifier before after u := by
  generalize ha : ['('] :: (clause ++ [')'] :: rest) = a at h
  cases h with
  | specifier => cases ha
  | function isConst hother h =>
      obtain ⟨rfl, hrest⟩ := clause_append_inj hclause hother (List.cons.inj ha).2
      exact ⟨isConst, _, _, hrest, rfl, h⟩
  | array | group => cases (List.cons.inj ha).1
  | pointer hends | lvalue hends | rvalue hends =>
      subst ha
      cases hends _ rfl

theorem Outward.group_inv (h : Outward specifier (['('] :: before) ([')'] :: after) t) :
    Outward specifier before after t := by
  generalize hb : ['('] :: before = b at h
  cases h with
  | group h =>
      obtain ⟨-, rfl⟩ := List.cons.inj hb
      exact h
  | pointer _ hqualifiers =>
      have hhead := head?_qualifiers hqualifiers (congrArg List.head? hb).symm
      simp [isQualifier] at hhead
  | lvalue | rvalue => cases (List.cons.inj hb).1

theorem Outward.lvalue_inv (hends : Ends after) (hbefore : before.head? ≠ some ['&'])
    (h : Outward specifier (['&'] :: before) after t) :
    ∃ u, t = .lvalue u ∧ Outward specifier before after u := by
  generalize hb : ['&'] :: before = b at h
  cases h with
  | specifier => cases hb
  | array | function => cases hends _ rfl
  | lvalue _ _ h =>
      obtain ⟨-, rfl⟩ := List.cons.inj hb
      exact ⟨_, rfl, h⟩
  | rvalue =>
      obtain ⟨-, rfl⟩ := List.cons.inj hb
      exact absurd rfl hbefore
  | pointer _ hqualifiers =>
      have hhead := head?_qualifiers hqualifiers (congrArg List.head? hb).symm
      simp [isQualifier] at hhead
  | group => cases (List.cons.inj hb).1

theorem Outward.rvalue_inv (hends : Ends after)
    (h : Outward specifier (['&'] :: ['&'] :: before) after t) :
    ∃ u, t = .rvalue u ∧ Outward specifier before after u := by
  generalize hb : ['&'] :: ['&'] :: before = b at h
  cases h with
  | specifier => cases hb
  | array | function => cases hends _ rfl
  | lvalue _ hbefore =>
      obtain ⟨-, rfl⟩ := List.cons.inj hb
      exact absurd rfl hbefore
  | rvalue _ h =>
      obtain ⟨-, hb⟩ := List.cons.inj hb
      obtain ⟨-, rfl⟩ := List.cons.inj hb
      exact ⟨_, rfl, h⟩
  | pointer _ hqualifiers =>
      have hhead := head?_qualifiers hqualifiers (congrArg List.head? hb).symm
      simp [isQualifier] at hhead
  | group => cases (List.cons.inj hb).1

theorem Outward.pointer_inv {qualifiers : List (List Char)} (hends : Ends after)
    (hqualifiers : ∀ token ∈ qualifiers, isQualifier token = true)
    (h : Outward specifier (qualifiers ++ ['*'] :: before) after t) :
    ∃ u, t = .pointer (Cv.ofTokens qualifiers) u ∧ Outward specifier before after u := by
  have hstar {qualifiers : List (List Char)}
      (hqualifiers : ∀ token ∈ qualifiers, isQualifier token = true) : ['*'] ∉ qualifiers :=
    fun hmem => absurd (hqualifiers _ hmem) (by decide)
  generalize hb : qualifiers ++ ['*'] :: before = b at h
  cases h with
  | specifier => simp at hb
  | array | function => cases hends _ rfl
  | pointer _ hothers h =>
      obtain ⟨rfl, rfl⟩ := append_cons_inj_of_notMem (hstar hqualifiers) (hstar hothers) hb
      exact ⟨_, rfl, h⟩
  | lvalue | rvalue | group =>
      have hhead := head?_qualifiers hqualifiers (congrArg List.head? hb)
      simp [isQualifier] at hhead

/-- Nothing that is read after a name starts with the `const` of a member function. -/
theorem Outward.ne_const_append (h : Outward specifier before after t) (rest : List (List Char)) :
    after ≠ ["const".toList] ++ rest := by
  rintro rfl
  simpa using h.head?_after rfl

/-- What is left on the two sides reads in one way. -/
theorem Outward.unique (h : Outward specifier before after t)
    (h' : Outward specifier before after u) : t = u := by
  induction h generalizing u with
  | specifier => exact h'.specifier_inv.symm
  | array hextent _ ih =>
      obtain ⟨v, rfl, hv⟩ := h'.array_inv hextent
      rw [ih hv]
  | function isConst hclause h ih =>
      obtain ⟨isConst', after', v, hafter, rfl, hv⟩ := h'.function_inv hclause
      obtain ⟨rfl, rfl⟩ := Text.optional_append_inj h.ne_const_append hv.ne_const_append hafter
      rw [ih hv]
  | pointer hends hqualifiers _ ih =>
      obtain ⟨v, rfl, hv⟩ := h'.pointer_inv hends hqualifiers
      rw [ih hv]
  | lvalue hends hbefore _ ih =>
      obtain ⟨v, rfl, hv⟩ := h'.lvalue_inv hends hbefore
      rw [ih hv]
  | rvalue hends _ ih =>
      obtain ⟨v, rfl, hv⟩ := h'.rvalue_inv hends
      rw [ih hv]
  | group _ ih => exact ih h'.group_inv

theorem declares_unique {text : String} (h : Declares specifier name text t)
    (h' : Declares specifier name text u) : t = u := by
  obtain ⟨before, after, htext, hfront, h⟩ := h
  obtain ⟨before', after', htext', hfront', h'⟩ := h'
  have hdeclarator := List.append_cancel_left (htext.symm.trans htext')
  obtain rfl : before = before' := by rw [← hfront, hdeclarator, hfront']
  obtain rfl := List.append_cancel_left (List.append_cancel_left hdeclarator)
  exact h.unique h'

end Declarator

end Understudy
