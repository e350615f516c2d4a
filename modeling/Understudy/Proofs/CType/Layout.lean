import Mathlib.Data.List.Basic
import Understudy.CType.Spelling
import Understudy.Proofs.Text.TokenSequence

/-! # The layout of a declaration

In the usual layout a declaration is its specifiers with the pointer levels, then the declared name
with something in front of it and something after it. Which of these parts a character belongs to
can be told from the marks around it.
-/

namespace Understudy

/-- Something in front that may be left out can be told from what never starts like it. -/
theorem Text.optional_append_inj {α : Type} {start first second : List α} {given given' : Bool}
    (hfirst : ∀ rest, first ≠ start ++ rest) (hsecond : ∀ rest, second ≠ start ++ rest)
    (h : (if given then start else []) ++ first = (if given' then start else []) ++ second) :
    given = given' ∧ first = second := by
  cases given with
  | false =>
      cases given' with
      | false => exact ⟨rfl, h⟩
      | true => exact absurd h (hfirst second)
  | true =>
      cases given' with
      | false => exact absurd h.symm (hsecond first)
      | true => exact ⟨rfl, List.append_cancel_left h⟩

namespace Extent

/-- The number of elements as it is written, or nothing for `[]`. -/
def digits (extent : Extent) : List Char := extent.elim [] fun count => Nat.toDigits 10 count.toNat

theorem toList_spelling (extent : Extent) :
    (spelling extent).toList = '[' :: (extent.digits ++ [']']) := by
  cases extent with
  | none => rfl
  | some count => simp [spelling, digits]

theorem isWord_digits (extent : Extent) : Text.IsWord extent.digits := by
  cases extent with
  | none => exact List.forall_mem_nil _
  | some count => exact Text.isWord_toDigits count.toNat

theorem digits_injective : Function.Injective digits := by
  intro extent other h
  cases extent with
  | none =>
      cases other with
      | none => rfl
      | some count => exact absurd h.symm Nat.toDigits_ne_nil
  | some count =>
      cases other with
      | none => exact absurd h Nat.toDigits_ne_nil
      | some number =>
          have hvalue : count.toNat = number.toNat :=
            calc
              count.toNat = Nat.ofDigitChars 10 (digits (some count)) 0 :=
                Nat.ofDigitChars_ten_toDigits.symm
              _ = Nat.ofDigitChars 10 (digits (some number)) 0 := by rw [h]
              _ = number.toNat := Nat.ofDigitChars_ten_toDigits
          exact congrArg some (UInt64.toNat_inj.mp hvalue)

end Extent

namespace Written

variable (w : Written)

/-- The qualifiers in front of the base name, and the base name. -/
def qualifiedName : List Char :=
  (if w.base.isConst then "const ".toList else []) ++
    ((if w.base.isVolatile then "volatile ".toList else []) ++ w.name.toList)

/-- What stands between the pointer levels and the declared name, if a name is declared. -/
def beforeName (isNamed : Bool) : List Char :=
  if w.extents = [] then
    (if w.reference = .none then [] else ' ' :: w.reference.spelling.toList) ++
      if isNamed then [' '] else []
  else ' ' :: if w.reference = .none then [] else '(' :: w.reference.spelling.toList

/-- What follows the declared name. -/
def afterName : List Char :=
  (if w.extents = [] ∨ w.reference = .none then [] else [')']) ++ w.extentsSpelling.toList

/-- What stands around the declared name, with the name. -/
def namePart (name : List Char) : List Char :=
  w.beforeName (!name.isEmpty) ++ (name ++ w.afterName)

theorem declare_of_ordinary {w : Written} (hcategory : w.category ≠ .functionPointer)
    (name : String) : w.declare name = w.declareOrdinary name := by
  rw [declare, callback?, if_neg hcategory]

theorem toList_specifier :
    w.specifier.toList = w.qualifiedName ++ (pointersSpelling true w.pointers).toList := by
  unfold specifier qualifiedName
  simp only [String.toList_append, List.append_assoc]
  split <;> split <;> rfl

theorem toList_extentsSpelling :
    w.extentsSpelling.toList = w.extents.flatMap fun e => '[' :: (Extent.digits e ++ [']']) := by
  rw [extentsSpelling, String.toList_join, List.flatMap_map]
  exact congrArg w.extents.flatMap (funext Extent.toList_spelling)

theorem toList_declareOrdinary (name : String) :
    (w.declareOrdinary name).toList =
      w.qualifiedName ++ ((pointersSpelling true w.pointers).toList ++ w.namePart name.toList) := by
  have hnone : w.extents = [] → w.extentsSpelling = "" := fun h => by rw [extentsSpelling, h]; rfl
  unfold declareOrdinary namePart beforeName afterName
  rw [← List.append_assoc, ← toList_specifier]
  by_cases hextents : w.extents = []
  · by_cases hreference : w.reference = .none <;> by_cases hname : name = "" <;>
      simp [hextents, hreference, hname, hnone hextents]
  · by_cases hreference : w.reference = .none <;> simp [hextents, hreference]

theorem toList_pointersSpelling_cons (afterWord : Bool) (level : Cv) (levels : List Cv) :
    (pointersSpelling afterWord (level :: levels)).toList =
      (if afterWord then [' '] else []) ++
        '*' :: (level.spelling.toList ++ (pointersSpelling level.isQualified levels).toList) := by
  rw [pointersSpelling]
  cases afterWord <;> simp

end Written

end Understudy
