import Mathlib.Data.List.Basic
import Understudy.Declaration

/-! # Qualified names and their parts

A qualified name is its scope, two colons and its last part, or it has no scope at all. Names with
the same scopes and the same last part are therefore the same name, but for the two colons in front
of a name outside of all scopes.
-/

namespace Understudy

namespace Text

theorem splitColons_ne_nil (text : List Char) : splitColons text ≠ [] := by
  fun_cases splitColons text <;> simp [*]

/-- The parts of a text, joined again. -/
theorem intercalate_splitColons (text : List Char) :
    [':', ':'].intercalate (splitColons text) = text := by
  fun_induction splitColons text with
  | case1 => rfl
  | case2 rest ih =>
      obtain ⟨part, parts, hsplit⟩ := List.exists_cons_of_ne_nil (splitColons_ne_nil rest)
      rw [hsplit] at ih ⊢
      rw [List.intercalate_cons_cons, ih]
      rfl
  | case3 c rest _ hnil _ => exact absurd hnil (splitColons_ne_nil rest)
  | case4 c rest _ part parts hsplit ih =>
      rw [hsplit] at ih
      rw [← ih]
      cases parts with
      | nil => simp
      | cons next parts => simp [List.intercalate_cons_cons]

theorem splitColons_injective : Function.Injective splitColons := fun text other h => by
  rw [← intercalate_splitColons text, h, intercalate_splitColons]

end Text

namespace NameParts

/-- Two colons stand where a name is divided. -/
theorem eq_of_divide? {depth : Nat} {text : List Char} {parts : NameParts}
    (h : divide? depth text = some parts) : text = parts.scope ++ ':' :: ':' :: parts.name := by
  induction text generalizing depth parts with
  | nil => cases h
  | cons c rest ih =>
      rw [divide?] at h
      generalize (if c = '<' then depth + 1 else if c = '>' then depth - 1 else depth) = deeper at h
      -- A later pair of colons is preferred to one that starts here.
      split at h
      next later hlater =>
          cases h
          rw [List.cons_append, ← ih hlater]
      next =>
          split at h
          next hcolon =>
              obtain ⟨name, hname, rfl⟩ := Option.map_eq_some_iff.mp h
              rw [hcolon.1, Text.dropStart?_eq_some_iff.mp hname]
              rfl
          next => cases h

end NameParts

namespace Declaration

variable {a b d : Declaration}

theorem name_congr (h : a.qualifiedName = b.qualifiedName) : a.name = b.name := by
  rw [name, nameParts, h, name, nameParts]

theorem scopes_congr (h : a.qualifiedName = b.qualifiedName) : a.scopes = b.scopes := by
  rw [scopes, nameParts, h, scopes, nameParts]

/-- A qualified name from its parts. -/
theorem qualifiedName_cases (d : Declaration) :
    d.qualifiedName.toList = d.nameParts.scope ++ ':' :: ':' :: d.nameParts.name ∨
      d.nameParts.scope = [] ∧ d.qualifiedName.toList = d.nameParts.name := by
  rw [nameParts, NameParts.ofQualified]
  cases hdivide : NameParts.divide? 0 d.qualifiedName.toList with
  | none => exact .inr ⟨rfl, rfl⟩
  | some parts => exact .inl (NameParts.eq_of_divide? hdivide)

theorem scopes_eq_nil_iff : d.scopes = [] ↔ d.nameParts.scope = [] := by
  simp [scopes, Text.splitColons_ne_nil]

theorem scope_eq_of_scopes (hscopes : a.scopes = b.scopes) :
    a.nameParts.scope = b.nameParts.scope := by
  by_cases hempty : b.scopes = []
  · rw [scopes_eq_nil_iff.mp hempty, scopes_eq_nil_iff.mp (hscopes.trans hempty)]
  · have hfull {d : Declaration} (hd : d.scopes ≠ []) :
        d.scopes = (Text.splitColons d.nameParts.scope).map String.ofList := by
      rw [scopes, if_neg]
      simpa [scopes_eq_nil_iff] using hd
    rw [hfull (hscopes ▸ hempty), hfull hempty] at hscopes
    have hinjective : Function.Injective String.ofList := fun _ _ => String.ofList_inj.mp
    exact Text.splitColons_injective (List.map_injective_iff.mpr hinjective hscopes)

/-- A name outside of all scopes that is written with two colons in front, and one that is written
without them. -/
structure Rooted (a b : Declaration) : Prop where
  scopes_left : a.scopes = []
  scopes_right : b.scopes = []
  name_eq : a.name = b.name
  qualifiedName_eq : a.qualifiedName = "::" ++ b.qualifiedName

theorem Rooted.qualifiedName_ne (h : a.Rooted b) : a.qualifiedName ≠ b.qualifiedName := by
  intro heq
  have hlength := congrArg String.length (h.qualifiedName_eq.symm.trans heq)
  simp at hlength

/-- Outside of all scopes, the two colons are all that can differ. -/
theorem rooted_of_divided (hscopes : a.scopes = b.scopes) (hname : a.name = b.name)
    (hdivided : a.qualifiedName.toList = a.nameParts.scope ++ ':' :: ':' :: a.nameParts.name)
    (hscope : b.nameParts.scope = []) (hwhole : b.qualifiedName.toList = b.nameParts.name) :
    a.Rooted b where
  scopes_left := hscopes.trans (scopes_eq_nil_iff.mpr hscope)
  scopes_right := scopes_eq_nil_iff.mpr hscope
  name_eq := hname
  qualifiedName_eq := by
    rw [← String.toList_inj, String.toList_append, hdivided, hwhole, scope_eq_of_scopes hscopes,
      hscope, String.ofList_inj.mp hname]
    rfl

/-- Names with the same scopes and the same last part. -/
theorem qualifiedName_eq_or_rooted (hscopes : a.scopes = b.scopes) (hname : a.name = b.name) :
    a.qualifiedName = b.qualifiedName ∨ a.Rooted b ∨ b.Rooted a := by
  have hlast : a.nameParts.name = b.nameParts.name := String.ofList_inj.mp hname
  rcases a.qualifiedName_cases with ha | ⟨hscopeA, ha⟩ <;>
    rcases b.qualifiedName_cases with hb | ⟨hscopeB, hb⟩
  · left
    rw [← String.toList_inj, ha, hb, scope_eq_of_scopes hscopes, hlast]
  · exact .inr (.inl (rooted_of_divided hscopes hname ha hscopeB hb))
  · exact .inr (.inr (rooted_of_divided hscopes.symm hname.symm hb hscopeA ha))
  · left
    rw [← String.toList_inj, ha, hb, hlast]

end Declaration

end Understudy
