import Mathlib.Data.List.Lex
import Mathlib.Data.Prod.Lex
import Mathlib.Data.String.Basic
import Mathlib.Order.BooleanAlgebra.Basic
import Understudy.Proofs.Catalog.Distinct
import Understudy.Proofs.Declaration.QualifiedName

/-! # The numbers of overloads

Overloads stand in one linear order, by the spellings of their parameter types and then by
constness. The number of an overload counts those before it, so when no two agree in both, the
overloads in their order have the numbers one, two and so on.
-/

namespace Understudy

namespace Declaration

variable {a b : Declaration}

/-- What overloads are ordered by. -/
def overloadKey (d : Declaration) : List String ×ₗ Bool := toLex (d.spellings, d.traits.isConst)

theorem precedes_iff : a.precedes b = true ↔ a.overloadKey < b.overloadKey := by
  simp [precedes, overloadKey, Prod.Lex.toLex_lt_toLex, Bool.lt_iff, and_assoc]

/-- Overloads are told apart by what they are ordered by. -/
theorem overloadKey_eq_iff (hname : a.qualifiedName = b.qualifiedName) :
    a.overloadKey = b.overloadKey ↔ a.signature = b.signature := by
  simp [overloadKey, signature, hname, and_comm]

end Declaration

namespace Catalog

variable {group arranged : List Analysis} {a b : Analysis}

/-- What an entry is ordered by among its overloads. -/
def orderKey (a : Analysis) : List String ×ₗ Bool := a.declaration.overloadKey

theorem mem_overloads_iff :
    b ∈ overloads group a ↔
      b ∈ group ∧ b.declaration.qualifiedName = a.declaration.qualifiedName := by
  simp [overloads]

/-- Overloads of one function have the same overloads. -/
theorem overloads_congr (hname : a.declaration.qualifiedName = b.declaration.qualifiedName) :
    overloads group a = overloads group b := by
  rw [overloads, overloads, hname]

theorem overloadNumber_eq_countP :
    overloadNumber group a = (overloads group a).countP (orderKey · < orderKey a) + 1 := by
  rw [overloadNumber, ← List.countP_eq_length_filter]
  congr 1
  refine List.countP_congr fun b _ => ?_
  rw [Declaration.precedes_iff, decide_eq_true_iff]
  rfl

/-- The name of a companion with its number. -/
def numberedName (name : String) (number : Nat) : String := name ++ "_" ++ toString number

/-- An entry with the name that its companions get. -/
def named (group : List Analysis) (a : Analysis) : Analysis :=
  if (overloads group a).length ≤ 1 then a
  else { a with companionName := numberedName a.declaration.name (overloadNumber group a) }

theorem nameCompanions_eq_map : nameCompanions group = group.map (named group) := rfl

@[simp] theorem named_declaration : (named group a).declaration = a.declaration := by
  unfold named
  split <;> rfl

@[simp] theorem orderKey_named : orderKey (named group a) = orderKey a := by
  rw [orderKey, named_declaration, orderKey]

theorem companionName_named_of_alone (h : (overloads group a).length ≤ 1) :
    (named group a).companionName = a.companionName := by
  rw [named, if_pos h]

/-- The companions of overloads have one base, whichever overload shows that there are several. -/
theorem companionName_named_of_overloaded (h : 1 < (overloads group a).length)
    (hb : b ∈ overloads group a) :
    (named group b).companionName = numberedName a.declaration.name (overloadNumber group b) := by
  have hname := (mem_overloads_iff.mp hb).2
  rw [named, overloads_congr hname, if_neg (Nat.not_le.mpr h), Declaration.name_congr hname]

theorem overloads_nameCompanions :
    overloads (nameCompanions group) a = (overloads group a).map (named group) := by
  rw [nameCompanions_eq_map, overloads, List.filter_map, overloads]
  congr 1
  refine List.filter_congr fun b _ => ?_
  rw [Function.comp_apply, named_declaration]

/-! ## The order of a list does not matter -/

theorem perm_overloads (h : group.Perm arranged) :
    (overloads group a).Perm (overloads arranged a) :=
  h.filter _

theorem overloadNumber_of_perm (h : group.Perm arranged) :
    overloadNumber group a = overloadNumber arranged a := by
  rw [overloadNumber_eq_countP, overloadNumber_eq_countP, (perm_overloads h).countP_eq]

theorem named_of_perm (h : group.Perm arranged) : named group = named arranged := by
  funext a
  rw [named, (perm_overloads h).length_eq, overloadNumber_of_perm h, named]

theorem nameCompanions_of_perm (h : group.Perm arranged) :
    (nameCompanions group).Perm (nameCompanions arranged) := by
  rw [nameCompanions_eq_map, nameCompanions_eq_map, named_of_perm h]
  exact h.map _

/-! ## Numbers in order -/

/-- In an increasing list, as many elements are smaller than one as stand before it. -/
theorem countP_lt_getElem {ordered : List Analysis}
    (hordered : ordered.Pairwise fun a b => orderKey a < orderKey b) {i : Nat}
    (hi : i < ordered.length) : ordered.countP (orderKey · < orderKey ordered[i]) = i := by
  induction ordered generalizing i with
  | nil => simp at hi
  | cons first rest ih =>
      obtain ⟨hfirst, hrest⟩ := List.pairwise_cons.mp hordered
      cases i with
      | zero =>
          refine List.countP_eq_zero.mpr fun b hb => ?_
          rw [List.getElem_cons_zero, decide_eq_true_iff, not_lt]
          rcases List.mem_cons.mp hb with rfl | hb
          · exact le_rfl
          · exact (hfirst b hb).le
      | succ i =>
          have hbefore : i < rest.length := Nat.lt_of_succ_lt_succ hi
          have hlt : orderKey first < orderKey rest[i] := hfirst _ (List.getElem_mem hbefore)
          rw [List.getElem_cons_succ, List.countP_cons_of_pos (by simpa using hlt),
            ih hrest hbefore]

/-- Overloads that are told apart can be arranged in their order. -/
theorem exists_ordered
    (hdistinct : group.Pairwise fun a b => a.declaration.signature ≠ b.declaration.signature)
    (a : Analysis) :
    ∃ ordered : List Analysis, ordered.Perm (overloads group a) ∧
      ordered.Pairwise fun b c => orderKey b < orderKey c := by
  let inOrder (b c : Analysis) : Bool := orderKey b ≤ orderKey c
  have htrans : ∀ b c d, inOrder b c = true → inOrder c d = true → inOrder b d = true := by
    simp only [inOrder, decide_eq_true_iff]
    exact fun b c d => le_trans
  have htotal : ∀ b c, (inOrder b c || inOrder c b) = true := by
    simp only [inOrder, Bool.or_eq_true, decide_eq_true_iff]
    exact fun b c => le_total _ _
  have hperm := List.mergeSort_perm (overloads group a) inOrder
  have hkeys : (overloads group a).Pairwise fun b c => orderKey b ≠ orderKey c := by
    refine (hdistinct.filter _).imp_of_mem fun {b c} hb hc hne => ?_
    have hname := (mem_overloads_iff.mp hb).2.trans (mem_overloads_iff.mp hc).2.symm
    rwa [orderKey, orderKey, ne_eq, Declaration.overloadKey_eq_iff hname]
  have hsorted := List.pairwise_mergeSort htrans htotal (overloads group a)
  refine ⟨_, hperm, (hsorted.and (hperm.symm.pairwise hkeys fun h => h.symm)).imp ?_⟩
  intro b c h
  exact lt_of_le_of_ne (of_decide_eq_true h.1) h.2

/-- Each overload has the number of its place. -/
theorem overloadNumber_getElem {ordered : List Analysis}
    (hperm : ordered.Perm (overloads group a))
    (hordered : ordered.Pairwise fun b c => orderKey b < orderKey c) {i : Nat}
    (hi : i < ordered.length) : overloadNumber group ordered[i] = i + 1 := by
  have hmem : ordered[i] ∈ overloads group a := hperm.mem_iff.mp (List.getElem_mem hi)
  rw [overloadNumber_eq_countP, overloads_congr (mem_overloads_iff.mp hmem).2,
    ← hperm.countP_eq, countP_lt_getElem hordered hi]

section Distinct

variable
  (hdistinct : group.Pairwise fun a b => a.declaration.signature ≠ b.declaration.signature)

include hdistinct

theorem overloadNumber_injective {c : Analysis} (hb : b ∈ overloads group a)
    (hc : c ∈ overloads group a) (hnumber : overloadNumber group b = overloadNumber group c) :
    b = c := by
  obtain ⟨ordered, hperm, hordered⟩ := exists_ordered hdistinct a
  obtain ⟨i, hi, rfl⟩ := List.getElem_of_mem (hperm.mem_iff.mpr hb)
  obtain ⟨j, hj, rfl⟩ := List.getElem_of_mem (hperm.mem_iff.mpr hc)
  rw [overloadNumber_getElem hperm hordered hi, overloadNumber_getElem hperm hordered hj,
    Nat.add_right_cancel_iff] at hnumber
  simp only [hnumber]

/-- The numbers of overloads are one, two and so on up to how many there are. -/
theorem exists_overloadNumber_iff {number : Nat} :
    (∃ b ∈ overloads group a, overloadNumber group b = number) ↔
      1 ≤ number ∧ number ≤ (overloads group a).length := by
  obtain ⟨ordered, hperm, hordered⟩ := exists_ordered hdistinct a
  rw [← hperm.length_eq]
  constructor
  · rintro ⟨b, hb, rfl⟩
    obtain ⟨i, hi, rfl⟩ := List.getElem_of_mem (hperm.mem_iff.mpr hb)
    rw [overloadNumber_getElem hperm hordered hi]
    omega
  · rintro ⟨hpositive, hle⟩
    have hplace : number - 1 < ordered.length := by omega
    refine ⟨ordered[number - 1], hperm.mem_iff.mp (List.getElem_mem hplace), ?_⟩
    rw [overloadNumber_getElem hperm hordered hplace]
    omega

end Distinct

end Catalog

end Understudy
