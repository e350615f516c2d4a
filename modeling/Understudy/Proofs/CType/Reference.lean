import Mathlib.Data.List.Forall2
import Understudy.Proofs.CType.Meaning

/-! # Aliases of references

To C++ a reference to a reference is an lvalue reference unless both are rvalue references, and
qualifiers on the name of a reference are idle. The canonical form takes the reference that is
written outermost instead, and gives such qualifiers to what is referred to. It is right where that
makes no difference.
-/

namespace Understudy

namespace Cv

/-- Whether every qualifier of one level is one of another. -/
def Within (a b : Cv) : Prop := b.union a = b

instance (a b : Cv) : Decidable (a.Within b) := inferInstanceAs (Decidable (b.union a = b))

variable {a b c : Cv}

@[simp] theorem union_none (a : Cv) : a.union {} = a := by simp [union]

theorem within_none_iff : a.Within {} ↔ a = {} := by
  cases a
  simp [Within, union]

theorem union_self (a : Cv) : a.union a = a := by simp [union]

theorem Within.refl (a : Cv) : a.Within a := a.union_self

theorem within_union (a b : Cv) : a.Within (a.union b) := by
  simp [Within, union, Bool.or_right_comm]

theorem Within.trans (hab : a.Within b) (hbc : b.Within c) : a.Within c := by
  have hb : b.union a = b := hab
  have hc : c.union b = c := hbc
  rw [Within, ← hc, union_assoc, hb]

theorem Within.union_eq_iff (hab : a.Within b) : b.union c = a ↔ c.Within b ∧ b = a := by
  constructor
  · intro heq
    have hb : b.union a = b := hab
    rw [← heq, ← union_assoc, union_self, heq] at hb
    exact ⟨heq.trans hb, hb.symm⟩
  · rintro ⟨hc, rfl⟩
    exact hc

end Cv

namespace Written

variable (w inner outer : Written)

/-- The qualifiers of all levels, outermost first. -/
def levels : List Cv := w.pointers.reverse ++ [w.base]

theorem levels_eq_cons :
    ∃ below, w.levels = w.outermost :: below ∧
      ∀ f, (w.mapOutermost f).levels = f w.outermost :: below := by
  unfold levels mapOutermost outermost
  cases hlast : w.pointers.getLast? with
  | none => exact ⟨[], by simp [List.getLast?_eq_none_iff.mp hlast]⟩
  | some last =>
      obtain ⟨before, hbefore⟩ := List.getLast?_eq_some_iff.mp hlast
      exact ⟨before.reverse ++ [w.base], by simp [hbefore]⟩

theorem levels_absorb :
    (inner.absorb outer).levels =
      outer.pointers.reverse ++ (inner.mapOutermost (·.union outer.base)).levels := by
  simp [levels]

end Written

namespace CType

variable {t : CType} {w : Written} {aliased : CType}

/-- Whether the base name is an alias that the canonical form looks through. -/
def IsLookedThrough : CType → Prop
  | plain _ => False
  | aliasing w aliased => w.category = .typedef ∧ (aliased.canonical.extents = [] ∨ w.pointers = [])

instance : DecidablePred IsLookedThrough
  | plain _ => inferInstanceAs (Decidable False)
  | aliasing w aliased =>
    inferInstanceAs (Decidable (w.category = .typedef ∧
      (aliased.canonical.extents = [] ∨ w.pointers = [])))

/-- The part of the chain that the canonical form is made from. -/
def folded : CType → List CType
  | plain w => [plain w]
  | aliasing w aliased =>
    aliasing w aliased :: if (aliasing w aliased).IsLookedThrough then aliased.folded else []

/-- The reference that is written outermost. -/
def outerReference (t : CType) : Reference :=
  ((t.folded.map (·.reference)).find? (· ≠ .none)).getD .none

/-- The outermost qualifiers of the type that the base name is looked through to. -/
def aliasedOutermost : CType → Cv
  | plain _ => {}
  | aliasing w aliased =>
    if (aliasing w aliased).IsLookedThrough then aliased.canonical.written.outermost else {}

/-- Leaves out the qualifiers that are written on names of references. -/
def withoutIdle : CType → CType
  | plain w => plain w
  | aliasing w aliased =>
    if (aliasing w aliased).AliasesNoReference then aliasing w aliased
    else aliasing { w with base := {} } aliased.withoutIdle

/-- What the canonical form of a chain with an alias of a reference owes to C++. -/
structure FollowsReferenceRules (t : CType) : Prop where
  /-- References to references collapse. -/
  reference : t.canonical.reference =
    if .lvalue ∈ t.chain.map (·.reference) then .lvalue else .rvalue
  /-- Qualifiers on names of references change no level. -/
  levels : t.canonical.written.levels = t.withoutIdle.canonical.written.levels

/-- What makes no difference between C++ and the canonical form. -/
structure ReferencesAgree (t : CType) : Prop where
  /-- The outermost reference is an lvalue reference, or there are only rvalue references. -/
  reference : t.outerReference = .lvalue ∨
    t.outerReference = .rvalue ∧ .lvalue ∉ t.chain.map (·.reference)
  /-- What is written on the name of a reference is written on what it refers to. -/
  within : ∀ s ∈ t.folded, ¬ s.AliasesNoReference → s.written.base.Within s.aliasedOutermost

/-! ## The reference -/

theorem folded_of_not (h : ¬ t.IsLookedThrough) : t.folded = [t] := by
  cases t with
  | plain w => rfl
  | aliasing w aliased => rw [folded, if_neg h]

theorem canonical_of_not_lookedThrough (h : ¬ t.IsLookedThrough) : t.canonical = t := by
  cases t with
  | plain w => rfl
  | aliasing w aliased =>
      refine IsCanonical.canonical_eq fun hcategory => ?_
      rw [IsLookedThrough, not_and, not_or] at h
      exact h hcategory

theorem canonical_of_lookedThrough (h : (aliasing w aliased).IsLookedThrough) :
    (aliasing w aliased).canonical = aliased.canonical.mapWritten (·.absorb w) :=
  canonical_of_resolved h.1 h.2

theorem reference_canonical (t : CType) : t.canonical.reference = t.outerReference := by
  have hself (t : CType) : t.reference = ([t.reference].find? (· ≠ .none)).getD .none := by
    cases hreference : t.reference <;> simp
  induction t with
  | plain w => exact hself _
  | aliasing w aliased ih =>
      by_cases h : (aliasing w aliased).IsLookedThrough
      · have hwritten : (aliasing w aliased).reference = w.reference := rfl
        rw [canonical_of_lookedThrough h, reference_absorb, outerReference, folded, if_pos h,
          List.map_cons, List.find?_cons, hwritten]
        cases hreference : w.reference with
        | none => exact ih
        | lvalue => rfl
        | rvalue => rfl
      · rw [canonical_of_not_lookedThrough h, outerReference, folded_of_not h]
        exact hself _

/-! ## The qualifiers -/

theorem withoutIdle_of_aliasesNoReference (h : t.AliasesNoReference) : t.withoutIdle = t := by
  cases t with
  | plain w => rfl
  | aliasing w aliased => rw [withoutIdle, if_pos h]

theorem withoutIdle_of_not (h : ¬ (aliasing w aliased).AliasesNoReference) :
    (aliasing w aliased).withoutIdle = aliasing { w with base := {} } aliased.withoutIdle := by
  rw [withoutIdle, if_neg h]

/-- Idle qualifiers do not decide what is looked through. -/
theorem isLookedThrough_withoutBase {inner : CType}
    (hextents : inner.canonical.extents = aliased.canonical.extents) :
    (aliasing { w with base := {} } inner).IsLookedThrough ↔
      (aliasing w aliased).IsLookedThrough := by
  simp only [IsLookedThrough, hextents]

theorem extents_canonical_withoutIdle (t : CType) :
    t.withoutIdle.canonical.extents = t.canonical.extents := by
  induction t with
  | plain w => rfl
  | aliasing w aliased ih =>
      by_cases hnone : (aliasing w aliased).AliasesNoReference
      · rw [withoutIdle_of_aliasesNoReference hnone]
      rw [withoutIdle_of_not hnone]
      have hlooked := @isLookedThrough_withoutBase w aliased aliased.withoutIdle ih
      by_cases h : (aliasing w aliased).IsLookedThrough
      · rw [canonical_of_lookedThrough h, canonical_of_lookedThrough (hlooked.mpr h),
          extents_absorb, extents_absorb]
        exact congrArg (w.extents ++ ·) ih
      · rw [canonical_of_not_lookedThrough h, canonical_of_not_lookedThrough (h ∘ hlooked.mp)]
        rfl

/-- The levels of an alias that is looked through: its own pointers, and those of the aliased type
with the qualifiers that are written on the name. -/
theorem levels_of_lookedThrough (h : (aliasing w aliased).IsLookedThrough) :
    ∃ below, aliased.canonical.written.levels = aliased.canonical.written.outermost :: below ∧
      (aliasing w aliased).canonical.written.levels =
        w.pointers.reverse ++ aliased.canonical.written.outermost.union w.base :: below := by
  obtain ⟨below, hlevels, hmapped⟩ := aliased.canonical.written.levels_eq_cons
  refine ⟨below, hlevels, ?_⟩
  rw [canonical_of_lookedThrough h, written_mapWritten, Written.levels_absorb, hmapped]

theorem levels_withoutIdle_of_lookedThrough (h : (aliasing w aliased).IsLookedThrough)
    (hsome : ¬ (aliasing w aliased).AliasesNoReference) :
    (aliasing w aliased).withoutIdle.canonical.written.levels =
      w.pointers.reverse ++ aliased.withoutIdle.canonical.written.levels := by
  have hlooked := (isLookedThrough_withoutBase aliased.extents_canonical_withoutIdle).mpr h
  obtain ⟨below, hbelow, hlevels⟩ := levels_of_lookedThrough hlooked
  rw [withoutIdle_of_not hsome, hlevels, Cv.union_none, hbelow]

theorem levels_of_not_lookedThrough (h : ¬ (aliasing w aliased).IsLookedThrough) :
    (aliasing w aliased).canonical.written.levels = w.pointers.reverse ++ [w.base] := by
  rw [canonical_of_not_lookedThrough h]
  rfl

theorem levels_withoutIdle_of_not_lookedThrough (h : ¬ (aliasing w aliased).IsLookedThrough)
    (hsome : ¬ (aliasing w aliased).AliasesNoReference) :
    (aliasing w aliased).withoutIdle.canonical.written.levels =
      w.pointers.reverse ++ [({} : Cv)] := by
  have hkept := h ∘ (isLookedThrough_withoutBase aliased.extents_canonical_withoutIdle).mp
  rw [withoutIdle_of_not hsome, levels_of_not_lookedThrough hkept]

/-- The levels have at least the qualifiers that they have without the idle ones. -/
theorem levels_withoutIdle_within (t : CType) :
    List.Forall₂ Cv.Within t.withoutIdle.canonical.written.levels t.canonical.written.levels := by
  have hrefl (levels : List Cv) : List.Forall₂ Cv.Within levels levels :=
    List.forall₂_same.mpr fun cv _ => Cv.Within.refl cv
  induction t with
  | plain w => exact hrefl _
  | aliasing w aliased ih =>
      by_cases hnone : (aliasing w aliased).AliasesNoReference
      · rw [withoutIdle_of_aliasesNoReference hnone]
        exact hrefl _
      by_cases h : (aliasing w aliased).IsLookedThrough
      · obtain ⟨below, hbelow, hlevels⟩ := levels_of_lookedThrough h
        rw [hbelow, List.forall₂_cons_right_iff] at ih
        obtain ⟨bare, rest, hfirst, hrest, hbare⟩ := ih
        rw [levels_withoutIdle_of_lookedThrough h hnone, hlevels, hbare]
        exact List.rel_append (hrefl _) (.cons (hfirst.trans (Cv.within_union _ _)) hrest)
      · rw [levels_withoutIdle_of_not_lookedThrough h hnone, levels_of_not_lookedThrough h]
        exact List.rel_append (hrefl _) (.cons (Cv.union_none _) .nil)

theorem aliasesNoReference_of_mem_folded (h : t.AliasesNoReference) :
    ∀ s ∈ t.folded, s.AliasesNoReference := by
  induction t with
  | plain w => exact List.forall_mem_singleton.mpr h
  | aliasing w aliased ih =>
      by_cases hlooked : (aliasing w aliased).IsLookedThrough
      · rw [folded, if_pos hlooked, List.forall_mem_cons]
        exact ⟨h, ih ((aliasesNoReference_of_typedef hlooked.1).mp h).2⟩
      · rw [folded_of_not hlooked]
        exact List.forall_mem_singleton.mpr h

/-- Idle qualifiers change no level just where the level that they go to has them. -/
theorem levels_canonical_iff (t : CType) :
    t.canonical.written.levels = t.withoutIdle.canonical.written.levels ↔
      ∀ s ∈ t.folded, ¬ s.AliasesNoReference → s.written.base.Within s.aliasedOutermost := by
  induction t with
  | plain w => simp [withoutIdle, folded, AliasesNoReference, chain]
  | aliasing w aliased ih =>
      by_cases hnone : (aliasing w aliased).AliasesNoReference
      · rw [withoutIdle_of_aliasesNoReference hnone]
        exact iff_of_true rfl fun s hs hsome =>
          absurd (aliasesNoReference_of_mem_folded hnone s hs) hsome
      by_cases h : (aliasing w aliased).IsLookedThrough
      · obtain ⟨below, hbelow, hlevels⟩ := levels_of_lookedThrough h
        -- Levels only gain qualifiers, so what is gained here makes up for nothing gained below.
        have hwithin := aliased.levels_withoutIdle_within
        rw [hbelow, List.forall₂_cons_right_iff] at hwithin
        obtain ⟨bare, rest, hfirst, -, hbare⟩ := hwithin
        rw [folded, if_pos h, List.forall_mem_cons, ← ih, hlevels,
          levels_withoutIdle_of_lookedThrough h hnone, hbelow, hbare, aliasedOutermost, if_pos h,
          List.append_cancel_left_eq, List.cons.injEq, List.cons.injEq, hfirst.union_eq_iff,
          and_assoc, forall_prop_of_true hnone]
        rfl
      · rw [levels_of_not_lookedThrough h, levels_withoutIdle_of_not_lookedThrough h hnone,
          folded_of_not h, List.forall_mem_singleton, forall_prop_of_true hnone, aliasedOutermost,
          if_neg h]
        simp [written, Cv.within_none_iff]

/-! ## Both together -/

theorem folded_subset_chain (t : CType) : t.folded ⊆ t.chain := by
  induction t with
  | plain w => exact List.Subset.refl _
  | aliasing w aliased ih =>
      by_cases h : (aliasing w aliased).IsLookedThrough
      · rw [folded, if_pos h, chain, if_pos h.1]
        exact List.cons_subset_cons _ ih
      · rw [folded_of_not h, chain]
        exact List.cons_subset_cons _ (List.nil_subset _)

theorem outerReference_mem (h : t.outerReference ≠ .none) :
    t.outerReference ∈ t.chain.map (·.reference) := by
  unfold outerReference at h ⊢
  cases hfound : (t.folded.map (·.reference)).find? (· ≠ .none) with
  | none => exact absurd (by rw [hfound]; rfl) h
  | some found =>
      exact List.map_subset _ t.folded_subset_chain (List.mem_of_find?_eq_some hfound)

/-- The canonical form follows the rules for references just where they make no difference: the
reference that is written outermost is an lvalue reference if any is, and the qualifiers that are
written on the name of a reference are written on what it refers to. -/
theorem followsReferenceRules_iff (t : CType) : FollowsReferenceRules t ↔ ReferencesAgree t := by
  have hreference : (t.canonical.reference =
      if .lvalue ∈ t.chain.map (·.reference) then .lvalue else .rvalue) ↔
        (t.outerReference = .lvalue ∨
          t.outerReference = .rvalue ∧ .lvalue ∉ t.chain.map (·.reference)) := by
    rw [reference_canonical]
    by_cases hlvalue : .lvalue ∈ t.chain.map (·.reference)
    · simp [hlvalue]
    · have hne : t.outerReference ≠ .lvalue := by
        intro heq
        exact hlvalue (heq ▸ outerReference_mem (by rw [heq]; decide))
      simp [hlvalue, hne]
  constructor
  · rintro ⟨hrule, hlevels⟩
    exact ⟨hreference.mp hrule, t.levels_canonical_iff.mp hlevels⟩
  · rintro ⟨hagrees, hwithin⟩
    exact ⟨hreference.mpr hagrees, t.levels_canonical_iff.mpr hwithin⟩

/-- An rvalue reference to an alias of `int &` is not made an lvalue reference, and `const` on the
alias is made the `const` of the integer. -/
theorem not_followsReferenceRules_of_reference_alias :
    let ref := typedef "Ref" ((arithmetic .int).withReference .lvalue)
    (¬ (ref.withReference .rvalue).AliasesNoReference ∧
      (ref.withReference .rvalue).canonical = (arithmetic .int).withReference .rvalue ∧
      ¬ FollowsReferenceRules (ref.withReference .rvalue)) ∧
    (¬ ref.withConst.AliasesNoReference ∧
      ref.withConst.canonical = (arithmetic .int).withConst.withReference .lvalue ∧
      ¬ FollowsReferenceRules ref.withConst) := by
  refine ⟨⟨by decide, by decide, fun h => ?_⟩, ⟨by decide, by decide, fun h => ?_⟩⟩
  · exact absurd h.reference (by decide)
  · exact absurd h.levels (by decide)

end CType

end Understudy
