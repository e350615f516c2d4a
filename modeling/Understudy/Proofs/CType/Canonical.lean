import Understudy.CType.Canonical

/-! # Laws of canonical forms

An alias either is looked through, by folding what is written on it into the canonical form of the
aliased type, or stays as it is. The second happens only to a pointer to an alias of an array.
-/

namespace Understudy

namespace Written

variable (w : Written) (f : Cv → Cv)

/-! What changes only the qualifiers of a level leaves the rest of the writing alone. -/

@[simp] theorem mapOutermost_name : (w.mapOutermost f).name = w.name := by
  unfold mapOutermost
  split <;> rfl

@[simp] theorem mapOutermost_category : (w.mapOutermost f).category = w.category := by
  unfold mapOutermost
  split <;> rfl

@[simp] theorem mapOutermost_extents : (w.mapOutermost f).extents = w.extents := by
  unfold mapOutermost
  split <;> rfl

@[simp] theorem mapOutermost_pointers_isEmpty :
    (w.mapOutermost f).pointers.isEmpty = w.pointers.isEmpty := by
  unfold mapOutermost
  cases hlast : w.pointers.getLast? with
  | none => rfl
  | some last =>
      obtain ⟨before, hbefore⟩ := List.getLast?_eq_some_iff.mp hlast
      rw [hbefore, Bool.eq_iff_iff]
      simp

variable (inner outer : Written)

@[simp] theorem absorb_name : (inner.absorb outer).name = inner.name := by simp [absorb]

@[simp] theorem absorb_category : (inner.absorb outer).category = inner.category := by
  simp [absorb]

@[simp] theorem absorb_extents :
    (inner.absorb outer).extents = outer.extents ++ inner.extents := rfl

@[simp] theorem absorb_reference :
    (inner.absorb outer).reference =
      if outer.reference = .none then inner.reference else outer.reference := rfl

@[simp] theorem absorb_base :
    (inner.absorb outer).base = (inner.mapOutermost (·.union outer.base)).base := rfl

@[simp] theorem absorb_pointers :
    (inner.absorb outer).pointers =
      (inner.mapOutermost (·.union outer.base)).pointers ++ outer.pointers := rfl

end Written

namespace CType

@[simp] theorem written_mapWritten (t : CType) (f : Written → Written) :
    (t.mapWritten f).written = f t.written := by
  cases t <;> rfl

section

variable (t : CType) (w : Written)

/-! What folding a writing into a type leaves and adds. -/

theorem category_absorb : (t.mapWritten (·.absorb w)).category = t.category := by
  simp [CType.category]

theorem reference_absorb : (t.mapWritten (·.absorb w)).reference =
    if w.reference = .none then t.reference else w.reference := by
  simp [reference]

theorem extents_absorb : (t.mapWritten (·.absorb w)).extents = w.extents ++ t.extents := by
  simp [extents]

theorem pointers_absorb_eq_nil_iff :
    (t.mapWritten (·.absorb w)).pointers = [] ↔ t.pointers = [] ∧ w.pointers = [] := by
  rw [pointers, written_mapWritten, Written.absorb_pointers, List.append_eq_nil_iff,
    ← List.isEmpty_iff, Written.mapOutermost_pointers_isEmpty, List.isEmpty_iff]
  rfl

end

/-- What a pointer that is no reference points to. -/
theorem pointee?_of_pointers {t : CType} (hreference : t.reference = .none)
    (hextents : t.extents = []) (hpointers : t.pointers ≠ []) :
    t.pointee? = some (t.mapWritten fun w => { w with pointers := w.pointers.dropLast }) := by
  have hwritten : t.written.pointee? =
      some { t.written with pointers := t.written.pointers.dropLast } := by
    rw [reference] at hreference
    rw [extents] at hextents
    rw [pointers] at hpointers
    obtain ⟨first, rest, hcons⟩ := List.exists_cons_of_ne_nil hpointers
    simp [Written.pointee?, hreference, hextents, hcons]
  rw [pointee?, hwritten]
  cases t <;> rfl

variable {w : Written} {aliased : CType}

theorem canonical_of_not_typedef (hcategory : w.category ≠ .typedef) :
    (aliasing w aliased).canonical = aliasing w aliased := by
  simp [canonical, hcategory]

/-- A pointer to an alias of an array keeps its alias. -/
theorem canonical_of_unresolved (hcategory : w.category = .typedef)
    (hextents : aliased.canonical.extents ≠ []) (hpointers : w.pointers ≠ []) :
    (aliasing w aliased).canonical = aliasing w aliased := by
  simp [canonical, hcategory, hextents, hpointers]

theorem canonical_of_resolved (hcategory : w.category = .typedef)
    (hresolved : aliased.canonical.extents = [] ∨ w.pointers = []) :
    (aliasing w aliased).canonical = aliased.canonical.mapWritten (·.absorb w) := by
  rcases hresolved with h | h <;> simp [canonical, hcategory, h]

/-- A type is canonical as it stands, or is an alias that is looked through. -/
theorem canonical_cases (t : CType) :
    t.canonical = t ∨ ∃ w aliased, t = aliasing w aliased ∧ w.category = .typedef ∧
      (aliased.canonical.extents = [] ∨ w.pointers = []) ∧
      t.canonical = aliased.canonical.mapWritten (·.absorb w) := by
  cases t with
  | plain w => exact .inl rfl
  | aliasing w aliased =>
      by_cases hcategory : w.category = .typedef
      · by_cases hresolved : aliased.canonical.extents = [] ∨ w.pointers = []
        · exact .inr ⟨w, aliased, rfl, hcategory, hresolved,
            canonical_of_resolved hcategory hresolved⟩
        · rw [not_or] at hresolved
          exact .inl (canonical_of_unresolved hcategory hresolved.1 hresolved.2)
      · exact .inl (canonical_of_not_typedef hcategory)

/-- The extents that are written come first in the canonical form. -/
theorem extents_canonical_eq (t : CType) :
    ∃ inner, t.canonical.extents = t.extents ++ inner := by
  rcases t.canonical_cases with hself | ⟨w, aliased, rfl, -, -, hcanonical⟩
  · exact ⟨[], by rw [hself, List.append_nil]⟩
  · refine ⟨aliased.canonical.extents, ?_⟩
    rw [hcanonical, extents_absorb]
    rfl

theorem extents_eq_nil_of_canonical {t : CType} (hextents : t.canonical.extents = []) :
    t.extents = [] := by
  obtain ⟨inner, hinner⟩ := t.extents_canonical_eq
  rw [hextents] at hinner
  exact (List.append_eq_nil_iff.mp hinner.symm).1

/-- A reference that is written stays in the canonical form. -/
theorem reference_canonical_ne_none {t : CType} (hreference : t.reference ≠ .none) :
    t.canonical.reference ≠ .none := by
  rcases t.canonical_cases with hself | ⟨w, aliased, rfl, -, -, hcanonical⟩
  · rw [hself]
    exact hreference
  · have hwritten : w.reference ≠ .none := hreference
    rw [hcanonical, reference_absorb, if_neg hwritten]
    exact hwritten

/-- The canonical form of a pointer is a pointer to the canonical form, when no array and no
reference is behind it. -/
theorem canonical_pointee? {t pointee : CType} (hextents : t.canonical.extents = [])
    (hreference : t.canonical.reference = .none) (hpointers : t.pointers ≠ [])
    (hpointee : t.pointee? = some pointee) :
    t.canonical = t ∨ t.canonical.pointee? = some pointee.canonical := by
  rcases t.canonical_cases with hself | ⟨w, aliased, rfl, hcategory, -, hcanonical⟩
  · exact .inl hself
  · right
    have hwritten : w.pointers ≠ [] := hpointers
    have hbelow : w.extents = [] ∧ aliased.canonical.extents = [] := by
      rw [hcanonical, extents_absorb] at hextents
      exact List.append_eq_nil_iff.mp hextents
    have hplain : w.reference = .none := by
      refine Classical.byContradiction fun hne => ?_
      exact @reference_canonical_ne_none (aliasing w aliased) hne hreference
    have hbare : (aliasing w aliased).canonical.pointers ≠ [] := by
      rw [pointers, hcanonical, written_mapWritten, Written.absorb_pointers]
      exact List.append_ne_nil_of_right_ne_nil _ hwritten
    rw [@pointee?_of_pointers (aliasing w aliased) hplain hbelow.1 hpointers] at hpointee
    cases hpointee
    have hpointed := @canonical_of_resolved { w with pointers := w.pointers.dropLast } aliased
      hcategory (.inl hbelow.2)
    rw [pointee?_of_pointers hreference hextents hbare, hcanonical]
    refine Eq.trans ?_ (congrArg some hpointed.symm)
    congr 1
    cases aliased.canonical <;>
      simp [mapWritten, Written.absorb, List.dropLast_append_of_ne_nil hwritten]

/-! ## Canonical forms are canonical -/

/-- Whether the base name of a type cannot be looked through. -/
def IsCanonical : CType → Prop
  | plain _ => True
  | aliasing w aliased =>
    w.category = .typedef → aliased.canonical.extents ≠ [] ∧ w.pointers ≠ []

theorem IsCanonical.canonical_eq {t : CType} (h : t.IsCanonical) : t.canonical = t := by
  cases t with
  | plain w => rfl
  | aliasing w aliased =>
      by_cases hcategory : w.category = .typedef
      · obtain ⟨hextents, hpointers⟩ := h hcategory
        exact canonical_of_unresolved hcategory hextents hpointers
      · exact canonical_of_not_typedef hcategory

/-- Folding keeps the base name and takes no pointer level away. -/
theorem IsCanonical.absorb {t : CType} (h : t.IsCanonical) (w : Written) :
    (t.mapWritten (·.absorb w)).IsCanonical := by
  cases t with
  | plain _ => trivial
  | aliasing inner aliased =>
      intro hcategory
      rw [Written.absorb_category] at hcategory
      obtain ⟨hextents, hpointers⟩ := h hcategory
      refine ⟨hextents, List.append_ne_nil_of_left_ne_nil ?_ w.pointers⟩
      rwa [ne_eq, ← List.isEmpty_iff, Written.mapOutermost_pointers_isEmpty, List.isEmpty_iff]

theorem isCanonical_canonical (t : CType) : t.canonical.IsCanonical := by
  induction t with
  | plain w => trivial
  | aliasing w aliased ih =>
      by_cases hcategory : w.category = .typedef
      · by_cases hresolved : aliased.canonical.extents = [] ∨ w.pointers = []
        · rw [canonical_of_resolved hcategory hresolved]
          exact ih.absorb w
        · rw [not_or] at hresolved
          rw [canonical_of_unresolved hcategory hresolved.1 hresolved.2]
          exact fun _ => hresolved
      · rw [canonical_of_not_typedef hcategory]
        exact fun h => absurd h hcategory

end CType

end Understudy
