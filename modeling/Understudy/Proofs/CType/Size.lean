import Mathlib.Data.List.Basic
import Understudy.Proofs.CType.Canonical

/-! # Sizes of types

A data model gives a size to every base type and one to pointers. The size of any type follows: an
array takes the space of all its elements, a reference that of its referent, and an alias that of
the type it stands for. Looking through aliases does not change a size.
-/

namespace Understudy

/-- How many bytes base types and pointers take. -/
structure DataModel where
  base : String → Category → Nat
  pointer : Nat

/-- The number of elements of an array of arrays. An unknown extent has none. -/
def Extent.span : List Extent → Nat
  | [] => 1
  | extent :: extents => extent.elim 0 UInt64.toNat * span extents

@[simp] theorem Extent.span_append (outer inner : List Extent) :
    span (outer ++ inner) = span outer * span inner := by
  induction outer with
  | nil => simp [span]
  | cons extent outer ih => rw [List.cons_append, span, span, ih, Nat.mul_assoc]

/-- The size of one element of what is written on a base of the given size. -/
def Written.elementSize (model : DataModel) (w : Written) (base : Nat) : Nat :=
  if w.pointers.isEmpty then base else model.pointer

namespace CType

variable (model : DataModel)

def size : CType → Nat
  | plain w => Extent.span w.extents * w.elementSize model (model.base w.name w.category)
  | aliasing w aliased =>
    Extent.span w.extents * w.elementSize model
      (if w.category = .typedef then aliased.size else model.base w.name w.category)

/-- The size of what the base name of a type names. -/
def baseSize : CType → Nat
  | plain w => model.base w.name w.category
  | aliasing w aliased =>
    if w.category = .typedef then aliased.size model else model.base w.name w.category

variable (t : CType)

theorem size_eq :
    t.size model = Extent.span t.extents * t.written.elementSize model (t.baseSize model) := by
  cases t <;> rfl

variable {t}

theorem baseSize_mapWritten {f : Written → Written} (hname : (f t.written).name = t.written.name)
    (hcategory : (f t.written).category = t.written.category) :
    (t.mapWritten f).baseSize model = t.baseSize model := by
  cases t with
  | plain w =>
      rw [written] at hname hcategory
      rw [mapWritten, baseSize, baseSize, hname, hcategory]
  | aliasing w aliased =>
      rw [written] at hname hcategory
      rw [mapWritten, baseSize, baseSize, hname, hcategory]

/-- The size after a change that keeps the base name depends on the new extents and on whether there
are pointers now. -/
theorem size_mapWritten {f : Written → Written} (hname : (f t.written).name = t.written.name)
    (hcategory : (f t.written).category = t.written.category) :
    (t.mapWritten f).size model =
      Extent.span (f t.written).extents *
        (f t.written).elementSize model (t.baseSize model) := by
  rw [size_eq, baseSize_mapWritten model hname hcategory, extents, written_mapWritten]

variable (t)

@[simp] theorem size_withoutOuterConst : t.withoutOuterConst.size model = t.size model := by
  rw [withoutOuterConst, size_mapWritten model (by simp) (by simp), size_eq]
  simp [extents, Written.elementSize]

theorem size_element :
    t.element.size model = t.written.elementSize model (t.baseSize model) := by
  rw [element, size_mapWritten model rfl rfl]
  simp [Written.element, Extent.span, Written.elementSize]

/-- An array is as large as all its elements. -/
theorem size_eq_span_mul_element :
    t.size model = Extent.span t.extents * t.element.size model := by
  rw [size_element, size_eq]

/-- Folding a writing into a type without pointers and extents of its own, or writing no pointer,
multiplies the size by the new extents. -/
theorem size_absorb {w : Written} (hresolved : t.extents = [] ∨ w.pointers = []) :
    (t.mapWritten (·.absorb w)).size model =
      Extent.span w.extents * w.elementSize model (t.size model) := by
  rw [size_mapWritten model (by simp) (by simp), Written.absorb_extents, Extent.span_append,
    Nat.mul_assoc]
  congr 1
  by_cases hpointers : w.pointers = []
  · -- Nothing but extents is written, so the type below keeps its element.
    have helement : (t.written.absorb w).elementSize model (t.baseSize model) =
        t.written.elementSize model (t.baseSize model) := by
      simp [Written.elementSize, hpointers]
    have hwhole : w.elementSize model (t.size model) = t.size model := by
      simp [Written.elementSize, hpointers]
    rw [helement, hwhole]
    exact (size_eq model t).symm
  · have hextents : t.written.extents = [] := hresolved.resolve_right hpointers
    simp [Written.elementSize, hpointers, hextents, Extent.span]

/-- Looking through aliases does not change a size. -/
@[simp] theorem size_canonical : t.canonical.size model = t.size model := by
  induction t with
  | plain w => rfl
  | aliasing w aliased ih =>
      rcases (aliasing w aliased).canonical_cases with hself | ⟨_, _, heq, hcategory, hresolved, h⟩
      · rw [hself]
      · cases heq
        -- What is written on the alias multiplies the size of the type below it.
        rw [h, size_absorb model _ hresolved, ih, size, if_pos hcategory]

variable {t}

theorem size_eq_pointer (hextents : t.extents = []) (hpointers : t.pointers ≠ []) :
    t.size model = model.pointer := by
  have hwritten : t.written.pointers ≠ [] := hpointers
  rw [size_eq, hextents]
  simp [Extent.span, Written.elementSize, hwritten]

/-- A reference is as large as its referent. -/
theorem size_referent (hreference : t.reference ≠ .none) :
    t.pointee?.map (size model) = some (t.size model) := by
  have hpointee : t.written.pointee? = some { t.written with reference := .none } := by
    unfold Written.pointee?
    exact if_pos hreference
  rw [pointee?, hpointee, Option.map_some, Option.map_some]
  congr 1
  rw [size_mapWritten model rfl rfl, size_eq]
  rfl

/-- What a pointer points to has the size that its canonical form shows. -/
theorem size_pointee_canonical (hextents : t.canonical.extents = [])
    (hreference : t.canonical.reference = .none) (hpointers : t.pointers ≠ []) :
    t.canonical.pointee?.map (size model) = t.pointee?.map (size model) := by
  have hreference' : t.reference = .none := by
    by_contra hne
    exact reference_canonical_ne_none hne hreference
  have hpointee :=
    pointee?_of_pointers hreference' (extents_eq_nil_of_canonical hextents) hpointers
  rcases canonical_pointee? hextents hreference hpointers hpointee with hself | hcanonical
  · rw [hself]
  · rw [hcanonical, hpointee, Option.map_some, Option.map_some, size_canonical]

/-! ## Known sizes -/

/-- A change that keeps the base name and the presence of pointers keeps a size known. -/
theorem isSized_mapWritten {f : Written → Written}
    (hcategory : (f t.written).category = t.written.category)
    (hpointers : (f t.written).pointers.isEmpty = t.written.pointers.isEmpty) :
    (t.mapWritten f).isSized = t.isSized := by
  cases t with
  | plain w =>
      rw [written] at hcategory hpointers
      rw [mapWritten, isSized, isSized, hcategory, hpointers]
  | aliasing w aliased =>
      rw [written] at hcategory hpointers
      rw [mapWritten, isSized, isSized, hcategory, hpointers]

theorem isSized_absorb (t : CType) (w : Written) :
    (t.mapWritten (·.absorb w)).isSized = (!w.pointers.isEmpty || t.isSized) := by
  have hempty : (t.written.absorb w).pointers.isEmpty =
      (t.written.pointers.isEmpty && w.pointers.isEmpty) := by
    rw [Written.absorb_pointers, ← t.written.mapOutermost_pointers_isEmpty (·.union w.base),
      Bool.eq_iff_iff, Bool.and_eq_true, List.isEmpty_iff, List.isEmpty_iff, List.isEmpty_iff,
      List.append_eq_nil_iff]
  cases t with
  | plain inner | aliasing inner _ =>
      rw [written] at hempty
      rw [mapWritten, isSized, isSized, hempty, Written.absorb_category]
      cases w.pointers.isEmpty <;> simp

@[simp] theorem isSized_canonical (t : CType) : t.canonical.isSized = t.isSized := by
  induction t with
  | plain w => rfl
  | aliasing w aliased ih =>
      rcases (aliasing w aliased).canonical_cases with hself | ⟨_, _, heq, hcategory, -, hcanonical⟩
      · rw [hself]
      · cases heq
        rw [hcanonical, isSized_absorb, ih, isSized, hcategory]

/-- The referent of a reference has a known size if the reference has. -/
theorem isSized_referent (hreference : t.reference ≠ .none) :
    t.pointee?.map isSized = some t.isSized := by
  have hpointee : t.written.pointee? = some { t.written with reference := .none } := by
    unfold Written.pointee?
    exact if_pos hreference
  rw [pointee?, hpointee, Option.map_some, Option.map_some, isSized_mapWritten rfl rfl]

theorem isSized_element (t : CType) : t.element.isSized = t.isSized :=
  isSized_mapWritten rfl rfl

end CType

end Understudy
