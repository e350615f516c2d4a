import Mathlib.Data.List.Basic
import Understudy.Proofs.CType.Canonical

/-! # What types mean

To C a type is built from its base outwards: pointer levels, then arrays, then a reference. An alias
means the type it stands for, and qualifiers written on its name go to the outermost pointer level
of that type, or through arrays to the element. Looking through aliases keeps the meaning, as long
as none of them stands for a reference, and leaves an alias only where one cannot be looked through.
-/

namespace Understudy

theorem Cv.union_assoc (a b c : Cv) : (a.union b).union c = a.union (b.union c) := by
  simp [Cv.union, Bool.or_assoc]

namespace CType

/-- A type as C reads it, from the outside in. -/
inductive Meaning where
  | base (name : String) (category : Category) (cv : Cv)
  | pointer (cv : Cv) (pointee : Meaning)
  | array (extent : Extent) (element : Meaning)
  | reference (kind : Reference) (referent : Meaning)
  deriving DecidableEq, Repr

namespace Meaning

variable (m : Meaning)

/-- Qualifiers added to a type. Those of an array are those of its elements, and a reference has
none. -/
def qualify (cv : Cv) : Meaning → Meaning
  | base name category own => base name category (own.union cv)
  | pointer own pointee => pointer (own.union cv) pointee
  | array extent element => array extent (element.qualify cv)
  | reference kind referent => reference kind referent

/-- Pointer levels on a type, innermost first. -/
def pointTo (levels : List Cv) : Meaning := levels.foldl (fun inner cv => pointer cv inner) m

/-- Array extents on a type, outermost first. -/
def arrayOf (extents : List Extent) : Meaning := extents.foldr array m

/-- A reference to a type. References to references collapse, into an rvalue one only if both
are. -/
def refer : Reference → Meaning → Meaning
  | .none, referent => referent
  | .lvalue, reference _ referent => reference .lvalue referent
  | .rvalue, reference kind referent => reference kind referent
  | kind, referent => reference kind referent

def isArray : Meaning → Bool
  | array _ _ => true
  | _ => false

theorem qualify_qualify (a b : Cv) : (m.qualify a).qualify b = m.qualify (a.union b) := by
  induction m with
  | base name category own => simp [qualify, Cv.union_assoc]
  | pointer own pointee => simp [qualify, Cv.union_assoc]
  | array extent element ih => simp [qualify, ih]
  | reference kind referent => rfl

@[simp] theorem qualify_arrayOf (extents : List Extent) (cv : Cv) :
    (m.arrayOf extents).qualify cv = (m.qualify cv).arrayOf extents := by
  induction extents with
  | nil => rfl
  | cons extent extents ih => exact congrArg (array extent) ih

@[simp] theorem pointTo_append (inner outer : List Cv) :
    m.pointTo (inner ++ outer) = (m.pointTo inner).pointTo outer :=
  List.foldl_append

@[simp] theorem arrayOf_append (outer inner : List Extent) :
    m.arrayOf (outer ++ inner) = (m.arrayOf inner).arrayOf outer :=
  List.foldr_append

theorem isArray_pointTo {levels : List Cv} (h : levels ≠ []) :
    (m.pointTo levels).isArray = false := by
  rw [← List.dropLast_append_getLast h, pointTo_append]
  rfl

/-- Qualifiers added to a type go where those of its writing are outermost. -/
theorem qualify_pointTo (w : Written) (cv : Cv) {stem : Cv → Meaning}
    (hstem : ∀ own, (stem own).qualify cv = stem (own.union cv)) :
    ((stem w.base).pointTo w.pointers).qualify cv =
      (stem (w.mapOutermost (·.union cv)).base).pointTo (w.mapOutermost (·.union cv)).pointers := by
  unfold Written.mapOutermost
  cases hlast : w.pointers.getLast? with
  | none =>
      have hnil : w.pointers = [] := List.getLast?_eq_none_iff.mp hlast
      simp [hnil, pointTo, hstem]
  | some last =>
      obtain ⟨before, hbefore⟩ := List.getLast?_eq_some_iff.mp hlast
      simp [hbefore, pointTo, qualify]

end Meaning

/-- What a writing makes of the type that its qualified base name means. -/
def declared (w : Written) (base : Meaning) : Meaning :=
  .refer w.reference ((base.pointTo w.pointers).arrayOf w.extents)

def meaning : CType → Meaning
  | plain w => declared w (.base w.name w.category w.base)
  | aliasing w aliased =>
    declared w
      (if w.category = .typedef then aliased.meaning.qualify w.base
        else .base w.name w.category w.base)

/-- What the base name of a type means with some qualifiers on it. -/
def stem (cv : Cv) : CType → Meaning
  | plain w => .base w.name w.category cv
  | aliasing w aliased =>
    if w.category = .typedef then aliased.meaning.qualify cv else .base w.name w.category cv

variable {t : CType} {w : Written}

theorem meaning_eq (t : CType) : t.meaning = declared t.written (t.stem t.written.base) := by
  cases t <;> rfl

theorem qualify_stem (t : CType) (a b : Cv) : (t.stem a).qualify b = t.stem (a.union b) := by
  cases t with
  | plain w => rfl
  | aliasing w aliased =>
      rw [stem, stem]
      split
      · exact Meaning.qualify_qualify _ _ _
      · rfl

theorem stem_absorb (t : CType) (w : Written) (cv : Cv) :
    (t.mapWritten (·.absorb w)).stem cv = t.stem cv := by
  cases t <;> simp [mapWritten, stem]

/-- Folding a writing into a type means what the writing makes of the type. -/
theorem meaning_absorb (hreference : t.reference = .none)
    (hresolved : t.extents = [] ∨ w.pointers = []) :
    (t.mapWritten (·.absorb w)).meaning = declared w (t.meaning.qualify w.base) := by
  have hwritten : t.written.reference = .none := hreference
  have hmeaning : t.meaning =
      ((t.stem t.written.base).pointTo t.written.pointers).arrayOf t.written.extents := by
    rw [meaning_eq, declared, hwritten, Meaning.refer]
  have hqualified := Meaning.qualify_pointTo t.written w.base fun own => t.qualify_stem own w.base
  have habsorbed : (t.written.absorb w).reference = w.reference := by
    rw [Written.absorb_reference, hwritten]
    split <;> simp [*]
  rw [hmeaning, Meaning.qualify_arrayOf, hqualified, meaning_eq, stem_absorb, written_mapWritten,
    declared, declared, habsorbed, Written.absorb_extents, Meaning.arrayOf_append,
    Written.absorb_pointers, Meaning.pointTo_append, Written.absorb_base]
  -- Arrays below and pointers above do not come together, so the order of the two does not matter.
  congr 2
  rcases hresolved with hextents | hpointers
  · have hinner : t.written.extents = [] := hextents
    rw [hinner]
    rfl
  · rw [hpointers]
    rfl

/-! ## Chains of aliases -/

/-- A type, the type that its base name is an alias of, and so on. -/
def chain : CType → List CType
  | plain w => [plain w]
  | aliasing w aliased => aliasing w aliased :: if w.category = .typedef then aliased.chain else []

/-- Whether none of the types that aliases stand for is a reference. -/
def AliasesNoReference (t : CType) : Prop := ∀ aliased ∈ t.chain.tail, aliased.reference = .none

instance : DecidablePred AliasesNoReference :=
  fun t => inferInstanceAs (Decidable (∀ aliased ∈ t.chain.tail, aliased.reference = .none))

theorem chain_eq_cons (t : CType) : t.chain = t :: t.chain.tail := by
  cases t <;> rfl

theorem tail_chain_of_typedef {aliased : CType} (hcategory : w.category = .typedef) :
    (aliasing w aliased).chain.tail = aliased.chain := by
  rw [chain, List.tail_cons, if_pos hcategory]

theorem aliasesNoReference_of_typedef {aliased : CType} (hcategory : w.category = .typedef) :
    (aliasing w aliased).AliasesNoReference ↔
      aliased.reference = .none ∧ aliased.AliasesNoReference := by
  rw [AliasesNoReference, tail_chain_of_typedef hcategory, chain_eq_cons, List.forall_mem_cons]
  rfl

theorem reference_canonical_eq_none (h : t.AliasesNoReference) (hreference : t.reference = .none) :
    t.canonical.reference = .none := by
  induction t with
  | plain w => exact hreference
  | aliasing w aliased ih =>
      rcases (aliasing w aliased).canonical_cases with hself | ⟨_, _, heq, hcategory, -, hcanonical⟩
      · rwa [hself]
      · cases heq
        have haliased := (aliasesNoReference_of_typedef hcategory).mp h
        have hwritten : w.reference = .none := hreference
        rw [hcanonical, reference_absorb, if_pos hwritten]
        exact ih haliased.2 haliased.1

/-- Looking through aliases keeps the meaning of what is no reference, whatever stays below. -/
theorem meaning_canonical_of_reference (h : t.canonical.reference = .none) :
    t.canonical.meaning = t.meaning := by
  induction t with
  | plain w => rfl
  | aliasing w aliased ih =>
      rcases (aliasing w aliased).canonical_cases with
        hself | ⟨_, _, heq, hcategory, hresolved, hcanonical⟩
      · rw [hself]
      · cases heq
        rw [hcanonical, reference_absorb] at h
        have haliased : aliased.canonical.reference = .none := by
          split at h
          · exact h
          next hreference => exact absurd h hreference
        rw [hcanonical, meaning_absorb haliased hresolved, ih haliased, meaning, if_pos hcategory]

/-- Looking through aliases keeps the meaning. -/
theorem meaning_canonical (h : t.AliasesNoReference) : t.canonical.meaning = t.meaning := by
  rcases t.canonical_cases with hself | ⟨w, aliased, rfl, hcategory, hresolved, hcanonical⟩
  · rw [hself]
  · obtain ⟨hreference, haliased⟩ := (aliasesNoReference_of_typedef hcategory).mp h
    have hnone := reference_canonical_eq_none haliased hreference
    rw [hcanonical, meaning_absorb hnone hresolved, meaning_canonical_of_reference hnone, meaning,
      if_pos hcategory]

/-! ## Aliases that stay -/

/-- Whether the base name is an alias and what it stands for is not known. -/
def LacksAliased : CType → Prop
  | plain w => w.category = .typedef
  | aliasing _ _ => False

/-- Whether pointer levels are written on an alias of an array. -/
def PointsToArrayAlias : CType → Prop
  | plain _ => False
  | aliasing w aliased =>
    w.category = .typedef ∧ w.pointers ≠ [] ∧ aliased.meaning.isArray = true

instance : DecidablePred PointsToArrayAlias
  | plain _ => inferInstanceAs (Decidable False)
  | aliasing w aliased =>
    inferInstanceAs
      (Decidable (w.category = .typedef ∧ w.pointers ≠ [] ∧ aliased.meaning.isArray = true))

/-- Outside of references, what means an array shows its extents when it is canonical. -/
theorem isArray_meaning_iff (h : t.IsCanonical) (hreference : t.reference = .none) :
    t.meaning.isArray = true ↔ t.extents ≠ [] := by
  have hwritten : t.written.reference = .none := hreference
  rw [meaning_eq, declared, hwritten, Meaning.refer, extents]
  cases t.written.extents with
  | cons extent extents => simp [Meaning.arrayOf, Meaning.isArray]
  | nil =>
      have hplain : ((t.stem t.written.base).pointTo t.written.pointers).isArray = false := by
        by_cases hpointers : t.written.pointers = []
        · rw [hpointers]
          cases t with
          | plain w => rfl
          | aliasing w aliased =>
              have hcategory : w.category ≠ .typedef := fun hcategory => (h hcategory).2 hpointers
              rw [stem, if_neg hcategory]
              rfl
        · exact Meaning.isArray_pointTo _ hpointers
      simpa [Meaning.arrayOf] using hplain

theorem pointsToArrayAlias_iff {aliased : CType} (hcategory : w.category = .typedef)
    (h : (aliasing w aliased).AliasesNoReference) :
    (aliasing w aliased).PointsToArrayAlias ↔
      aliased.canonical.extents ≠ [] ∧ w.pointers ≠ [] := by
  obtain ⟨hreference, haliased⟩ := (aliasesNoReference_of_typedef hcategory).mp h
  rw [← isArray_meaning_iff aliased.isCanonical_canonical
    (reference_canonical_eq_none haliased hreference), meaning_canonical haliased,
    PointsToArrayAlias, and_iff_right hcategory, and_comm]

/-- An alias stays only where it is not known what it stands for, or below a pointer to an array. -/
theorem category_canonical_iff (h : t.AliasesNoReference) :
    t.canonical.category = .typedef ↔ ∃ s ∈ t.chain, s.LacksAliased ∨ s.PointsToArrayAlias := by
  induction t with
  | plain w => simp [chain, LacksAliased, PointsToArrayAlias, canonical, category, written]
  | aliasing w aliased ih =>
      by_cases hcategory : w.category = .typedef
      · have hpoints := pointsToArrayAlias_iff hcategory h
        rw [chain, if_pos hcategory, List.exists_mem_cons_iff, hpoints]
        by_cases hresolved : aliased.canonical.extents = [] ∨ w.pointers = []
        · have hpointless : ¬ (aliased.canonical.extents ≠ [] ∧ w.pointers ≠ []) := by
            rwa [← not_or, not_not]
          rw [canonical_of_resolved hcategory hresolved, category_absorb,
            ← ih ((aliasesNoReference_of_typedef hcategory).mp h).2]
          simp [LacksAliased, hpointless, category]
        · rw [not_or] at hresolved
          rw [canonical_of_unresolved hcategory hresolved.1 hresolved.2]
          exact iff_of_true hcategory (.inl (.inr hresolved))
      · rw [canonical_of_not_typedef hcategory, chain, if_neg hcategory]
        simp [LacksAliased, PointsToArrayAlias, category, written, hcategory]

/-- Looking through aliases none of which stands for a reference keeps the meaning, leaves nothing
to be looked through, and leaves an alias only where it cannot be looked through. -/
theorem canonical_resolves (t : CType) (h : t.AliasesNoReference) :
    t.canonical.meaning = t.meaning ∧ t.canonical.canonical = t.canonical ∧
      (t.canonical.category = .typedef ↔
        ∃ s ∈ t.chain, s.LacksAliased ∨ s.PointsToArrayAlias) :=
  ⟨meaning_canonical h, t.isCanonical_canonical.canonical_eq, category_canonical_iff h⟩

/-- Arrays of a constant alias of a pointer to an alias of an array. -/
theorem canonical_resolves_pointer_to_array :
    let row := typedef "Row" ((arithmetic .int).withConst.array (some 3))
    let rows := typedef "Rows" row.pointer
    let table := (rows.withConst.array (some 2)).array none
    table.AliasesNoReference ∧
      table.canonical.meaning =
        .array (some 2) (.array none (.pointer ⟨true, false⟩
          (.array (some 3) (.base "int" (.arithmetic .int) ⟨true, false⟩)))) ∧
      table.canonical.category = .typedef := by
  intro row rows table
  have hnone : table.AliasesNoReference := by decide
  obtain ⟨hmeaning, -, hcategory⟩ := canonical_resolves table hnone
  refine ⟨hnone, hmeaning.trans (by decide), hcategory.mpr ?_⟩
  exact ⟨row.pointer, by decide, .inr ⟨rfl, by decide, by decide⟩⟩

end CType

end Understudy
