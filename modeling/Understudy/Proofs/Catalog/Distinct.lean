import Mathlib.Data.List.Induction
import Mathlib.Data.List.Nodup
import Understudy.Catalog
import Understudy.Proofs.Mock.Mockable

/-! # One entry for each function

A header may declare a function many times. The declarations of one function agree in name,
constness and spelled parameter types, and what they are merged into agrees with them too: merging
adds a body or a pure specifier and nothing else. So the entry of a function can be found by any of
its declarations at any time, which is the invariant that the collection keeps.
-/

namespace Understudy

namespace Declaration

variable {a b d e first : Declaration} {seen entries declarations : List Declaration}

/-! ## Declarations of one function -/

/-- What the declarations of one function agree in. -/
def signature (d : Declaration) : String × Bool × List String :=
  (d.qualifiedName, d.traits.isConst, d.spellings)

theorem redeclares_iff : a.redeclares b = true ↔ a.signature = b.signature := by
  simp [redeclares, signature, and_assoc]

theorem equivalence_redeclares : Equivalence fun a b : Declaration => a.redeclares b = true where
  refl _ := redeclares_iff.mpr rfl
  symm h := redeclares_iff.mpr (redeclares_iff.mp h).symm
  trans h k := redeclares_iff.mpr ((redeclares_iff.mp h).trans (redeclares_iff.mp k))

@[simp]
theorem signature_merge : (a.merge b).signature = a.signature := rfl

/-- Declarations of one function cannot be told apart by what they redeclare. -/
theorem redeclares_congr (h : a.signature = b.signature) : a.redeclares = b.redeclares := by
  funext other
  rw [Bool.eq_iff_iff, redeclares_iff, redeclares_iff, h]

theorem redeclares_comm : a.redeclares b = b.redeclares a := by
  rw [Bool.eq_iff_iff, redeclares_iff, redeclares_iff, eq_comm]

/-- A declaration with what the declarations of its function in a list say together: whether one of
them has the body, and whether one of them is pure. -/
def pooled (declarations : List Declaration) (d : Declaration) : Declaration :=
  { d with
    traits := { d.traits with
      isDefined := declarations.any fun e => d.redeclares e && e.traits.isDefined
      isPureVirtual := declarations.any fun e => d.redeclares e && e.traits.isPureVirtual } }

@[simp]
theorem signature_pooled : (d.pooled declarations).signature = d.signature := rfl

theorem pooled_concat_of_redeclares (h : first.redeclares d = true) :
    first.pooled (seen ++ [d]) = (first.pooled seen).merge d := by
  simp [pooled, merge, List.any_append, h]

theorem pooled_concat_of_not (h : first.redeclares d = false) :
    first.pooled (seen ++ [d]) = first.pooled seen := by
  simp [pooled, List.any_append, h]

theorem pooled_concat_self (h : ∀ e ∈ seen, d.redeclares e = false) :
    d.pooled (seen ++ [d]) = d := by
  have hnone (p : Declaration → Bool) : (seen.any fun e => d.redeclares e && p e) = false := by
    refine List.any_eq_false.mpr fun e he => ?_
    simp [h e he]
  have hself : d.redeclares d = true := redeclares_iff.mpr rfl
  simp [pooled, List.any_append, hnone, hself]

theorem bodiless_of_pooled
    (h : ((first.pooled declarations).traits.isDefined ||
      (first.pooled declarations).traits.isPureVirtual) = false)
    (hd : d ∈ declarations) (hsame : first.redeclares d = true) :
    (d.traits.isDefined || d.traits.isPureVirtual) = false := by
  obtain ⟨hdefined, hpure⟩ := Bool.or_eq_false_iff.mp h
  have hdefined := List.any_eq_false.mp hdefined d hd
  have hpure := List.any_eq_false.mp hpure d hd
  rw [hsame, Bool.true_and, Bool.not_eq_true] at hdefined hpure
  rw [hdefined, hpure, Bool.false_or]

/-! ## Collecting -/

/-- A declaration is merged into the entry of its function. -/
def joined (d e : Declaration) : Declaration := if d.redeclares e then e.merge d else e

theorem signature_joined : (d.joined e).signature = e.signature := by
  unfold joined
  split
  · exact signature_merge
  · rfl

/-- Joining changes no signature, so every entry is found and ordered as before. -/
theorem redeclares_joined : (d.joined e).redeclares = e.redeclares :=
  redeclares_congr signature_joined

theorem insert_of_forall_not (h : ∀ e ∈ entries, d.redeclares e = false) :
    d.insert entries = entries ++ [d] := by
  induction entries with
  | nil => rfl
  | cons e entries ih =>
      obtain ⟨he, hentries⟩ := List.forall_mem_cons.mp h
      simp [insert, he, ih hentries]

/-- At most one entry takes a declaration over. -/
theorem insert_of_exists (hdistinct : entries.Pairwise fun a b => a.signature ≠ b.signature)
    (h : ∃ e ∈ entries, d.redeclares e = true) : d.insert entries = entries.map d.joined := by
  induction entries with
  | nil => simp at h
  | cons e entries ih =>
      obtain ⟨he, hentries⟩ := List.pairwise_cons.mp hdistinct
      by_cases hsame : d.redeclares e = true
      · have hrest : entries.map d.joined = entries := by
          refine (List.map_congr_left fun other hmem => ?_).trans (List.map_id entries)
          have hother : d.redeclares other = false := by
            rw [redeclares_congr (redeclares_iff.mp hsame), Bool.eq_false_iff, ne_eq,
              redeclares_iff]
            exact he other hmem
          simp [joined, hother]
        simp [insert, joined, hsame, hrest]
      · have hlater : ∃ e ∈ entries, d.redeclares e = true := by
          obtain ⟨other, hmem, hother⟩ := h
          rcases List.mem_cons.mp hmem with rfl | hmem
          · exact absurd hother hsame
          · exact ⟨other, hmem, hother⟩
        simp [insert, joined, hsame, ih hentries hlater]

/-- The entries that the declarations seen so far are collected into: each function has one, in the
order of the first declarations, and it is the first declaration with what all of them say. -/
structure Collects (seen entries : List Declaration) : Prop where
  covers : ∀ d ∈ seen, ∃ e ∈ entries, d.redeclares e = true
  pooled : ∀ e ∈ entries, ∃ first, seen.find? e.redeclares = some first ∧ e = first.pooled seen
  ordered : entries.Pairwise fun a b => seen.findIdx a.redeclares < seen.findIdx b.redeclares

namespace Collects

theorem nil : Collects [] [] := ⟨by simp, by simp, .nil⟩

theorem distinct (h : Collects seen entries) :
    entries.Pairwise fun a b => a.signature ≠ b.signature := by
  refine h.ordered.imp fun {a b} hlt hsame => ?_
  rw [redeclares_congr hsame] at hlt
  exact Nat.lt_irrefl _ hlt

theorem exists_mem_seen (h : Collects seen entries) (he : e ∈ entries) :
    ∃ d ∈ seen, e.redeclares d = true := by
  obtain ⟨first, hfirst, -⟩ := h.pooled e he
  exact ⟨first, List.mem_of_find?_eq_some hfirst, List.find?_some hfirst⟩

theorem findIdx_lt (h : Collects seen entries) (he : e ∈ entries) :
    seen.findIdx e.redeclares < seen.length :=
  List.findIdx_lt_length.mpr (h.exists_mem_seen he)

/-- What comes later does not change where a function first appears. -/
theorem findIdx_concat (h : Collects seen entries) (he : e ∈ entries) :
    (seen ++ [d]).findIdx e.redeclares = seen.findIdx e.redeclares := by
  rw [List.findIdx_append, if_pos (h.findIdx_lt he)]

theorem find?_concat (h : Collects seen entries) (he : e ∈ entries) :
    (seen ++ [d]).find? e.redeclares = seen.find? e.redeclares := by
  obtain ⟨first, hfirst, -⟩ := h.pooled e he
  rw [List.find?_append, hfirst, Option.some_or]

theorem concat_of_exists (h : Collects seen entries)
    (hsame : ∃ e ∈ entries, d.redeclares e = true) :
    Collects (seen ++ [d]) (entries.map d.joined) where
  covers other hmem := by
    have hcovered : ∃ e ∈ entries, other.redeclares e = true := by
      rcases List.mem_append.mp hmem with hmem | hmem
      · exact h.covers other hmem
      · rwa [List.mem_singleton.mp hmem]
    obtain ⟨e, he, hother⟩ := hcovered
    refine ⟨d.joined e, List.mem_map_of_mem he, ?_⟩
    rwa [redeclares_iff, signature_joined, ← redeclares_iff]
  pooled e' he' := by
    obtain ⟨e, he, rfl⟩ := List.mem_map.mp he'
    obtain ⟨first, hfirst, hpooled⟩ := h.pooled e he
    refine ⟨first, by rw [redeclares_joined, h.find?_concat he, hfirst], ?_⟩
    -- The entry takes `d` over exactly when the first declaration is of the same function as `d`.
    have hfunction : d.redeclares e = first.redeclares d := by
      rw [redeclares_comm, hpooled, redeclares_congr signature_pooled]
    unfold joined
    cases hmerged : d.redeclares e with
    | true =>
        rw [if_pos rfl, pooled_concat_of_redeclares (hfunction.symm.trans hmerged), hpooled]
    | false =>
        rw [if_neg Bool.false_ne_true, pooled_concat_of_not (hfunction.symm.trans hmerged), hpooled]
  ordered := by
    refine List.pairwise_map.mpr (h.ordered.imp_of_mem fun {a b} ha hb hlt => ?_)
    rwa [redeclares_joined, redeclares_joined, h.findIdx_concat ha, h.findIdx_concat hb]

/-- A declaration of a new function repeats nothing that was seen. -/
theorem forall_seen_not (h : Collects seen entries)
    (hnew : ∀ e ∈ entries, d.redeclares e = false) : ∀ other ∈ seen, d.redeclares other = false := by
  intro other hmem
  obtain ⟨e, he, hother⟩ := h.covers other hmem
  rw [redeclares_comm, redeclares_congr (redeclares_iff.mp hother), redeclares_comm]
  exact hnew e he

theorem concat_of_forall_not (h : Collects seen entries)
    (hnew : ∀ e ∈ entries, d.redeclares e = false) :
    Collects (seen ++ [d]) (entries ++ [d]) where
  covers other hmem := by
    rcases List.mem_append.mp hmem with hmem | hmem
    · obtain ⟨e, he, hother⟩ := h.covers other hmem
      exact ⟨e, List.mem_append_left _ he, hother⟩
    · rw [List.mem_singleton.mp hmem]
      exact ⟨d, List.mem_append_right _ List.mem_cons_self, redeclares_iff.mpr rfl⟩
  pooled e he := by
    have hunseen := h.forall_seen_not hnew
    rcases List.mem_append.mp he with he | he
    · obtain ⟨first, hfirst, hpooled⟩ := h.pooled e he
      refine ⟨first, by rw [h.find?_concat he, hfirst], ?_⟩
      have hother : first.redeclares d = false := by
        rw [← hnew e he, redeclares_comm, hpooled]
        rfl
      rwa [pooled_concat_of_not hother]
    · rw [List.mem_singleton.mp he]
      refine ⟨d, ?_, (pooled_concat_self hunseen).symm⟩
      rw [List.find?_append, List.find?_eq_none.mpr (by simpa using hunseen), Option.none_or,
        List.find?_singleton, if_pos (redeclares_iff.mpr rfl)]
  ordered := by
    refine List.pairwise_append.mpr ⟨?_, List.pairwise_singleton _ _, ?_⟩
    · refine h.ordered.imp_of_mem fun {a b} ha hb hlt => ?_
      rwa [h.findIdx_concat ha, h.findIdx_concat hb]
    · intro a ha last hlast
      rw [List.mem_singleton.mp hlast, h.findIdx_concat ha, List.findIdx_append]
      have hlt := h.findIdx_lt ha
      -- The new function first appears at the end.
      have hnone : ¬ seen.findIdx d.redeclares < seen.length := by
        rw [List.findIdx_lt_length]
        simpa using h.forall_seen_not hnew
      rw [if_neg hnone]
      omega

theorem concat (h : Collects seen entries) : Collects (seen ++ [d]) (d.insert entries) := by
  by_cases hsame : ∃ e ∈ entries, d.redeclares e = true
  · rw [insert_of_exists h.distinct hsame]
    exact h.concat_of_exists hsame
  · have hnew : ∀ e ∈ entries, d.redeclares e = false := by
      simpa only [not_exists, not_and, Bool.not_eq_true] using hsame
    rw [insert_of_forall_not hnew]
    exact h.concat_of_forall_not hnew

theorem countP_eq_one (h : Collects seen entries) (hd : d ∈ seen) :
    entries.countP d.redeclares = 1 := by
  obtain ⟨e, he, hsame⟩ := h.covers d hd
  have hnodup : (entries.map signature).Nodup := List.pairwise_map.mpr h.distinct
  have hcount := List.count_eq_one_of_mem hnodup (List.mem_map_of_mem he)
  rw [List.count_eq_countP, List.countP_map] at hcount
  rw [← hcount]
  refine List.countP_congr fun other _ => ?_
  rw [Function.comp_apply, beq_iff_eq, redeclares_iff, redeclares_iff.mp hsame, eq_comm]

end Collects

/-- The declarations of a list are collected, in whatever order they come. -/
theorem collects_distinct (declarations : List Declaration) :
    Collects declarations (distinct declarations) := by
  induction declarations using List.reverseRecOn with
  | nil => exact .nil
  | append_singleton seen d ih =>
      rw [distinct, List.foldl_concat]
      exact ih.concat

end Declaration

/-! ## Catalogs -/

namespace Catalog

variable {book : RuleBook} {declarations : List Declaration} {group : List Analysis} {a : Analysis}

/-- A catalog of a header's declarations: each function has one entry, in one of the two lists,
which analyses the function's first declaration with what all of them say. -/
structure Represents (book : RuleBook) (declarations : List Declaration) (catalog : Catalog) :
    Prop where
  once : ∀ d ∈ declarations,
    (catalog.mockable ++ catalog.unmockable).countP (fun a => d.redeclares a.declaration) = 1
  analysed : ∀ a ∈ catalog.mockable ++ catalog.unmockable, ∃ first name,
    declarations.find? a.declaration.redeclares = some first ∧
      a = { book.analyse (first.pooled declarations) with companionName := name }
  mockable_ordered : catalog.mockable.Pairwise fun a b =>
    declarations.findIdx a.declaration.redeclares < declarations.findIdx b.declaration.redeclares
  unmockable_ordered : catalog.unmockable.Pairwise fun a b =>
    declarations.findIdx a.declaration.redeclares < declarations.findIdx b.declaration.redeclares
  isMockable_of_mockable : ∀ a ∈ catalog.mockable, a.isMockable = true
  isMockable_of_unmockable : ∀ a ∈ catalog.unmockable, a.isMockable = false
  /-- One body or pure specifier among the declarations of a function forbids its mock. -/
  not_mockable : ∀ d ∈ declarations, (d.traits.isDefined || d.traits.isPureVirtual) = true →
    ∀ a ∈ catalog.mockable, d.redeclares a.declaration = false

theorem map_nameCompanions : (nameCompanions group).map Analysis.declaration =
    group.map Analysis.declaration := by
  rw [nameCompanions, List.map_map]
  refine List.map_congr_left fun a _ => ?_
  rw [Function.comp_apply]
  split <;> rfl

theorem exists_of_mem_nameCompanions (h : a ∈ nameCompanions group) :
    ∃ b ∈ group, ∃ name, a = { b with companionName := name } := by
  obtain ⟨b, hb, rfl⟩ := List.mem_map.mp h
  refine ⟨b, hb, ?_⟩
  split
  · exact ⟨b.companionName, rfl⟩
  · exact ⟨_, rfl⟩

theorem map_declaration_mockable : (ofDeclarations book declarations).mockable.map
    Analysis.declaration =
      (Declaration.distinct declarations).filter fun d => (book.analyse d).isMockable := by
  change (nameCompanions _).map Analysis.declaration = _
  rw [map_nameCompanions, List.filter_map, List.map_map]
  exact List.map_id _

theorem map_declaration_unmockable : (ofDeclarations book declarations).unmockable.map
    Analysis.declaration =
      (Declaration.distinct declarations).filter fun d => !(book.analyse d).isMockable := by
  change (List.filter _ _).map Analysis.declaration = _
  rw [List.filter_map, List.map_map]
  exact List.map_id _

/-- The entry of a function is the analysis of what its declarations are collected into. -/
theorem exists_of_mem_ofDeclarations
    (h : a ∈ (ofDeclarations book declarations).mockable ++
      (ofDeclarations book declarations).unmockable) :
    ∃ d ∈ Declaration.distinct declarations, ∃ name,
      a = { book.analyse d with companionName := name } := by
  rcases List.mem_append.mp h with h | h
  · obtain ⟨b, hb, name, rfl⟩ := exists_of_mem_nameCompanions h
    obtain ⟨d, hd, rfl⟩ := List.mem_map.mp (List.mem_of_mem_filter hb)
    exact ⟨d, hd, name, rfl⟩
  · obtain ⟨d, hd, rfl⟩ := List.mem_map.mp (List.mem_of_mem_filter h)
    exact ⟨d, hd, _, rfl⟩

theorem countP_ofDeclarations (p : Declaration → Bool) :
    ((ofDeclarations book declarations).mockable ++
      (ofDeclarations book declarations).unmockable).countP (fun a => p a.declaration) =
        (Declaration.distinct declarations).countP p := by
  have hmap (entries : List Analysis) : entries.countP (fun a => p a.declaration) =
      (entries.map Analysis.declaration).countP p := List.countP_map.symm
  rw [List.countP_append, hmap, hmap, map_declaration_mockable, map_declaration_unmockable]
  exact (List.countP_eq_countP_filter_add _ _ _).symm

theorem isMockable_of_mem_mockable (h : a ∈ (ofDeclarations book declarations).mockable) :
    a.isMockable = true := by
  obtain ⟨b, hb, name, rfl⟩ := exists_of_mem_nameCompanions h
  exact (List.mem_filter.mp hb).2

/-- A mockable function has neither a body nor a pure specifier. -/
theorem bodiless_of_isMockable {d : Declaration} (h : (book.analyse d).isMockable = true) :
    (d.traits.isDefined || d.traits.isPureVirtual) = false := by
  have htraits := (RuleBook.isMockable_analyse_iff.mp h).1
  unfold Obstacle.ofTraits? at htraits
  split at htraits
  · cases htraits
  split at htraits
  · cases htraits
  split at htraits
  · cases htraits
  next hpure =>
    split at htraits
    · cases htraits
    next hdefined => simp [hpure, hdefined]

/-- Entries that are collected stand in the order of their functions. -/
theorem pairwise_of_map_declaration {entries : List Analysis} {p : Declaration → Bool}
    (hentries : entries.map Analysis.declaration =
      (Declaration.distinct declarations).filter p) :
    entries.Pairwise fun a b =>
      declarations.findIdx a.declaration.redeclares <
        declarations.findIdx b.declaration.redeclares := by
  have hkept := (Declaration.collects_distinct declarations).ordered.filter p
  rwa [← hentries, List.pairwise_map] at hkept

theorem redeclares_eq_false_of_mem_mockable {d : Declaration} (hd : d ∈ declarations)
    (hbody : (d.traits.isDefined || d.traits.isPureVirtual) = true)
    (ha : a ∈ (ofDeclarations book declarations).mockable) :
    d.redeclares a.declaration = false := by
  have hmockable := isMockable_of_mem_mockable ha
  obtain ⟨e, he, name, rfl⟩ := exists_of_mem_ofDeclarations (List.mem_append_left _ ha)
  obtain ⟨first, -, rfl⟩ := (Declaration.collects_distinct declarations).pooled e he
  by_contra hsame
  rw [Bool.not_eq_false, Declaration.redeclares_comm] at hsame
  have hbodiless := @bodiless_of_isMockable book _ hmockable
  rw [Declaration.bodiless_of_pooled hbodiless hd hsame] at hbody
  cases hbody

/-- To be declared again is to be the same function, and the catalog of a header represents each
function once. -/
theorem represents_each_function_once :
    Equivalence (fun a b : Declaration => a.redeclares b = true) ∧
      ∀ book declarations, Represents book declarations (ofDeclarations book declarations) := by
  refine ⟨Declaration.equivalence_redeclares, fun book declarations => ?_⟩
  have hcollects := Declaration.collects_distinct declarations
  exact {
    once := by
      intro d hd
      rw [countP_ofDeclarations d.redeclares]
      exact hcollects.countP_eq_one hd
    analysed := by
      intro a ha
      obtain ⟨d, hd, name, rfl⟩ := exists_of_mem_ofDeclarations ha
      obtain ⟨first, hfirst, hpooled⟩ := hcollects.pooled d hd
      exact ⟨first, name, hfirst, by rw [← hpooled]⟩
    mockable_ordered := pairwise_of_map_declaration map_declaration_mockable
    unmockable_ordered := pairwise_of_map_declaration map_declaration_unmockable
    isMockable_of_mockable := fun a ha => isMockable_of_mem_mockable ha
    isMockable_of_unmockable := by
      intro a ha
      simpa using (List.mem_filter.mp ha).2
    not_mockable := fun d hd hbody a ha => redeclares_eq_false_of_mem_mockable hd hbody ha }

end Catalog

end Understudy
