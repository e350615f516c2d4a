import Understudy.Proofs.File.Store

/-! # Paths that lead to files

Only a path with a file name leads to where a file can be put. Two paths that differ in nothing but
the end of their file names lead to different places.
-/

namespace Understudy

namespace Path

/-- More text at the end of a path goes to its last part. -/
theorem exists_splitOn_append (text : List Char) :
    ∃ parts last, ∀ suffix, '/' ∉ suffix →
      (text ++ suffix).splitOn '/' = parts ++ [last ++ suffix] := by
  -- The split is found from the front: a slash begins a part, and any other character joins one.
  induction text with
  | nil => exact ⟨[], [], fun suffix hsuffix => List.splitOn_eq_singleton hsuffix⟩
  | cons c text ih =>
      obtain ⟨parts, last, hsplit⟩ := ih
      by_cases hslash : c = '/'
      · refine ⟨[] :: parts, last, fun suffix hsuffix => ?_⟩
        rw [List.cons_append, List.splitOn_cons_eq_if_modifyHead, hsplit suffix hsuffix, hslash]
        rfl
      · have hother : (c == '/') = false := by simpa using hslash
        cases parts with
        | nil =>
            refine ⟨[], c :: last, fun suffix hsuffix => ?_⟩
            rw [List.cons_append, List.splitOn_cons_eq_if_modifyHead, hsplit suffix hsuffix, hother]
            rfl
        | cons part parts =>
            refine ⟨(c :: part) :: parts, last, fun suffix hsuffix => ?_⟩
            rw [List.cons_append, List.splitOn_cons_eq_if_modifyHead, hsplit suffix hsuffix, hother]
            rfl

end Path

namespace FileStore

variable {store : FileStore} {path : Path} {place other : Location}

theorem Step.ofPart_eq_name {part : List Char} {name : String}
    (h : Step.ofPart part = .name name) : part ≠ [] ∧ part ≠ ['.'] ∧ part ≠ ['.', '.'] := by
  unfold Step.ofPart at h
  split at h
  · cases h
  split at h
  · cases h
  next hhere hup => exact ⟨fun hnil => hhere (.inl hnil), fun hdot => hhere (.inr hdot), hup⟩

theorem Step.ofPart_of_long {part : List Char} (hlong : 2 < part.length) :
    Step.ofPart part = .name (String.ofList part) := by
  have hhere : ¬ (part = [] ∨ part = ['.']) := by
    rintro (rfl | rfl) <;> simp at hlong
  have hup : part ≠ ['.', '.'] := by
    rintro rfl
    simp at hlong
  rw [Step.ofPart, if_neg hhere, if_neg hup]

/-- A path without a file name leads to no place for a file. -/
theorem fileName?_of_target? (h : store.target? path = some place) : path.fileName? ≠ none := by
  obtain ⟨hlocate, hplace⟩ := target?_eq_some_iff.mp h
  obtain ⟨name, hname⟩ := exists_name_of_locate hlocate hplace
  obtain ⟨parts, hparts⟩ := List.getLast?_eq_some_iff.mp hname
  obtain ⟨front, back, hsplit, -, hback⟩ := List.map_eq_append_iff.mp hparts
  obtain ⟨last, rfl, hlast⟩ := List.map_eq_singleton_iff.mp hback
  obtain ⟨hempty, hdot, hup⟩ := Step.ofPart_eq_name hlast
  have hgetLast : path.parts.getLast? = some last := by
    change ((path.text.toList.splitOn '/').filter _).getLast? = some last
    rw [hsplit, List.filter_append]
    simp [hempty, hdot]
  rw [Path.fileName?, hgetLast]
  simp [hup]

theorem eq_of_step_name {name : String} (h : store.step place (.name name) = .ok other) :
    other = name :: place := by
  have hplace := get?_of_step h
  unfold FileStore.step at h
  rw [hplace] at h
  dsimp only at h
  split at h
  · cases h
    rfl
  · cases h

/-- A file whose path ends in a long suffix has a name that ends in it. -/
theorem exists_place_of_append (store : FileStore) (front : String) :
    ∃ last : List Char, ∀ suffix : String, '/' ∉ suffix.toList → 2 < suffix.toList.length →
      ∀ place, store.locate { text := front ++ suffix } = .ok place →
        ∃ directory, place = String.ofList (last ++ suffix.toList) :: directory := by
  obtain ⟨parts, last, hsplit⟩ := Path.exists_splitOn_append front.toList
  refine ⟨last, ?_⟩
  intro suffix hslash hlong place hplace
  have hlast : 2 < (last ++ suffix.toList).length := by
    rw [List.length_append]
    omega
  have hsteps : Step.ofPath { text := front ++ suffix } =
      parts.map Step.ofPart ++ [.name (String.ofList (last ++ suffix.toList))] := by
    rw [Step.ofPath, String.toList_append, hsplit suffix.toList hslash, List.map_append,
      List.map_singleton, Step.ofPart_of_long hlast]
  have hrun := foldlM_of_locate hplace
  rw [hsteps] at hrun
  obtain ⟨directory, -, hstep⟩ := foldlM_concat_eq_ok_iff.mp hrun
  exact ⟨directory, eq_of_step_name hstep⟩

/-- File names that differ in a long suffix make paths to different places. -/
theorem ne_of_locate_append {front first second : String} (hne : first ≠ second)
    (hfirst : '/' ∉ first.toList ∧ 2 < first.toList.length)
    (hsecond : '/' ∉ second.toList ∧ 2 < second.toList.length)
    (hplace : store.locate { text := front ++ first } = .ok place)
    (hother : store.locate { text := front ++ second } = .ok other) : place ≠ other := by
  obtain ⟨last, hform⟩ := exists_place_of_append store front
  obtain ⟨_, rfl⟩ := hform first hfirst.1 hfirst.2 place hplace
  obtain ⟨_, rfl⟩ := hform second hsecond.1 hsecond.2 other hother
  intro hsame
  have hname := String.ofList_injective (List.cons.inj hsame).1
  exact hne (String.toList_injective (List.append_cancel_left hname))

end FileStore

end Understudy
