import Mathlib.Logic.Function.Basic
import Understudy.File.Store
import Understudy.Proofs.Sequencing

/-! # Laws of file stores

A store is seen through what its places hold. Where paths lead depends on its directories alone, so
a change to files leaves every path where it was.
-/

namespace Understudy.FileStore

variable {store before after : FileStore} {place : Location} {path : Path}

/-! ## What places hold -/

theorem ne_of_held {held : Location → Option Entry} {other : Location} {entry : Entry}
    (hother : held other = some entry) (hplace : held place = none) : other ≠ place := by
  rintro rfl
  rw [hplace] at hother
  cases hother

theorem ne_root_of_get? (hplace : store.get? place ≠ some .directory) : place ≠ [] := by
  rintro rfl
  exact hplace rfl

theorem get?_of_ne_root (hplace : place ≠ []) : store.get? place = store.entries.lookup place := by
  simp [get?, hplace]

theorem lookup_filter_ne (entries : List (Location × Entry)) {other : Location}
    (hother : other ≠ place) :
    (entries.filter fun entry => entry.1 ≠ place).lookup other = entries.lookup other := by
  induction entries with
  | nil => rfl
  | cons entry entries ih =>
      by_cases hentry : entry.1 = place
      · have hskip : (other == entry.1) = false := by simpa [hentry] using hother
        rw [List.filter_cons_of_neg (by simpa using hentry), List.lookup_cons, hskip, ih]
      · rw [List.filter_cons_of_pos (by simpa using hentry), List.lookup_cons, List.lookup_cons, ih]

theorem get?_erase (hplace : store.get? place ≠ some .directory) :
    (store.erase place).get? = Function.update store.get? place none := by
  have hroot := ne_root_of_get? hplace
  funext other
  by_cases hother : other = place
  · subst other
    rw [Function.update_self, get?_of_ne_root hroot, erase, List.lookup_eq_none_iff]
    intro entry hentry
    have hne : entry.1 ≠ place := of_decide_eq_true (List.mem_filter.mp hentry).2
    simpa using hne.symm
  · rw [Function.update_of_ne hother, get?, get?, erase, lookup_filter_ne _ hother]

theorem get?_set (hplace : store.get? place ≠ some .directory) (entry : Entry) :
    (store.set place entry).get? = Function.update store.get? place (some entry) := by
  have hroot := ne_root_of_get? hplace
  funext other
  by_cases hother : other = place
  · subst other
    rw [Function.update_self, get?_of_ne_root hroot, set, List.lookup_cons_self]
  · have hskip : (other == place) = false := by simpa using hother
    rw [Function.update_of_ne hother, get?, get?, set, List.lookup_cons, hskip, erase,
      lookup_filter_ne _ hother]

/-! ## Where paths lead -/

/-- The directories of two stores are the same, the working directory among them. -/
structure SameTree (before after : FileStore) : Prop where
  workingDirectory : after.workingDirectory = before.workingDirectory
  directory : ∀ place, after.get? place = some .directory ↔ before.get? place = some .directory

theorem SameTree.refl (store : FileStore) : SameTree store store := ⟨rfl, fun _ => Iff.rfl⟩

theorem SameTree.trans {middle : FileStore} (hfirst : SameTree before middle)
    (hsecond : SameTree middle after) : SameTree before after :=
  ⟨hsecond.workingDirectory.trans hfirst.workingDirectory,
    fun place => (hsecond.directory place).trans (hfirst.directory place)⟩

theorem SameTree.symm (h : SameTree before after) : SameTree after before :=
  ⟨h.workingDirectory.symm, fun place => (h.directory place).symm⟩

theorem sameTree_erase (hplace : store.get? place ≠ some .directory) :
    SameTree store (store.erase place) := by
  refine ⟨rfl, fun other => ?_⟩
  rw [get?_erase hplace]
  by_cases hother : other = place
  · subst other
    simp [hplace]
  · rw [Function.update_of_ne hother]

theorem sameTree_set (hplace : store.get? place ≠ some .directory) (contents : String) :
    SameTree store (store.set place (.file contents)) := by
  refine ⟨rfl, fun other => ?_⟩
  rw [get?_set hplace]
  by_cases hother : other = place
  · subst other
    simp [hplace]
  · rw [Function.update_of_ne hother]

theorem get?_of_step {step : Step} {next : Location} (h : store.step place step = .ok next) :
    store.get? place = some .directory := by
  unfold FileStore.step at h
  split at h
  · cases h
  · cases h
  next hplace => exact hplace

theorem SameTree.step_eq_ok (h : SameTree before after) {step : Step} {next : Location}
    (hstep : before.step place step = .ok next) : after.step place step = .ok next := by
  have hplace := get?_of_step hstep
  have hplace' := (h.directory place).mpr hplace
  unfold FileStore.step at hstep ⊢
  rw [hplace] at hstep
  rw [hplace']
  cases step with
  | name name => exact hstep
  | here => exact hstep
  | up =>
      simp only [h.directory place.tail]
      exact hstep

theorem SameTree.foldlM_step_eq_ok (h : SameTree before after) {steps : List Step}
    {next : Location} (hsteps : steps.foldlM before.step place = .ok next) :
    steps.foldlM after.step place = .ok next := by
  induction steps generalizing place with
  | nil => exact hsteps
  | cons step steps ih =>
      obtain ⟨middle, hstep, hsteps⟩ := bind_eq_ok_iff.mp hsteps
      exact bind_eq_ok_iff.mpr ⟨middle, h.step_eq_ok hstep, ih hsteps⟩

/-- A path that leads somewhere leads there by its steps. -/
theorem foldlM_of_locate (h : store.locate path = .ok place) :
    (Step.ofPath path).foldlM store.step (store.start path) = .ok place := by
  unfold locate at h
  split at h
  · cases h
  split at h
  · cases h
  split at h
  · cases h
  exact h

theorem SameTree.locate_eq_ok (h : SameTree before after) (hpath : before.locate path = .ok place) :
    after.locate path = .ok place := by
  have hsteps := h.foldlM_step_eq_ok (foldlM_of_locate hpath)
  have hstart : after.start path = before.start path := by
    unfold start
    rw [h.workingDirectory]
  unfold locate at hpath ⊢
  rw [hstart, hsteps]
  split at hpath
  · cases hpath
  split at hpath
  · cases hpath
  split at hpath
  · cases hpath
  next hempty hnull hlong => rw [if_neg hempty, if_neg hnull, if_neg hlong]

/-- Paths lead to the same places in two stores with the same directories. -/
theorem SameTree.locate_eq_ok_iff (h : SameTree before after) :
    after.locate path = .ok place ↔ before.locate path = .ok place :=
  ⟨h.symm.locate_eq_ok, h.locate_eq_ok⟩

/-- A path shows the same if the place where it leads holds the same. -/
theorem SameTree.entry?_eq (h : SameTree before after)
    (hheld : ∀ place, before.locate path = .ok place → after.get? place = before.get? place) :
    after.entry? path = before.entry? path := by
  unfold entry?
  cases hpath : before.locate path with
  | ok place =>
      rw [h.locate_eq_ok hpath]
      exact hheld place hpath
  | error fault =>
      cases hpath' : after.locate path with
      | error fault' => rfl
      | ok place =>
          rw [h.locate_eq_ok_iff.mp hpath'] at hpath
          cases hpath

/-- What is no directory is reached by its name. -/
theorem exists_name_of_locate (h : store.locate path = .ok place)
    (hplace : store.get? place ≠ some .directory) :
    ∃ name, (Step.ofPath path).getLast? = some (.name name) := by
  have hsteps := foldlM_of_locate h
  have hsome : Step.ofPath path ≠ [] := by
    unfold Step.ofPath
    exact fun hnil => List.splitOn_ne_nil _ _ (List.map_eq_nil_iff.mp hnil)
  obtain ⟨steps, last, hlast⟩ := (List.eq_nil_or_concat _).resolve_left hsome
  rw [List.concat_eq_append] at hlast
  rw [hlast] at hsteps ⊢
  obtain ⟨middle, -, hstep⟩ := foldlM_concat_eq_ok_iff.mp hsteps
  have hmiddle := get?_of_step hstep
  unfold FileStore.step at hstep
  rw [hmiddle] at hstep
  -- Every step but one by name ends at a directory.
  cases last with
  | name name => exact ⟨name, List.getLast?_concat⟩
  | here =>
      cases hstep
      exact absurd hmiddle hplace
  | up =>
      dsimp only at hstep
      split at hstep
      next habove =>
        cases hstep
        exact absurd habove hplace
      next => cases hstep

/-- A file can be put where a path leads, unless that is a directory. -/
theorem target?_eq_some_iff :
    store.target? path = some place ↔
      store.locate path = .ok place ∧ store.get? place ≠ some .directory := by
  constructor
  · intro h
    unfold target? at h
    split at h
    next name found hlast hlocate =>
      split at h
      · cases h
      next hfree =>
        cases h
        exact ⟨hlocate, hfree⟩
    next => cases h
  · rintro ⟨hlocate, hplace⟩
    obtain ⟨name, hlast⟩ := exists_name_of_locate hlocate hplace
    unfold target?
    rw [hlast, hlocate]
    exact if_neg hplace

theorem SameTree.target?_eq_some_iff (h : SameTree before after) :
    after.target? path = some place ↔ before.target? path = some place := by
  rw [FileStore.target?_eq_some_iff, FileStore.target?_eq_some_iff, h.locate_eq_ok_iff, ne_eq,
    h.directory place]

theorem read_eq_ok_iff {text : String} :
    store.read path = .ok text ↔
      ∃ place, store.locate path = .ok place ∧ store.get? place = some (.file text) := by
  unfold read
  rw [bind_eq_ok_iff]
  constructor
  · rintro ⟨place, hpath, h⟩
    split at h
    next contents hplace =>
      cases h
      exact ⟨place, hpath, hplace⟩
    next => cases h
    next => cases h
  · rintro ⟨place, hpath, hplace⟩
    refine ⟨place, hpath, ?_⟩
    rw [hplace]
    rfl

theorem isFile_eq_true_iff :
    store.isFile path = true ↔
      ∃ place contents, store.locate path = .ok place ∧
        store.get? place = some (.file contents) := by
  unfold isFile entry?
  cases hpath : store.locate path with
  | error fault => simp
  | ok place =>
      cases hplace : store.get? place with
      | none => simp [hplace]
      | some entry => cases entry <;> simp [hplace]

theorem get?_eq_none (hpath : store.locate path = .ok place)
    (hplace : store.get? place ≠ some .directory) (hfile : store.isFile path = false) :
    store.get? place = none := by
  cases hentry : store.get? place with
  | none => rfl
  | some entry =>
      cases entry with
      | directory => exact absurd hentry hplace
      | file contents =>
          rw [isFile_eq_true_iff.mpr ⟨place, contents, hpath, hentry⟩] at hfile
          cases hfile

/-! ## Renaming and removing -/

variable {next : FileStore} {source target : Path} {goal : Location} {contents : String}

theorem get?_ne_directory_of_file (hplace : store.get? place = some (.file contents)) :
    store.get? place ≠ some .directory := by
  rw [hplace]
  simp

theorem exists_move? (hsource : store.locate source = .ok place)
    (hplace : store.get? place = some (.file contents)) (htarget : store.locate target = .ok goal)
    (hgoal : store.get? goal ≠ some .directory) :
    ∃ next, store.move? source target = some next := by
  have htarget' := target?_eq_some_iff.mpr ⟨htarget, hgoal⟩
  simp [move?, hsource, htarget', hplace]

/-- A renaming takes a file from its place to another, where no directory is. -/
theorem move?_eq_some (h : store.move? source target = some next) :
    store.SameTree next ∧ ∃ place goal contents, store.locate source = .ok place ∧
      store.get? place = some (.file contents) ∧ store.locate target = .ok goal ∧
      store.get? goal ≠ some .directory ∧
      next.get? =
        Function.update (Function.update store.get? place none) goal (some (.file contents)) := by
  unfold move? at h
  split at h
  next place goal hsource htarget =>
    obtain ⟨htarget, hgoal⟩ := target?_eq_some_iff.mp htarget
    split at h
    next contents hplace =>
      have hfile := get?_ne_directory_of_file hplace
      have hfree : (store.erase place).get? goal ≠ some .directory := by
        rw [ne_eq, (sameTree_erase hfile).directory goal]
        exact hgoal
      cases h
      refine ⟨(sameTree_erase hfile).trans (sameTree_set hfree contents), place, goal, contents,
        hsource, hplace, htarget, hgoal, ?_⟩
      rw [get?_set hfree, get?_erase hfile]
    next => cases h
    next => cases h
  next => cases h

theorem remove_eq_erase (hpath : store.locate path = .ok place)
    (hplace : store.get? place = some (.file contents)) :
    store.remove path = store.erase place := by
  simp [remove, hpath, hplace]

end Understudy.FileStore
