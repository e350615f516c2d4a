import Understudy.File.Disk
import Understudy.Proofs.File.Store

/-! # What file system steps do to a disk

Each step is described by what the places hold after it. A step that is refused changes nothing, and
no step makes or removes a directory.
-/

namespace Understudy.Disk

variable {α β : Type} {disk middle after : Disk}

/-! ## Running programs -/

/-- What a program answers on a disk, and the disk that it leaves. -/
def run (disk : Disk) (program : StateM Disk α) : α × Disk := program disk

theorem run_bind_eq_iff {program : StateM Disk α} {next : α → StateM Disk β} {b : β} :
    disk.run (program >>= next) = (b, after) ↔
      ∃ a middle, disk.run program = (a, middle) ∧ middle.run (next a) = (b, after) := by
  constructor
  · intro h
    exact ⟨_, _, rfl, h⟩
  · rintro ⟨a, middle, hfirst, hnext⟩
    have hrun : disk.run (program >>= next) =
        (disk.run program).2.run (next (disk.run program).1) := rfl
    rw [hrun, hfirst]
    exact hnext

theorem run_eq_of_isOk {ε : Type} {program : StateM Disk (Except ε Unit)}
    (h : (disk.run program).1.isOk = true) : disk.run program = (.ok (), (disk.run program).2) := by
  generalize disk.run program = result at h ⊢
  obtain ⟨answer, after⟩ := result
  cases answer with
  | error e => cases h
  | ok _ => rfl

/-! ## What no step changes -/

/-- The directories and what has been printed are the same. -/
structure SameFrame (before after : Disk) : Prop where
  tree : before.store.SameTree after.store
  printed : after.printed = before.printed

theorem SameFrame.refl (disk : Disk) : SameFrame disk disk := ⟨.refl _, rfl⟩

theorem SameFrame.trans (hfirst : SameFrame disk middle) (hsecond : SameFrame middle after) :
    SameFrame disk after :=
  ⟨hfirst.tree.trans hsecond.tree, hsecond.printed.trans hfirst.printed⟩

/-! ## Steps -/

/-- A step that may fail answers with what it does to the store. -/
theorem run_attempt {step : FileStore → Option (α × FileStore)} {answer? : Option α}
    (h : disk.run (attempt step) = (answer?, after)) :
    after.printed = disk.printed ∧
      match answer? with
      | none => after.store = disk.store
      | some answer => step disk.store = some (answer, after.store) := by
  unfold run attempt at h
  dsimp only at h
  split at h
  · cases h
    exact ⟨rfl, rfl⟩
  · split at h
    next answer store hstep =>
      cases h
      exact ⟨rfl, hstep⟩
    next =>
      cases h
      exact ⟨rfl, rfl⟩

/-- A path leads to a place that holds nothing, and none of the avoided paths leads there. -/
structure IsFresh (store : FileStore) (avoided : List Path) (path : Path) (place : Location) :
    Prop where
  locate : store.locate path = .ok place
  empty : store.get? place = none
  clear : ∀ other ∈ avoided, store.locate other ≠ .ok place

theorem IsFresh.ne_of_held {store : FileStore} {avoided : List Path} {path : Path}
    {place other : Location} {entry : Entry} (hfresh : IsFresh store avoided path place)
    (hother : store.get? other = some entry) : other ≠ place :=
  FileStore.ne_of_held hother hfresh.empty

theorem isFresh_of_freshPath? {store : FileStore} {avoided : List Path} {directory fresh : Path}
    {place : Location} (h : store.freshPath? avoided directory = some (fresh, place)) :
    IsFresh store avoided fresh place := by
  obtain ⟨number, -, hnumber⟩ := List.exists_of_findSome?_eq_some h
  dsimp only at hnumber
  split at hnumber
  next found hlocate =>
    split at hnumber
    next => cases hnumber
    next hfree =>
      cases hnumber
      simp only [Bool.or_eq_true, List.any_eq_true, not_or, not_exists, not_and,
        Bool.not_eq_true, Option.isSome_eq_false_iff, Option.isNone_iff_eq_none] at hfree
      refine ⟨hlocate, hfree.1, ?_⟩
      intro other hother hleads
      have hnot := hfree.2 other hother
      simp [FileStore.leadsTo, hleads] at hnot
  next => cases hnumber

theorem createBeside_some {avoided : List Path} {path fresh : Path} {contents : String}
    (h : disk.run (FileSystem.createBeside avoided path contents) = (some fresh, after)) :
    disk.SameFrame after ∧ ∃ place, IsFresh disk.store avoided fresh place ∧
      after.store.get? = Function.update disk.store.get? place (some (.file contents)) := by
  obtain ⟨hprinted, hstep⟩ := run_attempt h
  obtain ⟨⟨found, place⟩, hfound, hmade⟩ := Option.map_eq_some_iff.mp hstep
  have hfresh := isFresh_of_freshPath? hfound
  obtain ⟨hpath, hstore⟩ := Prod.mk.inj hmade
  subst found
  have hplace : disk.store.get? place ≠ some .directory := by
    rw [hfresh.empty]
    simp
  rw [← hstore]
  exact ⟨⟨hstore ▸ FileStore.sameTree_set hplace contents, hprinted⟩, place, hfresh,
    FileStore.get?_set hplace _⟩

theorem createBeside_none {avoided : List Path} {path : Path} {contents : String}
    (h : disk.run (FileSystem.createBeside avoided path contents) = (none, after)) :
    disk.SameFrame after ∧ after.store.get? = disk.store.get? := by
  obtain ⟨hprinted, hstore⟩ := run_attempt h
  dsimp only at hstore
  exact ⟨⟨hstore ▸ .refl _, hprinted⟩, by rw [hstore]⟩

variable {source target path : Path} {place goal : Location} {contents : String}

/-- A renaming that succeeds takes a file from its place to another, where no directory is. -/
theorem move_true (h : disk.run (FileSystem.move source target) = (true, after)) :
    disk.SameFrame after ∧ ∃ place goal contents, disk.store.locate source = .ok place ∧
      disk.store.get? place = some (.file contents) ∧ disk.store.locate target = .ok goal ∧
      disk.store.get? goal ≠ some .directory ∧
      after.store.get? =
        Function.update (Function.update disk.store.get? place none) goal
          (some (.file contents)) := by
  obtain ⟨moved, middle, hattempt, hanswer⟩ := run_bind_eq_iff.mp h
  obtain ⟨hsome, rfl⟩ := Prod.mk.inj hanswer
  obtain ⟨⟨⟩, rfl⟩ := Option.isSome_iff_exists.mp hsome
  obtain ⟨hprinted, hstep⟩ := run_attempt hattempt
  obtain ⟨next, hmoved, hnext⟩ := Option.map_eq_some_iff.mp hstep
  obtain ⟨-, rfl⟩ := Prod.mk.inj hnext
  obtain ⟨htree, hheld⟩ := FileStore.move?_eq_some hmoved
  exact ⟨⟨htree, hprinted⟩, hheld⟩

theorem move_false (h : disk.run (FileSystem.move source target) = (false, after)) :
    disk.SameFrame after ∧ after.store.get? = disk.store.get? := by
  obtain ⟨moved, middle, hattempt, hanswer⟩ := run_bind_eq_iff.mp h
  obtain ⟨hnone, rfl⟩ := Prod.mk.inj hanswer
  obtain rfl := Option.isNone_iff_eq_none.mp (Option.isSome_eq_false_iff.mp hnone)
  obtain ⟨hprinted, hstore⟩ := run_attempt hattempt
  dsimp only at hstore
  exact ⟨⟨hstore ▸ .refl _, hprinted⟩, by rw [hstore]⟩

theorem restore_spec (hsource : disk.store.locate source = .ok place)
    (hplace : disk.store.get? place = some (.file contents))
    (htarget : disk.store.locate target = .ok goal)
    (hgoal : disk.store.get? goal ≠ some .directory)
    (h : disk.run (FileSystem.restore source target) = ((), after)) :
    disk.SameFrame after ∧
      after.store.get? =
        Function.update (Function.update disk.store.get? place none) goal
          (some (.file contents)) := by
  obtain ⟨next, hmoved⟩ := FileStore.exists_move? hsource hplace htarget hgoal
  have hafter : after = { disk with store := next } := by
    obtain ⟨-, rfl⟩ := Prod.mk.inj h
    simp [hmoved]
  obtain ⟨htree, found, found', text, hfound, htext, hfound', -, hheld⟩ :=
    FileStore.move?_eq_some hmoved
  cases hsource.symm.trans hfound
  cases hplace.symm.trans htext
  cases htarget.symm.trans hfound'
  rw [hafter]
  exact ⟨⟨htree, rfl⟩, hheld⟩

theorem remove_spec (hpath : disk.store.locate path = .ok place)
    (hplace : disk.store.get? place = some (.file contents))
    (h : disk.run (FileSystem.remove path) = ((), after)) :
    disk.SameFrame after ∧ after.store.get? = Function.update disk.store.get? place none := by
  have hfile := FileStore.get?_ne_directory_of_file hplace
  have hafter : after = { disk with store := disk.store.erase place } := by
    obtain ⟨-, rfl⟩ := Prod.mk.inj h
    simp [FileStore.remove_eq_erase hpath hplace]
  rw [hafter]
  exact ⟨⟨FileStore.sameTree_erase hfile, rfl⟩, FileStore.get?_erase hfile⟩

end Understudy.Disk
