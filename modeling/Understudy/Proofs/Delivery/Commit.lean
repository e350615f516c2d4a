import Understudy.Proofs.Delivery.Staging

/-! # Moving documents into place

Moving staged documents into place is as good as writing each to its destination in turn. When a
step fails, the moves before it are undone one by one, and each leaves the disk as it was before
that move.
-/

namespace Understudy.Delivery

variable {disk middle after : Disk} {destinations : List Path}

/-! ## Writing documents in turn -/

/-- What is held after writing each document straight to where its path leads. -/
def deposit (store : FileStore) :
    List (Path × String) → (Location → Option Entry) → Location → Option Entry
  | [], held => held
  | (path, text) :: documents, held =>
    match store.locate path with
    | .ok goal => deposit store documents (Function.update held goal (some (.file text)))
    | .error _ => deposit store documents held

section Deposit

variable {store next : FileStore} {path : Path} {text : String} {place goal : Location}
  {documents : List (Path × String)} {held : Location → Option Entry}

theorem deposit_cons (hgoal : store.locate path = .ok goal) :
    deposit store ((path, text) :: documents) held =
      deposit store documents (Function.update held goal (some (.file text))) := by
  rw [deposit, hgoal]

theorem deposit_append (first second : List (Path × String)) :
    deposit store (first ++ second) held = deposit store second (deposit store first held) := by
  induction first generalizing held with
  | nil => rfl
  | cons document first ih =>
      obtain ⟨path, text⟩ := document
      rw [List.cons_append, deposit, deposit]
      cases store.locate path with
      | ok goal => exact ih
      | error fault => exact ih

theorem deposit_congr (htree : store.SameTree next) :
    deposit next documents held = deposit store documents held := by
  induction documents generalizing held with
  | nil => rfl
  | cons document documents ih =>
      obtain ⟨path, text⟩ := document
      cases hpath : store.locate path with
      | ok goal =>
          rw [deposit_cons hpath, deposit_cons (htree.locate_eq_ok hpath)]
          exact ih
      | error fault =>
          cases hpath' : next.locate path with
          | ok goal =>
              rw [htree.locate_eq_ok_iff.mp hpath'] at hpath
              cases hpath
          | error fault' =>
              rw [deposit, deposit, hpath, hpath']
              exact ih

theorem deposit_update (hplace : ∀ document ∈ documents, store.locate document.1 ≠ .ok place)
    (next? : Option Entry) :
    deposit store documents (Function.update held place next?) =
      Function.update (deposit store documents held) place next? := by
  induction documents generalizing held with
  | nil => rfl
  | cons document documents ih =>
      obtain ⟨path, text⟩ := document
      obtain ⟨hpath, hplace⟩ := List.forall_mem_cons.mp hplace
      cases hgoal : store.locate path with
      | ok goal =>
          have hne : goal ≠ place := by
            rintro rfl
            exact hpath hgoal
          rw [deposit_cons hgoal, deposit_cons hgoal, Function.update_comm hne.symm, ih hplace]
      | error fault =>
          rw [deposit, deposit, hgoal]
          exact ih hplace

/-- A place to which no document goes keeps what it holds. -/
theorem deposit_of_clear (hplace : ∀ document ∈ documents, store.locate document.1 ≠ .ok place) :
    deposit store documents held place = held place := by
  have hsame : deposit store documents (Function.update held place (held place)) = _ :=
    deposit_update hplace _
  rw [Function.update_eq_self] at hsame
  rw [hsame, Function.update_self]

end Deposit

/-! ## Setting files aside -/

/-- The answers to setting a file aside, and what is held then. -/
inductive SetAside (destinations : List Path) (destination : Path) (before : FileStore) :
    Except Path (Option Path) → (Location → Option Entry) → Prop
  | failed : SetAside destinations destination before (.error destination) before.get?
  | free (hfree : before.isFile destination = false) :
    SetAside destinations destination before (.ok none) before.get?
  | moved {backup : Path} {goal place : Location} {contents : String}
    (hgoal : before.locate destination = .ok goal)
    (hheld : before.get? goal = some (.file contents))
    (hfresh : Disk.IsFresh before destinations backup place) :
    SetAside destinations destination before (.ok (some backup))
      (Function.update (Function.update before.get? goal none) place (some (.file contents)))

theorem setAside_spec {destination : Path} {answer : Except Path (Option Path)}
    (h : disk.run (setAside destinations destination) = (answer, after)) :
    disk.SameFrame after ∧
      SetAside destinations destination disk.store answer after.store.get? := by
  obtain ⟨isFile, _, hisFile, h⟩ := Disk.run_bind_eq_iff.mp h
  cases hisFile
  split at h
  next hfile =>
    obtain ⟨goal, contents, hgoal, hheld⟩ := FileStore.isFile_eq_true_iff.mp hfile
    obtain ⟨backup?, made, hcreate, h⟩ := Disk.run_bind_eq_iff.mp h
    cases backup? with
    | none =>
        cases h
        obtain ⟨hframe, hmade⟩ := Disk.createBeside_none hcreate
        rw [hmade]
        exact ⟨hframe, .failed⟩
    | some backup =>
        obtain ⟨hframe, place, hfresh, hmade⟩ := Disk.createBeside_some hcreate
        obtain ⟨moved, left, hmove, h⟩ := Disk.run_bind_eq_iff.mp h
        have hgoal' := hframe.tree.locate_eq_ok hgoal
        have hbackup := hframe.tree.locate_eq_ok hfresh.locate
        cases moved with
        | true =>
            cases h
            obtain ⟨hframe', source, target, text, hsource, htext, htarget, -, hafter⟩ :=
              Disk.move_true hmove
            cases hgoal'.symm.trans hsource
            cases hbackup.symm.trans htarget
            have hne := hfresh.ne_of_held hheld
            rw [hmade, Function.update_of_ne hne, hheld] at htext
            cases htext
            rw [hafter, hmade, Function.update_comm hne.symm, Function.update_idem]
            exact ⟨hframe.trans hframe', .moved hgoal hheld hfresh⟩
        | false =>
            obtain ⟨⟨⟩, _, hremove, h⟩ := Disk.run_bind_eq_iff.mp h
            cases h
            obtain ⟨hframe', hleft⟩ := Disk.move_false hmove
            have hplace : left.store.get? place = some (.file "") := by
              rw [hleft, hmade, Function.update_self]
            obtain ⟨hremoved, hafter⟩ :=
              Disk.remove_spec (hframe'.tree.locate_eq_ok hbackup) hplace hremove
            rw [hafter, hleft, hmade, update_update_of_empty hfresh.empty]
            exact ⟨(hframe.trans hframe').trans hremoved, .failed⟩
  next hfree =>
    cases h
    exact ⟨.refl _, .free (by simpa using hfree)⟩

/-- A file that was set aside for a move that failed is brought back. -/
theorem bringBack_spec {destination : Path} {backup? : Option Path}
    (hframe : disk.SameFrame middle)
    (haside : SetAside destinations destination disk.store (.ok backup?) middle.store.get?)
    (h : middle.run (bringBack destination backup?) = ((), after)) :
    disk.SameFrame after ∧ after.store.get? = disk.store.get? := by
  generalize hmiddle : middle.store.get? = held at haside
  cases haside with
  | free =>
      cases h
      exact ⟨hframe, hmiddle⟩
  | @moved backup goal place contents hgoal hheld hfresh =>
      have hne := hfresh.ne_of_held hheld
      have hthere : middle.store.get? place = some (.file contents) := by
        rw [hmiddle, Function.update_self]
      have hempty : Function.update disk.store.get? goal none place = none := by
        rw [Function.update_of_ne hne.symm, hfresh.empty]
      have hfile : middle.store.get? goal ≠ some .directory := by
        rw [hmiddle, Function.update_of_ne hne, Function.update_self]
        simp
      obtain ⟨hframe', hafter⟩ := Disk.restore_spec (hframe.tree.locate_eq_ok hfresh.locate) hthere
        (hframe.tree.locate_eq_ok hgoal) hfile h
      refine ⟨hframe.trans hframe', ?_⟩
      rw [hafter, hmiddle, update_update_of_empty hempty, Function.update_idem, ← hheld,
        Function.update_eq_self]

/-! ## Moves into place -/

def landed (held : Location → Option Entry) (p : Parked) (goal : Location) :
    Location → Option Entry :=
  Function.update (Function.update held p.place none) goal (some (.file p.text))

/-- A document has landed at its goal. A file that was there is at a fresh place instead. -/
inductive Landed (destinations : List Path) (store : FileStore) (p : Parked) (goal : Location) :
    Option Path → (Location → Option Entry) → Prop
  | free (hgoal : store.get? goal = none) :
    Landed destinations store p goal none (landed store.get? p goal)
  | replacing {backup : Path} {place : Location} {contents : String}
    (hgoal : store.get? goal = some (.file contents))
    (hfresh : Disk.IsFresh store destinations backup place) :
    Landed destinations store p goal (some backup)
      (Function.update (landed store.get? p goal) place (some (.file contents)))

variable {p : Parked} {parked : List Parked}

/-- A staged file that is moved after its destination was set aside has landed. -/
theorem landed_of_move (hready : Ready destinations (p :: parked) disk.store)
    {backup? : Option Path} (hframe : disk.SameFrame middle)
    (haside : SetAside destinations p.staged.destination disk.store (.ok backup?)
      middle.store.get?)
    (hmove : middle.run (FileSystem.move p.staged.file p.staged.destination) = (true, after)) :
    disk.SameFrame after ∧ ∃ goal, disk.store.locate p.staged.destination = .ok goal ∧
      disk.store.get? goal ≠ some .directory ∧
      Landed destinations disk.store p goal backup? after.store.get? := by
  obtain ⟨hframe', source, goal, text, hsource, htext, htarget, hgoal, hafter⟩ :=
    Disk.move_true hmove
  have hlocate := hready.locate p List.mem_cons_self
  have hheld := hready.held p List.mem_cons_self
  have hlocate' := hframe.tree.locate_eq_ok_iff.mp htarget
  cases (hframe.tree.locate_eq_ok hlocate).symm.trans hsource
  rw [ne_eq, hframe.tree.directory goal] at hgoal
  refine ⟨hframe.trans hframe', goal, hlocate', hgoal, ?_⟩
  rw [hafter]
  generalize middle.store.get? = held at haside htext
  cases haside with
  | free hfree =>
      cases hheld.symm.trans htext
      exact .free (FileStore.get?_eq_none hlocate' hgoal hfree)
  | @moved backup goal' place contents hgoal' hcontents hfresh =>
      cases hlocate'.symm.trans hgoal'
      -- The staged file, the goal and the fresh place are apart, so the three changes commute.
      have hplace := hfresh.ne_of_held hheld
      have hgoalPlace := hfresh.ne_of_held hcontents
      have hgoalStaged : p.place ≠ goal := by
        rintro rfl
        exact hready.clear p List.mem_cons_self _ (hready.destination p List.mem_cons_self) hlocate'
      rw [Function.update_of_ne hplace, Function.update_of_ne hgoalStaged, hheld] at htext
      cases htext
      rw [Function.update_comm hplace.symm, Function.update_comm hgoalPlace.symm,
        Function.update_comm hgoalStaged.symm, Function.update_idem]
      exact .replacing hcontents hfresh

theorem ready_of_landed (hready : Ready destinations (p :: parked) disk.store)
    {goal : Location} {backup? : Option Path} (hframe : disk.SameFrame middle)
    (hgoal : disk.store.locate p.staged.destination = .ok goal)
    (hlanded : Landed destinations disk.store p goal backup? middle.store.get?) :
    Ready destinations parked middle.store := by
  refine hready.tail.mono hframe.tree ?_
  intro q hq
  have hmem : q.place ∈ places (p :: parked) := place_mem_places (List.mem_cons_of_mem p hq)
  have hstaged : q.place ≠ p.place := by
    intro hsame
    exact hready.notMem_tail (hsame ▸ place_mem_places hq)
  have hqgoal : q.place ≠ goal := by
    rintro rfl
    exact hready.notMem_of_locate (hready.destination p List.mem_cons_self) hgoal hmem
  have hkept : landed disk.store.get? p goal q.place = disk.store.get? q.place := by
    rw [landed, Function.update_of_ne hqgoal, Function.update_of_ne hstaged]
  generalize middle.store.get? = held at hlanded
  cases hlanded with
  | free => exact hkept
  | @replacing backup place contents _ hfresh =>
      have hqplace : q.place ≠ place := by
        rintro rfl
        exact hready.notMem_of_empty hfresh.empty hmem
      rw [Function.update_of_ne hqplace, hkept]

/-- A text was put at a goal. A file that was there is at a fresh place instead. -/
inductive Replaced (destinations : List Path) (store : FileStore) (kept : Location → Option Entry)
    (goal : Location) (text : String) : Option Path → (Location → Option Entry) → Prop
  | free (hgoal : kept goal = none) :
    Replaced destinations store kept goal text none
      (Function.update kept goal (some (.file text)))
  | replacing {backup : Path} {place : Location} {contents : String}
    (hgoal : kept goal = some (.file contents)) (hplace : kept place = none)
    (hfresh : Disk.IsFresh store destinations backup place) :
    Replaced destinations store kept goal text (some backup)
      (Function.update (Function.update kept goal (some (.file text))) place
        (some (.file contents)))

/-- Apart from the staged files, a document that lands replaces what was at its goal. -/
theorem replaced_of_landed (hready : Ready destinations (p :: parked) disk.store) {goal : Location}
    {backup? : Option Path} {held : Location → Option Entry}
    (hgoal : disk.store.locate p.staged.destination = .ok goal)
    (hlanded : Landed destinations disk.store p goal backup? held) :
    Replaced destinations disk.store (without (places (p :: parked)) disk.store.get?) goal p.text
      backup? (without (places parked) held) := by
  have hgoalAll := hready.notMem_of_locate (hready.destination p List.mem_cons_self) hgoal
  have hgoalRest : goal ∉ places parked := fun hmem => hgoalAll (List.mem_cons_of_mem _ hmem)
  have hview : without (places parked) (landed disk.store.get? p goal) =
      Function.update (without (places (p :: parked)) disk.store.get?) goal
        (some (.file p.text)) := by
    rw [landed, without_update hgoalRest, without_places_cons]
  cases hlanded with
  | free hempty =>
      rw [hview]
      exact .free ((without_of_notMem hgoalAll).trans hempty)
  | @replacing backup place contents hcontents hfresh =>
      have hplace := hready.notMem_of_empty hfresh.empty
      have hplaceRest : place ∉ places parked := fun hmem => hplace (List.mem_cons_of_mem _ hmem)
      rw [without_update hplaceRest, hview]
      exact .replacing ((without_of_notMem hgoalAll).trans hcontents)
        ((without_of_notMem hplace).trans hfresh.empty) hfresh

section Replaced

variable {destination : Path} {goal : Location} {text : String} {backup? : Option Path}
  {kept held : Location → Option Entry}

/-- Undoing a move brings back what was there before it. -/
theorem undo_spec (hreplaced : Replaced destinations disk.store kept goal text backup? held)
    (hframe : disk.SameFrame middle) (hgoal : disk.store.locate destination = .ok goal)
    (hmiddle : middle.store.get? = held)
    (h : middle.run (undo destination backup?) = ((), after)) :
    disk.SameFrame after ∧ after.store.get? = kept := by
  have hgoal' := hframe.tree.locate_eq_ok hgoal
  cases hreplaced with
  | free hempty =>
      have hthere : middle.store.get? goal = some (.file text) := by
        rw [hmiddle, Function.update_self]
      obtain ⟨hframe', hafter⟩ := Disk.remove_spec hgoal' hthere h
      refine ⟨hframe.trans hframe', ?_⟩
      rw [hafter, hmiddle, update_update_of_empty hempty]
  | @replacing backup place contents hcontents hplace hfresh =>
      have hne := FileStore.ne_of_held hcontents hplace
      have hthere : middle.store.get? place = some (.file contents) := by
        rw [hmiddle, Function.update_self]
      have hempty : Function.update kept goal (some (.file text)) place = none := by
        rw [Function.update_of_ne hne.symm, hplace]
      have hfile : middle.store.get? goal ≠ some .directory := by
        rw [hmiddle, Function.update_of_ne hne, Function.update_self]
        simp
      obtain ⟨hframe', hafter⟩ :=
        Disk.restore_spec (hframe.tree.locate_eq_ok hfresh.locate) hthere hgoal' hfile h
      refine ⟨hframe.trans hframe', ?_⟩
      rw [hafter, hmiddle, update_update_of_empty hempty, Function.update_idem, ← hcontents,
        Function.update_eq_self]

/-- After a move that stays, forgetting the file that was set aside leaves the text in its place. -/
theorem forget_spec {documents : List (Path × String)}
    (hreplaced : Replaced destinations disk.store kept goal text backup? held)
    (hframe : disk.SameFrame middle)
    (hdocuments : ∀ document ∈ documents, document.1 ∈ destinations)
    (hmiddle : middle.store.get? = deposit disk.store documents held)
    (h : middle.run (forget backup?) = ((), after)) :
    disk.SameFrame after ∧
      after.store.get? =
        deposit disk.store documents (Function.update kept goal (some (.file text))) := by
  cases hreplaced with
  | free =>
      cases h
      exact ⟨hframe, hmiddle⟩
  | @replacing backup place contents hcontents hplace hfresh =>
      have hclear : ∀ document ∈ documents, disk.store.locate document.1 ≠ .ok place := by
        intro document hdocument
        exact hfresh.clear _ (hdocuments document hdocument)
      have hne := FileStore.ne_of_held hcontents hplace
      rw [deposit_update hclear] at hmiddle
      have hthere : middle.store.get? place = some (.file contents) := by
        rw [hmiddle, Function.update_self]
      obtain ⟨hframe', hafter⟩ :=
        Disk.remove_spec (hframe.tree.locate_eq_ok hfresh.locate) hthere h
      refine ⟨hframe.trans hframe', ?_⟩
      rw [hafter, hmiddle]
      apply update_update_of_empty
      rw [deposit_of_clear hclear, Function.update_of_ne hne.symm, hplace]

end Replaced

/-! ## A run of moves -/

theorem discard_unchanged (hready : Ready destinations parked disk.store)
    (hframe : disk.SameFrame middle) (hmiddle : middle.store.get? = disk.store.get?)
    (h : middle.run (discard (parked.map Parked.staged)) = ((), after)) :
    disk.SameFrame after ∧
      after.store.get? = without (places parked) disk.store.get? := by
  have hready' := hready.mono hframe.tree fun q _ => by rw [hmiddle]
  obtain ⟨hframe', hafter⟩ := discard_spec hready' h
  exact ⟨hframe.trans hframe', by rw [hafter, hmiddle]⟩

/-- The first move of a run stops it, or is followed by the rest of the run and then made final or
undone. -/
theorem commit_cons_cases (hready : Ready destinations (p :: parked) disk.store)
    {answer : Except Path Unit}
    (h : disk.run (commit destinations ((p :: parked).map Parked.staged)) = (answer, after)) :
    (answer = .error p.staged.destination ∧ disk.SameFrame after ∧
        after.store.get? = without (places (p :: parked)) disk.store.get?) ∨
      ∃ goal backup? middle last, disk.SameFrame middle ∧
        disk.store.locate p.staged.destination = .ok goal ∧
        disk.store.get? goal ≠ some .directory ∧
        Landed destinations disk.store p goal backup? middle.store.get? ∧
        middle.run (commit destinations (parked.map Parked.staged)) = (answer, last) ∧
        last.run (match answer with
          | .ok () => forget backup?
          | .error _ => undo p.staged.destination backup?) = ((), after) := by
  obtain ⟨aside, middle, hsetAside, h⟩ := Disk.run_bind_eq_iff.mp h
  obtain ⟨hframe, haside⟩ := setAside_spec hsetAside
  cases aside with
  | error other =>
      left
      obtain ⟨⟨⟩, _, hdiscard, h⟩ := Disk.run_bind_eq_iff.mp h
      cases h
      generalize hmiddle : middle.store.get? = held at haside
      cases haside with
      | failed => exact ⟨rfl, discard_unchanged hready hframe hmiddle hdiscard⟩
  | ok backup? =>
      obtain ⟨moved, left, hmove, h⟩ := Disk.run_bind_eq_iff.mp h
      cases moved with
      | false =>
          left
          obtain ⟨⟨⟩, back, hback, h⟩ := Disk.run_bind_eq_iff.mp h
          obtain ⟨⟨⟩, _, hdiscard, h⟩ := Disk.run_bind_eq_iff.mp h
          cases h
          obtain ⟨hstill, hleft⟩ := Disk.move_false hmove
          rw [← hleft] at haside
          obtain ⟨hbackFrame, hheld⟩ := bringBack_spec (hframe.trans hstill) haside hback
          exact ⟨rfl, discard_unchanged hready hbackFrame hheld hdiscard⟩
      | true =>
          right
          obtain ⟨hleft, goal, hgoal, hfree, hlanded⟩ := landed_of_move hready hframe haside hmove
          obtain ⟨rest, last, hrest, h⟩ := Disk.run_bind_eq_iff.mp h
          cases rest with
          | ok _ =>
              obtain ⟨⟨⟩, _, hforget, h⟩ := Disk.run_bind_eq_iff.mp h
              cases h
              exact ⟨goal, backup?, left, last, hleft, hgoal, hfree, hlanded, hrest, hforget⟩
          | error other =>
              obtain ⟨⟨⟩, _, hundo, h⟩ := Disk.run_bind_eq_iff.mp h
              cases h
              exact ⟨goal, backup?, left, last, hleft, hgoal, hfree, hlanded, hrest, hundo⟩

/-- A move that cannot be made leaves the disk without the staged files, and otherwise as it was. -/
theorem commit_error {failed : Path} (hready : Ready destinations parked disk.store)
    (h : disk.run (commit destinations (parked.map Parked.staged)) = (.error failed, after)) :
    disk.SameFrame after ∧ failed ∈ destinations ∧
      after.store.get? = without (places parked) disk.store.get? := by
  induction parked generalizing disk after with
  | nil => cases h
  | cons p parked ih =>
      rcases commit_cons_cases hready h with ⟨hfailed, hframe, hafter⟩ |
        ⟨goal, backup?, middle, last, hmiddle, hgoal, -, hlanded, hrest, hundo⟩
      · cases hfailed
        exact ⟨hframe, hready.destination p List.mem_cons_self, hafter⟩
      · -- The moves after the first are undone already when the first is.
        obtain ⟨hlast, hfailed, hheld⟩ := ih (ready_of_landed hready hmiddle hgoal hlanded) hrest
        have hreplaced := replaced_of_landed hready hgoal hlanded
        obtain ⟨hframe, hafter⟩ := undo_spec hreplaced (hmiddle.trans hlast) hgoal hheld hundo
        exact ⟨hframe, hfailed, hafter⟩

/-- Moves that are all made leave the disk without the staged files, with each document written to
where its destination leads. -/
theorem commit_ok (hready : Ready destinations parked disk.store)
    (h : disk.run (commit destinations (parked.map Parked.staged)) = (.ok (), after)) :
    disk.SameFrame after ∧
      after.store.get? =
        deposit disk.store (parked.map Parked.document)
          (without (places parked) disk.store.get?) ∧
      ∀ p ∈ parked, ∃ goal, disk.store.target? p.staged.destination = some goal := by
  induction parked generalizing disk after with
  | nil =>
      cases h
      exact ⟨.refl _, without_nil.symm, by simp⟩
  | cons p parked ih =>
      rcases commit_cons_cases hready h with ⟨hfailed, -, -⟩ |
        ⟨goal, backup?, middle, last, hmiddle, hgoal, hfree, hlanded, hrest, hforget⟩
      · cases hfailed
      · -- What was set aside is forgotten after all later documents are in place, and none of them
        -- goes to where it is.
        have hleft := ready_of_landed hready hmiddle hgoal hlanded
        obtain ⟨hlast, hheld, htargets⟩ := ih hleft hrest
        rw [deposit_congr hmiddle.tree] at hheld
        have hreplaced := replaced_of_landed hready hgoal hlanded
        obtain ⟨hframe, hafter⟩ := forget_spec hreplaced (hmiddle.trans hlast)
          (List.forall_mem_map.mpr hleft.destination) hheld hforget
        rw [← deposit_cons hgoal] at hafter
        refine ⟨hframe, hafter, List.forall_mem_cons.mpr ⟨⟨goal, ?_⟩, ?_⟩⟩
        · exact FileStore.target?_eq_some_iff.mpr ⟨hgoal, hfree⟩
        · intro q hq
          obtain ⟨other, hother⟩ := htargets q hq
          exact ⟨other, hmiddle.tree.target?_eq_some_iff.mp hother⟩

end Understudy.Delivery
