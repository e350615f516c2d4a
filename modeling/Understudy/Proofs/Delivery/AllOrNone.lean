import Understudy.Proofs.Delivery.Commit

/-! # All documents or none

A delivery that fails leaves everything as it was. One that succeeds is as good as writing each
document straight to its destination, so nothing but the destinations changes and no file of the
delivery's own is left.
-/

namespace Understudy

namespace Delivery

variable {disk after : Disk} {documents : List (Destination × String)}

theorem deliver_error {failed : Path}
    (h : disk.run (deliver documents) = (.error failed, after)) :
    disk.SameFrame after ∧ failed ∈ (toFiles documents).map Prod.fst ∧
      after.store.get? = disk.store.get? := by
  obtain ⟨staged, middle, hstage, h⟩ := Disk.run_bind_eq_iff.mp h
  cases staged with
  | error other =>
      cases h
      obtain ⟨hframe, hheld, hfailed⟩ := stage_error hstage
      exact ⟨hframe, hfailed, hheld⟩
  | ok staged =>
      obtain ⟨committed, last, hcommit, h⟩ := Disk.run_bind_eq_iff.mp h
      cases committed with
      | ok committed =>
          obtain ⟨_, _, -, h⟩ := Disk.run_bind_eq_iff.mp h
          cases h
      | error other =>
          cases h
          obtain ⟨hframe, parked, rfl, -, hready, hheld⟩ :=
            stage_ok (fun document => List.mem_map_of_mem) hstage
          obtain ⟨hframe', hfailed, hafter⟩ := commit_error hready hcommit
          exact ⟨hframe.trans hframe', hfailed, hafter.trans hheld⟩

theorem deliver_ok (h : disk.run (deliver documents) = (.ok (), after)) :
    disk.store.SameTree after.store ∧
      after.store.get? = deposit disk.store (toFiles documents) disk.store.get? ∧
      ∀ document ∈ toFiles documents, ∃ goal, disk.store.target? document.1 = some goal := by
  obtain ⟨staged, middle, hstage, h⟩ := Disk.run_bind_eq_iff.mp h
  cases staged with
  | error other => cases h
  | ok staged =>
      obtain ⟨committed, last, hcommit, h⟩ := Disk.run_bind_eq_iff.mp h
      cases committed with
      | error other => cases h
      | ok committed =>
          obtain ⟨⟨⟩, _, hprint, h⟩ := Disk.run_bind_eq_iff.mp h
          cases hprint
          cases h
          obtain ⟨hframe, parked, rfl, hdocuments, hready, hheld⟩ :=
            stage_ok (fun document => List.mem_map_of_mem) hstage
          obtain ⟨hframe', hlast, htargets⟩ := commit_ok hready hcommit
          rw [hheld, hdocuments, deposit_congr hframe.tree] at hlast
          refine ⟨(hframe.trans hframe').tree, hlast, ?_⟩
          intro document hdocument
          rw [← hdocuments] at hdocument
          obtain ⟨p, hp, rfl⟩ := List.mem_map.mp hdocument
          obtain ⟨goal, hgoal⟩ := htargets p hp
          exact ⟨goal, hframe.tree.target?_eq_some_iff.mp hgoal⟩

end Delivery

/-- The files that are asked for. -/
def OutputPaths.files (paths : OutputPaths) : List Path :=
  let destinations :=
    paths.mock?.toList ++ paths.companions?.elim [] fun (header, source) => [header, source]
  destinations.filterMap Destination.path?

namespace Session

variable (session : Session) {paths : OutputPaths} {disk after : Disk}

theorem destinations_documents (paths : OutputPaths) :
    (Delivery.toFiles (session.documents paths)).map Prod.fst = paths.files := by
  have hdestinations : (session.documents paths).map Prod.fst =
      paths.mock?.toList ++ paths.companions?.elim [] fun (header, source) => [header, source] := by
    obtain ⟨mock?, companions?⟩ := paths
    cases mock? <;> cases companions? <;> rfl
  rw [OutputPaths.files, ← hdestinations, Delivery.toFiles, List.map_filterMap, List.filterMap_map]
  congr 1
  funext document
  obtain ⟨destination, text⟩ := document
  cases destination <;> rfl

theorem write_error {failure : Failure}
    (h : disk.run (session.write paths) = (.error failure, after)) :
    disk.SameFrame after ∧ (∃ path ∈ paths.files, failure = .output path) ∧
      after.store.get? = disk.store.get? := by
  obtain ⟨delivered, middle, hdeliver, h⟩ := Disk.run_bind_eq_iff.mp h
  cases delivered with
  | ok delivered => cases h
  | error failed =>
      cases h
      obtain ⟨hframe, hfailed, hheld⟩ := Delivery.deliver_error hdeliver
      rw [session.destinations_documents] at hfailed
      exact ⟨hframe, ⟨failed, hfailed, rfl⟩, hheld⟩

/-- A session that succeeds has written each document to its destination, in order. -/
theorem write_ok (h : disk.run (session.write paths) = (.ok (), after)) :
    disk.store.SameTree after.store ∧
      after.store.get? =
        Delivery.deposit disk.store (Delivery.toFiles (session.documents paths)) disk.store.get? ∧
      ∀ document ∈ Delivery.toFiles (session.documents paths),
        ∃ goal, disk.store.target? document.1 = some goal := by
  obtain ⟨delivered, middle, hdeliver, h⟩ := Disk.run_bind_eq_iff.mp h
  cases delivered with
  | error failed => cases h
  | ok delivered =>
      cases h
      exact Delivery.deliver_ok hdeliver

/-- Writing is all or nothing, whichever of its steps are refused and whatever files are asked for.
A failure is that of a file that was asked for, and leaves all places and standard output as they
were. After a success, only the places of the files that were asked for may hold something else. In
both cases paths lead where they led, so no file of the session's own remains. -/
theorem write_all_or_none (paths : OutputPaths) (disk : Disk) :
    match disk.run (session.write paths) with
    | (.error failure, after) =>
      (∃ path ∈ paths.files, failure = .output path) ∧
        (∀ place, after.store.get? place = disk.store.get? place) ∧
        (∀ path, after.store.entry? path = disk.store.entry? path) ∧
        after.printed = disk.printed
    | (.ok (), after) =>
      (∀ place, (∀ file ∈ paths.files, disk.store.locate file ≠ .ok place) →
        after.store.get? place = disk.store.get? place) ∧
      ∀ path, (∀ file ∈ paths.files, ∀ place, disk.store.locate path = .ok place →
          disk.store.locate file ≠ .ok place) →
        after.store.entry? path = disk.store.entry? path := by
  rcases hrun : disk.run (session.write paths) with ⟨answer, after⟩
  cases answer with
  | error failure =>
      obtain ⟨hframe, hfailure, hheld⟩ := session.write_error hrun
      refine ⟨hfailure, fun place => by rw [hheld], ?_, hframe.printed⟩
      intro path
      refine hframe.tree.entry?_eq fun place _ => by rw [hheld]
  | ok _ =>
      obtain ⟨htree, hheld, -⟩ := session.write_ok hrun
      have hkept : ∀ place, (∀ file ∈ paths.files, disk.store.locate file ≠ .ok place) →
          after.store.get? place = disk.store.get? place := by
        intro place hclear
        rw [← session.destinations_documents] at hclear
        rw [hheld]
        exact Delivery.deposit_of_clear fun document hdocument =>
          hclear document.1 (List.mem_map_of_mem hdocument)
      refine ⟨hkept, ?_⟩
      intro path hclear
      refine htree.entry?_eq fun place hplace => ?_
      exact hkept place fun file hfile => hclear file hfile place hplace

end Session

end Understudy
