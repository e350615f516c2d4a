import Understudy.Generation.Delivery
import Understudy.Proofs.File.Disk

/-! # Staged files

Until they are moved into place, documents are parked in files of their own, at places that held
nothing and that no destination leads to. Without these files, the disk is what it was before.
-/

namespace Understudy.Delivery

variable {disk middle after : Disk}

/-- A document in a staged file, with the place of that file. -/
structure Parked where
  staged : Staged
  place : Location
  text : String

def Parked.document (p : Parked) : Path × String := (p.staged.destination, p.text)

def places (parked : List Parked) : List Location := parked.map Parked.place

theorem place_mem_places {p : Parked} {parked : List Parked} (hp : p ∈ parked) :
    p.place ∈ places parked :=
  List.mem_map_of_mem hp

/-- What is held when some places are emptied. -/
def without (emptied : List Location) (held : Location → Option Entry) : Location → Option Entry :=
  fun place => if place ∈ emptied then none else held place

section Without

variable {emptied : List Location} {place : Location} {held : Location → Option Entry}

theorem without_of_mem (hplace : place ∈ emptied) : without emptied held place = none :=
  if_pos hplace

theorem without_of_notMem (hplace : place ∉ emptied) : without emptied held place = held place :=
  if_neg hplace

@[simp] theorem without_nil : without [] held = held := by
  funext place
  exact without_of_notMem List.not_mem_nil

theorem without_cons :
    without (place :: emptied) held = without emptied (Function.update held place none) := by
  funext other
  by_cases hother : other = place
  · subst other
    rw [without_of_mem List.mem_cons_self]
    by_cases hmem : place ∈ emptied
    · rw [without_of_mem hmem]
    · rw [without_of_notMem hmem, Function.update_self]
  · by_cases hmem : other ∈ emptied
    · rw [without_of_mem hmem, without_of_mem (List.mem_cons_of_mem place hmem)]
    · have hmem' : other ∉ place :: emptied := by simp [hother, hmem]
      rw [without_of_notMem hmem, without_of_notMem hmem', Function.update_of_ne hother]

theorem without_places_cons {p : Parked} {parked : List Parked} :
    without (places (p :: parked)) held =
      without (places parked) (Function.update held p.place none) :=
  without_cons

/-- What happens at a place that stays can as well happen after the others are emptied. -/
theorem without_update (hplace : place ∉ emptied) (next? : Option Entry) :
    without emptied (Function.update held place next?) =
      Function.update (without emptied held) place next? := by
  funext other
  by_cases hother : other = place
  · subst other
    rw [without_of_notMem hplace, Function.update_self, Function.update_self]
  · rw [Function.update_of_ne hother]
    by_cases hmem : other ∈ emptied
    · rw [without_of_mem hmem, without_of_mem hmem]
    · rw [without_of_notMem hmem, without_of_notMem hmem, Function.update_of_ne hother]

/-- Filling a place that holds nothing and emptying it again changes nothing. -/
theorem update_update_of_empty (hplace : held place = none) (next? : Option Entry) :
    Function.update (Function.update held place next?) place none = held := by
  rw [Function.update_idem, ← hplace, Function.update_eq_self]

end Without

/-- The staged files are there, each at a place of its own, and keep clear of all destinations. -/
structure Ready (destinations : List Path) (parked : List Parked) (store : FileStore) : Prop where
  nodup : (places parked).Nodup
  destination : ∀ p ∈ parked, p.staged.destination ∈ destinations
  locate : ∀ p ∈ parked, store.locate p.staged.file = .ok p.place
  held : ∀ p ∈ parked, store.get? p.place = some (.file p.text)
  clear : ∀ p ∈ parked, ∀ other ∈ destinations, store.locate other ≠ .ok p.place

namespace Ready

variable {destinations : List Path} {p : Parked} {parked : List Parked} {store next : FileStore}

theorem nil : Ready destinations [] store :=
  ⟨List.nodup_nil, by simp, by simp, by simp, by simp⟩

/-- What leaves the staged files where they are keeps them ready. -/
theorem mono (hready : Ready destinations parked store) (htree : store.SameTree next)
    (hheld : ∀ p ∈ parked, next.get? p.place = store.get? p.place) :
    Ready destinations parked next where
  nodup := hready.nodup
  destination := hready.destination
  locate q hq := htree.locate_eq_ok (hready.locate q hq)
  held q hq := (hheld q hq).trans (hready.held q hq)
  clear q hq other hother hleads :=
    hready.clear q hq other hother (htree.locate_eq_ok_iff.mp hleads)

theorem tail (hready : Ready destinations (p :: parked) store) :
    Ready destinations parked store where
  nodup := (List.nodup_cons.mp hready.nodup).2
  destination q hq := hready.destination q (List.mem_cons_of_mem p hq)
  locate q hq := hready.locate q (List.mem_cons_of_mem p hq)
  held q hq := hready.held q (List.mem_cons_of_mem p hq)
  clear q hq := hready.clear q (List.mem_cons_of_mem p hq)

theorem cons (hready : Ready destinations parked store)
    (hplace : p.place ∉ places parked) (hdestination : p.staged.destination ∈ destinations)
    (hlocate : store.locate p.staged.file = .ok p.place)
    (hheld : store.get? p.place = some (.file p.text))
    (hclear : ∀ other ∈ destinations, store.locate other ≠ .ok p.place) :
    Ready destinations (p :: parked) store where
  nodup := List.nodup_cons.mpr ⟨hplace, hready.nodup⟩
  destination := List.forall_mem_cons.mpr ⟨hdestination, hready.destination⟩
  locate := List.forall_mem_cons.mpr ⟨hlocate, hready.locate⟩
  held := List.forall_mem_cons.mpr ⟨hheld, hready.held⟩
  clear := List.forall_mem_cons.mpr ⟨hclear, hready.clear⟩

theorem notMem_tail (hready : Ready destinations (p :: parked) store) :
    p.place ∉ places parked :=
  (List.nodup_cons.mp hready.nodup).1

theorem notMem_of_locate (hready : Ready destinations parked store) {destination : Path}
    (hdestination : destination ∈ destinations) {goal : Location}
    (hgoal : store.locate destination = .ok goal) : goal ∉ places parked := by
  intro hmem
  obtain ⟨q, hq, rfl⟩ := List.mem_map.mp hmem
  exact hready.clear q hq destination hdestination hgoal

theorem notMem_of_empty (hready : Ready destinations parked store) {place : Location}
    (hplace : store.get? place = none) : place ∉ places parked := by
  intro hmem
  obtain ⟨q, hq, rfl⟩ := List.mem_map.mp hmem
  have hheld := hready.held q hq
  rw [hplace] at hheld
  cases hheld

end Ready

variable {destinations : List Path}

theorem discard_spec {parked : List Parked} (hready : Ready destinations parked disk.store)
    (h : disk.run (discard (parked.map Parked.staged)) = ((), after)) :
    disk.SameFrame after ∧
      after.store.get? = without (places parked) disk.store.get? := by
  induction parked generalizing disk with
  | nil =>
      cases h
      exact ⟨.refl _, without_nil.symm⟩
  | cons p parked ih =>
      obtain ⟨⟨⟩, middle, hremove, hrest⟩ := Disk.run_bind_eq_iff.mp h
      obtain ⟨hframe, hmiddle⟩ := Disk.remove_spec (hready.locate p List.mem_cons_self)
        (hready.held p List.mem_cons_self) hremove
      have hleft : ∀ q ∈ parked, middle.store.get? q.place = disk.store.get? q.place := by
        intro q hq
        have hne : q.place ≠ p.place := by
          intro hsame
          exact hready.notMem_tail (hsame ▸ place_mem_places hq)
        rw [hmiddle, Function.update_of_ne hne]
      obtain ⟨hframe', hafter⟩ := ih (hready.tail.mono hframe.tree hleft) hrest
      refine ⟨hframe.trans hframe', ?_⟩
      rw [hafter, hmiddle, without_places_cons]

/-- Documents that could not all be staged leave nothing behind. -/
theorem stage_error {documents : List (Path × String)} {failed : Path}
    (h : disk.run (stage destinations documents) = (.error failed, after)) :
    disk.SameFrame after ∧ after.store.get? = disk.store.get? ∧
      failed ∈ documents.map Prod.fst := by
  induction documents generalizing disk after with
  | nil => cases h
  | cons document documents ih =>
      obtain ⟨destination, text⟩ := document
      obtain ⟨file?, middle, hcreate, h⟩ := Disk.run_bind_eq_iff.mp h
      cases file? with
      | none =>
          cases h
          obtain ⟨hframe, hheld⟩ := Disk.createBeside_none hcreate
          exact ⟨hframe, hheld, List.mem_cons_self⟩
      | some file =>
          obtain ⟨hframe, place, hfresh, hmiddle⟩ := Disk.createBeside_some hcreate
          obtain ⟨rest, last, hrest, h⟩ := Disk.run_bind_eq_iff.mp h
          cases rest with
          | ok rest => cases h
          | error rest =>
              obtain ⟨⟨⟩, _, hremove, h⟩ := Disk.run_bind_eq_iff.mp h
              cases h
              obtain ⟨hframe', hlast, hfailed⟩ := ih hrest
              -- The later documents are gone again, so only the file of this one is left.
              have htree := (hframe.trans hframe').tree
              have hplace : last.store.get? place = some (.file text) := by
                rw [hlast, hmiddle, Function.update_self]
              obtain ⟨hremoved, hafter⟩ :=
                Disk.remove_spec (htree.locate_eq_ok hfresh.locate) hplace hremove
              refine ⟨(hframe.trans hframe').trans hremoved, ?_, List.mem_cons_of_mem _ hfailed⟩
              rw [hafter, hlast, hmiddle, update_update_of_empty hfresh.empty]

/-- Documents that are staged are parked, and nothing else is there that was not there before. -/
theorem stage_ok {documents : List (Path × String)} {staged : List Staged}
    (hdestinations : ∀ document ∈ documents, document.1 ∈ destinations)
    (h : disk.run (stage destinations documents) = (.ok staged, after)) :
    disk.SameFrame after ∧ ∃ parked : List Parked, parked.map Parked.staged = staged ∧
      parked.map Parked.document = documents ∧
      Ready destinations parked after.store ∧
      without (places parked) after.store.get? = disk.store.get? := by
  induction documents generalizing disk staged with
  | nil =>
      cases h
      exact ⟨.refl _, [], rfl, rfl, .nil, without_nil⟩
  | cons document documents ih =>
      obtain ⟨destination, text⟩ := document
      obtain ⟨hdestination, hdestinations⟩ := List.forall_mem_cons.mp hdestinations
      obtain ⟨file?, middle, hcreate, h⟩ := Disk.run_bind_eq_iff.mp h
      cases file? with
      | none => cases h
      | some file =>
          obtain ⟨hframe, place, hfresh, hmiddle⟩ := Disk.createBeside_some hcreate
          obtain ⟨rest, last, hrest, h⟩ := Disk.run_bind_eq_iff.mp h
          cases rest with
          | error failed =>
              obtain ⟨_, _, -, h⟩ := Disk.run_bind_eq_iff.mp h
              cases h
          | ok rest =>
              cases h
              obtain ⟨hframe', parked, rfl, rfl, hready, hheld⟩ := ih hdestinations hrest
              have htree := (hframe.trans hframe').tree
              -- The new file was there before the others, so none of them is at its place.
              have hplace : middle.store.get? place = some (.file text) := by
                rw [hmiddle, Function.update_self]
              have hnew : place ∉ places parked := by
                intro hmem
                rw [← hheld, without_of_mem hmem] at hplace
                cases hplace
              rw [← hheld, without_of_notMem hnew] at hplace
              refine ⟨hframe.trans hframe', ⟨⟨destination, file⟩, place, text⟩ :: parked, rfl, rfl,
                hready.cons hnew hdestination (htree.locate_eq_ok hfresh.locate) hplace ?_, ?_⟩
              · intro other hother hleads
                exact hfresh.clear other hother (htree.locate_eq_ok_iff.mp hleads)
              · rw [without_places_cons, without_update hnew, hheld, hmiddle,
                  update_update_of_empty hfresh.empty]

end Understudy.Delivery
