import Understudy.File.Store

/-! # Disks

A disk is a file store together with what has been written to standard output. Any step that can
fail on a real disk can be made to fail here: `refusals` says which of the coming ones do.
-/

namespace Understudy

structure Disk where
  store : FileStore
  printed : String := ""
  /-- Whether each of the coming steps that may fail is refused. Steps beyond the list are not. -/
  refusals : List Bool := []
  deriving DecidableEq, Repr

namespace Disk

/-- Takes a step that may fail, unless it is refused. -/
def attempt (step : FileStore → Option (α × FileStore)) : StateM Disk (Option α) := fun disk =>
  let disk' := { disk with refusals := disk.refusals.tail }
  if disk.refusals.head? = some true then (none, disk')
  else
    match step disk.store with
    | some (answer, store) => (some answer, { disk' with store })
    | none => (none, disk')

instance : FileSystem (StateM Disk) where
  isFile path := fun disk => (disk.store.isFile path, disk)
  isDirectory path := fun disk => (disk.store.isDirectory path, disk)
  read path := fun disk => (disk.store.read path, disk)
  createBeside avoided path contents :=
    attempt fun store => store.createBeside? avoided path contents
  move source target := do
    let moved ← attempt fun store => (store.move? source target).map fun store => ((), store)
    return moved.isSome
  restore source target := modify fun disk =>
    { disk with store := (disk.store.move? source target).getD disk.store }
  remove path := modify fun disk => { disk with store := disk.store.remove path }
  print text := modify fun disk => { disk with printed := disk.printed ++ text }

end Disk

end Understudy
