/-!
The part of a disk that the journal uses, and how it can fail. Writing stops where the room ends,
so that a write which fails can leave a part of its bytes behind.
-/
namespace SharedTree.Journal

/-- What stands where a file belongs: nothing, a file, a directory, or a file in place of the directory
around it. -/
inductive Site where
  | absent
  | file (bytes : List UInt8)
  | folder
  | blocked
deriving DecidableEq

/-- How many more bytes can be written, without a number as many as one likes; whether syncing a file
fails, and how many times it still succeeds before that; and whether changing a file's length
fails. -/
structure Faults where
  room : Option Nat := none
  failSync : Bool := false
  failTruncate : Bool := false
  syncsLeft : Nat := 0
deriving DecidableEq

/-- The place of the log, the place beside it where a new log is written before it takes the old
one's place, and the bytes of the file that an open journal still holds after something else was put
in its place. -/
structure Disk where
  site : Site := .absent
  aside : Site := .absent
  unlinked : Option (List UInt8) := none
  faults : Faults := {}
deriving DecidableEq

def Faults.accepted (faults : Faults) (count : Nat) : Nat :=
  match faults.room with
  | none => count
  | some room => min count room

def Faults.spend (faults : Faults) (count : Nat) : Faults :=
  { faults with room := faults.room.map fun room => room - count }

def Faults.refuseSync (faults : Faults) : Bool := faults.failSync && faults.syncsLeft == 0

def Faults.synced (faults : Faults) : Faults := { faults with syncsLeft := faults.syncsLeft - 1 }

namespace Disk

def log? (disk : Disk) : Option (List UInt8) :=
  match disk.site with
  | .file bytes => some bytes
  | _ => none

def opened (disk : Disk) : List UInt8 :=
  match disk.unlinked with
  | some bytes => bytes
  | none => disk.log?.getD []

def setOpened (disk : Disk) (bytes : List UInt8) : Disk :=
  match disk.unlinked with
  | some _ => { disk with unlinked := some bytes }
  | none => { disk with site := .file bytes }

def supplant (disk : Disk) (site : Site) : Disk :=
  { disk with
    site
    unlinked := match disk.log? with
      | some bytes => some bytes
      | none => disk.unlinked }

end Disk

theorem Faults.accepted_le (faults : Faults) (count : Nat) : faults.accepted count ≤ count := by
  unfold accepted
  split
  · exact Nat.le_refl count
  · exact Nat.min_le_left count _

end SharedTree.Journal
