import SharedTree.Journal.Frame
import SharedTree.Journal.Disk
import SharedTree.Error
/-!
The journal: a log file that starts with a mark and holds a frame for each commit. A failed append
is cut back off the file; if that fails too, the journal takes no more appends until it is condensed
or opened anew. Opening keeps the frames up to the first that cannot be read and cuts off the rest.
-/
namespace SharedTree

/-- An open journal: where it is, the number of the next entry, and whether a failed append is
still in the file. -/
structure Journal where
  directory : String
  next : UInt64
  poisoned : Bool
deriving DecidableEq

namespace Journal

def mark : List UInt8 := [0x47, 0x52, 0x4F, 0x56, 0x45, 0x4A, 0x30, 0x31]

def logFile : String := "journal.log"

def asideFile : String := "journal.tmp"

def logName (directory : String) : String :=
  if directory.toList.getLast? = some '/' then directory ++ logFile else directory ++ "/" ++ logFile

def file (journal : Journal) : String := logName journal.directory

def numberAfter (entries : List Entry) : UInt64 :=
  match entries.getLast? with
  | some entry => entry.sequence + 1
  | none => 0

def startLog (directory : String) (before : List UInt8) (disk : Disk) :
    Except JournalFault (Journal × List Entry) × Disk :=
  if disk.faults.failTruncate then (.error (.disk .noSpace), { disk with site := .file before })
  else
    let count := disk.faults.accepted mark.length
    let written : Disk :=
      { disk with site := .file (mark.take count), faults := disk.faults.spend count }
    if count < mark.length || disk.faults.refuseSync then (.error (.disk .noSpace), written)
    else
      (.ok (⟨directory, 0, false⟩, []),
        { written with unlinked := none, faults := written.faults.synced })

/-- Opens the log of a directory, with the entries it holds. A file shorter than the mark is started
anew, any other that does not begin with the mark is refused. -/
def openLog (directory : String) (disk : Disk) :
    Except JournalFault (Journal × List Entry) × Disk :=
  match disk.site with
  | .blocked => (.error (.directoryNotCreated directory), disk)
  | .folder => (.error (.disk .isDirectory), disk)
  | .absent => startLog directory [] disk
  | .file bytes =>
      if bytes.length < mark.length then startLog directory bytes disk
      else if bytes.take mark.length ≠ mark then
        (.error (.foreignFile (logName directory)), disk)
      else
        let (entries, rest) := Frame.readAll (bytes.drop mark.length)
        let journal : Journal := ⟨directory, numberAfter entries, false⟩
        if rest.isEmpty then (.ok (journal, entries), { disk with unlinked := none })
        else if disk.faults.failTruncate then (.error (.disk .noSpace), disk)
        else
          (.ok (journal, entries),
            { disk with
              site := .file (bytes.take (bytes.length - rest.length))
              unlinked := none })

def nextFrame (journal : Journal) (now : Instant) (changes : List Change) : List UInt8 :=
  Frame.ofEntry ⟨journal.next, Int64.ofInt now.millis, changes⟩

def append (journal : Journal) (now : Instant) (changes : List Change) (disk : Disk) :
    Except JournalFault UInt64 × Journal × Disk :=
  if journal.poisoned then (.error (.unusable journal.file), journal, disk)
  else
    let before := disk.opened
    let frame := journal.nextFrame now changes
    let count := disk.faults.accepted frame.length
    let written :=
      { disk with faults := disk.faults.spend count }.setOpened (before ++ frame.take count)
    if count = frame.length ∧ disk.faults.refuseSync = false then
      (.ok journal.next, { journal with next := journal.next + 1 },
        { written with faults := written.faults.synced })
    else if disk.faults.failTruncate then
      (.error (.frameNotCutBack before.length), { journal with poisoned := true }, written)
    else (.error .frameNotWritten, journal, written.setOpened before)

/-- Replaces the log by one with a single entry. The entry's number is used up even if this fails,
and the old log stays then, with what was written of the new one beside it. -/
def condense (journal : Journal) (now : Instant) (changes : List Change) (disk : Disk) :
    Except JournalFault Unit × Journal × Disk :=
  let after : Journal := { journal with next := journal.next + 1 }
  if disk.site = .blocked then (.error (.disk .notDirectory), after, disk)
  else if disk.aside = .folder then (.error (.disk .isDirectory), after, disk)
  else
    let bytes := mark ++ journal.nextFrame now changes
    let count := disk.faults.accepted bytes.length
    let written : Disk :=
      { disk with aside := .file (bytes.take count), faults := disk.faults.spend count }
    if count < bytes.length || disk.faults.refuseSync then
      (.error (.disk .noSpace), after, written)
    else
      let synced : Disk := { written with faults := written.faults.synced }
      if disk.site = .folder then (.error (.disk .isDirectory), after, synced)
      else
        (.ok (), { after with poisoned := false },
          { synced with site := .file bytes, aside := .absent, unlinked := none })

end Journal

end SharedTree
