import SharedTree.Proofs.Journal.Log
/-!
What a journal accepts is read again. After any appends and condensings of a log that was opened,
whatever fails meanwhile, the next opening answers the accepted entries (`accepted_read`). Accepting
does not check that an entry can be read: one that cannot ends the log for itself and for all entries
behind it (`Ledger.Keeps.lost`), and `sample_not_read` is such a one, which is nested too deeply.
-/
namespace SharedTree.Journal

structure Write where
  condenses : Bool
  now : Instant
  changes : List Change
  faults : Faults

/-- An open journal, its disk, and the entries that opening answered or that were written with
success since, without those that were condensed away. -/
structure Ledger where
  journal : Journal
  disk : Disk
  accepted : List Entry

namespace Ledger

def entry (ledger : Ledger) (write : Write) : Entry :=
  ledger.journal.nextEntry write.now write.changes

def outcome (ledger : Ledger) (write : Write) : Bool × Journal × Disk :=
  let disk := ledger.disk.under write.faults
  if write.condenses then
    let (answer, after, written) := ledger.journal.condense write.now write.changes disk
    (answer.isOk, after, written)
  else
    let (answer, after, written) := ledger.journal.append write.now write.changes disk
    (answer.isOk, after, written)

def write (ledger : Ledger) (write : Write) : Ledger :=
  let (succeeds, after, disk) := ledger.outcome write
  let others := if write.condenses then [] else ledger.accepted
  ⟨after, disk, if succeeds then others ++ [ledger.entry write] else ledger.accepted⟩

def run (ledger : Ledger) (writes : List Write) : Ledger := writes.foldl Ledger.write ledger

def written : Ledger → List Write → List Entry
  | _, [] => []
  | ledger, write :: rest =>
      (if (ledger.outcome write).1 then [ledger.entry write] else []) ++
        written (ledger.write write) rest

structure Keeps (ledger : Ledger) : Prop where
  linked : ledger.disk.unlinked = none
  file : ∃ bytes rest, ledger.disk.site = .file (mark ++ bytes ++ rest) ∧
    Frame.readAll bytes = (ledger.accepted, []) ∧ (ledger.journal.poisoned = false → rest = [])

variable {ledger : Ledger}

theorem keeps_exactly {journal : Journal} {disk : Disk} {bytes : List UInt8} {accepted : List Entry}
    (linked : disk.unlinked = none) (site : disk.site = .file (mark ++ bytes))
    (whole : Frame.readAll bytes = (accepted, [])) : Keeps ⟨journal, disk, accepted⟩ :=
  ⟨linked, bytes, [], by rw [site, List.append_nil], whole, fun _ => rfl⟩

theorem Keeps.append (keeps : ledger.Keeps) {write : Write} (appends : write.condenses = false)
    (replayable : (ledger.outcome write).1 = true → (ledger.entry write).Replayable) :
    (ledger.write write).Keeps := by
  obtain ⟨linked, bytes, rest, site, whole, exact⟩ := keeps
  have armed : (ledger.disk.under write.faults).unlinked = none := linked
  have holding : (ledger.disk.under write.faults).site = .file (mark ++ bytes ++ rest) := site
  simp only [Ledger.write, outcome, appends, Bool.false_eq_true, if_false] at replayable ⊢
  rcases answered : ledger.journal.append write.now write.changes (ledger.disk.under write.faults)
    with ⟨cause | number, after, disk⟩
  · cases usable : ledger.journal.poisoned with
    | true =>
      -- Nothing was tried.
      obtain ⟨rfl, rfl⟩ := append_refused usable answered
      exact ⟨linked, bytes, rest, site, whole, exact⟩
    | false =>
      rw [exact usable, List.append_nil] at holding
      obtain ⟨unlinked, ⟨_, same⟩ | ⟨_, poisoned, torn, _⟩⟩ :=
        append_failed usable armed holding answered
      · exact keeps_exactly unlinked same whole
      · -- What stays of the frame stands behind the accepted ones, whatever it is read as.
        refine ⟨unlinked, bytes, _, torn, whole, fun clean => ?_⟩
        exact absurd (poisoned.symm.trans clean) (by decide)
  · rw [exact (append_usable answered), List.append_nil] at holding
    obtain ⟨unlinked, grown⟩ := append_site armed holding answered
    have read := Frame.readAll_ofEntry _ (replayable (by rw [answered]; rfl))
    refine keeps_exactly unlinked (by rw [grown, List.append_assoc]) ?_
    have behind := Frame.readAll_behind bytes (Frame.ofEntry (ledger.entry write)) _ whole
    rw [read] at behind
    exact behind

theorem Keeps.condense (keeps : ledger.Keeps) {write : Write} (condenses : write.condenses = true)
    (replayable : (ledger.outcome write).1 = true → (ledger.entry write).Replayable) :
    (ledger.write write).Keeps := by
  obtain ⟨linked, bytes, rest, site, whole, exact⟩ := keeps
  simp only [Ledger.write, outcome, condenses, if_true] at replayable ⊢
  rcases answered : ledger.journal.condense write.now write.changes (ledger.disk.under write.faults)
    with ⟨cause | number, after, disk⟩
  · obtain ⟨usable, same, unlinked⟩ := condense_failed answered
    refine ⟨unlinked.trans linked, bytes, rest, same.trans site, whole, fun clean => ?_⟩
    exact exact (usable.symm.trans clean)
  · have fit := replayable (by rw [answered]; rfl)
    obtain ⟨linked, whole, rest, site, _, exact⟩ := Holds.condense_ok fit answered
    exact ⟨linked, _, rest, site, whole, exact⟩

theorem Keeps.run (keeps : ledger.Keeps) (writes : List Write)
    (replayable : ∀ entry ∈ ledger.written writes, entry.Replayable) : (ledger.run writes).Keeps := by
  induction writes generalizing ledger with
  | nil => exact keeps
  | cons write rest ih =>
    have first (succeeds : (ledger.outcome write).1 = true) : (ledger.entry write).Replayable := by
      apply replayable
      rw [written, if_pos succeeds]
      exact List.mem_cons_self
    refine ih ?_ fun entry inside => replayable entry (List.mem_append_right _ inside)
    cases kind : write.condenses with
    | true => exact keeps.condense kind first
    | false => exact keeps.append kind first

end Ledger

variable {journal : Journal} {directory : String} {disk after : Disk} {entries : List Entry}

/-- Every frame is read as its entry. After any writes to a log, under any faults, the next opening
answers the accepted entries, and nothing else if the journal still takes appends. -/
theorem accepted_read (opened : openLog directory disk = (.ok (journal, entries), after))
    (writes : List Write)
    (replayable : ∀ entry ∈ (Ledger.mk journal after entries).written writes, entry.Replayable) :
    let ledger := (Ledger.mk journal after entries).run writes
    (∀ entry ∈ (Ledger.mk journal after entries).written writes, ∀ rest,
      Frame.read? (Frame.ofEntry entry ++ rest) = some (entry, rest)) ∧
    ∃ again answered anew,
      openLog directory (ledger.disk.under {}) = (.ok (again, answered), anew) ∧
      ledger.accepted <+: answered ∧
      (ledger.journal.poisoned = false → answered = ledger.accepted) := by
  intro ledger
  refine ⟨fun entry inside => Frame.read_ofEntry entry (replayable entry inside), ?_⟩
  obtain ⟨bytes, begun⟩ := openLog_holds opened
  have keeps : Ledger.Keeps ⟨journal, after, entries⟩ := Ledger.keeps_exactly begun.linked
    (begun.site_eq (by rw [openLog_journal opened])) begun.whole
  obtain ⟨_, bytes, rest, site, whole, exact⟩ := keeps.run writes replayable
  have calm : (ledger.disk.under {}).faults.failTruncate = false := rfl
  have file : (ledger.disk.under {}).site = .file (mark ++ (bytes ++ rest)) := by
    rw [← List.append_assoc]
    exact site
  obtain ⟨anew, answered⟩ := openLog_file file calm directory
  -- The accepted frames are read first, and then what stands behind them.
  rw [Frame.readAll_behind _ _ _ whole] at answered
  refine ⟨_, _, anew, answered, List.prefix_append _ _, fun usable => ?_⟩
  rw [exact usable, Frame.readAll_nil, List.append_nil]

namespace Sample

def nest : Nat → Json
  | 0 => .null
  | levels + 1 => .array [nest levels]

def item (levels : Nat) (canonical : (nest levels).isCanonical = true) : Item :=
  .make (Id.ofNat 1) (.root (Id.ofNat 1)) "nested" .document ⟨nest levels, canonical⟩ (Id.ofNat 9)
    default

def deep : Change := .putItem (item 123 (by decide +kernel))

def tooDeep : Change := .putItem (item 124 (by decide +kernel))

def plain : Change := .deleteItem (Id.ofNat 2)

def ledger : Ledger := ⟨⟨"journal", 0, false⟩, { site := .file mark }, []⟩

theorem opened : openLog "journal" {} = (.ok (ledger.journal, []), ledger.disk) := rfl

def writes : List Write :=
  [⟨false, default, [deep], {}⟩, ⟨false, default, [plain], {}⟩, ⟨true, default, [deep], {}⟩,
    ⟨false, default, [plain], { room := some 20, failTruncate := true }⟩]

end Sample

theorem sample_read :
    (∀ rest, Frame.read? (Frame.ofEntry ⟨2, 0, [Sample.deep]⟩ ++ rest) =
      some (⟨2, 0, [Sample.deep]⟩, rest)) ∧
    ∃ again answered anew,
      openLog "journal" ((Sample.ledger.run Sample.writes).disk.under {}) =
        (.ok (again, answered), anew) ∧
      [⟨2, 0, [Sample.deep]⟩] <+: answered := by
  have written : Sample.ledger.written Sample.writes =
      [⟨0, 0, [Sample.deep]⟩, ⟨1, 0, [Sample.plain]⟩, ⟨2, 0, [Sample.deep]⟩] := by
    decide +kernel
  have accepted : (Sample.ledger.run Sample.writes).accepted = [⟨2, 0, [Sample.deep]⟩] := by
    decide +kernel
  have replayable : ∀ entry ∈ Sample.ledger.written Sample.writes, entry.Replayable := by
    rw [written]
    decide +kernel
  obtain ⟨frames, again, answered, anew, logged, all, _⟩ :=
    accepted_read Sample.opened Sample.writes replayable
  have inside : ⟨2, 0, [Sample.deep]⟩ ∈ Sample.ledger.written Sample.writes := by simp [written]
  exact ⟨frames _ inside, again, answered, anew, logged, accepted ▸ all⟩

namespace Ledger

variable {ledger : Ledger}

/-- An append with nothing failing, whether its frame can be read or not. -/
theorem append_calm (ledger : Ledger) {write : Write} (appends : write.condenses = false)
    (calm : write.faults = {}) {bytes : List UInt8} (usable : ledger.journal.poisoned = false)
    (linked : ledger.disk.unlinked = none) (site : ledger.disk.site = .file bytes) :
    (ledger.outcome write).1 = true ∧ (ledger.write write).journal.poisoned = false ∧
      (ledger.write write).accepted = ledger.accepted ++ [ledger.entry write] ∧
      (ledger.write write).disk.unlinked = none ∧
      (ledger.write write).disk.site = .file (bytes ++ Frame.ofEntry (ledger.entry write)) := by
  have faults : (ledger.disk.under write.faults).faults = {} := calm
  have armed : (ledger.disk.under write.faults).unlinked = none := linked
  have holding : (ledger.disk.under write.faults).site = .file bytes := site
  obtain ⟨written, ok, _⟩ := Journal.append_calm usable faults write.now write.changes
  obtain ⟨unlinked, grown⟩ := append_site armed holding ok
  simp only [Ledger.write, outcome, appends, Bool.false_eq_true, if_false, ok]
  exact ⟨rfl, usable, rfl, unlinked, grown⟩

theorem run_calm (ledger : Ledger) {bytes : List UInt8} (usable : ledger.journal.poisoned = false)
    (linked : ledger.disk.unlinked = none) (site : ledger.disk.site = .file bytes)
    (writes : List Write) (appends : ∀ write ∈ writes, write.condenses = false)
    (calm : ∀ write ∈ writes, write.faults = {}) :
    (ledger.run writes).accepted = ledger.accepted ++ ledger.written writes ∧
      (ledger.run writes).disk.site = .file (bytes ++ Frame.frames (ledger.written writes)) := by
  induction writes generalizing ledger bytes with
  | nil =>
    rw [written, Frame.frames, List.flatMap_nil, List.append_nil, List.append_nil]
    exact ⟨rfl, site⟩
  | cons write rest ih =>
    obtain ⟨succeeds, clean, accepted, unlinked, grown⟩ := ledger.append_calm
      (appends write List.mem_cons_self) (calm write List.mem_cons_self) usable linked site
    obtain ⟨all, file⟩ := ih (ledger.write write) clean unlinked grown
      (fun later inside => appends later (List.mem_cons_of_mem write inside))
      (fun later inside => calm later (List.mem_cons_of_mem write inside))
    rw [written, if_pos succeeds, Frame.frames_append, Frame.frames_single]
    exact ⟨all.trans (by rw [accepted, List.append_assoc]), file.trans (by rw [List.append_assoc])⟩

/-- An accepted entry that cannot be read takes all that are accepted after it along: the next
opening answers those before it alone. -/
theorem Keeps.lost (keeps : ledger.Keeps) (usable : ledger.journal.poisoned = false)
    {writes : List Write} (appends : ∀ write ∈ writes, write.condenses = false)
    (calm : ∀ write ∈ writes, write.faults = {}) {entry : Entry} {later : List Entry}
    (first : ledger.written writes = entry :: later)
    (unread : ∀ rest, Frame.read? (Frame.ofEntry entry ++ rest) = none) (directory : String) :
    (ledger.run writes).accepted = ledger.accepted ++ entry :: later ∧
      ∃ again anew, openLog directory ((ledger.run writes).disk.under {}) =
        (.ok (again, ledger.accepted), anew) := by
  obtain ⟨linked, bytes, rest, site, whole, exact⟩ := keeps
  rw [exact usable, List.append_nil] at site
  obtain ⟨all, file⟩ := ledger.run_calm usable linked site writes appends calm
  rw [first] at all file
  refine ⟨all, ?_⟩
  have fails : ((ledger.run writes).disk.under {}).faults.failTruncate = false := rfl
  have grown : ((ledger.run writes).disk.under {}).site =
      .file (mark ++ (bytes ++ Frame.frames (entry :: later))) := by
    rw [← List.append_assoc]
    exact file
  obtain ⟨anew, answered⟩ := openLog_file grown fails directory
  -- Reading stops at the entry, and the frames from there on are cut off.
  have stops : Frame.readAll (Frame.frames (entry :: later)) =
      ([], Frame.frames (entry :: later)) := Frame.readAll_none _ (unread _)
  rw [Frame.readAll_behind _ _ _ whole, stops, List.append_nil] at answered
  exact ⟨_, anew, answered⟩

end Ledger

namespace Sample

def lost : Entry := ⟨0, 0, [tooDeep]⟩

def lostChanges : List Char := (Json.array [tooDeep.toJson]).render

def lostParts : List (List Char × List Char) :=
  [("\"sequence\"".toList, "0".toList), ("\"timestamp\"".toList, "0".toList),
    ("\"ops\"".toList, lostChanges)]

theorem ofText_lost : Entry.ofText? (Frame.payload lost) = none := by
  have whole : Json.parse? lost.toJson.render = none := by decide +kernel
  -- The text is then read member by member, but the changes alone are nested too deeply too.
  have opened : Json.skipSpace ((Frame.payload lost).map Char.ofUInt8) =
      '\x7b' :: lost.toJson.render.drop 1 := by
    decide +kernel
  have split : Json.splitObject? (lost.toJson.render.drop 1) = some (lostParts, []) := by
    decide +kernel
  have key : Json.readBytes? 0 "\"ops\"".toList = some (.string "ops") := by
    rw [@Json.readBytes_encode 0 _ "\"ops\"".toList (by decide +kernel)]
    decide +kernel
  have changes : Json.readBytes? (Json.maxDepth - 1) lostChanges = none := by
    rw [@Json.readBytes_encode (Json.maxDepth - 1) _ lostChanges (by decide +kernel)]
    decide +kernel
  have inside : ("\"ops\"".toList, lostChanges) ∈ lostParts := by simp [lostParts]
  have asked : "ops" ∈ Entry.fieldNames := by decide
  have named := Json.readNamed_none inside key asked changes
  have selected : Json.select? Entry.fieldNames (Frame.payload lost) = none := by
    rw [Json.select?, Frame.payload, Utf8.decode_encode, Option.bind_some, whole, Option.none_or]
    exact Json.readObject_none opened split named
  rw [Entry.ofText?, Json.record?, selected, Option.bind_none]

def losing : List Write := [⟨false, default, [tooDeep], {}⟩, ⟨false, default, [plain], {}⟩]

end Sample

/-- Both entries are accepted, the first is not read, and the next opening answers neither. -/
theorem sample_not_read :
    (Sample.ledger.run Sample.losing).accepted = [Sample.lost, ⟨1, 0, [Sample.plain]⟩] ∧
    Frame.read? (Frame.ofEntry Sample.lost) = none ∧
    ∃ again anew, openLog "journal" ((Sample.ledger.run Sample.losing).disk.under {}) =
      (.ok (again, []), anew) := by
  have short : (Frame.payload Sample.lost).length + 4 ≤ Frame.maxBody := by decide +kernel
  have unread (rest : List UInt8) : Frame.read? (Frame.ofEntry Sample.lost ++ rest) = none := by
    rw [Frame.read_payload _ short, Sample.ofText_lost, Option.map_none]
  have keeps : Sample.ledger.Keeps := ⟨rfl, [], [], rfl, Frame.readAll_nil, fun _ => rfl⟩
  have written : Sample.ledger.written Sample.losing = [Sample.lost, ⟨1, 0, [Sample.plain]⟩] := by
    decide +kernel
  obtain ⟨accepted, again, anew, answered⟩ :=
    keeps.lost rfl (by decide) (by decide) written unread "journal"
  exact ⟨accepted, List.append_nil (Frame.ofEntry Sample.lost) ▸ unread [], again, anew, answered⟩

end SharedTree.Journal
