import Mathlib.Algebra.Group.Nat.Defs
import SharedTree.Proofs.Journal.Log
/-!
A log over many openings, with anything failing in any step. What was acknowledged is the entries
that the last opening answered and those appended with success since, or the one entry of a
condensing that succeeded since. The next opening answers just that, or that and one entry of an
append that failed (`acknowledged_kept`): a frame that could neither be synced nor cut back.
-/
namespace SharedTree.Journal

inductive Deed where
  | opening
  | append (now : Instant) (changes : List Change)
  | condense (now : Instant) (changes : List Change)
  | close

structure Step where
  deed : Deed
  faults : Faults

/-- A log over time: its journal while it is open, the disk, the acknowledged entries, and the
entries of the appends that failed since the last opening, append or condensing that succeeded. -/
structure Session where
  journal : Option Journal
  disk : Disk
  acknowledged : List Entry
  failed : List Entry

namespace Session

def start (disk : Disk) : Session := ⟨none, disk, [], []⟩

def step (directory : String) (session : Session) (step : Step) : Session :=
  let disk := session.disk.under step.faults
  match step.deed, session.journal with
  | .opening, _ =>
      match openLog directory disk with
      | (.ok (journal, entries), after) => ⟨some journal, after, entries, []⟩
      | (.error _, after) => { session with journal := none, disk := after }
  | .append now changes, some journal =>
      let entry := journal.nextEntry now changes
      match journal.append now changes disk with
      | (.ok _, after, written) => ⟨some after, written, session.acknowledged ++ [entry], []⟩
      | (.error _, after, written) =>
          { session with
            journal := some after, disk := written, failed := session.failed ++ [entry] }
  | .condense now changes, some journal =>
      match journal.condense now changes disk with
      | (.ok _, after, written) => ⟨some after, written, [journal.nextEntry now changes], []⟩
      | (.error _, after, written) => { session with journal := some after, disk := written }
  | _, _ => { session with journal := none, disk }

def run (directory : String) (session : Session) (steps : List Step) : Session :=
  steps.foldl (step directory) session

def attempt? (session : Session) (step : Step) : Option Entry :=
  match step.deed, session.journal with
  | .append now changes, some journal => some (journal.nextEntry now changes)
  | .condense now changes, some journal => some (journal.nextEntry now changes)
  | _, _ => none

def attempts (directory : String) : Session → List Step → List Entry
  | _, [] => []
  | session, step :: rest =>
      (session.attempt? step).toList ++ attempts directory (session.step directory step) rest

def renews (directory : String) (session : Session) (step : Step) : Bool :=
  let disk := session.disk.under step.faults
  match step.deed, session.journal with
  | .opening, _ => (openLog directory disk).1.isOk
  | .condense now changes, some journal => (journal.condense now changes disk).1.isOk
  | _, _ => false

def renewed (directory : String) : Session → List Step → Bool
  | _, [] => false
  | session, step :: rest =>
      session.renews directory step || renewed directory (session.step directory step) rest

end Session

/-! The file between two openings. -/

inductive Found (disk : Disk) : List Entry → Prop where
  | unbegun : disk.unlinked = none →
      (disk.site = .absent ∨ ∃ bytes, disk.site = .file bytes ∧ bytes.length < mark.length) →
      Found disk []
  | begun {journal : Journal} {bytes : List UInt8} {entries : List Entry} :
      journal.Holds disk bytes entries → Found disk entries

variable {journal : Journal} {disk after : Disk} {entries answered : List Entry}
  {directory : String}

theorem Found.marked (linked : disk.unlinked = none) (whole : disk.site = .file mark) :
    Found disk [] := by
  have holds : Holds ⟨"", 0, false⟩ disk [] [] := by
    refine ⟨linked, Frame.readAll_nil, [], ?_, Frame.torn_nil, fun _ => rfl⟩
    rw [whole, List.append_nil, List.append_nil]
  exact .begun holds

theorem Found.under (found : Found disk entries) (faults : Faults) :
    Found (disk.under faults) entries := by
  cases found with
  | unbegun linked short => exact .unbegun linked short
  | begun holds => exact .begun (holds.under faults)

theorem openLog_unbegun
    (short : disk.site = .absent ∨ ∃ bytes, disk.site = .file bytes ∧ bytes.length < mark.length)
    (directory : String) :
    ∃ before, before.length < mark.length ∧
      openLog directory disk = startLog directory before disk := by
  rcases short with absent | ⟨bytes, site, short⟩
  · exact ⟨[], by decide, by simp only [openLog, absent]⟩
  · exact ⟨bytes, short, by simp only [openLog, site, if_pos short]⟩

theorem Found.openLog_ok (found : Found disk entries)
    (opened : openLog directory disk = (.ok (journal, answered), after)) :
    answered = entries ∧ ∃ bytes, journal.Holds after bytes entries := by
  have same : answered = entries := by
    cases found with
    | unbegun _ short =>
      obtain ⟨before, _, starts⟩ := openLog_unbegun short directory
      rw [starts, startLog] at opened
      dsimp only at opened
      split at opened
      · cases opened
      · split at opened <;> cases opened
        rfl
    | begun holds =>
      rcases holds.reopened directory with ⟨again, anew, ok, _⟩ | ⟨_, refused⟩
      · cases ok.symm.trans opened
        rfl
      · cases refused.symm.trans opened
  exact ⟨same, same ▸ openLog_holds opened⟩

/-- An opening that fails leaves the log with what it had. -/
theorem Found.openLog_error (found : Found disk entries) {cause : JournalFault}
    (failed : openLog directory disk = (.error cause, after)) : Found after entries := by
  cases found with
  | begun holds =>
    rcases holds.reopened directory with ⟨_, _, ok, _⟩ | ⟨_, refused⟩
    · cases ok.symm.trans failed
    · cases refused.symm.trans failed
      exact .begun holds
  | unbegun linked short =>
    obtain ⟨before, small, starts⟩ := openLog_unbegun short directory
    rw [starts, startLog] at failed
    dsimp only at failed
    split at failed
    · cases failed
      exact .unbegun linked (.inr ⟨before, rfl, small⟩)
    · split at failed
      · cases failed
        -- A part of the mark is there, or all of it, not synced.
        by_cases part : disk.faults.accepted mark.length < mark.length
        · refine .unbegun linked (.inr ⟨_, rfl, ?_⟩)
          rw [List.length_take]
          omega
        · exact .marked linked (congrArg Site.file (List.take_of_length_le (Nat.not_lt.mp part)))
      · cases failed

/-! Numbers. -/

def Ascending (entries : List Entry) : Prop :=
  entries.Pairwise fun earlier later => earlier.sequence < later.sequence

theorem toNat_next {number : UInt64} {count : Nat} (most : number.toNat ≤ count)
    (few : count + 1 < 2 ^ 64) : (number + 1).toNat = number.toNat + 1 := by
  rw [UInt64.toNat_add]
  exact Nat.mod_eq_of_lt (by simp; omega)

theorem Ascending.append {entry : Entry} (ascending : Ascending entries)
    (above : ∀ other ∈ entries, other.sequence < entry.sequence) :
    Ascending (entries ++ [entry]) := by
  refine List.pairwise_append.mpr ⟨ascending, List.pairwise_singleton _ _, ?_⟩
  intro other inside last same
  rw [List.mem_singleton.mp same]
  exact above other inside

/-- The number that an opening goes on with is above those of all entries. -/
theorem Ascending.numberAfter (ascending : Ascending entries) {count : Nat}
    (few : count + 1 < 2 ^ 64) (numbers : ∀ entry ∈ entries, entry.sequence.toNat < count) :
    (∀ entry ∈ entries, entry.sequence < numberAfter entries) ∧
      (Journal.numberAfter entries).toNat ≤ count := by
  rcases List.eq_nil_or_concat entries with rfl | ⟨before, last, rfl⟩
  · exact ⟨by simp, Nat.zero_le count⟩
  rw [List.concat_eq_append] at ascending numbers ⊢
  have least := numbers last (by simp)
  have next : (last.sequence + 1).toNat = last.sequence.toNat + 1 :=
    toNat_next (Nat.le_of_lt least) few
  have number : Journal.numberAfter (before ++ [last]) = last.sequence + 1 := by
    simp [Journal.numberAfter]
  rw [number, next]
  refine ⟨fun entry inside => ?_, least⟩
  rw [UInt64.lt_iff_toNat_lt, next]
  rcases List.mem_append.mp inside with earlier | same
  · have below := (List.pairwise_append.mp ascending).2.2 entry earlier last List.mem_cons_self
    rw [UInt64.lt_iff_toNat_lt] at below
    omega
  · rw [List.mem_singleton.mp same]
    omega

theorem append_next {journal after : Journal} {disk written : Disk} {now : Instant}
    {changes : List Change} {answer : Except JournalFault UInt64}
    (ended : journal.append now changes disk = (answer, after, written)) :
    after.next = if answer.isOk then journal.next + 1 else journal.next := by
  unfold append at ended
  dsimp only at ended
  split at ended
  · cases ended
    rfl
  · split at ended
    · cases ended
      rfl
    · split at ended <;> cases ended <;> rfl

theorem condense_next {journal after : Journal} {disk written : Disk} {now : Instant}
    {changes : List Change} {answer : Except JournalFault Unit}
    (ended : journal.condense now changes disk = (answer, after, written)) :
    after.next = journal.next + 1 := by
  unfold condense at ended
  dsimp only at ended
  split at ended
  · cases ended
    rfl
  split at ended
  · cases ended
    rfl
  split at ended
  · cases ended
    rfl
  split at ended <;> cases ended <;> rfl

namespace Session

variable {session : Session} {pending : List Entry} {count : Nat}

structure Continues (journal : Journal) (session : Session) (pending : List Entry) (count : Nat) :
    Prop where
  holds : ∃ bytes, journal.Holds session.disk bytes (session.acknowledged ++ pending)
  exact : journal.poisoned = false → pending = []
  above : ∀ entry ∈ session.acknowledged, entry.sequence < journal.next
  most : journal.next.toNat ≤ count

/-- After so many steps the file holds the acknowledged entries, and behind them perhaps one whose
append failed. -/
structure Sound (count : Nat) (session : Session) (pending : List Entry) : Prop where
  found : Found session.disk (session.acknowledged ++ pending)
  single : pending = [] ∨ ∃ entry ∈ session.failed, pending = [entry]
  ascending : Ascending (session.acknowledged ++ pending)
  numbers : ∀ entry ∈ session.acknowledged ++ pending, entry.sequence.toNat < count
  continues : ∀ journal, session.journal = some journal → Continues journal session pending count

theorem start_sound (absent : disk.site = .absent) (unheld : disk.unlinked = none) :
    (start disk).Sound 0 [] where
  found := .unbegun unheld (.inl absent)
  single := .inl rfl
  ascending := List.Pairwise.nil
  numbers := by simp [start]
  continues := by simp [start]

theorem Sound.opening (sound : session.Sound count pending) (few : count + 1 < 2 ^ 64)
    (directory : String) (faults : Faults) :
    ∃ pending, (session.step directory ⟨.opening, faults⟩).Sound (count + 1) pending := by
  have found := sound.found.under faults
  unfold step
  dsimp only
  split
  · -- What was pending counts as acknowledged from now on.
    rename_i journal entries after opened
    obtain ⟨rfl, bytes, holds⟩ := found.openLog_ok opened
    obtain ⟨above, most⟩ := sound.ascending.numberAfter few sound.numbers
    obtain rfl := openLog_journal opened
    refine ⟨[], ?_⟩
    constructor
    case found => exact .begun (by rw [List.append_nil]; exact holds)
    case single => exact .inl rfl
    case ascending => rw [List.append_nil]; exact sound.ascending
    case numbers =>
      rw [List.append_nil]
      exact fun entry inside => Nat.lt_succ_of_lt (sound.numbers entry inside)
    case continues =>
      rintro _ ⟨⟩
      exact ⟨⟨bytes, by rw [List.append_nil]; exact holds⟩, fun _ => rfl, above,
        Nat.le_succ_of_le most⟩
  · rename_i cause after failed
    refine ⟨pending, found.openLog_error failed, sound.single, sound.ascending, ?_, by simp⟩
    exact fun entry inside => Nat.lt_succ_of_lt (sound.numbers entry inside)

/-- Nothing is written while the log is not open. -/
theorem Sound.closed (sound : session.Sound count pending) (faults : Faults) :
    Sound (count + 1) { session with journal := none, disk := session.disk.under faults }
      pending where
  found := sound.found.under faults
  single := sound.single
  ascending := sound.ascending
  numbers := fun entry inside => Nat.lt_succ_of_lt (sound.numbers entry inside)
  continues := by simp

/-- A log with one more entry acknowledged. -/
theorem Sound.grown {journal after : Journal} {kept : List Entry} {written : Disk}
    {bytes : List UInt8} {entry : Entry} (few : count + 1 < 2 ^ 64) (number : entry.sequence = journal.next)
    (next : after.next = journal.next + 1) (most : journal.next.toNat ≤ count)
    (ascending : Ascending kept) (above : ∀ entry ∈ kept, entry.sequence < journal.next)
    (holds : after.Holds written bytes (kept ++ [entry])) :
    Sound (count + 1) ⟨some after, written, kept ++ [entry], []⟩ [] := by
  have number_next : (journal.next + 1).toNat = journal.next.toNat + 1 := toNat_next most few
  have below (other : Entry) (inside : other ∈ kept ++ [entry]) :
      other.sequence.toNat < journal.next.toNat + 1 := by
    rcases List.mem_append.mp inside with earlier | same
    · have less := above other earlier
      rw [UInt64.lt_iff_toNat_lt] at less
      omega
    · rw [List.mem_singleton.mp same, number]
      omega
  have whole : after.Holds written bytes (kept ++ [entry] ++ []) := by rwa [List.append_nil]
  constructor
  case found => exact .begun whole
  case single => exact .inl rfl
  case ascending =>
    rw [List.append_nil]
    exact ascending.append fun other inside => number ▸ above other inside
  case numbers =>
    rw [List.append_nil]
    exact fun other inside => Nat.lt_of_lt_of_le (below other inside) (Nat.succ_le_succ most)
  case continues =>
    rintro _ ⟨⟩
    refine ⟨⟨bytes, whole⟩, fun _ => rfl, fun other inside => ?_, ?_⟩
    · rw [next, UInt64.lt_iff_toNat_lt, number_next]
      exact below other inside
    · rw [next, number_next]
      exact Nat.succ_le_succ most

theorem Sound.append {journal : Journal} (sound : session.Sound count pending)
    (few : count + 1 < 2 ^ 64) (present : session.journal = some journal) {now : Instant}
    {changes : List Change} (replayable : (journal.nextEntry now changes).Replayable)
    (directory : String) (faults : Faults) :
    ∃ pending, (session.step directory ⟨.append now changes, faults⟩).Sound (count + 1) pending := by
  obtain ⟨⟨bytes, holds⟩, exact, above, most⟩ := sound.continues journal present
  have later (entry : Entry) (inside : entry ∈ session.acknowledged ++ pending) :
      entry.sequence.toNat < count + 1 := Nat.lt_succ_of_lt (sound.numbers entry inside)
  have armed := holds.under faults
  unfold step
  simp only [present]
  split
  · rename_i number after written ok
    obtain rfl := exact (append_usable ok)
    rw [List.append_nil] at armed
    have ascending := sound.ascending
    rw [List.append_nil] at ascending
    exact ⟨[], .grown few rfl (append_next ok) most ascending above (armed.append_ok replayable ok)⟩
  · rename_i cause after written failed
    have next : after.next = journal.next := append_next failed
    cases usable : journal.poisoned with
    | true =>
      -- Nothing was tried.
      obtain ⟨rfl, rfl⟩ := append_refused usable failed
      refine ⟨pending, .begun armed, ?_, sound.ascending, later, ?_⟩
      · exact sound.single.imp_right fun ⟨entry, inside, same⟩ =>
          ⟨entry, List.mem_append_left _ inside, same⟩
      · rintro _ ⟨⟩
        exact ⟨⟨bytes, armed⟩, exact, above, Nat.le_succ_of_le most⟩
    | false =>
      obtain rfl := exact usable
      by_cases strand :
          faults.Strand (Frame.ofEntry (journal.nextEntry now changes)).length
      · -- The frame is in the file, and is read as an entry that was not acknowledged.
        obtain ⟨_, _, _, answered, poisoned, stays⟩ :=
          armed.append_stranded usable now changes replayable strand
        cases answered.symm.trans failed
        rw [List.append_nil] at stays
        have ascending := sound.ascending
        rw [List.append_nil] at ascending
        refine ⟨[journal.nextEntry now changes], .begun stays, ?_,
          ascending.append above, ?_, ?_⟩
        · exact .inr ⟨_, by simp, rfl⟩
        · intro entry inside
          rcases List.mem_append.mp inside with earlier | same
          · exact later entry (List.mem_append_left _ earlier)
          · rw [List.mem_singleton.mp same]
            exact Nat.lt_succ_of_le most
        · rintro _ ⟨⟩
          refine ⟨⟨_, stays⟩, fun clean => ?_, fun entry inside => next ▸ above entry inside,
            next ▸ Nat.le_succ_of_le most⟩
          rw [poisoned] at clean
          cases clean
      · have kept := armed.append_error replayable strand failed
        refine ⟨[], .begun kept, .inl rfl, sound.ascending, later, ?_⟩
        rintro _ ⟨⟩
        exact ⟨⟨bytes, kept⟩, fun _ => rfl, fun entry inside => next ▸ above entry inside,
          next ▸ Nat.le_succ_of_le most⟩

theorem Sound.condense {journal : Journal} (sound : session.Sound count pending)
    (few : count + 1 < 2 ^ 64) (present : session.journal = some journal) {now : Instant}
    {changes : List Change} (replayable : (journal.nextEntry now changes).Replayable)
    (directory : String) (faults : Faults) :
    ∃ pending, (session.step directory ⟨.condense now changes, faults⟩).Sound (count + 1) pending := by
  obtain ⟨⟨bytes, holds⟩, exact, above, most⟩ := sound.continues journal present
  have armed := holds.under faults
  unfold step
  simp only [present]
  split
  · rename_i after written ok
    exact ⟨[], .grown few rfl (condense_next ok) most List.Pairwise.nil (by simp)
      (Holds.condense_ok replayable ok)⟩
  · rename_i cause after written failed
    have kept := armed.condense_error failed
    have next : after.next = journal.next + 1 := condense_next failed
    have number_next : (journal.next + 1).toNat = journal.next.toNat + 1 := toNat_next most few
    refine ⟨pending, .begun kept, sound.single, sound.ascending,
      fun entry inside => Nat.lt_succ_of_lt (sound.numbers entry inside), ?_⟩
    rintro _ ⟨⟩
    refine ⟨⟨bytes, kept⟩, fun clean => exact ((condense_failed failed).1.symm.trans clean), ?_, ?_⟩
    · intro entry inside
      have less := above entry inside
      rw [UInt64.lt_iff_toNat_lt] at less ⊢
      rw [next, number_next]
      omega
    · rw [next, number_next]
      exact Nat.succ_le_succ most

/-- Whatever is done and whatever fails, a sound session stays sound. -/
theorem Sound.step (sound : session.Sound count pending) (few : count + 1 < 2 ^ 64)
    (directory : String) (step : Step)
    (replayable : ∀ entry, session.attempt? step = some entry → entry.Replayable) :
    ∃ pending, (session.step directory step).Sound (count + 1) pending := by
  obtain ⟨deed, faults⟩ := step
  cases deed with
  | opening => exact sound.opening few directory faults
  | close => exact ⟨pending, sound.closed faults⟩
  | append now changes =>
    cases present : session.journal with
    | none =>
      refine ⟨pending, ?_⟩
      simp only [Session.step, present]
      exact present ▸ sound.closed faults
    | some journal =>
      exact sound.append few present (replayable _ (by simp [attempt?, present])) directory faults
  | condense now changes =>
    cases present : session.journal with
    | none =>
      refine ⟨pending, ?_⟩
      simp only [Session.step, present]
      exact present ▸ sound.closed faults
    | some journal =>
      exact sound.condense few present (replayable _ (by simp [attempt?, present])) directory faults

theorem Sound.run (sound : session.Sound count pending) (directory : String) (steps : List Step)
    (few : count + steps.length < 2 ^ 64)
    (replayable : ∀ entry ∈ session.attempts directory steps, entry.Replayable) :
    ∃ pending, (session.run directory steps).Sound (count + steps.length) pending := by
  induction steps generalizing session count pending with
  | nil => exact ⟨pending, sound⟩
  | cons step rest ih =>
    rw [List.length_cons] at few ⊢
    obtain ⟨next, kept⟩ := sound.step (by omega) directory step fun entry tried =>
      replayable entry (List.mem_append_left _ (Option.mem_toList.mpr tried))
    rw [Nat.add_comm rest.length, ← Nat.add_assoc] at few ⊢
    exact ih kept few fun entry inside => replayable entry (List.mem_append_right _ inside)

/-! A journal that takes no appends. -/

structure Blocked (session : Session) (site : Site) : Prop where
  same : session.disk.site = site
  begun : ∃ (journal : Journal) (bytes : List UInt8) (entries : List Entry),
    journal.Holds session.disk bytes entries
  refuses : ∀ journal, session.journal = some journal → journal.poisoned = true

theorem Blocked.step {site : Site} (blocked : session.Blocked site) (step : Step)
    (still : session.renews directory step = false) :
    (session.step directory step).Blocked site := by
  obtain ⟨same, ⟨keeper, bytes, entries, holds⟩, refuses⟩ := blocked
  obtain ⟨deed, faults⟩ := step
  have armed := holds.under faults
  have closed : Blocked { session with journal := none, disk := session.disk.under faults } site :=
    ⟨same, ⟨keeper, bytes, entries, armed⟩, by simp⟩
  cases deed with
  | close => exact closed
  | opening =>
    rcases armed.reopened directory with ⟨_, _, ok, _⟩ | ⟨_, refused⟩
    · simp [renews, ok, Except.isOk, Except.toBool] at still
    · simp only [Session.step, refused]
      exact closed
  | append now changes =>
    cases present : session.journal with
    | none =>
      simp only [Session.step, present]
      exact present ▸ closed
    | some journal =>
      have poisoned := refuses journal present
      have refused : journal.append now changes (session.disk.under faults) =
          (.error (.unusable journal.file), journal, session.disk.under faults) := if_pos poisoned
      simp only [Session.step, present, refused]
      refine ⟨same, ⟨keeper, bytes, entries, armed⟩, ?_⟩
      rintro _ ⟨⟩
      exact poisoned
  | condense now changes =>
    cases present : session.journal with
    | none =>
      simp only [Session.step, present]
      exact present ▸ closed
    | some journal =>
      rcases ended : journal.condense now changes (session.disk.under faults) with
        ⟨cause | ok, after, written⟩
      · obtain ⟨poisoned, stays, unlinked⟩ := condense_failed ended
        simp only [Session.step, present, ended]
        obtain ⟨rest, file, torn, clean⟩ := armed.file
        refine ⟨stays.trans same, ⟨{ keeper with poisoned := true }, bytes, entries,
          unlinked.trans armed.linked, armed.whole, rest, stays.trans file, torn, by simp⟩, ?_⟩
        rintro _ ⟨⟩
        exact poisoned.trans (refuses journal present)
      · simp [renews, present, ended, Except.isOk, Except.toBool] at still

theorem Blocked.run {site : Site} (blocked : session.Blocked site) (steps : List Step)
    (still : session.renewed directory steps = false) :
    (session.run directory steps).Blocked site := by
  induction steps generalizing session with
  | nil => exact blocked
  | cons step rest ih =>
    rw [renewed, Bool.or_eq_false_iff] at still
    exact ih (blocked.step step still.1) still.2

/-- An append that fails leaves the file as it was, or else the journal takes no more appends. -/
theorem Sound.append_failed {journal after : Journal} {written : Disk} {now : Instant}
    {changes : List Change} {cause : JournalFault} {faults : Faults}
    (sound : session.Sound count pending) (few : count + 1 < 2 ^ 64)
    (present : session.journal = some journal)
    (replayable : (journal.nextEntry now changes).Replayable) (directory : String)
    (failed :
      journal.append now changes (session.disk.under faults) = (.error cause, after, written)) :
    written.site = session.disk.site ∨
      (session.step directory ⟨.append now changes, faults⟩).Blocked written.site := by
  cases usable : journal.poisoned with
  | true =>
    obtain ⟨_, rfl⟩ := append_refused usable failed
    exact .inl rfl
  | false =>
    obtain ⟨⟨_, holds⟩, _, _, _⟩ := sound.continues journal present
    have armed := holds.under faults
    obtain ⟨_, ⟨_, same⟩ | ⟨_, poisoned, _, _⟩⟩ :=
      Journal.append_failed usable armed.linked (armed.site_eq usable) failed
    · exact .inl (same.trans (armed.site_eq usable).symm)
    · obtain ⟨_, later⟩ := sound.append few present replayable directory faults
      have left : session.step directory ⟨.append now changes, faults⟩ =
          { session with
            journal := some after, disk := written
            failed := session.failed ++ [journal.nextEntry now changes] } := by
        simp only [Session.step, present, failed]
      rw [left] at later ⊢
      obtain ⟨⟨bytes, kept⟩, _, _, _⟩ := later.continues after rfl
      refine .inr ⟨rfl, ⟨after, bytes, _, kept⟩, ?_⟩
      rintro _ ⟨⟩
      exact poisoned

end Session

/-- No disk fault loses an acknowledged entry. Whatever is done to a log that was not there before,
whatever fails meanwhile: an opening that succeeds answers the acknowledged entries and perhaps one
more, of an append that failed and that nothing succeeded after, with ascending numbers. An append
that fails leaves the file as it was, or else the file stays as it is left and all appends are
refused up to the next opening or condensing that succeeds. -/
theorem acknowledged_kept (absent : disk.site = .absent) (unheld : disk.unlinked = none)
    (steps : List Step) (few : steps.length + 1 < 2 ^ 64)
    (replayable : ∀ entry ∈ (Session.start disk).attempts directory steps, entry.Replayable) :
    let session := (Session.start disk).run directory steps
    (∀ faults journal entries after,
      openLog directory (session.disk.under faults) = (.ok (journal, entries), after) →
      (entries = session.acknowledged ∨
          ∃ entry ∈ session.failed, entries = session.acknowledged ++ [entry]) ∧
        Ascending entries) ∧
    ∀ journal now changes faults cause after written,
      session.journal = some journal → (journal.nextEntry now changes).Replayable →
      journal.append now changes (session.disk.under faults) = (.error cause, after, written) →
      written.site = session.disk.site ∨
        ∀ later : List Step,
          (session.step directory ⟨.append now changes, faults⟩).renewed directory later = false →
          let ended := (session.step directory ⟨.append now changes, faults⟩).run directory later
          ended.disk.site = written.site ∧
            ∀ holder, ended.journal = some holder → ∀ now changes faults,
              holder.append now changes (ended.disk.under faults) =
                (.error (.unusable holder.file), holder, ended.disk.under faults) := by
  intro session
  obtain ⟨pending, sound⟩ := (Session.start_sound absent unheld).run directory steps
    (by omega) replayable
  rw [Nat.zero_add] at sound
  constructor
  · intro faults journal entries after opened
    obtain ⟨rfl, _⟩ := (sound.found.under faults).openLog_ok opened
    refine ⟨?_, sound.ascending⟩
    rcases sound.single with rfl | ⟨entry, tried, rfl⟩
    · exact .inl (List.append_nil _)
    · exact .inr ⟨entry, tried, rfl⟩
  · intro journal now changes faults cause after written present fits failed
    refine (sound.append_failed few present fits directory failed).imp_right ?_
    intro blocked later still
    obtain ⟨same, _, refuses⟩ := blocked.run later still
    exact ⟨same, fun holder holds now changes faults => if_pos (refuses holder holds)⟩

namespace Session.Sample

/-- The second append can neither be synced nor cut back, and for a condensing there is no room. -/
def steps : List Step :=
  [⟨.opening, {}⟩, ⟨.append default [], {}⟩,
    ⟨.append default [], { failSync := true, failTruncate := true }⟩,
    ⟨.condense default [], { room := some 20 }⟩, ⟨.append default [], {}⟩, ⟨.close, {}⟩]

def first : Entry := ⟨0, 0, []⟩

def second : Entry := ⟨1, 0, []⟩

def session : Session := (start {}).run "journal" steps

end Session.Sample

open Session.Sample in
theorem sample_acknowledged_kept :
    session.acknowledged = [first] ∧ second ∈ session.failed ∧
      ∃ journal entries after,
        openLog "journal" (session.disk.under {}) = (.ok (journal, entries), after) ∧
        entries = [first, second] ∧
        (entries = session.acknowledged ∨
          ∃ entry ∈ session.failed, entries = session.acknowledged ++ [entry]) ∧
        Ascending entries := by
  have replayable : ∀ entry ∈ (Session.start {}).attempts "journal" steps, entry.Replayable := by
    decide +kernel
  have few : steps.length + 1 < 2 ^ 64 := by simp [steps]
  obtain ⟨openings, _⟩ := acknowledged_kept rfl rfl steps few replayable
  have site : (session.disk.under {}).site = .file (mark ++ Frame.frames [first, second]) := by
    decide +kernel
  have read := Frame.readAll_frames [first, second] (by decide +kernel)
  obtain ⟨after, opened⟩ := openLog_file site rfl "journal"
  rw [read] at opened
  exact ⟨by decide +kernel, by decide +kernel, _, _, after, opened, rfl, openings {} _ _ _ opened⟩

end SharedTree.Journal
