import SharedTree.Proofs.Store.Durability
/-!
Crashes: a log file that was cut off at any byte. Opening it gives the rows after the last point of
the trail whose frame is complete, removes what stands behind that frame, and goes on from there
(`cut_off`). A point that is complete can still be lost if its entry is not read back;
`sample_cut_off` is one whose row comes back changed.
-/
namespace SharedTree.Course

open Journal.Frame (frames)

variable {course : Course} {directory : String}

/-- True of the longest part of a trail, from its start, whose frames are complete in so many bytes
of the file. -/
structure Complete (limit : Nat) (trail kept : List (Journal.Entry × Tables)) : Prop where
  front : kept <+: trail
  fits : kept = [] ∨ (Journal.mark ++ frames (kept.map Prod.fst)).length ≤ limit
  longest : ∀ other, other <+: trail →
    (Journal.mark ++ frames (other.map Prod.fst)).length ≤ limit → other <+: kept

/-- A course goes on from a part of its trail, once the store has the rows after that part. -/
theorem Sound.back (sound : course.Sound) (count : Nat) {store : Store} {journal : Journal}
    (same : store.journal = some journal) (rows : store.tables = rowsAfter (course.trail.take count))
    (holds : journal.Holds store.disk (frames ((course.trail.take count).map Prod.fst))
      ((course.trail.take count).map Prod.fst)) :
    Sound ⟨store.under {}, course.trail.take count⟩ where
  log := ⟨journal, same, holds.under {}⟩
  idle := rfl
  replayable := by
    intro entry inside
    obtain ⟨point, kept, rfl⟩ := List.mem_map.mp inside
    exact sound.replayable _ (List.mem_map.mpr ⟨point, List.mem_of_mem_take kept, rfl⟩)
  indexed := by
    show store.tables.Indexed
    rw [rows, rowsAfter]
    cases last : (course.trail.take count).getLast? with
    | none => exact Tables.empty_indexed
    | some point =>
      exact sound.traced point (List.mem_of_mem_take (List.mem_of_getLast? last))
  traced := fun point inside => sound.traced point (List.mem_of_mem_take inside)
  tracks := by
    show Tracks .empty _ store.tables
    rw [rows]
    exact sound.tracks.take count

/-- Opening a log that was cut off, where nothing fails. -/
theorem Sound.cut (sound : course.Sound) (directory : String) (limit : Nat) :
    ∃ kept again, Complete limit course.trail kept ∧
      Store.openJournal directory (course.store.disk.cut limit) = (.ok again, again.disk) ∧
      again.tables = rowsAfter kept ∧
      again.journal = some ⟨directory, Journal.numberAfter (kept.map Prod.fst), false⟩ ∧
      again.disk.site = .file (Journal.mark ++ frames (kept.map Prod.fst)) ∧
      Sound ⟨again.under {}, kept⟩ := by
  obtain ⟨journal, present, holds⟩ := sound.log
  have calm : (course.store.disk.cut limit).faults = {} := by
    rw [← sound.idle, Journal.Disk.cut]
    split <;> rfl
  by_cases marked : Journal.mark.length ≤ limit
  · obtain ⟨count, within, ⟨closed, still⟩, fits, longest⟩ := holds.cut sound.replayable limit marked
    have listed : course.entries.take count = (course.trail.take count).map Prod.fst := by
      rw [entries, List.map_take]
    rw [listed] at still fits
    rcases still.reopened directory with ⟨again, opened, ok, kept⟩ | ⟨fails, _⟩
    · have rows : Store.replay ((course.trail.take count).map Prod.fst) =
          rowsAfter (course.trail.take count) := (sound.tracks.take count).replay
      cases Journal.openLog_journal ok
      refine ⟨course.trail.take count, _, ⟨List.take_prefix _ _, .inr ?_, ?_⟩,
        Store.openJournal_ok ok, rows, rfl, kept.site_eq rfl, sound.back count rfl rows kept⟩
      · rw [List.length_append]
        exact fits
      · -- A longer part would have frames beyond the limit.
        intro other front most
        refine List.prefix_take_iff.mpr ⟨front, Nat.le_of_not_lt fun beyond => ?_⟩
        have long := longest other.length beyond (by simpa [entries] using front.length_le)
        rw [entries, ← List.map_take, ← List.prefix_iff_eq_take.mp front] at long
        rw [List.length_append] at most
        omega
    · rw [calm] at fails
      cases fails
  · -- Not even the mark is complete.
    obtain ⟨rest, site, _, _⟩ := holds.file
    have cut : (course.store.disk.cut limit).site =
        .file ((Journal.mark ++ frames course.entries ++ rest).take limit) := by
      simp only [Journal.Disk.cut, site]
    obtain ⟨again, opened, ok, kept⟩ := Journal.openLog_short cut
      (by rw [List.length_take]; omega) calm directory
    cases Journal.openLog_journal ok
    refine ⟨[], _, ⟨List.nil_prefix, .inl rfl, ?_⟩, Store.openJournal_ok ok, rfl, rfl,
      kept.site_eq rfl, sound.back 0 rfl rfl kept⟩
    intro other _ most
    rw [List.length_append] at most
    omega

/-! Going on. What a store does, and what it writes, does not depend on the trail behind it. -/

theorem step_store {first second : Course} (same : first.store = second.store) (directory : String)
    (step : Store.Step) : (first.step directory step).store = (second.step directory step).store := by
  unfold Course.step
  rw [same]
  rcases (second.store.under step.faults).act directory step.now step.deed with ⟨_ | _, after⟩ <;> rfl

theorem writes_store {first second : Course} (same : first.store = second.store)
    (directory : String) (steps : List Store.Step) :
    first.writes directory steps = second.writes directory steps := by
  induction steps generalizing first second with
  | nil => rfl
  | cons step rest ih => rw [writes, writes, same, ih (step_store same directory step)]

theorem Legal.behind {steps : List Store.Step} (legal : course.Legal directory steps)
    (trail : List (Journal.Entry × Tables)) : Legal directory ⟨course.store, trail⟩ steps := by
  have store : (Course.mk course.store trail).store = course.store := rfl
  have same := writes_store store directory steps
  exact ⟨legal.apart, same ▸ legal.replayable, same ▸ legal.kept⟩

/-- A step that does not compact leaves what is in front of its trail. -/
theorem step_behind (course : Course) (directory : String)
    (front : List (Journal.Entry × Tables)) (step : Store.Step) (other : step.deed ≠ .compact) :
    (Course.mk course.store (front ++ course.trail)).step directory step =
      ⟨(course.step directory step).store, front ++ (course.step directory step).trail⟩ := by
  unfold Course.step
  rcases (course.store.under step.faults).act directory step.now step.deed with ⟨_ | _, after⟩
  · rfl
  · simp only [record, if_neg other]
    cases course.store.written? step.now step.deed with
    | none => rfl
    | some entry => simp only [List.append_assoc]

theorem run_behind (course : Course) (directory : String)
    (front : List (Journal.Entry × Tables)) (steps : List Store.Step)
    (others : ∀ step ∈ steps, step.deed ≠ .compact) :
    (Course.mk course.store (front ++ course.trail)).run directory steps =
      ⟨(course.run directory steps).store, front ++ (course.run directory steps).trail⟩ := by
  induction steps generalizing course with
  | nil => rfl
  | cons step rest ih =>
    show run directory (Course.step directory _ step) rest = _
    rw [step_behind course directory front step (others step List.mem_cons_self)]
    exact ih _ fun later inside => others later (List.mem_cons_of_mem step inside)

/-- A log file that was cut off at any byte is opened with the rows after the last point of the
trail that is complete there, and holds the frames up to that point alone. What is committed after
that stands behind them when the log is opened the next time. -/
theorem cut_off {disk : Journal.Disk} {store : Store} (absent : disk.site = .absent)
    (opened : (Store.openJournal directory disk).1 = .ok store) (steps : List Store.Step)
    (legal : (start store).Legal directory steps) (limit : Nat) :
    ∃ kept again, Complete limit ((start store).run directory steps).trail kept ∧
      Store.openJournal directory (((start store).run directory steps).store.disk.cut limit) =
        (.ok again, again.disk) ∧
      again.tables = rowsAfter kept ∧
      again.journal = some ⟨directory, Journal.numberAfter (kept.map Prod.fst), false⟩ ∧
      again.disk.site = .file (Journal.mark ++ frames (kept.map Prod.fst)) ∧
      ∀ later, (start again).Legal directory later → (∀ step ∈ later, step.deed ≠ .compact) →
        let resumed := (start again).run directory later
        ∃ journal anew,
          Journal.openLog directory resumed.store.disk =
            (.ok (journal, kept.map Prod.fst ++ resumed.entries), anew.disk) ∧
          Store.openJournal directory resumed.store.disk = (.ok anew, anew.disk) ∧
          anew.tables = resumed.store.tables := by
  have sound := (start_sound absent opened).run directory steps legal
  obtain ⟨kept, again, complete, ok, rows, numbered, site, goes⟩ := sound.cut directory limit
  refine ⟨kept, again, complete, ok, rows, numbered, site, fun later legal_later others => ?_⟩
  -- The store goes on as from the start; the part of the trail that was kept stays in front.
  have ran := run_behind (start again) directory kept later others
  have resumed := goes.run directory later (legal_later.behind kept)
  rw [show Course.mk (again.under {}) kept = ⟨(start again).store, kept ++ (start again).trail⟩ by
    simp [start], ran] at resumed
  obtain ⟨journal, anew, logged, reopened, same⟩ := resumed.reopened directory
  rw [entries, List.map_append] at logged
  exact ⟨journal, anew, logged, reopened, same⟩

namespace Sample

def inserted : Journal.Entry := ⟨0, 0, [.putItem first, .putItem second]⟩

def traded : Journal.Entry :=
  ⟨1, 0, [.putItem { first with path := second.path }, .putItem { second with path := first.path }]⟩

def trail : List (Journal.Entry × Tables) := ((start store).run "journal" trading).trail

theorem trail_entries : trail.map Prod.fst = [inserted, traded] := by decide +kernel

/-- A thousand bytes hold one frame of the two. -/
theorem complete_thousand {kept : List (Journal.Entry × Tables)}
    (complete : Complete 1000 trail kept) : kept = trail.take 1 := by
  have both : trail.length = 2 := by rw [← trail.length_map Prod.fst, trail_entries]; rfl
  have length (entries : List Journal.Entry) : (Journal.mark ++ frames entries).length =
      8 + (entries.map fun entry => (Journal.Frame.payload entry).length + 8).sum := by
    rw [List.length_append, frames, List.length_flatMap]
    simp only [Journal.Frame.ofEntry_length]
    rfl
  have sizes : (Journal.Frame.payload inserted).length = 607 ∧
      (Journal.Frame.payload traded).length = 607 := by
    decide +kernel
  have one : (Journal.mark ++ frames [inserted]).length ≤ 1000 := by simp [length, sizes]
  have two : ¬ (Journal.mark ++ frames [inserted, traded]).length ≤ 1000 := by simp [length, sizes]
  have least := complete.longest (trail.take 1) (List.take_prefix 1 trail)
    (by rw [List.map_take, trail_entries]; exact one)
  have most := complete.front.length_le
  have known := List.prefix_iff_eq_take.mp complete.front
  have some_kept := least.length_le
  rw [List.length_take] at some_kept
  have not_two : kept.length ≠ 2 := by
    intro whole
    rw [whole, List.take_of_length_le (by omega)] at known
    rcases complete.fits with none | fits
    · rw [none] at whole
      cases whole
    · rw [known, trail_entries] at fits
      exact two fits
  have count : kept.length = 1 := by omega
  rw [count] at known
  exact known

def resuming : Store.Step :=
  ⟨.transact [.insertItem { second with id := id 4, path := .root (id 4) }] .commit, default, {}⟩

def resumed : Journal.Entry :=
  ⟨1, 0, [.putItem { second with id := id 4, path := .root (id 4) }]⟩

end Sample

theorem sample_cut_off :
    ∃ again journal anew,
      Store.openJournal "journal"
          (((start Sample.store).run "journal" Sample.trading).store.disk.cut 1000) =
        (.ok again, again.disk) ∧
      again.tables = rowsAfter (Sample.trail.take 1) ∧
      again.disk.site = .file (Journal.mark ++ frames [Sample.inserted]) ∧
      Journal.openLog "journal" ((start again).run "journal" [Sample.resuming]).store.disk =
        (.ok (journal,
          [Sample.inserted] ++ ((start again).run "journal" [Sample.resuming]).entries), anew) := by
  have legal : (start Sample.store).Legal "journal" Sample.trading :=
    legal_of_calm (by decide) (by decide +kernel) Sample.trading_replayable
  obtain ⟨kept, again, complete, ok, rows, numbered, site, later⟩ :=
    @cut_off "journal" {} Sample.store rfl Sample.opened Sample.trading legal 1000
  have known := Sample.complete_thousand complete
  have only : kept.map Prod.fst = [Sample.inserted] := by
    rw [known, List.map_take, Sample.trail_entries]
    rfl
  rw [known] at rows
  rw [only] at numbered site later
  have one : (start again).store.written? default Sample.resuming.deed = some Sample.resumed := by
    have changes : ((start again).store.begin.attemptAll Sample.resuming.deed.ops).changes =
        Sample.resumed.changes := by
      show ((Transaction.start again.tables).attemptAll _).changes = _
      rw [rows]
      decide +kernel
    have present : (start again).store.journal = some ⟨"journal", 1, false⟩ := numbered
    simp only [Sample.resuming, Store.Deed.ops] at changes
    simp only [Sample.resuming, Store.written?, present, changes]
    rfl
  have writes : (start again).writes "journal" [Sample.resuming] =
      [(Sample.resuming, Sample.resumed)] := by
    simp only [Course.writes, List.append_nil]
    rw [show Sample.resuming.now = default from rfl, one]
    rfl
  have legal_later : (start again).Legal "journal" [Sample.resuming] :=
    legal_of_calm (by decide) (by decide +kernel) (by rw [writes]; decide +kernel)
  obtain ⟨journal, anew, logged, _⟩ := later [Sample.resuming] legal_later (by decide)
  exact ⟨again, journal, anew.disk, ok, rows, site, logged⟩

/-- A row whose float is not read back changes also if its frame is complete. -/
theorem sample_not_cut_off :
    (∀ write ∈ (start Sample.store).writes "journal" [Sample.weighing],
      write.2.toJson.depth ≤ Json.maxDepth ∧
        (Journal.Frame.payload write.2).length + 4 ≤ Journal.Frame.maxBody) ∧
    ∃ limit again,
      Complete limit ((start Sample.store).run "journal" [Sample.weighing]).trail
        ((start Sample.store).run "journal" [Sample.weighing]).trail ∧
      Store.openJournal "journal"
          (((start Sample.store).run "journal" [Sample.weighing]).store.disk.cut limit) =
        (.ok again, again.disk) ∧
      again.tables ≠ rowsAfter ((start Sample.store).run "journal" [Sample.weighing]).trail := by
  refine ⟨Sample.weighing_short, ?_⟩
  obtain ⟨_, tables, disk, again, ran, site, anew, other⟩ := Sample.weighed_again
  have uncut := Journal.Disk.cut_whole site
  rw [ran]
  refine ⟨_, again, ⟨List.prefix_rfl, .inr ?_, fun _ front _ => front⟩, uncut.symm ▸ anew, other⟩
  exact Nat.le_of_eq (by rw [List.map_cons, List.map_nil, Journal.Frame.frames_single])

end SharedTree.Course
