import SharedTree.Proofs.Engine.Access
import SharedTree.Proofs.Engine.Replicas
/-!
What making items does to access. A task that makes items makes them all at one new path and below
it, and writes at most one membership, which is the actor's and stands on that path (`Founding`). So
the actor administers every new item, all others hold there what they hold on the folder, and
nothing changes anywhere else (`creation_access`).
-/
namespace SharedTree

open SharedTree.Tables SharedTree.Action

variable {levels : Nat} {scene : Scene} {before after : Tables} {under : Option Id}

/-- Items were made at a path where nothing was and below it, for an actor that administers them. No
memberships but the actor's own on the path are written or go. -/
structure Founding (scene : Scene) (top : Path) (before after : Tables) : Prop where
  made : ∃ item, before.items[item.id]? = none ∧ after.HasItem item
  kept : ∀ item, before.HasItem item → after.HasItem item
  below : ∀ item, after.HasItem item → before.HasItem item ∨ top.covers item.path = true
  vacant : ∀ item, before.HasItem item → top.covers item.path = false
  rows : ∀ row, (row.account = scene.actor → row.itemPath ≠ top) →
    (after.HasRow row ↔ before.HasRow row)
  administers : after.Grants scene.actor top .admin

/-- Making the actor an administrator is a matter of its own rows on the path alone. -/
theorem Action.Administered.own_row {top : Path} {made : Item} {middle : Tables}
    (granted : Administered scene top (before.putItem made) middle)
    (same : after.memberships = middle.memberships) (indexed : before.Indexed) :
    (∀ row, (row.account = scene.actor → row.itemPath ≠ top) →
      (after.HasRow row ↔ before.HasRow row)) ∧
      after.Grants scene.actor top .admin := by
  rcases granted.rows same with ⟨⟨above, inherits, admin⟩, rows⟩ | ⟨_, id, _, rows⟩
  · obtain ⟨stands, holder, higher⟩ := indexed.inherited_reaches inherits
    exact ⟨fun row _ => rows row,
      above, ⟨(rows above).mpr stands, holder, Path.covers_of_isAncestorOf higher⟩, admin.ge⟩
  · refine ⟨fun row apart => ?_, _, ⟨(rows _).mpr (Or.inr rfl), rfl, Path.covers_refl _⟩, le_rfl⟩
    rw [rows, or_iff_left]
    rintro rfl
    exact apart rfl rfl

/-! What makes items. -/

theorem createItem_founding {new : NewItem} {output : TaskOutput}
    (quiet : scene.hooks.WriteNothing) (limit : scene.settings.maxTreeLevels ≤ levels)
    (sound : before.Sound levels) (turns : (createItem scene new).Turns before output after) :
    ∃ folder id, MayHold scene before new.parent folder ∧
      Founding scene (pathWithin folder id) before after := by
  obtain ⟨_, work, done, _, rfl, gives, rfl⟩ := turns
  obtain ⟨id, folder, holds, within, unused, free, _, granted⟩ := createItem_gives quiet gives
  have fits : Fits levels work.tables
      (.make id (pathWithin folder id) new.name new.type new.extra scene.actor scene.now) :=
    { unused, free
      own_id := pathWithin_id folder id
      short := Nat.le_trans within limit
      placed := holds.placed sound.indexed id }
  obtain ⟨rows, administers⟩ := granted.own_row rfl sound.indexed
  refine ⟨folder, id, holds, ?_, fun item stands => ?_, fun item stands => ?_,
    fits.empty_there sound, rows, administers⟩
  · exact ⟨_, unused, (granted.hasItem _).mpr ((putItem_hasItem _ _ _).mpr (Or.inl rfl))⟩
  · exact (granted.hasItem item).mpr (fits.kept item stands)
  · rcases (putItem_hasItem _ _ item).mp ((granted.hasItem item).mp stands) with rfl | ⟨_, stood⟩
    · exact Or.inr (Path.covers_refl _)
    · exact Or.inl stood

/-- Every copy lies at the top of the copy or below it. -/
theorem Replicated.covers {source : Item} {folder : Option Item} {top : Path}
    {places : List (Item × Path)}
    (replicated : Replicated scene source folder before after top places) {place : Item × Path}
    (inside : place ∈ (source, top) :: places) : top.covers place.2 = true := by
  -- By induction on the levels, since the place of the parent's copy is one level closer.
  induction count : place.2.levels using Nat.strongRecOn generalizing place with
  | _ levels ih =>
      rcases List.mem_cons.mp inside with rfl | inside
      · exact Path.covers_refl _
      · obtain ⟨parent, above, new, _, child, listed⟩ := replicated.below place inside
        obtain ⟨upper, member, same⟩ := List.mem_map.mp listed
        cases same
        have spans := ih upper.2.levels (by rw [← count, child, Path.levels_child]; omega) member rfl
        have lower := Path.parent_isAncestorOf (Path.parent_child upper.2 new)
        rw [child]
        exact Path.covers_trans spans (Path.covers_of_isAncestorOf lower)

theorem Replicated.founding {source : Item} {folder : Option Item} {top : Path}
    {places : List (Item × Path)}
    (replicated : Replicated scene source folder before after top places)
    (sound : before.Sound levels) : Founding scene top before after := by
  have topmost : (source, top) ∈ (source, top) :: places := List.mem_cons_self
  obtain ⟨middle, granted, same⟩ := replicated.rows
  obtain ⟨rows, administers⟩ := granted.own_row same sound.indexed
  refine ⟨⟨_, replicated.new _ topmost, replicated.hasItem_copyAt topmost⟩,
    fun item stands => (replicated.items item).mpr (Or.inl stands), fun item stands => ?_,
    fun item stands => ?_, rows, administers⟩
  · rcases (replicated.items item).mp stands with stood | ⟨place, inside, rfl⟩
    · exact Or.inl stood
    · exact Or.inr (replicated.covers inside)
  · refine sound.shape.nothing_below (fun other stands' place => ?_) stands
    have unused := replicated.new _ topmost
    rw [← place, sound.shape.own_id other stands'] at unused
    cases stands'.symm.trans unused

/-! What is held afterwards. -/

namespace Founding

variable {top : Path} (founding : Founding scene top before after)
include founding

/-- Where nothing was, no membership stood either. -/
theorem no_row (sound : before.Sound levels) {row : Membership} (stands : before.HasRow row) :
    top.covers row.itemPath = false := by
  obtain ⟨item, stands', place⟩ := sound.shape.on_item row stands
  exact place ▸ founding.vacant item stands'

theorem grants_elsewhere {path : Path} (outside : top.covers path = false) (account : Id)
    (level : Permission) :
    after.Grants account path level ↔ before.Grants account path level := by
  refine grants_congr fun row _ spans => founding.rows row fun _ here => ?_
  rw [← here, spans] at outside
  cases outside

/-- What another account is granted on the new path and below it comes from above. -/
theorem grants_others (sound : before.Sound levels) {account : Id} (other : account ≠ scene.actor)
    {path : Path} (inside : top.covers path = true) (level : Permission) :
    after.Grants account path level ↔
      ∃ parent, top.parent? = some parent ∧ before.Grants account parent level := by
  constructor
  · rintro ⟨row, ⟨stands, holder, spans⟩, enough⟩
    have stood := (founding.rows row fun own => absurd (holder.symm.trans own) other).mp stands
    have above := Path.isAncestorOf_of_apart spans inside (founding.no_row sound stood)
    obtain ⟨parent, known, higher⟩ := (Path.isAncestorOf_iff_parent _ _).mp above
    exact ⟨parent, known, row, ⟨stood, holder, higher⟩, enough⟩
  · rintro ⟨parent, known, row, ⟨stood, holder, higher⟩, enough⟩
    have stands := (founding.rows row fun own => absurd (holder.symm.trans own) other).mpr stood
    have above := Path.covers_of_isAncestorOf (Path.parent_isAncestorOf known)
    exact ⟨row, ⟨stands, holder, Path.covers_trans (Path.covers_trans higher above) inside⟩, enough⟩

/-- What is held on a new item: the actor administers it, and others hold what they hold on the
folder. -/
theorem standing_made {folder : Option Item} {new : Id} (place : top = pathWithin folder new)
    (holds : MayHold scene before under folder) (sound : before.Sound levels)
    (sound' : after.Sound levels) {id : Id} {made : Item} (unknown : before.items[id]? = none)
    (found : after.items[id]? = some made) (account : Id) :
    after.standing account id =
      if account = scene.actor then (Permission.admin : WithBot Permission)
      else before.standingUnder account under := by
  have stands := sound'.indexed.hasItem found
  have inside : top.covers made.path = true := by
    refine (founding.below made stands).resolve_left fun stood => ?_
    rw [HasItem, sound'.indexed.item_id id made found, unknown] at stood
    cases stood
  rw [standing_of_item found]
  split
  · rename_i own
    subst own
    refine le_antisymm (le_of_levels fun level _ => WithBot.coe_le_coe.mpr level.le_admin) ?_
    rw [sound'.indexed.le_held_iff sound'.graded]
    exact grants_of_covers inside founding.administers
  · rename_i other
    refine eq_of_levels fun level => ?_
    rw [sound'.indexed.le_held_iff sound'.graded, founding.grants_others sound other inside, place,
      holds.grants sound]

theorem standing_kept (sound : before.Sound levels) (sound' : after.Sound levels) {id : Id}
    {item : Item} (found : before.items[id]? = some item) :
    after.items[id]? = some item ∧
      ∀ account, after.standing account id = before.standing account id := by
  have stood := sound.indexed.hasItem found
  have found' : after.items[id]? = some item := by
    rw [← sound.indexed.item_id id item found]
    exact founding.kept item stood
  refine ⟨found', fun account => ?_⟩
  rw [standing_of_item found, standing_of_item found']
  exact held_eq sound'.indexed sound'.graded sound.indexed sound.graded
    (founding.grants_elsewhere (founding.vacant item stood) account)

end Founding

inductive Task.MakesUnder : Task → Option Id → Prop where
  | created (new : NewItem) : MakesUnder (.createItem new) new.parent
  | copied (id : Id) (under : Option Id) : MakesUnder (.copyItem id under) under

theorem Outcome.founding {task : Task} {cascade : Cascade} (makes : task.MakesUnder under)
    (quiet : scene.hooks.WriteNothing) (limit : scene.settings.maxTreeLevels ≤ levels)
    (sound : before.Sound levels) (outcome : Outcome scene task before (.ok cascade) after)
    (complete : task.kind = .copyItem → cascade.failure = none) :
    ∃ folder new, MayHold scene before under folder ∧
      Founding scene (pathWithin folder new) before after := by
  cases makes with
  | created new =>
      obtain ⟨_, turns⟩ := outcome.turns_of_done rfl
      exact createItem_founding quiet limit sound turns
  | copied id under =>
      obtain ⟨_, folder, new, _, _, holds, replicated⟩ :=
        copyItem_replicated quiet sound.indexed outcome (complete rfl)
      exact ⟨folder, new, holds, replicated.founding sound⟩

/-- After an item was made, or a subtree copied to the end, the actor administers every new item and
all others hold there what they held on the folder, nothing at the top level. The items there were
are as they were, and everyone holds on them what it held. -/
theorem creation_access {allowed : Settings → Prop} {engine : Engine}
    (reached : Reached allowed engine.store.tables) (quiet : scene.hooks.WriteNothing) {task : Task}
    (makes : task.MakesUnder under) {cascade : Cascade}
    (ended : (engine.run scene task).1 = .ok cascade)
    (complete : task.kind = .copyItem → cascade.failure = none) :
    (∃ (id : Id) (made : Item), engine.store.tables.items[id]? = none ∧
      (engine.run scene task).2.store.tables.items[id]? = some made) ∧
    (∀ (id : Id) (made : Item), engine.store.tables.items[id]? = none →
      (engine.run scene task).2.store.tables.items[id]? = some made → ∀ account,
        (engine.run scene task).2.store.tables.standing account id =
          if account = scene.actor then (Permission.admin : WithBot Permission)
          else engine.store.tables.standingUnder account under) ∧
    ∀ (id : Id) (item : Item), engine.store.tables.items[id]? = some item →
      (engine.run scene task).2.store.tables.items[id]? = some item ∧
        ∀ account, (engine.run scene task).2.store.tables.standing account id =
          engine.store.tables.standing account id := by
  obtain ⟨levels, limit, sound⟩ := reached.sound_for scene
  obtain ⟨sound', _⟩ := engine.run_effect task quiet limit sound
  have outcome := engine.run_outcome scene task sound.indexed
  rw [ended] at outcome
  obtain ⟨folder, new, holds, founding⟩ := outcome.founding makes quiet limit sound complete
  obtain ⟨made, unknown, stands⟩ := founding.made
  exact ⟨⟨made.id, made, unknown, stands⟩,
    fun id made unknown found => founding.standing_made rfl holds sound sound' unknown found,
    fun id item found => founding.standing_kept sound sound' found⟩

/-- The first folder is copied into itself, with the document in it. The guest, who can write the
document, can read its copy, as it can the folder. -/
theorem sample_creation_access :
    Sample.folding.1.toOption.map Cascade.failure = some none ∧
      Sample.engine.store.tables.standing Sample.guest Sample.document.id = Permission.write ∧
      Sample.folding.2.store.tables.standing Sample.guest (Sample.id 108) = Permission.read ∧
      Sample.folding.2.store.tables.standing Sample.owner (Sample.id 108) = Permission.admin := by
  have whole : Sample.folding.1.toOption.map Cascade.failure = some none := by decide +kernel
  refine ⟨whole, by decide +kernel, ?_⟩
  cases ran : Sample.folding.1 with
  | error cause =>
    rw [ran] at whole
    cases whole
  | ok cascade =>
    rw [ran] at whole
    obtain ⟨_, made, _⟩ := @creation_access (Sample.sceneOf Sample.owner) (some (Sample.id 100)) _
      Sample.engine Sample.reached_any (Sample.quiet Sample.owner) _
      (.copied (Sample.id 100) (some (Sample.id 100))) cascade ran fun _ => Option.some.inj whole
    have unknown : Sample.engine.store.tables.items[Sample.id 108]? = none := by decide +kernel
    have copied : (Sample.folding.2.store.tables.items[Sample.id 108]?).isSome = true := by
      decide +kernel
    obtain ⟨copy, found⟩ := Option.isSome_iff_exists.mp copied
    have held := made (Sample.id 108) copy unknown found
    exact ⟨(held Sample.guest).trans (by decide +kernel), (held Sample.owner).trans rfl⟩

end SharedTree
