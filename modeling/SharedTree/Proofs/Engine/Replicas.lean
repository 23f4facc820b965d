import Mathlib.Data.Set.Function
import SharedTree.Proofs.Effect.Replicas
import SharedTree.Proofs.Effect.Touched
import SharedTree.Proofs.Engine.Reached
/-!
A copy looks like its source. A copy that comes to its end leaves one new item for each item of the
subtree as it was before, with its content, and the parent of a copy is the copy of the parent. This
holds wherever the copy goes, even into the subtree itself (`copy_isomorphic`).
-/
namespace SharedTree

open SharedTree.Tables SharedTree.Action

def Tables.subtreeIds (tables : Tables) (item : Item) : Set Id :=
  {id | ∃ row, tables.HasItem row ∧ item.path.covers row.path = true ∧ row.id = id}

def Tables.newIds (before after : Tables) : Set Id :=
  {id | before.items[id]? = none ∧ ∃ made, after.HasItem made ∧ made.id = id}

/-- An account is an administrator of the item; of the top level there is none. -/
def Tables.InCharge (tables : Tables) (account : Id) (under : Option Id) : Prop :=
  ∃ parent folder, under = some parent ∧ tables.items[parent]? = some folder ∧
    tables.effectivePermission? account folder.path = some .admin

/-- What a copy leaves. The function takes the identifiers of the subtree to those of the copies. -/
structure Replica (scene : Scene) (source : Item) (under : Option Id) (before after : Tables)
    (copy : Id → Id) : Prop where
  bijective : Set.BijOn copy (before.subtreeIds source) (before.newIds after)
  content : ∀ item made, before.HasItem item → source.path.covers item.path = true →
    after.HasItem made → made.id = copy item.id →
    made.name = item.name ∧ made.type = item.type ∧ made.extra = item.extra ∧
      made.creator = scene.actor
  top : ∀ made, after.HasItem made → made.id = copy source.id → made.parentId? = under
  below : ∀ item made, before.HasItem item → source.path.isAncestorOf item.path = true →
    after.HasItem made → made.id = copy item.id →
    ∃ parent, item.parentId? = some parent ∧ made.parentId? = some (copy parent)
  items_kept : ∀ item, before.HasItem item → after.HasItem item
  rows_kept : ∀ row, before.HasRow row → after.HasRow row
  granted : ∀ row, after.HasRow row → ¬ before.HasRow row →
    ∃ made, after.HasItem made ∧ made.id = copy source.id ∧ row.itemPath = made.path ∧
      row.account = scene.actor ∧ row.permission = .admin
  granted_once : ∀ row other, after.HasRow row → ¬ before.HasRow row → after.HasRow other →
    ¬ before.HasRow other → row = other
  granted_iff : (∃ row, after.HasRow row ∧ ¬ before.HasRow row) ↔
    ¬ before.InCharge scene.actor under

variable {levels : Nat} {scene : Scene} {before after : Tables} {id : Id} {under : Option Id}

namespace Replica

def copyId (places : List (Item × Path)) (id : Id) : Id :=
  ((places.find? fun place => place.1.id = id).map fun place => place.2.id).getD id

theorem copyId_of_mem {places : List (Item × Path)}
    (distinct : (places.map fun place => place.1.id).Nodup) {place : Item × Path}
    (inside : place ∈ places) : copyId places place.1.id = place.2.id := by
  cases found : places.find? fun other => other.1.id = place.1.id with
  | none => simpa using List.find?_eq_none.mp found place inside
  | some other =>
      have same : other.1.id = place.1.id := by simpa using List.find?_some found
      have equal : other = place :=
        List.inj_on_of_nodup_map distinct (List.mem_of_find?_eq_some found) inside same
      rw [copyId, found, equal]
      rfl

end Replica

structure Replicated (scene : Scene) (source : Item) (folder : Option Item) (before after : Tables)
    (top : Path) (places : List (Item × Path)) : Prop where
  sources : places.map Prod.fst = before.shallowestFirst source
  below : ∀ place ∈ places, PlacedBelow
    (((source, top) :: places).map fun upper => (upper.1.id, upper.2)) place
  distinct : (((source, top) :: places).map fun place => place.2.id).Nodup
  new : ∀ place ∈ (source, top) :: places, before.items[place.2.id]? = none
  items : ∀ item, after.HasItem item ↔ before.HasItem item ∨
    ∃ place ∈ (source, top) :: places, item = place.1.copyAt scene place.2
  rows : ∃ middle, Administered scene top (before.putItem (source.copyAt scene top)) middle ∧
    after.memberships = middle.memberships

theorem copyItem_replicated {cascade : Cascade} (quiet : scene.hooks.WriteNothing)
    (indexed : before.Indexed) (outcome : Outcome scene (.copyItem id under) before (.ok cascade) after)
    (whole : cascade.failure = none) :
    ∃ source folder new places, before.items[id]? = some source ∧
      MayHold scene before under folder ∧
      Replicated scene source folder before after (pathWithin folder new) places := by
  obtain ⟨_, done, turns, committed⟩ := outcome.whole_of_delegated rfl whole
  obtain ⟨_, work, planned, _, rfl, gives, rfl⟩ := turns
  obtain ⟨source, folder, new, more, found, _, holds, _, plan, laid, same⟩ := planCopy_gives gives
  obtain ⟨places, sources, rfl, below⟩ := laid.places
  rw [same] at committed
  cases committed with
  | none => cases plan
  | @next _ middle _ subtask output rest first later =>
      obtain ⟨rfl, others⟩ := List.cons.inj plan
      have stands := indexed.hasItem found
      obtain ⟨unused, put⟩ := copyItemRow_puts quiet stands first
      have granted : Administered scene (pathWithin folder new)
        (work.tables.putItem (source.copyAt scene (pathWithin folder new))) middle := put
      have made (item : Item) : middle.HasItem item ↔
          work.tables.HasItem item ∨ item = source.copyAt scene (pathWithin folder new) := by
        rw [granted.hasItem]
        exact putItem_new_hasItem unused item
      have free (absent : Id) (unknown : middle.items[absent]? = none) :
          absent ≠ (pathWithin folder new).id ∧ work.tables.items[absent]? = none := by
        rw [granted.same_items, putItem_items] at unknown
        split at unknown
        · cases unknown
        · exact ⟨‹_›, unknown⟩
      have listed (place : Item × Path) (inside : place ∈ places) : work.tables.HasItem place.1 := by
        have member : place.1 ∈ places.map Prod.fst := List.mem_map_of_mem inside
        rw [sources, indexed.mem_shallowestFirst source _ stands] at member
        exact member.1
      obtain ⟨distinct, unknown, items, rows⟩ := replicas_of_committed quiet later others
        fun place inside => (made place.1).mpr (Or.inl (listed place inside))
      refine ⟨source, folder, new, places, found, holds, sources, below, ?_, ?_, ?_, middle, granted,
        rows⟩
      · refine List.nodup_cons.mpr ⟨fun again => ?_, distinct⟩
        obtain ⟨place, inside, same⟩ := List.mem_map.mp again
        exact (free _ (unknown place inside)).1 same
      · intro place inside
        rcases List.mem_cons.mp inside with rfl | inside
        · exact unused
        · exact (free _ (unknown place inside)).2
      · intro item
        rw [items, made]
        simp only [List.mem_cons, exists_eq_or_imp, or_assoc]

namespace Replicated

variable {source : Item} {folder : Option Item} {top : Path} {places : List (Item × Path)}

/-- The items of the subtree are those that have places. -/
theorem mem_sources (replicated : Replicated scene source folder before after top places)
    (indexed : before.Indexed) (stands : before.HasItem source) (item : Item) :
    item ∈ ((source, top) :: places).map Prod.fst ↔
      before.HasItem item ∧ source.path.covers item.path = true := by
  rw [List.map_cons, replicated.sources, List.mem_cons, indexed.mem_shallowestFirst source item stands]
  constructor
  · rintro (rfl | ⟨found, below⟩)
    · exact ⟨stands, Path.covers_refl _⟩
    · exact ⟨found, Path.covers_of_isAncestorOf below⟩
  · rintro ⟨found, spans⟩
    by_cases place : source.path = item.path
    · exact Or.inl (indexed.item_unique found stands place.symm)
    · exact Or.inr ⟨found, (Path.isAncestorOf_iff_covers _ _).mpr ⟨spans, place⟩⟩

theorem sources_distinct (replicated : Replicated scene source folder before after top places)
    (indexed : before.Indexed) (stands : before.HasItem source) :
    (((source, top) :: places).map fun place => place.1.id).Nodup := by
  have rows : (((source, top) :: places).map Prod.fst).Nodup := by
    rw [List.map_cons, replicated.sources]
    refine List.nodup_cons.mpr ⟨fun inside => ?_,
      (List.mergeSort_perm _ _).nodup_iff.mpr (indexed.descendants_nodup source)⟩
    rw [indexed.mem_shallowestFirst source source stands, Path.isAncestorOf_iff_covers] at inside
    exact inside.2.2 rfl
  have ids := List.Nodup.map_on (f := Item.id) (fun item first other second same => ?_) rows
  · rwa [List.map_map] at ids
  · rw [replicated.mem_sources indexed stands] at first second
    exact first.1.same second.1 same

theorem place_of_item (replicated : Replicated scene source folder before after top places)
    (indexed : before.Indexed) (stands : before.HasItem source) {item : Item}
    (found : before.HasItem item) (spans : source.path.covers item.path = true) :
    ∃ path, (item, path) ∈ (source, top) :: places ∧
      Replica.copyId ((source, top) :: places) item.id = path.id := by
  have inside := (replicated.mem_sources indexed stands item).mpr ⟨found, spans⟩
  obtain ⟨place, member, rfl⟩ := List.mem_map.mp inside
  exact ⟨place.2, member, Replica.copyId_of_mem (replicated.sources_distinct indexed stands) member⟩

theorem hasItem_copyAt (replicated : Replicated scene source folder before after top places)
    {item : Item} {path : Path} (inside : (item, path) ∈ (source, top) :: places) :
    after.HasItem (item.copyAt scene path) :=
  (replicated.items _).mpr (Or.inr ⟨_, inside, rfl⟩)

/-- The item under the identifier of a copy is that copy. -/
theorem eq_copyAt (replicated : Replicated scene source folder before after top places)
    {item made : Item} {path : Path} (inside : (item, path) ∈ (source, top) :: places)
    (stands : after.HasItem made) (same : made.id = path.id) : made = item.copyAt scene path :=
  stands.same (replicated.hasItem_copyAt inside) same

theorem bijective (replicated : Replicated scene source folder before after top places)
    (indexed : before.Indexed) (stands : before.HasItem source) :
    Set.BijOn (Replica.copyId ((source, top) :: places)) (before.subtreeIds source)
      (before.newIds after) := by
  refine ⟨?_, ?_, ?_⟩
  · rintro _ ⟨item, found, spans, rfl⟩
    obtain ⟨path, inside, same⟩ := replicated.place_of_item indexed stands found spans
    rw [same]
    exact ⟨replicated.new _ inside, _, replicated.hasItem_copyAt inside, rfl⟩
  · rintro _ ⟨item, found, spans, rfl⟩ _ ⟨other, found', spans', rfl⟩ equal
    obtain ⟨path, inside, same⟩ := replicated.place_of_item indexed stands found spans
    obtain ⟨path', inside', same'⟩ := replicated.place_of_item indexed stands found' spans'
    rw [same, same'] at equal
    cases List.inj_on_of_nodup_map replicated.distinct inside inside' equal
    rfl
  · rintro _ ⟨unknown, made, stands', rfl⟩
    rcases (replicated.items made).mp stands' with stood | ⟨place, inside, rfl⟩
    · cases stood.symm.trans unknown
    · obtain ⟨found, spans⟩ := (replicated.mem_sources indexed stands place.1).mp
        (List.mem_map_of_mem inside)
      exact ⟨place.1.id, ⟨place.1, found, spans, rfl⟩,
        Replica.copyId_of_mem (replicated.sources_distinct indexed stands) inside⟩

/-- A copy below the top has the copy of its source's parent for a parent. -/
theorem parent_of_copy (replicated : Replicated scene source folder before after top places)
    (indexed : before.Indexed) (stands : before.HasItem source) {item : Item} {path : Path}
    (inside : (item, path) ∈ places) :
    ∃ parent, item.parentId? = some parent ∧
      path.parentId? = some (Replica.copyId ((source, top) :: places) parent) := by
  obtain ⟨parent, above, new, known, rfl, listed⟩ := replicated.below _ inside
  obtain ⟨upper, member, same⟩ := List.mem_map.mp listed
  cases same
  refine ⟨_, known, ?_⟩
  rw [Replica.copyId_of_mem (replicated.sources_distinct indexed stands) member, Path.parentId?,
    Path.parent_child, Option.map_some]

end Replicated

/-- The account is an administrator of the folder just if that is what it inherits in it. -/
theorem Action.MayHold.inCharge_iff {folder : Option Item}
    (holds : MayHold scene before under folder) (new : Id) :
    before.InCharge scene.actor under ↔
      ∃ above, before.inherited? scene.actor (pathWithin folder new) = some above ∧
        above.permission = .admin := by
  cases under with
  | none =>
    cases holds
    constructor
    · rintro ⟨_, _, impossible, _⟩
      cases impossible
    · rintro ⟨above, inherits, _⟩
      rw [inherited?, pathWithin, Path.parent_root] at inherits
      cases inherits
  | some parent =>
    obtain ⟨row, rfl, found, _⟩ := holds
    have inherits : before.inherited? scene.actor (pathWithin (some row) new) =
        before.closestMembership? scene.actor row.path := by
      rw [inherited?, pathWithin, Path.parent_child, Option.bind_some]
    rw [inherits]
    constructor
    · rintro ⟨_, folder, same, found', held⟩
      cases same
      cases found.symm.trans found'
      exact Option.map_eq_some_iff.mp held
    · intro held
      exact ⟨parent, row, rfl, found, Option.map_eq_some_iff.mpr held⟩

/-- The memberships after a copy: those there were, and one for the top unless its actor is an
administrator there anyway. -/
theorem Action.Administered.rows {path : Path} {made : Item} {middle : Tables}
    (granted : Administered scene path (before.putItem made) middle)
    (same : after.memberships = middle.memberships) :
    ((∃ above, before.inherited? scene.actor path = some above ∧ above.permission = .admin) ∧
      ∀ row, after.HasRow row ↔ before.HasRow row) ∨
    ((¬ ∃ above, before.inherited? scene.actor path = some above ∧ above.permission = .admin) ∧
      ∃ id, before.memberships[id]? = none ∧ ∀ row, after.HasRow row ↔ before.HasRow row ∨
        row = .make id path scene.actor .admin scene.actor scene.now) := by
  have rows (row : Membership) : after.HasRow row ↔ middle.HasRow row := by
    rw [HasRow, HasRow, same]
  simp only [Administered, Exceeds, putItem_inherited, putItem_memberships] at granted
  rcases granted with ⟨above, inherits, admin, rfl⟩ | ⟨exceeds, id, unused, _, rfl⟩
  · exact Or.inl ⟨⟨above, inherits, admin⟩, fun row => by rw [rows, putItem_hasRow]⟩
  · refine Or.inr ⟨?_, id, unused, fun row => ?_⟩
    · rintro ⟨above, inherits, admin⟩
      exact absurd (exceeds above inherits) (by rw [admin]; exact lt_irrefl _)
    · rw [rows, putMembership_hasRow, putItem_hasRow]
      constructor
      · rintro (rfl | ⟨_, stands⟩)
        · exact Or.inr rfl
        · exact Or.inl stands
      · rintro (stands | rfl)
        · exact Or.inr ⟨stands.id_ne unused, stands⟩
        · exact Or.inl rfl

theorem Replicated.replica {source : Item} {folder : Option Item} {new : Id}
    {places : List (Item × Path)}
    (replicated : Replicated scene source folder before after (pathWithin folder new) places)
    (sound : before.Sound levels) (stands : before.HasItem source)
    (holds : MayHold scene before under folder) :
    Replica scene source under before after
      (Replica.copyId ((source, pathWithin folder new) :: places)) := by
  have indexed := sound.indexed
  have topmost : (source, pathWithin folder new) ∈ (source, pathWithin folder new) :: places :=
    List.mem_cons_self
  have top_id := Replica.copyId_of_mem (replicated.sources_distinct indexed stands) topmost
  obtain ⟨middle, granted, same⟩ := replicated.rows
  have rows := granted.rows same
  rw [← holds.inCharge_iff new] at rows
  constructor
  case bijective => exact replicated.bijective indexed stands
  case content =>
    intro item made found spans stands' ids
    obtain ⟨path, inside, known⟩ := replicated.place_of_item indexed stands found spans
    cases replicated.eq_copyAt inside stands' (ids.trans known)
    exact ⟨rfl, rfl, rfl, rfl⟩
  case top =>
    intro made stands' ids
    cases replicated.eq_copyAt topmost stands' (ids.trans top_id)
    exact holds.parentId sound.indexed sound.shape.own_id new
  case below =>
    intro item made found below stands' ids
    obtain ⟨path, inside, known⟩ :=
      replicated.place_of_item indexed stands found (Path.covers_of_isAncestorOf below)
    cases replicated.eq_copyAt inside stands' (ids.trans known)
    rcases List.mem_cons.mp inside with first | inside
    · -- The root of the subtree is not below itself.
      cases first
      exact absurd rfl ((Path.isAncestorOf_iff_covers _ _).mp below).2
    · exact replicated.parent_of_copy indexed stands inside
  case items_kept => exact fun item found => (replicated.items item).mpr (Or.inl found)
  case rows_kept =>
    intro row found
    rcases rows with ⟨_, rows⟩ | ⟨_, id, _, rows⟩
    · exact (rows row).mpr found
    · exact (rows row).mpr (Or.inl found)
  case granted =>
    intro row found unknown
    rcases rows with ⟨_, rows⟩ | ⟨_, id, _, rows⟩
    · exact absurd ((rows row).mp found) unknown
    · rcases (rows row).mp found with stood | rfl
      · exact absurd stood unknown
      · exact ⟨_, replicated.hasItem_copyAt topmost, top_id.symm, rfl, rfl, rfl⟩
  case granted_once =>
    intro row other found unknown found' unknown'
    rcases rows with ⟨_, rows⟩ | ⟨_, id, _, rows⟩
    · exact absurd ((rows row).mp found) unknown
    · rcases (rows row).mp found with stood | rfl
      · exact absurd stood unknown
      · exact (((rows other).mp found').resolve_left unknown').symm
  case granted_iff =>
    rcases rows with ⟨charge, rows⟩ | ⟨stranger, id, unused, rows⟩
    · constructor
      · rintro ⟨row, found, unknown⟩
        exact absurd ((rows row).mp found) unknown
      · exact fun stranger => absurd charge stranger
    · refine ⟨fun _ => stranger, fun _ => ⟨_, (rows _).mpr (Or.inr rfl), fun stood => ?_⟩⟩
      exact stood.id_ne unused rfl

/-- A copy that comes to its end is isomorphic to the subtree as it was, leaves everything else as it
was, and makes its actor an administrator of the top unless it was one of the folder. -/
theorem copy_isomorphic {allowed : Settings → Prop} (engine : Engine) (scene : Scene)
    (reached : Reached allowed engine.store.tables) (quiet : scene.hooks.WriteNothing) (id : Id)
    (under : Option Id) {cascade : Cascade}
    (ran : (engine.run scene (.copyItem id under)).1 = .ok cascade)
    (whole : cascade.failure = none) :
    ∃ source copy, engine.store.tables.items[id]? = some source ∧
      Replica scene source under engine.store.tables
        (engine.run scene (.copyItem id under)).2.store.tables copy := by
  obtain ⟨levels, sound⟩ := reached.sound
  have outcome := engine.run_outcome scene (.copyItem id under) sound.indexed
  rw [ran] at outcome
  obtain ⟨source, folder, new, places, found, holds, replicated⟩ :=
    copyItem_replicated quiet sound.indexed outcome whole
  exact ⟨source, _, found, replicated.replica sound (sound.indexed.hasItem found) holds⟩

namespace Sample

def folding : Except Error Cascade × Engine :=
  engine.run (sceneOf owner) (.copyItem (Sample.id 100) (some (Sample.id 100)))

end Sample

theorem sample_copy_isomorphic :
    (∃ source copy, Sample.engine.store.tables.items[Sample.id 100]? = some source ∧
      Replica (Sample.sceneOf Sample.owner) source (some (Sample.id 100))
        Sample.engine.store.tables Sample.folding.2.store.tables copy) ∧
      (Sample.folding.2.store.tables.items[Sample.id 107]?.bind Item.parentId?) =
        some (Sample.id 100) ∧
      (Sample.folding.2.store.tables.items[Sample.id 108]?.bind Item.parentId?) =
        some (Sample.id 107) := by
  refine ⟨?_, by decide +kernel, by decide +kernel⟩
  have whole : Sample.folding.1.toOption.map Cascade.failure = some none := by decide +kernel
  cases ran : Sample.folding.1 with
  | error cause =>
    rw [ran] at whole
    cases whole
  | ok cascade =>
    rw [ran] at whole
    exact @copy_isomorphic _ Sample.engine (Sample.sceneOf Sample.owner) Sample.reached_any
      (Sample.quiet Sample.owner) (Sample.id 100) (some (Sample.id 100)) cascade ran
      (Option.some.inj whole)

end SharedTree
