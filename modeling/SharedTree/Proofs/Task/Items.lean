import SharedTree.Proofs.Action.Success
import SharedTree.Proofs.Access.Grants
/-!
What the tasks on items do to the rows when they succeed, one lemma for each action. Everything that
is read before the hooks are called may be out of date after them (`createItem_hooked` and the like);
where hooks write no rows nothing is. What they refuse does not matter here.
-/
namespace SharedTree

namespace Tables

variable {tables : Tables}

theorem getItem_ok {id : Id} {item : Item} (ok : tables.getItem id = .ok item) :
    tables.items[id]? = some item := by
  unfold getItem item? at ok
  cases found : tables.items[id]? with
  | none => simp [found] at ok
  | some other => simpa [found] using ok

theorem getItem_of_found {id : Id} {item : Item} (found : tables.items[id]? = some item) :
    tables.getItem id = .ok item := by
  rw [getItem, item?, found]

theorem getItemAt_ok {path : Path} {item : Item} (ok : tables.getItemAt path = .ok item) :
    tables.itemAt? path = some item := by
  unfold getItemAt at ok
  cases found : tables.itemAt? path with
  | none => simp [found] at ok
  | some other => simpa [found] using ok

theorem require_ok {account : Id} {item : Item} {required held : Permission}
    (ok : tables.require account item required = .ok held) :
    tables.hasPermission account item.path required = true := by
  unfold require at ok
  cases found : tables.effectivePermission? account item.path with
  | none => simp [found] at ok
  | some level =>
      rw [found] at ok
      simp only at ok
      split at ok
      · rename_i enough
        simp [hasPermission, found, enough]
      · cases ok

theorem getItemFor_ok {account id : Id} {required : Permission} {item : Item}
    (ok : tables.getItemFor account required id = .ok item) :
    tables.items[id]? = some item ∧ tables.hasPermission account item.path required = true := by
  unfold getItemFor at ok
  cases got : tables.getItem id with
  | error cause => simp [got, bind, Except.bind] at ok
  | ok other =>
      cases allowed : tables.require account other required with
      | error cause => simp [got, allowed, bind, Except.bind] at ok
      | ok held =>
          have same : other = item := by
            simpa [got, allowed, bind, Except.bind, pure, Except.pure] using ok
          subst same
          exact ⟨getItem_ok got, require_ok allowed⟩

theorem require_of_permission {account : Id} {item : Item} {required : Permission}
    (allowed : tables.hasPermission account item.path required = true) :
    ∃ held, tables.require account item required = .ok held := by
  unfold require
  unfold hasPermission at allowed
  cases found : tables.effectivePermission? account item.path with
  | none => simp [found] at allowed
  | some level =>
      have enough : level.allows required = true := by simpa [found] using allowed
      exact ⟨level, by simp [enough]⟩

theorem getItemFor_of_found {account id : Id} {required : Permission} {item : Item}
    (found : tables.items[id]? = some item)
    (allowed : tables.hasPermission account item.path required = true) :
    tables.getItemFor account required id = .ok item := by
  obtain ⟨held, ok⟩ := require_of_permission allowed
  simp [getItemFor, getItem_of_found found, ok, bind, Except.bind, pure, Except.pure]

end Tables

namespace Action

variable {scene : Scene} {work after : Work}

theorem pathWithin_id (folder : Option Item) (id : Id) : (pathWithin folder id).id = id := by
  cases folder with
  | none => exact Path.id_root id
  | some folder => exact Path.id_child folder.path id

def MayHold (scene : Scene) (tables : Tables) (under : Option Id) (folder : Option Item) : Prop :=
  match under with
  | none => folder = none
  | some parent => ∃ row, folder = some row ∧ tables.items[parent]? = some row ∧
      row.isFolder = true ∧ tables.hasPermission scene.actor row.path .write = true

theorem optional_destination_gives {under : Option Id} {folder : Option Item}
    (gives : (destination? scene under).Gives work folder after) :
    MayHold scene work.tables under folder ∧ work = after := by
  cases under with
  | none =>
      obtain ⟨rfl, rfl⟩ := (gives_pure _ _).mp gives
      exact ⟨rfl, rfl⟩
  | some parent =>
      obtain ⟨row, middle, found, ended⟩ := (gives_bind _ _ _).mp gives
      obtain ⟨rfl, rfl⟩ := (gives_pure _ _).mp ended
      obtain ⟨other, same, asked, checked⟩ := (gives_bind _ _ _).mp found
      obtain ⟨ok, rfl⟩ := (gives_demand _ _).mp asked
      rcases (gives_ite _ _ _ _).mp checked with ⟨holds, passed⟩ | ⟨_, thrown⟩
      · obtain ⟨rfl, rfl⟩ := (gives_pure _ _).mp passed
        obtain ⟨stands, allowed⟩ := Tables.getItemFor_ok ok
        exact ⟨⟨other, rfl, stands, holds, allowed⟩, rfl⟩
      · exact absurd thrown (gives_throw _ _)

def Administered (scene : Scene) (path : Path) (before after : Tables) : Prop :=
  (∃ above, before.inherited? scene.actor path = some above ∧ above.permission = .admin ∧
    after = before) ∨
  (before.Exceeds scene.actor path .admin ∧
    ∃ id, before.memberships[id]? = none ∧ before.membershipIdAt? scene.actor path = none ∧
      after = before.putMembership
        (.make id path scene.actor .admin scene.actor scene.now))

theorem Administered.same_items {path : Path} {before after : Tables}
    (granted : Administered scene path before after) : after.items = before.items := by
  rcases granted with ⟨_, _, _, rfl⟩ | ⟨_, _, _, _, rfl⟩
  · rfl
  · exact Tables.putMembership_items _ _

theorem Administered.hasItem {path : Path} {before after : Tables}
    (granted : Administered scene path before after) (item : Item) :
    after.HasItem item ↔ before.HasItem item := by
  rw [Tables.HasItem, Tables.HasItem, granted.same_items]

theorem grantCreator_gives {item : Item} (gives : (grantCreator scene item).Gives work () after) :
    Administered scene item.path work.tables after.tables := by
  obtain ⟨inherited, same, asked, rest⟩ := (gives_bind _ _ _).mp gives
  obtain ⟨rfl, rfl⟩ := (gives_ask _ _).mp asked
  rcases (gives_ite _ _ _ _).mp rest with ⟨weaker, granted⟩ | ⟨enough, ended⟩
  · obtain ⟨id, drawn, drew, written⟩ := (gives_bind _ _ _).mp granted
    obtain ⟨_, rfl⟩ := (gives_draw _ _).mp drew
    obtain ⟨found, done, wrote, ended⟩ := (gives_bind _ _ _).mp written
    obtain ⟨_, rfl⟩ := (gives_pure _ _).mp ended
    obtain ⟨free, unused, made⟩ := gives_insertMembership wrote
    refine Or.inr ⟨?_, id, unused, free, made⟩
    intro above known
    simpa [known] using weaker
  · obtain ⟨_, rfl⟩ := (gives_pure _ _).mp ended
    cases known : work.tables.inherited? scene.actor item.path with
    | none => simp [known] at enough
    | some above =>
        refine Or.inl ⟨above, known, ?_, rfl⟩
        exact (Permission.not_lt_admin_iff _).mp (by simpa [known] using enough)

theorem createItem_hooked {new : NewItem} {output : TaskOutput}
    (gives : (createItem scene new).Gives work output after) :
    ∃ id folder made hooked, MayHold scene work.tables new.parent folder ∧
      (pathWithin folder id).levels ≤ scene.settings.maxTreeLevels ∧
      made = Item.make id (pathWithin folder id) new.name new.type new.extra scene.actor scene.now ∧
      Hooked scene .createItem (.item made) work hooked ∧
      hooked.tables.items[id]? = none ∧ hooked.tables.itemPaths[pathWithin folder id]? = none ∧
      output = .item made ∧
      Administered scene (pathWithin folder id) (hooked.tables.putItem made) after.tables := by
  obtain ⟨id, drawn, drew, rest⟩ := (gives_bind _ _ _).mp gives
  obtain ⟨_, rfl⟩ := (gives_draw _ _).mp drew
  obtain ⟨folder, _, found, rest⟩ := (gives_bind _ _ _).mp rest
  obtain ⟨holds, rfl⟩ := optional_destination_gives found
  obtain ⟨_, _, checked, rest⟩ := (gives_bind _ _ _).mp rest
  obtain ⟨within, rfl⟩ := gives_checkLevels checked
  obtain ⟨_, hooked, called, rest⟩ := (gives_bind _ _ _).mp rest
  obtain ⟨_, inserted, wrote, rest⟩ := (gives_bind _ _ _).mp rest
  obtain ⟨unused, free, put⟩ := gives_insertItem wrote
  obtain ⟨_, granted, administered, ended⟩ := (gives_bind _ _ _).mp rest
  obtain ⟨rfl, rfl⟩ := (gives_pure _ _).mp ended
  have done := grantCreator_gives administered
  rw [put] at done
  -- The identifier was drawn before the hooks were called.
  have begun : Hooked scene .createItem _ work hooked :=
    ⟨{ work with drawn := work.drawn + 1 }, rfl, called⟩
  exact ⟨id, folder, _, hooked, holds, within, rfl, begun, unused, free, rfl, done⟩

theorem createItem_gives {new : NewItem} {output : TaskOutput} (quiet : scene.hooks.WriteNothing)
    (gives : (createItem scene new).Gives work output after) :
    ∃ id folder, MayHold scene work.tables new.parent folder ∧
      (pathWithin folder id).levels ≤ scene.settings.maxTreeLevels ∧
      work.tables.items[id]? = none ∧ work.tables.itemPaths[pathWithin folder id]? = none ∧
      output = .item (.make id (pathWithin folder id) new.name new.type new.extra scene.actor
        scene.now) ∧
      Administered scene (pathWithin folder id)
        (work.tables.putItem (.make id (pathWithin folder id) new.name new.type new.extra
          scene.actor scene.now)) after.tables := by
  obtain ⟨id, folder, made, hooked, holds, within, rfl, called, unused, free, told, done⟩ :=
    createItem_hooked gives
  rw [called.quiet quiet] at unused free done
  exact ⟨id, folder, holds, within, unused, free, told, done⟩

theorem updateItem_hooked {id : Id} {patch : ItemPatch} {output : TaskOutput}
    (gives : (updateItem scene id patch).Gives work output after) :
    ∃ before hooked, work.tables.items[id]? = some before ∧
      work.tables.hasPermission scene.actor before.path .write = true ∧
      Hooked scene .updateItem (.item (patch.apply scene.now before)) work hooked ∧
      (∃ stale, hooked.tables.items[(patch.apply scene.now before).id]? = some stale) ∧
      output = .item (patch.apply scene.now before) ∧
      after.tables = hooked.tables.putItem (patch.apply scene.now before) := by
  obtain ⟨before, _, asked, rest⟩ := (gives_bind _ _ _).mp gives
  obtain ⟨ok, rfl⟩ := (gives_demand _ _).mp asked
  obtain ⟨_, hooked, called, rest⟩ := (gives_bind _ _ _).mp rest
  obtain ⟨_, updated, wrote, ended⟩ := (gives_bind _ _ _).mp rest
  obtain ⟨rfl, rfl⟩ := (gives_pure _ _).mp ended
  obtain ⟨known, _, put⟩ := gives_updateItem wrote
  obtain ⟨stands, allowed⟩ := Tables.getItemFor_ok ok
  exact ⟨before, hooked, stands, allowed, hooked_of_gives called, known, rfl, put⟩

theorem updateItem_gives {id : Id} {patch : ItemPatch} {output : TaskOutput}
    (quiet : scene.hooks.WriteNothing)
    (gives : (updateItem scene id patch).Gives work output after) :
    ∃ before, work.tables.items[id]? = some before ∧
      work.tables.hasPermission scene.actor before.path .write = true ∧
      output = .item (patch.apply scene.now before) ∧
      after.tables = work.tables.putItem (patch.apply scene.now before) := by
  obtain ⟨before, hooked, stands, allowed, called, _, told, put⟩ := updateItem_hooked gives
  exact ⟨before, stands, allowed, told, by rw [put, called.quiet quiet]⟩

theorem planDelete_gives {id : Id} {subtasks : List SubTask}
    (gives : (planDelete scene id).Gives work subtasks after) :
    ∃ item, work.tables.items[id]? = some item ∧
      work.tables.hasPermission scene.actor item.path .admin = true ∧
      (work.tables.deepestFirst item).length ≤ scene.settings.maxDescendantsForDelete ∧
      subtasks = (work.tables.deepestFirst item ++ [item]).map (fun row => .deleteItem row.id) ∧
      after = work := by
  obtain ⟨item, _, asked, rest⟩ := (gives_bind _ _ _).mp gives
  obtain ⟨ok, rfl⟩ := (gives_demand _ _).mp asked
  obtain ⟨rows, _, listed, rest⟩ := (gives_bind _ _ _).mp rest
  obtain ⟨rfl, rfl⟩ := (gives_ask _ _).mp listed
  obtain ⟨_, _, checked, ended⟩ := (gives_bind _ _ _).mp rest
  obtain ⟨within, rfl⟩ := gives_checkDescendants checked
  obtain ⟨rfl, rfl⟩ := (gives_pure _ _).mp ended
  obtain ⟨stands, allowed⟩ := Tables.getItemFor_ok ok
  exact ⟨item, stands, allowed, within, rfl, rfl⟩

theorem planDelete_given {id : Id} {item : Item} (found : work.tables.items[id]? = some item)
    (allowed : work.tables.hasPermission scene.actor item.path .admin = true)
    (within : (work.tables.deepestFirst item).length ≤ scene.settings.maxDescendantsForDelete) :
    (planDelete scene id).Gives work
      ((work.tables.deepestFirst item ++ [item]).map fun row => .deleteItem row.id) work := by
  have checked : (checkDescendants id (work.tables.deepestFirst item)
      scene.settings.maxDescendantsForDelete).Gives work () work := by
    rw [checkDescendants, if_neg (Nat.not_lt.mpr within)]
    rfl
  refine (gives_bind _ _ _).mpr ⟨item, work,
    (gives_demand _ _).mpr ⟨Tables.getItemFor_of_found found allowed, rfl⟩, ?_⟩
  refine (gives_bind _ _ _).mpr ⟨_, work, (gives_ask _ _).mpr ⟨rfl, rfl⟩, ?_⟩
  exact (gives_bind _ _ _).mpr ⟨(), work, checked, (gives_pure _ _).mpr ⟨rfl, rfl⟩⟩

theorem deleteMemberships_gives {rows : List Membership}
    (gives : (deleteMemberships rows).Gives work () after) :
    after.tables = work.tables.removeMemberships (rows.map Membership.id) := by
  induction rows generalizing work with
  | nil =>
      obtain ⟨_, rfl⟩ := (gives_pure _ _).mp gives
      rfl
  | cons row rest ih =>
      rw [deleteMemberships, List.forM_eq_forM, List.forM_cons] at gives
      obtain ⟨_, middle, turn, later⟩ := (gives_bind _ _ _).mp gives
      obtain ⟨_, removed, wrote, ended⟩ := (gives_bind _ _ _).mp turn
      obtain ⟨_, rfl⟩ := (gives_pure _ _).mp ended
      rw [ih later, gives_deleteMembership wrote]
      rfl

theorem deleteItemRow_hooked {id : Id} {output : TaskOutput}
    (gives : (deleteItemRow scene id).Gives work output after) :
    ∃ item hooked, work.tables.items[id]? = some item ∧ work.tables.hasChildren item = false ∧
      Hooked scene .deleteItem (.item item) work hooked ∧
      output = .itemDeleted item (hooked.tables.membershipsUnder item.path) ∧
      after.tables = (hooked.tables.removeMemberships
        ((hooked.tables.membershipsUnder item.path).map Membership.id)).removeItem id := by
  obtain ⟨item, _, asked, rest⟩ := (gives_bind _ _ _).mp gives
  obtain ⟨ok, rfl⟩ := (gives_demand _ _).mp asked
  obtain ⟨parent, _, counted, rest⟩ := (gives_bind _ _ _).mp rest
  obtain ⟨rfl, rfl⟩ := (gives_ask _ _).mp counted
  rcases (gives_ite _ _ _ _).mp rest with ⟨_, stopped⟩ | ⟨childless, rest⟩
  · obtain ⟨_, _, thrown, _⟩ := (gives_bind _ _ _).mp stopped
    exact absurd thrown (gives_throw _ _)
  · obtain ⟨_, hooked, called, rest⟩ := (gives_bind _ _ _).mp rest
    obtain ⟨rows, _, listed, rest⟩ := (gives_bind _ _ _).mp rest
    obtain ⟨rfl, rfl⟩ := (gives_ask _ _).mp listed
    obtain ⟨_, cleared, removed, rest⟩ := (gives_bind _ _ _).mp rest
    obtain ⟨_, deleted, wrote, ended⟩ := (gives_bind _ _ _).mp rest
    obtain ⟨rfl, rfl⟩ := (gives_pure _ _).mp ended
    refine ⟨item, hooked, Tables.getItem_ok ok, by simpa using childless, hooked_of_gives called,
      rfl, ?_⟩
    rw [gives_deleteItem wrote, deleteMemberships_gives removed]

theorem deleteItemRow_gives {id : Id} {output : TaskOutput} (quiet : scene.hooks.WriteNothing)
    (gives : (deleteItemRow scene id).Gives work output after) :
    ∃ item, work.tables.items[id]? = some item ∧ work.tables.hasChildren item = false ∧
      output = .itemDeleted item (work.tables.membershipsUnder item.path) ∧
      after.tables = (work.tables.removeMemberships
        ((work.tables.membershipsUnder item.path).map Membership.id)).removeItem id := by
  obtain ⟨item, hooked, found, childless, called, told, gone⟩ := deleteItemRow_hooked gives
  rw [called.quiet quiet] at told gone
  exact ⟨item, found, childless, told, gone⟩

theorem copyItemRow_hooked {id : Id} {path : Path} {top : Bool} {output : TaskOutput}
    (gives : (copyItemRow scene id path top).Gives work output after) :
    ∃ source made hooked, work.tables.items[id]? = some source ∧
      made = Item.make path.id path source.name source.type source.extra scene.actor scene.now ∧
      (∀ parent, path.parent? = some parent → ∃ row, work.tables.itemAt? parent = some row) ∧
      Hooked scene .copyItem (.copy source made) work hooked ∧
      hooked.tables.items[made.id]? = none ∧ hooked.tables.itemPaths[path]? = none ∧
      output = .copied source made ∧
      (if top then Administered scene path (hooked.tables.putItem made) after.tables
        else after.tables = hooked.tables.putItem made) := by
  obtain ⟨source, _, asked, rest⟩ := (gives_bind _ _ _).mp gives
  obtain ⟨ok, rfl⟩ := (gives_demand _ _).mp asked
  let made := Item.make path.id path source.name source.type source.extra scene.actor scene.now
  -- The row is made the same way whether there is a parent to look up first or not.
  have insertion (gives : Gives (do
      callHooks scene .copyItem (.copy source made)
      let _ ← write (.insertItem made)
      if top then grantCreator scene made
      return TaskOutput.copied source made) work output after) :
      ∃ hooked, Hooked scene .copyItem (.copy source made) work hooked ∧
        hooked.tables.items[made.id]? = none ∧ hooked.tables.itemPaths[path]? = none ∧
        output = .copied source made ∧
        (if top then Administered scene path (hooked.tables.putItem made) after.tables
          else after.tables = hooked.tables.putItem made) := by
    obtain ⟨_, hooked, called, rest⟩ := (gives_bind _ _ _).mp gives
    obtain ⟨_, inserted, wrote, rest⟩ := (gives_bind _ _ _).mp rest
    obtain ⟨unused, free, put⟩ := gives_insertItem wrote
    refine ⟨hooked, hooked_of_gives called, unused, free, ?_⟩
    rcases (gives_ite _ _ _ _).mp rest with ⟨topmost, rest⟩ | ⟨inner, ended⟩
    · obtain ⟨_, granted, administered, ended⟩ := (gives_bind _ _ _).mp rest
      obtain ⟨rfl, rfl⟩ := (gives_pure _ _).mp ended
      have done := grantCreator_gives administered
      rw [put] at done
      exact ⟨rfl, by rw [if_pos topmost]; exact done⟩
    · obtain ⟨rfl, rfl⟩ := (gives_pure _ _).mp ended
      exact ⟨rfl, by rw [if_neg inner]; exact put⟩
  have found := Tables.getItem_ok ok
  cases above : path.parent? with
  | none =>
      simp only [above] at rest
      obtain ⟨hooked, inserted⟩ := insertion rest
      exact ⟨source, made, hooked, found, rfl, by simp, inserted⟩
  | some parent =>
      simp only [above] at rest
      obtain ⟨row, _, looked, rest⟩ := (gives_bind _ _ _).mp rest
      obtain ⟨at_parent, rfl⟩ := (gives_demand _ _).mp looked
      obtain ⟨hooked, inserted⟩ := insertion rest
      refine ⟨source, made, hooked, found, rfl, ?_, inserted⟩
      intro other same
      cases same
      exact ⟨row, Tables.getItemAt_ok at_parent⟩

theorem copyItemRow_gives {id : Id} {path : Path} {top : Bool} {output : TaskOutput}
    (quiet : scene.hooks.WriteNothing)
    (gives : (copyItemRow scene id path top).Gives work output after) :
    ∃ source made, work.tables.items[id]? = some source ∧
      made = Item.make path.id path source.name source.type source.extra scene.actor scene.now ∧
      (∀ parent, path.parent? = some parent → ∃ row, work.tables.itemAt? parent = some row) ∧
      work.tables.items[made.id]? = none ∧ work.tables.itemPaths[path]? = none ∧
      output = .copied source made ∧
      (if top then Administered scene path (work.tables.putItem made) after.tables
        else after.tables = work.tables.putItem made) := by
  obtain ⟨source, made, hooked, found, same, above, called, unused, free, told, put⟩ :=
    copyItemRow_hooked gives
  rw [called.quiet quiet] at unused free put
  exact ⟨source, made, found, same, above, unused, free, told, put⟩

end Action

end SharedTree
