import SharedTree.Task
import SharedTree.Task.Action
/-!
What the tasks on items do. Deleting and copying are planned as one subtask for each row; a move is
done at once, with the memberships of the subtree put right behind it.
-/
namespace SharedTree.Action

def destination (scene : Scene) (parent : Id) : Action Item := do
  let folder ← demand fun tables => tables.getItemFor scene.actor .write parent
  if folder.isFolder then return folder else throw (.itemNotFolder folder.id)

def pathWithin (folder : Option Item) (id : Id) : Path :=
  match folder with
  | some folder => folder.path.child id
  | none => .root id

def destination? (scene : Scene) : Option Id → Action (Option Item)
  | some parent => do return some (← destination scene parent)
  | none => return none

def grantCreator (scene : Scene) (item : Item) : Action Unit := do
  let inherited ← ask fun tables => tables.inherited? scene.actor item.path
  if inherited.all fun above => decide (above.permission < .admin) then
    let id ← draw scene
    let _ ← write (.insertMembership
      (.make id item.path scene.actor .admin scene.actor scene.now))

/-- Creates an item. Its identifier is drawn before anything is checked. -/
def createItem (scene : Scene) (new : NewItem) : Action TaskOutput := do
  let id ← draw scene
  let folder ← destination? scene new.parent
  let path := pathWithin folder id
  checkLevels scene path.levels
  let item := Item.make id path new.name new.type new.extra scene.actor scene.now
  callHooks scene .createItem (.item item)
  let _ ← write (.insertItem item)
  grantCreator scene item
  return .item item

def updateItem (scene : Scene) (id : Id) (patch : ItemPatch) : Action TaskOutput := do
  let before ← demand fun tables => tables.getItemFor scene.actor .write id
  let item := patch.apply scene.now before
  callHooks scene .updateItem (.item item)
  let _ ← write (.updateItem item)
  return .item item

def planDelete (scene : Scene) (id : Id) : Action (List SubTask) := do
  let item ← demand fun tables => tables.getItemFor scene.actor .admin id
  let descendants ← ask fun tables => tables.deepestFirst item
  checkDescendants id descendants scene.settings.maxDescendantsForDelete
  return (descendants ++ [item]).map fun row => .deleteItem row.id

def deleteItemRow (scene : Scene) (id : Id) : Action TaskOutput := do
  let item ← demand fun tables => tables.getItem id
  if ← ask fun tables => tables.hasChildren item then throw (.itemHasChildren id)
  callHooks scene .deleteItem (.item item)
  let memberships ← ask fun tables => tables.membershipsUnder item.path
  memberships.forM fun membership => do
    let _ ← write (.deleteMembership membership.id)
  let _ ← write (.deleteItem id)
  return .itemDeleted item memberships

def rebaseItems (old new : Path) (descendants : List Item) : Action Unit :=
  descendants.forM fun item => do
    let path ← ExceptT.mk (pure (item.path.rebase old new))
    let _ ← write (.updateItem { item with path })

def rebaseMemberships (old new : Path) (memberships : List Membership) : Action Unit :=
  memberships.forM fun membership => do
    let itemPath ← ExceptT.mk (pure (membership.itemPath.rebase old new))
    let _ ← write (.updateMembership { membership with itemPath })

/-- Gives the accounts of former grants the same permission on a path, each unless it has a
membership there or inherits as much. -/
def keepGrants (scene : Scene) (path : Path) (grants : List Membership) : Action Unit :=
  grants.forM fun grant => do
    if (← ask fun tables => tables.membershipAt? grant.account path).isNone then
      let inherited ← ask fun tables => tables.inherited? grant.account path
      if inherited.all fun above => decide (above.permission < grant.permission) then
        let id ← draw scene
        let _ ← write (.insertMembership
          (.make id path grant.account grant.permission scene.actor scene.now))

def pruneRedundant (memberships : List Membership) : Action Unit :=
  memberships.forM fun membership => do
    let inherited ←
      ask fun tables => tables.inherited? membership.account membership.itemPath
    if inherited.any fun above => decide (membership.permission ≤ above.permission) then
      let _ ← write (.deleteMembership membership.id)

/-- Moves an item and everything below it. Who could act there by way of what was above keeps at
least that permission. -/
def moveItem (scene : Scene) (id : Id) (under : Option Id) : Action TaskOutput := do
  let item ← demand fun tables => tables.getItemFor scene.actor .admin id
  if item.parentId? = under ∨ under = some id then throw (.invalidMoveTarget id under)
  let folder ← destination? scene under
  if folder.any fun parent => item.path.isAncestorOf parent.path then
    throw (.invalidMoveTarget id under)
  let path := pathWithin folder id
  let descendants ← ask fun tables => tables.descendants item
  checkDescendants id descendants scene.settings.maxDescendantsForMove
  checkLevels scene (item.subtreeLevels descendants - item.path.levels + path.levels)
  callHooks scene .moveItem (.move item under)
  let grants ← ask fun tables =>
    match item.path.parent? with
    | some parent => tables.effectiveAt parent
    | none => []
  let moved : Item := { item with path, updatedAt := scene.now }
  let _ ← write (.updateItem moved)
  rebaseItems item.path path descendants
  rebaseMemberships item.path path (← ask fun tables => tables.membershipsUnder item.path)
  keepGrants scene path grants
  let memberships ← ask fun tables => tables.membershipsUnder path
  pruneRedundant
    (memberships.mergeSort fun a b => decide (a.itemPath.levels ≤ b.itemPath.levels))
  return .item moved

/-- Plans a copy of each row, below the copy of the row's parent; `copies` says where the copies of
the rows before go. -/
def planCopies (scene : Scene) (copies : List (Id × Path)) : List Item → Action (List SubTask)
  | [] => return []
  | item :: rest => do
      match item.parentId?.bind fun parent => copies.lookup parent with
      | none => throw (.invalidPath item.path.shown)
      | some above =>
          let path := above.child (← draw scene)
          let more ← planCopies scene ((item.id, path) :: copies) rest
          return .copyItem item.id path false :: more

def planCopy (scene : Scene) (id : Id) (under : Option Id) : Action (List SubTask) := do
  let item ← demand fun tables => tables.getItemFor scene.actor .read id
  let folder ← destination? scene under
  let path := pathWithin folder (← draw scene)
  let descendants ← ask fun tables => tables.descendants item
  checkDescendants id descendants scene.settings.maxDescendantsForCopy
  checkLevels scene (item.subtreeLevels descendants - item.path.levels + path.levels)
  let ordered ← ask fun tables => tables.shallowestFirst item
  let more ← planCopies scene [(item.id, path)] ordered
  return .copyItem item.id path true :: more

def copyItemRow (scene : Scene) (id : Id) (path : Path) (top : Bool) : Action TaskOutput := do
  let source ← demand fun tables => tables.getItem id
  if let some parent := path.parent? then
    let _ ← demand fun tables => tables.getItemAt parent
  let made := Item.make path.id path source.name source.type source.extra scene.actor scene.now
  callHooks scene .copyItem (.copy source made)
  let _ ← write (.insertItem made)
  if top then grantCreator scene made
  return .copied source made

end SharedTree.Action
