import SharedTree.Tables.Query
import SharedTree.Error
/-!
The tree that the item rows make up. Who is whose parent is not stored; it is read off the paths.
-/
namespace SharedTree.Tables

def getItem (tables : Tables) (id : Id) : Except Error Item :=
  match tables.item? id with
  | some item => .ok item
  | none => .error (.itemNotFound id)

def getItemAt (tables : Tables) (path : Path) : Except Error Item :=
  match tables.itemAt? path with
  | some item => .ok item
  | none => .error (.itemNotFound path.id)

/-- The items strictly below an item, by path, so that a parent comes before its children. -/
def descendants (tables : Tables) (item : Item) : List Item :=
  (tables.itemsUnder item.path).filter fun other => other.id != item.id

def siblingOrder (a b : Item) : Ordering :=
  (compare a.createdAt b.createdAt).then (compare a.path b.path)

def deepestFirst (tables : Tables) (item : Item) : List Item :=
  (tables.descendants item).mergeSort fun a b =>
    ((compare b.path.levels a.path.levels).then (siblingOrder a b)).isLE

def shallowestFirst (tables : Tables) (item : Item) : List Item :=
  (tables.descendants item).mergeSort fun a b =>
    ((compare a.path.levels b.path.levels).then (siblingOrder a b)).isLE

def children (tables : Tables) (item : Item) : List Item :=
  ((tables.descendants item).filter fun other => other.path.levels == item.path.levels + 1).mergeSort
    fun a b => (siblingOrder a b).isLE

/-- True of an item on whose path or below it there is more than one item. -/
def hasChildren (tables : Tables) (item : Item) : Bool :=
  decide (1 < (tables.itemsUnder item.path).length)

def ancestors (tables : Tables) (item : Item) : Except Error (List Item) :=
  item.path.ancestors.mapM tables.getItemAt

end SharedTree.Tables

namespace SharedTree

def Item.subtreeLevels (item : Item) (others : List Item) : Nat :=
  others.foldl (fun levels other => max levels other.path.levels) item.path.levels

end SharedTree
