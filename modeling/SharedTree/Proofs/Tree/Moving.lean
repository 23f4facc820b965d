import SharedTree.Proofs.Tree.Shape
import SharedTree.Proofs.Task.Moves
/-!
A subtree that moves to a place that is free and not inside it (`Movable`). The tree keeps its
shape (`Moved.keeps_shape`), an item of the subtree grants after the move what it granted before
and what the new place grants (`Moved.grants_inside`), and nothing changes elsewhere
(`Moved.grants_outside`).
-/
namespace SharedTree

def Item.place (item : Item) : Id × Path × ItemType := (item.id, item.path, item.type)

namespace Tables

structure Movable (levels : Nat) (start : Tables) (item : Item) (new : Path) : Prop where
  stands : start.HasItem item
  own_id : new.id = item.path.id
  free : ∀ other, start.HasItem other → other.path ≠ new
  apart : item.path.covers new = false
  placed : ∀ parent, new.parent? = some parent →
    ∃ folder, start.HasItem folder ∧ folder.path = parent ∧ folder.isFolder = true
  short : ∀ other, start.HasItem other → item.path.covers other.path = true →
    other.path.levels + new.levels ≤ levels + item.path.levels

/-- Every item has gone where its subtree went, with its identifier and its type; the rest of it
may be other data. -/
def Displaced (old new : Path) (start after : Tables) : Prop :=
  ∀ id : Id, after.items[id]?.map Item.place =
    start.items[id]?.map fun row => (row.relocate old new).place

namespace Displaced

variable {old new : Path} {start after : Tables} (displaced : Displaced old new start after)
include displaced

theorem later {row : Item} (stands : start.HasItem row) :
    ∃ other, after.HasItem other ∧ other.path = row.path.relocate old new ∧
      other.type = row.type := by
  have same := displaced row.id
  rw [show start.items[row.id]? = some row from stands, Option.map_some,
    Option.map_eq_some_iff] at same
  obtain ⟨other, found, place⟩ := same
  obtain ⟨ids, path, type⟩ : other.id = row.id ∧ other.path = row.path.relocate old new ∧
      other.type = row.type := by simpa [Item.place, Item.relocate] using place
  exact ⟨other, by rw [HasItem, ids, found], path, type⟩

theorem earlier {other : Item} (stands : after.HasItem other) :
    ∃ row, start.HasItem row ∧ other.id = row.id ∧ other.path = row.path.relocate old new ∧
      other.type = row.type := by
  have same := displaced other.id
  rw [show after.items[other.id]? = some other from stands, Option.map_some, eq_comm,
    Option.map_eq_some_iff] at same
  obtain ⟨row, found, place⟩ := same
  obtain ⟨ids, path, type⟩ : row.id = other.id ∧ row.path.relocate old new = other.path ∧
      row.type = other.type := by simpa [Item.place, Item.relocate] using place
  exact ⟨row, by rw [HasItem, ids, found], ids.symm, path.symm, type.symm⟩

end Displaced

section Moving

variable {levels : Nat} {start after : Tables} {item : Item} {new : Path} {grants : List Membership}
  (indexed : start.Indexed) (shape : start.Shape levels) (graded : start.Graded)
  (movable : start.Movable levels item new) (moved : Moved item new grants start after)

section Placed

variable {placed kept : Tables} (relocated : Relocated item.path new start placed)
  (keeps : placed.Keeps new grants kept)
include shape movable relocated

/-- A row that stands in the subtree's new place came from the same place in the old subtree; any
other row stands where it stood, and not below the new place. -/
theorem Relocated.row_origin {row : Membership} (stands : placed.HasRow row) :
    (∃ other, start.HasRow other ∧ item.path.covers other.itemPath = true ∧
      row = other.relocate item.path new) ∨
    (start.HasRow row ∧ item.path.covers row.itemPath = false ∧
      new.covers row.itemPath = false) := by
  obtain ⟨other, stands', rfl⟩ := (relocated.hasRow_iff row).mp stands
  by_cases inside : item.path.covers other.itemPath = true
  · exact Or.inl ⟨other, stands', inside, rfl⟩
  · have apart : item.path.covers other.itemPath = false := Bool.not_eq_true _ ▸ inside
    rw [Membership.relocate, Path.relocate_outside apart]
    exact Or.inr ⟨stands', apart, shape.no_row_below movable.free stands'⟩

omit shape movable in
theorem Relocated.row_stays {row : Membership} (stands : start.HasRow row)
    (outside : item.path.covers row.itemPath = false) : placed.HasRow row := by
  refine (relocated.hasRow_iff row).mpr ⟨row, stands, ?_⟩
  rw [Membership.relocate, Path.relocate_outside outside]

variable (known : ∀ row, row ∈ grants ↔ start.inherited? row.account item.path = some row)

include keeps indexed graded known in
/-- A grant that was kept counts on the new place with its whole level. -/
theorem Keeps.grants_new {grant : Membership} (inside : grant ∈ grants) :
    kept.Grants grant.account new grant.permission := by
  obtain ⟨row, stands, holder, here | ⟨higher, enough⟩⟩ := keeps.granted grant inside
  · refine ⟨row, ⟨stands, holder, here ▸ Path.covers_refl _⟩, ?_⟩
    rcases keeps.added row stands with stands' | ⟨_, other, inside', account, permission⟩
    · rcases relocated.row_origin shape movable stands' with
        ⟨other, found, under, rfl⟩ | ⟨_, _, apart⟩
      · -- The row came from the old place itself, where it was stronger than all above.
        have up : (other.itemPath.relocate item.path new).covers
            (item.path.relocate item.path new) = true := by
          rw [Path.relocate_self, show other.itemPath.relocate item.path new = new from here]
          exact Path.covers_refl _
        have place := Path.covers_antisymm under
          ((Path.relocate_covers_iff under (Path.covers_refl _)).mp up)
        obtain ⟨found', holder', higher⟩ := indexed.inherited_reaches ((known grant).mp inside)
        exact (graded grant other found' found holder.symm (place ▸ higher)).le
      · rw [here, Path.covers_refl] at apart
        cases apart
    · have first := (known grant).mp inside
      have second := (known other).mp inside'
      rw [account, holder] at second
      rw [← permission, Option.some.inj (first.symm.trans second)]
  · exact ⟨row, ⟨stands, holder, Path.covers_of_isAncestorOf higher⟩, enough⟩

include keeps indexed known in
/-- What is granted in the subtree after the grants are kept was granted there or on the new
parent. -/
theorem Keeps.grants_origin {account : Id} {path : Path} {level : Permission}
    (inside : item.path.covers path = true)
    (granted : kept.Grants account (path.relocate item.path new) level) :
    start.Grants account path level ∨
      ∃ parent, new.parent? = some parent ∧ start.Grants account parent level := by
  obtain ⟨row, ⟨stands, holder, spans⟩, enough⟩ := granted
  rcases keeps.added row stands with stands' | ⟨_, grant, found, account', permission⟩
  · rcases relocated.row_origin shape movable stands' with
      ⟨other, found, below, rfl⟩ | ⟨found, _, apart⟩
    · have spans' := (Path.relocate_covers_iff below inside).mp spans
      exact Or.inl ⟨other, ⟨found, holder, spans'⟩, enough⟩
    · -- A row that was not moved lies above the new place.
      have higher := Path.isAncestorOf_of_apart spans (Path.relocate_inside new inside) apart
      obtain ⟨parent, above, spans'⟩ := (Path.isAncestorOf_iff_parent _ _).mp higher
      exact Or.inr ⟨parent, above, row, ⟨found, holder, spans'⟩, enough⟩
  · obtain ⟨found', holder', higher⟩ := indexed.inherited_reaches ((known grant).mp found)
    have spans' := Path.covers_of_isAncestorOf (Path.isAncestorOf_trans higher inside)
    exact Or.inl ⟨grant, ⟨found', account'.trans holder, spans'⟩, permission ▸ enough⟩

include keeps indexed graded known in
/-- What was granted in the subtree still is. -/
theorem Keeps.grants_along {account : Id} {path : Path} {level : Permission}
    (inside : item.path.covers path = true) (granted : start.Grants account path level) :
    kept.Grants account (path.relocate item.path new) level := by
  obtain ⟨row, ⟨stands, holder, spans⟩, enough⟩ := granted
  by_cases below : item.path.covers row.itemPath = true
  · refine ⟨row.relocate item.path new, ⟨keeps.kept _ ?_, holder, ?_⟩, enough⟩
    · exact (relocated.hasRow_iff _).mpr ⟨row, stands, rfl⟩
    · exact (Path.relocate_covers_iff below inside).mpr spans
  · -- The row lies above the old place, so a grant at least as strong was kept.
    have higher := Path.isAncestorOf_of_apart spans inside (Bool.not_eq_true _ ▸ below)
    obtain ⟨grant, inherits, _⟩ := indexed.inherited_of_above stands holder higher
    have weaker := indexed.inherited_strongest graded inherits stands holder higher
    obtain ⟨_, holder', _⟩ := indexed.inherited_reaches inherits
    have member : grant ∈ grants := (known grant).mpr (by rw [holder', inherits])
    have granted := keeps.grants_new indexed shape graded movable relocated known member
    obtain ⟨row', reaches, enough'⟩ := grants_of_covers (Path.relocate_inside new inside) granted
    exact ⟨row', holder' ▸ reaches, (enough.trans weaker).trans enough'⟩

omit shape in
include keeps in
/-- What the new parent grants is granted in the subtree: its rows lie outside of the subtree, so
they stayed. -/
theorem Keeps.grants_under {account : Id} {path parent : Path} {level : Permission}
    (inside : item.path.covers path = true) (above : new.parent? = some parent)
    (granted : start.Grants account parent level) :
    kept.Grants account (path.relocate item.path new) level := by
  obtain ⟨row, ⟨stands, holder, spans⟩, enough⟩ := granted
  have higher := Path.covers_isAncestorOf spans (Path.parent_isAncestorOf above)
  have outside := Path.apart_of_covers movable.apart (Path.covers_of_isAncestorOf higher)
  have lower := Path.isAncestorOf_trans higher (Path.relocate_inside new inside)
  exact ⟨row, ⟨keeps.kept row (relocated.row_stays stands outside), holder,
    Path.covers_of_isAncestorOf lower⟩, enough⟩

end Placed

include moved

theorem Moved.hasItem_iff (row : Item) :
    after.HasItem row ↔ ∃ old, start.HasItem old ∧ old.relocate item.path new = row := by
  obtain ⟨placed, kept, relocated, keeps, prunes⟩ := moved
  rw [HasItem, prunes.items, keeps.items]
  exact relocated.hasItem_iff row

theorem Moved.items (id : Id) :
    after.items[id]? = start.items[id]?.map fun row => row.relocate item.path new := by
  obtain ⟨placed, kept, relocated, keeps, prunes⟩ := moved
  rw [prunes.items, keeps.items, relocated.items]

include indexed in
/-- A row after a move is one that was there, where it went with its item, or a new one on the new
place. -/
theorem Moved.row_origin {row : Membership} (stands : after.HasRow row) :
    (∃ old, start.HasRow old ∧ row = old.relocate item.path new) ∨
      (start.memberships[row.id]? = none ∧ row.itemPath = new) := by
  obtain ⟨placed, kept, relocated, keeps, prunes⟩ := moved
  have found := prunes.fewer row stands
  cases earlier : start.memberships[row.id]? with
  | none =>
      rcases keeps.added row found with found' | ⟨here, _⟩
      · rw [HasRow, relocated.memberships, earlier] at found'
        cases found'
      · exact Or.inr ⟨rfl, here⟩
  | some old =>
      -- No row is added under the identifier of another.
      have known := indexed.hasRow earlier
      have along := keeps.kept _ ((relocated.hasRow_iff _).mpr ⟨old, known, rfl⟩)
      exact Or.inl ⟨old, known, found.same along (indexed.membership_id _ _ earlier).symm⟩

include shape movable in
theorem Moved.row_stays {row : Membership} (stands : start.HasRow row)
    (outside : item.path.covers row.itemPath = false) : after.HasRow row := by
  obtain ⟨placed, kept, relocated, keeps, prunes⟩ := moved
  refine prunes.others row (keeps.kept row (relocated.row_stays stands outside)) ?_
  rw [Bool.not_eq_true]
  exact shape.no_row_below movable.free stands

include indexed shape graded movable
variable (known : ∀ row, row ∈ grants ↔ start.inherited? row.account item.path = some row)
include known

theorem Moved.grants_inside (account : Id) {path : Path} (inside : item.path.covers path = true)
    (level : Permission) :
    after.Grants account (path.relocate item.path new) level ↔
      start.Grants account path level ∨
        ∃ parent, new.parent? = some parent ∧ start.Grants account parent level := by
  obtain ⟨placed, kept, relocated, keeps, prunes⟩ := moved
  rw [prunes.grants]
  constructor
  · exact keeps.grants_origin indexed shape movable relocated known inside
  · rintro (granted | ⟨parent, above, granted⟩)
    · exact keeps.grants_along indexed shape graded movable relocated known inside granted
    · exact keeps.grants_under movable relocated inside above granted

omit indexed graded known in
theorem Moved.grants_outside (account : Id) {other : Item} (stands : start.HasItem other)
    (outside : item.path.covers other.path = false) (level : Permission) :
    after.Grants account other.path level ↔ start.Grants account other.path level := by
  obtain ⟨placed, kept, relocated, keeps, prunes⟩ := moved
  rw [prunes.grants]
  have apart := shape.nothing_below movable.free stands
  constructor
  · rintro ⟨row, ⟨found, holder, spans⟩, enough⟩
    rcases keeps.added row found with found' | ⟨here, _⟩
    · rcases relocated.row_origin shape movable found' with ⟨old, _, below, rfl⟩ | ⟨found'', _, _⟩
      · rw [Path.covers_trans (Path.relocate_inside new below) spans] at apart
        cases apart
      · exact ⟨row, ⟨found'', holder, spans⟩, enough⟩
    · rw [← here, spans] at apart
      cases apart
  · rintro ⟨row, ⟨found, holder, spans⟩, enough⟩
    have stays := Path.apart_of_covers outside spans
    exact ⟨row, ⟨keeps.kept row (relocated.row_stays found stays), holder, spans⟩, enough⟩

omit indexed graded moved known in
theorem Displaced.keeps_shape (displaced : Displaced item.path new start after)
    (rows : ∀ row, after.HasRow row → row.itemPath = new ∨
      ∃ old, start.HasRow old ∧ row.itemPath = old.itemPath.relocate item.path new) :
    after.Shape levels := by
  constructor
  case own_id =>
    intro row stands
    obtain ⟨old, stands', ids, place, _⟩ := displaced.earlier stands
    rw [place, ids, Path.relocate_id movable.own_id]
    exact shape.own_id old stands'
  case in_folder =>
    intro row parent stands above
    obtain ⟨old, stands', _, here, _⟩ := displaced.earlier stands
    rw [here] at above
    -- The folder above is one that moved along, the new place's, or one that stays.
    have carried {folder : Item} {place : Path} (found : start.HasItem folder)
        (kind : folder.isFolder = true) (there : folder.path.relocate item.path new = place) :
        ∃ folder, after.HasItem folder ∧ folder.path = place ∧ folder.isFolder = true := by
      obtain ⟨other, found', place', kind'⟩ := displaced.later found
      exact ⟨other, found', place'.trans there, by simpa [Item.isFolder, kind'] using kind⟩
    by_cases inside : item.path.covers old.path = true
    · by_cases top : item.path = old.path
      · rw [← top, Path.relocate_self] at above
        obtain ⟨folder, found, place, kind⟩ := movable.placed parent above
        have spans := Path.covers_of_isAncestorOf (Path.parent_isAncestorOf above)
        have outside := Path.apart_of_covers movable.apart spans
        exact carried found kind (by rw [place, Path.relocate_outside outside])
      · have below := (Path.isAncestorOf_iff_covers _ _).mpr ⟨inside, top⟩
        obtain ⟨parent', above', spans⟩ := (Path.isAncestorOf_iff_parent _ _).mp below
        obtain ⟨folder, found, place, kind⟩ := shape.in_folder old parent' stands' above'
        refine carried found kind ?_
        rw [place]
        exact Option.some.inj ((Path.relocate_parent below above').symm.trans above)
    · have outside : item.path.covers old.path = false := Bool.not_eq_true _ ▸ inside
      rw [Path.relocate_outside outside] at above
      obtain ⟨folder, found, place, kind⟩ := shape.in_folder old parent stands' above
      have spans := Path.covers_of_isAncestorOf (Path.parent_isAncestorOf above)
      have outside' := Path.apart_of_covers outside spans
      exact carried found kind (by rw [place, Path.relocate_outside outside'])
  case within =>
    intro row stands
    obtain ⟨old, stands', _, place, _⟩ := displaced.earlier stands
    rw [place]
    by_cases inside : item.path.covers old.path = true
    · have moved_levels := Path.relocate_levels new inside
      have short := movable.short old stands' inside
      omega
    · rw [Path.relocate_outside (Bool.not_eq_true _ ▸ inside)]
      exact shape.within old stands'
  case on_item =>
    intro row stands
    rcases rows row stands with here | ⟨old, found, there⟩
    · obtain ⟨other, found, place, _⟩ := displaced.later movable.stands
      exact ⟨other, found, place.trans (Path.relocate_self.trans here.symm)⟩
    · obtain ⟨carrier, carries, place⟩ := shape.on_item old found
      obtain ⟨other, found', place', _⟩ := displaced.later carries
      exact ⟨other, found', by rw [place', place, there]⟩

omit indexed graded known in
theorem Moved.keeps_shape : after.Shape levels := by
  obtain ⟨placed, kept, relocated, keeps, prunes⟩ := moved
  refine Displaced.keeps_shape shape movable (fun id => ?_) fun row stands => ?_
  · rw [prunes.items, keeps.items, relocated.items, Option.map_map]
    rfl
  · rcases keeps.added row (prunes.fewer row stands) with stands' | ⟨here, _⟩
    · obtain ⟨old, found, rfl⟩ := (relocated.hasRow_iff row).mp stands'
      exact Or.inr ⟨old, found, rfl⟩
    · exact Or.inl here

end Moving

end Tables

end SharedTree
