import SharedTree.Proofs.Effect.Moves
import SharedTree.Proofs.Task.Refusals
/-!
A move that is let through comes to its end. While the rows of a subtree are put on their new paths,
each row is in its old place or in its new one, and no new place is taken by another row. What is
granted after that goes under new identifiers.
-/
namespace SharedTree

namespace Tables

variable {levels : Nat} {start : Tables} {item : Item} {new : Path}

namespace Movable

variable (indexed : start.Indexed) (shape : start.Shape levels)
  (movable : start.Movable levels item new)
include indexed shape movable

omit shape in
theorem taken (other : Id) (entry : start.itemPaths[new]? = some other) : other = item.id := by
  obtain ⟨row, found, place⟩ := (indexed.item_path new other).mp entry
  exact absurd place (movable.free row (indexed.hasItem found))

/-- In the middle of a move the new place of an item is free or its own. -/
theorem own_place {id : Id} {row other : Item} (stands : start.HasItem row)
    (inside : item.path.covers row.path = true)
    (origin : start.items[id]? = some other ∨
      ∃ old, start.items[id]? = some old ∧ other = old.relocate item.path new)
    (place : other.path = row.path.relocate item.path new) : id = row.id := by
  rcases origin with found | ⟨old, found, rfl⟩
  · have apart := shape.nothing_below movable.free (indexed.hasItem found)
    rw [place, Path.relocate_inside new inside] at apart
    cases apart
  · have outside := shape.nothing_below movable.free (indexed.hasItem found)
    exact indexed.same_item found stands (Path.relocate_origin inside outside place)

/-- The new place of a membership is free for its account or its own. -/
theorem own_grant {id : Id} {row other : Membership} (stands : start.HasRow row)
    (inside : item.path.covers row.itemPath = true)
    (origin : start.memberships[id]? = some other ∨
      ∃ old, start.memberships[id]? = some old ∧ other = old.relocate item.path new)
    (place : other.itemPath = row.itemPath.relocate item.path new)
    (holder : other.account = row.account) : id = row.id := by
  rcases origin with found | ⟨old, found, rfl⟩
  · have apart := shape.no_row_below movable.free (indexed.hasRow found)
    rw [place, Path.relocate_inside new inside] at apart
    cases apart
  · have outside := shape.no_row_below movable.free (indexed.hasRow found)
    exact indexed.same_membership found stands (Path.relocate_origin inside outside place) holder

end Movable

end Tables

namespace Action

open SharedTree.Tables

variable {levels most : Nat} {scene : Scene} {work : Work}

/-- A loop that puts other rows in the place of given ones does not fail if no turn does as long as
every row is as it was at the start or has been replaced. -/
theorem replace_neverFails {Row : Type} (key : Row → Id) (rowOf : Tables → Id → Option Row)
    (replaced : Row → Row) (start : Id → Option Row) {body : Row → Action Unit} {rows : List Row}
    (turn : ∀ row ∈ rows, ∀ (work : Work) (before : Row), work.tables.Indexed →
      rowOf work.tables (key row) = some before →
      (∀ id other, rowOf work.tables id = some other →
        start id = some other ∨ ∃ old, start id = some old ∧ other = replaced old) →
      (body row).NeverFails most work)
    (replaces : ∀ row work after, work.tables.Indexed → (body row).Gives work () after →
      after.tables.Indexed ∧ ∀ id, rowOf after.tables id =
        if id = key row then some (replaced row) else rowOf work.tables id)
    (indexed : work.tables.Indexed) (known : ∀ row ∈ rows, start (key row) = some row)
    (partly : ∀ id, rowOf work.tables id = start id ∨
      rowOf work.tables id = (start id).map replaced) :
    (rows.forM body).NeverFails most work := by
  refine failsOnly_forM (fun rest work => (∀ row ∈ rest, row ∈ rows) ∧ work.tables.Indexed ∧
    ∀ id, rowOf work.tables id = start id ∨ rowOf work.tables id = (start id).map replaced)
    ?_ ⟨fun _ => id, indexed, partly⟩
  rintro row rest work ⟨listed, indexed, partly⟩
  have inside := listed row List.mem_cons_self
  refine ⟨?_, fun after gives => ?_⟩
  · obtain ⟨before, found⟩ : ∃ before, rowOf work.tables (key row) = some before := by
      rcases partly (key row) with same | same <;> rw [known row inside] at same
      · exact ⟨_, same⟩
      · exact ⟨_, same⟩
    refine turn row inside work before indexed found fun id other found' => ?_
    rcases partly id with same | same
    · exact Or.inl (same.symm.trans found')
    · obtain ⟨old, stands, moved⟩ := Option.map_eq_some_iff.mp (same.symm.trans found')
      exact Or.inr ⟨old, stands, moved.symm⟩
  · obtain ⟨indexed', put⟩ := replaces row work after indexed gives
    refine ⟨fun other member => listed other (List.mem_cons_of_mem row member), indexed',
      fun id => ?_⟩
    rw [put]
    split
    · rename_i here
      rw [here, known row inside, Option.map_some]
      exact Or.inr rfl
    · exact partly id

section Movable

variable {start : Tables} {item : Item} {new : Path} (indexed : start.Indexed)
  (shape : start.Shape levels) (movable : start.Movable levels item new)
include indexed shape movable

theorem rebaseItems_neverFails {rows : List Item} (here : work.tables.Indexed)
    (known : ∀ row ∈ rows, start.HasItem row ∧ item.path.covers row.path = true)
    (partly : ∀ id : Id, work.tables.items[id]? = start.items[id]? ∨
      work.tables.items[id]? = start.items[id]?.map fun row => row.relocate item.path new) :
    (rebaseItems item.path new rows).NeverFails most work := by
  refine replace_neverFails Item.id (fun tables id => tables.items[id]?) _
    (fun id => start.items[id]?) ?_ ?_ here (fun row inside => (known row inside).1) partly
  · intro row inside work before here found origin
    obtain ⟨stands, spans⟩ := known row inside
    rw [Path.rebase_inside new spans]
    refine failsOnly_bind (neverFails_pure (row.path.relocate item.path new)) fun _ _ gives => ?_
    obtain ⟨rfl, rfl⟩ := (gives_pure _ _).mp gives
    refine failsOnly_bind (neverFails_updateItem found fun id entry => ?_)
      fun _ _ _ => neverFails_pure _
    obtain ⟨other, found', place⟩ := (here.item_path _ id).mp entry
    have own : id = row.id :=
      movable.own_place indexed shape stands spans (origin id other found') place
    exact own
  · intro row work after here gives
    obtain ⟨indexed', _, put⟩ := rebaseItem_gives here gives
    exact ⟨indexed', put⟩

theorem rebaseMemberships_neverFails {rows : List Membership} (here : work.tables.Indexed)
    (known : ∀ row ∈ rows, start.HasRow row ∧ item.path.covers row.itemPath = true)
    (partly : ∀ id : Id, work.tables.memberships[id]? = start.memberships[id]? ∨
      work.tables.memberships[id]? =
        start.memberships[id]?.map fun row => row.relocate item.path new) :
    (rebaseMemberships item.path new rows).NeverFails most work := by
  refine replace_neverFails Membership.id (fun tables id => tables.memberships[id]?) _
    (fun id => start.memberships[id]?) ?_ ?_ here (fun row inside => (known row inside).1) partly
  · intro row inside work before here found origin
    obtain ⟨stands, spans⟩ := known row inside
    rw [Path.rebase_inside new spans]
    refine failsOnly_bind (neverFails_pure (row.itemPath.relocate item.path new))
      fun _ _ gives => ?_
    obtain ⟨rfl, rfl⟩ := (gives_pure _ _).mp gives
    refine failsOnly_bind (neverFails_updateMembership found fun id entry => ?_)
      fun _ _ _ => neverFails_pure _
    obtain ⟨other, found', place, holder⟩ := (here.membership_path _ _ id).mp entry
    have own : id = row.id :=
      movable.own_grant indexed shape stands spans (origin id other found') place holder
    exact own
  · intro row work after here gives
    obtain ⟨indexed', _, put⟩ := rebaseMembership_gives here gives
    exact ⟨indexed', put⟩

end Movable

theorem keepGrants_neverFails {path : Path} {grants : List Membership}
    (indexed : work.tables.Indexed) (fresh : Fresh scene.ids work.drawn most work.tables) :
    (keepGrants scene path grants).NeverFails most work := by
  refine failsOnly_forM
    (fun _ work => work.tables.Indexed ∧ Fresh scene.ids work.drawn most work.tables) ?_
    ⟨indexed, fresh⟩
  rintro grant rest work ⟨indexed, fresh⟩
  refine ⟨?_, fun after gives => ⟨(keepGrant_gives gives indexed).indexed, ?_⟩⟩
  · refine failsOnly_of_ask (failsOnly_ite _ (fun free => failsOnly_of_ask (failsOnly_ite _
      (fun _ => failsOnly_of_draw ?_) fun _ => neverFails_pure _)) fun _ => neverFails_pure _)
    have vacant := indexed.vacant_grant (Option.isNone_iff_eq_none.mp free)
    exact failsOnly_bind (neverFails_write_within fun within =>
      neverFails_insertMembership vacant (fresh.memberships _ (Nat.le_refl _) within))
      fun _ _ _ => neverFails_pure _
  · rcases keepGrant_cases gives with ⟨rfl, _⟩ | ⟨_, _, drawn, put⟩
    · exact fresh
    · rw [put, drawn]
      exact fresh.putMembership rfl

theorem pruneRedundant_neverFails (rows : List Membership) :
    (pruneRedundant rows).NeverFails most work := by
  refine failsOnly_forM (fun _ _ => True) (fun row _ _ _ => ⟨?_, fun _ _ => trivial⟩) trivial
  exact failsOnly_of_ask (failsOnly_ite _ (fun _ => failsOnly_bind
    (neverFails_deleteMembership row.id) fun _ _ _ => neverFails_pure _) fun _ => neverFails_pure _)

section Passes

variable {item : Item} {new : Path} {moved : Work} (sound : work.tables.Sound levels)
  (movable : work.tables.Movable levels item new)
  (put : moved.tables = work.tables.putItem { item with path := new, updatedAt := scene.now })
include sound movable put

/-! What the passes start from has the new time in it already, and the old path. -/

theorem descendants_neverFail :
    (rebaseItems item.path new (work.tables.descendants item)).NeverFails most moved := by
  let touched : Item := { item with updatedAt := scene.now }
  have start : (work.tables.putItem touched).Sound levels :=
    sound.putItem_same movable.stands rfl rfl rfl
  have fits : (work.tables.putItem touched).Movable levels touched new :=
    movable.putItem touched rfl rfl rfl
  have taken := movable.taken sound.indexed
  refine rebaseItems_neverFails start.indexed start.shape fits ?_ ?_ ?_
  · exact put ▸ sound.indexed.putItem_own taken
  · intro row listed
    obtain ⟨_, below⟩ := (sound.indexed.mem_descendants item row movable.stands).mp listed
    exact ⟨sound.indexed.descendant_stays movable.stands rfl listed,
      Path.covers_of_isAncestorOf below⟩
  · intro id
    rw [put, putItem_items, putItem_items]
    by_cases here : id = item.id
    · rw [if_pos here, if_pos here, Option.map_some, Item.relocate, Path.relocate_self]
      exact Or.inr rfl
    · rw [if_neg here, if_neg here]
      exact Or.inl rfl

theorem membershipsUnder_neverFail {rebased : Work}
    (rebase_items :
      (rebaseItems item.path new (work.tables.descendants item)).Gives moved () rebased) :
    (rebaseMemberships item.path new (rebased.tables.membershipsUnder item.path)).NeverFails most
      rebased := by
  let touched : Item := { item with updatedAt := scene.now }
  have start : (work.tables.putItem touched).Sound levels :=
    sound.putItem_same movable.stands rfl rfl rfl
  have fits : (work.tables.putItem touched).Movable levels touched new :=
    movable.putItem touched rfl rfl rfl
  obtain ⟨indexed, same, _⟩ := descendants_relocated sound.indexed movable.stands
    (movable.taken sound.indexed) put rebase_items
  have same_rows : rebased.tables.memberships = (work.tables.putItem touched).memberships := by
    rw [same, putItem_memberships]
  refine rebaseMemberships_neverFails start.indexed start.shape fits indexed (fun row listed => ?_)
    fun id => Or.inl (by rw [same_rows])
  rw [indexed.mem_membershipsUnder, HasRow, same_rows] at listed
  exact listed

/-- The passes over the rows come to their end, once the checks have let the move through. -/
theorem relocation_neverFails {grants : List Membership} {output : TaskOutput}
    (bare : scene.hooks.pre = []) (fresh : Fresh scene.ids moved.drawn most work.tables) :
    NeverFails most (do
      rebaseItems item.path new (work.tables.descendants item)
      rebaseMemberships item.path new (← ask fun tables => tables.membershipsUnder item.path)
      keepGrants scene new grants
      let memberships ← ask fun tables => tables.membershipsUnder new
      pruneRedundant
        (memberships.mergeSort fun a b => decide (a.itemPath.levels ≤ b.itemPath.levels))
      return output) moved := by
  refine failsOnly_bind (descendants_neverFail sound movable put) fun _ rebased rebase_items => ?_
  refine failsOnly_of_ask (failsOnly_bind
    (membershipsUnder_neverFail sound movable put rebase_items) fun _ placed rebase_rows => ?_)
  have relocated := relocation_gives sound.indexed movable.stands (movable.taken sound.indexed)
    put rebase_items rebase_rows
  have drawn : moved.drawn ≤ placed.drawn :=
    Nat.le_trans ((rebaseItems_built _ _ _).drawn_le_of_gives bare rebase_items)
      ((rebaseMemberships_built _ _ _).drawn_le_of_gives bare rebase_rows)
  have fresh' : Fresh scene.ids placed.drawn most placed.tables := by
    refine (fresh.later drawn).of_unused (fun id unused => ?_) fun id unused => ?_
    · have other : id ≠ item.id := by
        rintro rfl
        cases unused.symm.trans movable.stands
      rw [relocated.items, putItem_items, if_neg other, unused, Option.map_none]
    · rw [relocated.memberships, putItem_memberships, unused, Option.map_none]
  refine failsOnly_bind (keepGrants_neverFails relocated.indexed fresh') fun _ kept _ => ?_
  exact failsOnly_of_ask
    (failsOnly_bind (pruneRedundant_neverFails _) fun _ _ _ => neverFails_pure _)

end Passes

theorem moveItem_expected (bare : scene.hooks.pre = []) (sound : work.tables.Sound levels)
    (fresh : Fresh scene.ids work.drawn most work.tables) (id : Id) (under : Option Id) :
    (moveItem scene id under).FailsOnly most (Error.Expected (id :: under.toList)) work := by
  have deeper := sound.mono (Nat.le_max_left levels scene.settings.maxTreeLevels)
  refine failsOnly_of_demand (fun _ => getItemFor_expected List.mem_cons_self) fun item ok => ?_
  obtain ⟨found, allowed⟩ := getItemFor_ok ok
  refine failsOnly_ite _ (fun _ => failsOnly_throw trivial) fun proper => ?_
  rw [not_or] at proper
  refine failsOnly_bind (optional_destination_expected fun parent inside =>
    List.mem_cons_of_mem id (Option.mem_toList.mpr inside)) fun folder _ given_folder => ?_
  obtain ⟨holds, rfl⟩ := optional_destination_gives given_folder
  refine failsOnly_ite _ (fun _ => failsOnly_throw trivial) fun apart => failsOnly_of_ask ?_
  refine failsOnly_bind (checkDescendants_expected _ _ _) fun _ _ checked => ?_
  obtain ⟨_, rfl⟩ := gives_checkDescendants checked
  refine failsOnly_bind (checkLevels_expected _) fun _ _ measured => ?_
  obtain ⟨short, rfl⟩ := gives_checkLevels measured
  have stands := sound.indexed.hasItem found
  have own_id := sound.indexed.item_id id item found
  have may : MayMove scene work.tables id under item folder := by
    refine ⟨⟨found, allowed, proper.1, proper.2, holds, ?_, short⟩, ?_⟩
    · rintro parent rfl
      simpa using apart
    · intro other stands' place
      rw [← sound.shape.own_id other stands', place, pathWithin_id]
  have movable := may.movable (Nat.le_max_right levels _) deeper
  refine failsOnly_of_callHooks bare (failsOnly_of_ask (NeverFails.failsOnly ?_))
  refine failsOnly_bind (neverFails_updateItem stands fun other entry => ?_) fun _ moved wrote => ?_
  · obtain ⟨row, found', place⟩ := (sound.indexed.item_path _ other).mp entry
    exact absurd place (movable.free row (sound.indexed.hasItem found'))
  · obtain ⟨_, _, put⟩ := gives_updateItem wrote
    exact relocation_neverFails deeper movable put bare (write_drawn wrote ▸ fresh)

end Action

end SharedTree
