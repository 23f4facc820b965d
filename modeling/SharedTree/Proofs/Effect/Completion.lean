import SharedTree.Proofs.Effect.Deletions
import SharedTree.Proofs.Effect.Memberships
import SharedTree.Proofs.Task.Refusals
import SharedTree.Proofs.Tree.Orders
/-!
Plans that come to their end. Each subtask meets the rows that the ones before it left; what it
needs of them is kept as an invariant of the rest of the plan (`Completes.of_invariant`). In a plan of
deletions nothing below a row is left when its turn comes (`deletion_completes`), and in a plan on
memberships each row is acted on once (`onMemberships_complete`).
-/
namespace SharedTree

open SharedTree.Tables SharedTree.Action

variable {levels most : Nat} {scene : Scene} {work : Work} {tables : Tables}

def Completes (scene : Scene) (most : Nat) (subtasks : List SubTask) (work : Work) : Prop :=
  (carryOut scene subtasks work).work.drawn ≤ most → (carryOut scene subtasks work).failed = none

theorem Completes.next {subtask : SubTask} {rest : List SubTask}
    (never : (subtask.act scene).NeverFails most work)
    (later : ∀ output after, (subtask.act scene).Gives work output after →
      Completes scene most rest after.renewed) : Completes scene most (subtask :: rest) work := by
  intro within
  cases ended : (subtask.act scene).ending work with
  | mk result after =>
      cases result with
      | error cause =>
          rw [carryOut_error ended] at within
          exact (never cause after ended within).elim
      | ok output =>
          rw [carryOut_ok ended] at within ⊢
          exact later output after ended within

theorem carryOut_drawn_le (bare : scene.hooks.pre = []) (subtasks : List SubTask) (work : Work) :
    work.drawn ≤ (carryOut scene subtasks work).work.drawn := by
  induction subtasks generalizing work with
  | nil => exact Nat.le_refl _
  | cons subtask rest ih =>
      have first := (subtask.act_built scene).drawn_le bare work
      cases ended : (subtask.act scene).ending work with
      | mk result after =>
          rw [ended] at first
          cases result with
          | error cause =>
              rw [carryOut_error ended]
              exact first
          | ok output =>
              rw [carryOut_ok ended]
              exact Nat.le_trans first (ih after.renewed)

/-- A plan is carried out to its end if what holds of the rest of it keeps its next subtask from
failing, and is handed on. -/
theorem Completes.of_invariant (holds : List SubTask → Tables → Prop)
    (turn : ∀ subtask rest work, holds (subtask :: rest) work.tables →
      (subtask.act scene).NeverFails most work ∧ ∀ output after,
        (subtask.act scene).Turns work.tables output after → holds rest after)
    {subtasks : List SubTask} {start : Tables} (leads : work.transaction.LeadsBackTo start)
    (begins : holds subtasks work.tables) : Completes scene most subtasks work := by
  induction subtasks generalizing work start with
  | nil => exact fun _ => rfl
  | cons subtask rest ih =>
      obtain ⟨never, handed_on⟩ := turn subtask rest work begins
      refine .next never fun output after gives => ?_
      have turns : (subtask.act scene).Turns work.tables output after.tables :=
        ⟨start, work, after, leads, rfl, gives, rfl⟩
      have indexed := (turns.indexed (subtask.act_built scene)).2
      exact ih (Transaction.leadsBackTo_start indexed) (handed_on output after.tables turns)

/-! Deletions. -/

theorem Tables.Indexed.childless (indexed : tables.Indexed) {item : Item}
    (alone : ∀ other, tables.HasItem other → item.path.covers other.path = true → other = item) :
    tables.hasChildren item = false := by
  have distinct := indexed.itemsUnder_nodup item.path
  have only (other : Item) (inside : other ∈ tables.itemsUnder item.path) : other = item := by
    obtain ⟨stands, spans⟩ := (indexed.mem_itemsUnder item.path other).mp inside
    exact alone other stands spans
  rw [hasChildren, decide_eq_false_iff_not]
  cases rows : tables.itemsUnder item.path with
  | nil => simp
  | cons first rest =>
      rw [rows] at distinct only
      cases rest with
      | nil => simp
      | cons second others =>
          have same := (only first (by simp)).trans (only second (by simp)).symm
          exact absurd (same ▸ List.mem_cons_self) (List.nodup_cons.mp distinct).1

theorem deleteItemRow_neverFails (bare : scene.hooks.pre = []) {item : Item}
    (stands : work.tables.HasItem item) (childless : work.tables.hasChildren item = false) :
    (deleteItemRow scene item.id).NeverFails most work := by
  have found := getItem_of_found stands
  refine failsOnly_of_demand (by simp [found]) fun row ok => ?_
  cases found.symm.trans ok
  refine failsOnly_of_ask (failsOnly_ite _ (fun holds => ?_) fun _ => ?_)
  · rw [childless] at holds
    cases holds
  · refine failsOnly_of_callHooks bare (failsOnly_of_ask ?_)
    refine failsOnly_bind (deleteMemberships_neverFails _) fun _ cleared _ => ?_
    exact failsOnly_bind (neverFails_deleteItem item.id) fun _ _ _ => neverFails_pure _

/-- What is left of a plan of deletions can be carried out: its rows stand, with everything below
them, and no row comes before one below it. -/
structure Deletable (levels : Nat) (tables : Tables) (rows : List Item) : Prop where
  sound : tables.Sound levels
  stand : ∀ row ∈ rows, tables.HasItem row
  closed : ∀ row ∈ rows, ∀ other, tables.HasItem other →
    row.path.isAncestorOf other.path = true → other ∈ rows
  distinct : rows.Nodup
  ordered : rows.Pairwise fun a b => a.path.isAncestorOf b.path = false

theorem Deletable.childless {item : Item} {rest : List Item}
    (deletable : Deletable levels tables (item :: rest)) : tables.hasChildren item = false := by
  have stands := deletable.stand item List.mem_cons_self
  refine deletable.sound.indexed.childless fun other stands' spans => ?_
  by_cases place : item.path = other.path
  · exact deletable.sound.indexed.item_unique stands' stands place.symm
  · have below := (Path.isAncestorOf_iff_covers _ _).mpr ⟨spans, place⟩
    have inside := deletable.closed item List.mem_cons_self other stands' below
    rcases List.mem_cons.mp inside with same | later
    · exact same
    · have before := (List.pairwise_cons.mp deletable.ordered).1 other later
      rw [below] at before
      cases before

theorem Deletable.next {item : Item} {rest : List Item} {after : Tables} {output : TaskOutput}
    (quiet : scene.hooks.WriteNothing) (deletable : Deletable levels tables (item :: rest))
    (turns : (deleteItemRow scene item.id).Turns tables output after) :
    Deletable levels after rest := by
  obtain ⟨_, _, _, sound, items, _⟩ := deleteItemRow_effect quiet deletable.sound turns
  have stands := deletable.stand item List.mem_cons_self
  obtain ⟨unlisted, distinct⟩ := List.nodup_cons.mp deletable.distinct
  constructor
  case sound => exact sound
  case stand =>
    intro row inside
    have stands' := deletable.stand row (List.mem_cons_of_mem item inside)
    refine (items row).mpr ⟨fun same => unlisted ?_, stands'⟩
    exact stands'.same stands same ▸ inside
  case closed =>
    intro row inside other found below
    obtain ⟨different, found'⟩ := (items other).mp found
    have listed := deletable.closed row (List.mem_cons_of_mem item inside) other found' below
    rcases List.mem_cons.mp listed with rfl | listed
    · exact absurd rfl different
    · exact listed
  case distinct => exact distinct
  case ordered => exact (List.pairwise_cons.mp deletable.ordered).2

/-- An item can be deleted after everything below it, the deepest first. -/
theorem Deletable.of_deepestFirst {item : Item} (sound : tables.Sound levels)
    (stands : tables.HasItem item) :
    Deletable levels tables (tables.deepestFirst item ++ [item]) := by
  have listed (row : Item) := sound.indexed.mem_deepestFirst item row stands
  have inside (row : Item) : row ∈ tables.deepestFirst item ++ [item] ↔
      row ∈ tables.deepestFirst item ∨ row = item := by simp
  -- What comes later is no deeper, so it is not below.
  have apart {a b : Item} (le : b.path.levels ≤ a.path.levels) :
      a.path.isAncestorOf b.path = false := by
    rw [← Bool.not_eq_true]
    intro below
    exact absurd (Path.levels_lt_of_isAncestorOf below) (Nat.not_lt.mpr le)
  have deeper (row : Item) (member : row ∈ tables.deepestFirst item) :
      item.path.levels < row.path.levels :=
    Path.levels_lt_of_isAncestorOf ((listed row).mp member).2
  constructor
  case sound => exact sound
  case stand =>
    intro row member
    rcases (inside row).mp member with member | rfl
    · exact ((listed row).mp member).1
    · exact stands
  case closed =>
    intro row member other found below
    refine (inside other).mpr (Or.inl ((listed other).mpr ⟨found, ?_⟩))
    rcases (inside row).mp member with member | rfl
    · exact Path.isAncestorOf_trans ((listed row).mp member).2 (Path.covers_of_isAncestorOf below)
    · exact below
  case distinct =>
    refine List.nodup_append.mpr ⟨?_, List.pairwise_singleton _ item, ?_⟩
    · exact (List.mergeSort_perm _ _).nodup_iff.mpr (sound.indexed.descendants_nodup item)
    · intro row member other self same
      rw [List.mem_singleton.mp self] at same
      exact absurd (deeper row member) (same ▸ Nat.lt_irrefl _)
  case ordered =>
    refine List.pairwise_append.mpr
      ⟨(deepestFirst_sorted item).imp apart, List.pairwise_singleton _ _, ?_⟩
    intro row member other self
    cases List.mem_singleton.mp self
    exact apart (deeper row member).le

theorem deletion_completes {start : Tables} {item : Item} (bare : scene.hooks.pre = [])
    (leads : work.transaction.LeadsBackTo start) (sound : work.tables.Sound levels)
    (stands : work.tables.HasItem item) :
    Completes scene most
      ((work.tables.deepestFirst item ++ [item]).map fun row => .deleteItem row.id) work := by
  refine .of_invariant (fun rest tables => ∃ rows : List Item,
    rest = rows.map (fun row => .deleteItem row.id) ∧ Deletable levels tables rows) ?_ leads
    ⟨_, rfl, .of_deepestFirst sound stands⟩
  rintro subtask rest work ⟨rows, plan, deletable⟩
  cases rows with
  | nil => cases plan
  | cons item others =>
      cases plan
      refine ⟨deleteItemRow_neverFails bare (deletable.stand item List.mem_cons_self)
        deletable.childless, fun output after turns => ?_⟩
      exact ⟨others, rfl, deletable.next (Hooks.writeNothing_of_bare bare) turns⟩

/-! Memberships. -/

theorem deleteMembershipRow_neverFails (bare : scene.hooks.pre = []) {id : Id} {row : Membership}
    (found : work.tables.memberships[id]? = some row) :
    (deleteMembershipRow scene id).NeverFails most work := by
  have got := getMembership_of_found found
  exact failsOnly_of_demand (by simp [got]) fun row _ => removeMembership_neverFails bare row

theorem updateMembershipRow_neverFails (bare : scene.hooks.pre = [])
    (indexed : work.tables.Indexed) {id : Id} {row : Membership}
    (found : work.tables.memberships[id]? = some row) (permission : Permission) :
    (updateMembershipRow scene id permission).NeverFails most work := by
  have got := getMembership_of_found found
  refine failsOnly_of_demand (by simp [got]) fun other ok => ?_
  cases got.symm.trans ok
  exact changePermission_neverFails bare indexed (indexed.hasRow found) permission

structure OnMemberships (subtasks : List SubTask) (tables : Tables) : Prop where
  indexed : tables.Indexed
  kinds : ∀ subtask ∈ subtasks,
    subtask.kind = .deleteMembership ∨ subtask.kind = .updateMembership
  stand : ∀ subtask ∈ subtasks, ∃ row, tables.memberships[subtask.target]? = some row
  distinct : (subtasks.map SubTask.target).Nodup

/-- What is done to one membership leaves the others as they were. -/
theorem SubTask.spares_memberships {subtask : SubTask} {before after : Tables}
    {output : TaskOutput} (quiet : scene.hooks.WriteNothing)
    (kind : subtask.kind = .deleteMembership ∨ subtask.kind = .updateMembership)
    (turns : (subtask.act scene).Turns before output after) {other : Id}
    (apart : other ≠ subtask.target) : after.memberships[other]? = before.memberships[other]? := by
  cases subtask with
  | deleteItem id => simp [SubTask.kind] at kind
  | copyItem source path top => simp [SubTask.kind] at kind
  | deleteMembership id =>
      rw [deleteMembershipRow_effect quiet turns, removeMembership_memberships]
      exact if_neg apart
  | updateMembership id permission =>
      obtain ⟨_, work, done, leads, rfl, gives, rfl⟩ := turns
      obtain ⟨row, found, _, put⟩ := updateMembershipRow_gives quiet gives
      rw [put, putMembership_memberships, if_neg]
      exact fun same => apart (same.trans (leads.indexed.membership_id id row found))

theorem onMemberships_complete {start : Tables} {subtasks : List SubTask}
    (bare : scene.hooks.pre = []) (leads : work.transaction.LeadsBackTo start)
    (planned : OnMemberships subtasks work.tables) :
    Completes scene most subtasks work := by
  refine .of_invariant OnMemberships ?_ leads planned
  intro subtask rest work planned
  have kind := planned.kinds subtask List.mem_cons_self
  obtain ⟨row, found⟩ := planned.stand subtask List.mem_cons_self
  refine ⟨?_, fun output after turns => ?_⟩
  · cases subtask with
    | deleteItem id => simp [SubTask.kind] at kind
    | copyItem source path top => simp [SubTask.kind] at kind
    | deleteMembership id => exact deleteMembershipRow_neverFails bare found
    | updateMembership id permission =>
        exact updateMembershipRow_neverFails bare planned.indexed found permission
  · obtain ⟨apart, distinct⟩ := List.nodup_cons.mp planned.distinct
    constructor
    case indexed => exact (turns.indexed (subtask.act_built scene)).2
    case kinds => exact fun other inside => planned.kinds other (List.mem_cons_of_mem _ inside)
    case stand =>
      intro other inside
      have elsewhere : other.target ≠ subtask.target := fun same =>
        apart (same ▸ List.mem_map_of_mem inside)
      rw [SubTask.spares_memberships (Hooks.writeNothing_of_bare bare) kind turns elsewhere]
      exact planned.stand other (List.mem_cons_of_mem _ inside)
    case distinct => exact distinct

/-- Rows below another are removed before something is done to that one. -/
theorem OnMemberships.of_below {row : Membership} {below : List Membership} {last : SubTask}
    (indexed : tables.Indexed) (stands : tables.HasRow row)
    (kind : last.kind = .deleteMembership ∨ last.kind = .updateMembership)
    (target : last.target = row.id)
    (lower : ∀ other ∈ below,
      tables.HasRow other ∧ row.itemPath.isAncestorOf other.itemPath = true)
    (distinct : below.Nodup) :
    OnMemberships (below.map (fun other => .deleteMembership other.id) ++ [last]) tables := by
  have targets : (below.map fun other => SubTask.deleteMembership other.id).map SubTask.target =
      below.map Membership.id := by
    rw [List.map_map]
    rfl
  constructor
  case indexed => exact indexed
  case kinds =>
    intro subtask inside
    rcases List.mem_append.mp inside with inside | self
    · obtain ⟨other, _, rfl⟩ := List.mem_map.mp inside
      exact Or.inl rfl
    · rw [List.mem_singleton.mp self]
      exact kind
  case stand =>
    intro subtask inside
    rcases List.mem_append.mp inside with inside | self
    · obtain ⟨other, member, rfl⟩ := List.mem_map.mp inside
      exact ⟨other, (lower other member).1⟩
    · rw [List.mem_singleton.mp self, target]
      exact ⟨row, stands⟩
  case distinct =>
    rw [List.map_append, targets, List.map_singleton, target]
    refine List.nodup_append.mpr ⟨?_, List.pairwise_singleton _ _, ?_⟩
    · exact List.pairwise_map.mpr (distinct.imp_of_mem fun inside inside' apart same =>
        apart ((lower _ inside).1.same (lower _ inside').1 same))
    · intro id inside own self same
      obtain ⟨other, member, rfl⟩ := List.mem_map.mp inside
      rw [List.mem_singleton.mp self] at same
      obtain ⟨found, deeper⟩ := lower other member
      rw [found.same stands same] at deeper
      exact ((Path.isAncestorOf_iff_covers _ _).mp deeper).2 rfl

theorem Action.Changed.onMemberships {row : Membership} {permission : Permission}
    {plan : List SubTask} {after : Tables} (indexed : tables.Indexed) (stands : tables.HasRow row)
    (changed : Changed scene row permission tables (.delegated plan) after) :
    OnMemberships plan tables := by
  cases changed with
  | redundant =>
      have none_below : ∀ other ∈ ([] : List Membership),
          tables.HasRow other ∧ row.itemPath.isAncestorOf other.itemPath = true := by simp
      exact .of_below indexed stands (Or.inl rfl) rfl none_below List.nodup_nil
  | planned =>
      refine .of_below indexed stands (Or.inr rfl) rfl (fun other inside => ?_) ?_
      · obtain ⟨found, _, lower, _⟩ := (indexed.mem_redundantBelow other).mp inside
        exact ⟨found, lower⟩
      · exact (indexed.membershipsBelow_nodup _ _).filter _

theorem Action.Removed.onMemberships {row : Membership} {plan : List SubTask} {after : Tables}
    (indexed : tables.Indexed) (stands : tables.HasRow row)
    (removed : Removed row tables (.delegated plan) after) : OnMemberships plan tables := by
  cases removed with
  | planned =>
      rw [List.map_append, List.map_singleton]
      refine .of_below indexed stands (Or.inl rfl) rfl (fun other inside => ?_)
        (indexed.membershipsBelow_nodup _ _)
      obtain ⟨found, _, lower⟩ := (indexed.mem_membershipsBelow _ _ other).mp inside
      exact ⟨found, lower⟩

end SharedTree
