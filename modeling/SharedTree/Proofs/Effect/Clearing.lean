import SharedTree.Proofs.Effect.Completion
/-!
Clearing rows away, and how far it got. The first so many subtasks of a deletion take just their
own items away, with the memberships on them, and leave a plan that can be carried on
(`Deletable.cleared`); what each of them tells of is what stood there in the beginning
(`Deletable.told`).
-/
namespace SharedTree

open SharedTree.Tables SharedTree.Action

variable {levels : Nat} {scene : Scene} {tables before after : Tables}

namespace Tables

def removeEach (tables : Tables) (items : List Item) : Tables := items.foldl removeWhole tables

theorem removeEach_hasItem (tables : Tables) (items : List Item) (other : Item) :
    (tables.removeEach items).HasItem other ↔
      (∀ item ∈ items, other.id ≠ item.id) ∧ tables.HasItem other := by
  induction items generalizing tables with
  | nil => simp [removeEach]
  | cons first rest ih =>
      rw [removeEach, List.foldl_cons, ← removeEach, ih, removeWhole_hasItem, List.forall_mem_cons]
      tauto

/-- Tables whose items are some of those there were. -/
theorem Indexed.items_filter (indexed : before.Indexed) (indexed' : after.Indexed)
    {keep : Item → Bool}
    (kept : ∀ item, after.HasItem item ↔ before.HasItem item ∧ keep item = true) (id : Id) :
    after.items[id]? = before.items[id]?.filter keep := by
  refine Option.ext fun item => ?_
  rw [Option.filter_eq_some_iff]
  constructor
  · intro found
    have own_id := indexed'.item_id id item found
    have stands := (kept item).mp (indexed'.hasItem found)
    exact ⟨own_id ▸ stands.1, stands.2⟩
  · rintro ⟨found, keeps⟩
    have own_id := indexed.item_id id item found
    exact own_id ▸ (kept item).mpr ⟨indexed.hasItem found, keeps⟩

theorem Indexed.memberships_filter (indexed : before.Indexed) (indexed' : after.Indexed)
    {keep : Membership → Bool}
    (kept : ∀ row, after.HasRow row ↔ before.HasRow row ∧ keep row = true) (id : Id) :
    after.memberships[id]? = before.memberships[id]?.filter keep := by
  refine Option.ext fun row => ?_
  rw [Option.filter_eq_some_iff]
  constructor
  · intro found
    have own_id := indexed'.membership_id id row found
    have stands := (kept row).mp (indexed'.hasRow found)
    exact ⟨own_id ▸ stands.1, stands.2⟩
  · rintro ⟨found, keeps⟩
    have own_id := indexed.membership_id id row found
    exact own_id ▸ (kept row).mpr ⟨indexed.hasRow found, keeps⟩

theorem Indexed.removeWhole (indexed : tables.Indexed) (item : Item) :
    (tables.removeWhole item).Indexed :=
  (indexed.removeMemberships _).removeItem item.id

theorem Indexed.removeEach (indexed : tables.Indexed) (items : List Item) :
    (tables.removeEach items).Indexed := by
  induction items generalizing tables with
  | nil => exact indexed
  | cons first rest ih => exact ih (indexed.removeWhole first)

theorem Indexed.removeEach_hasRow (indexed : tables.Indexed) (items : List Item)
    (row : Membership) :
    (tables.removeEach items).HasRow row ↔
      (∀ item ∈ items, item.path.covers row.itemPath = false) ∧ tables.HasRow row := by
  induction items generalizing tables with
  | nil => simp [Tables.removeEach]
  | cons first rest ih =>
      rw [Tables.removeEach, List.foldl_cons, ← Tables.removeEach, ih (indexed.removeWhole first),
        indexed.removeWhole_hasRow, List.forall_mem_cons]
      tauto

/-- The memberships at or below an item without children are those on the item. -/
theorem Sound.mem_membershipsUnder (sound : tables.Sound levels) {item : Item}
    (stands : tables.HasItem item) (childless : tables.hasChildren item = false)
    (row : Membership) :
    row ∈ tables.membershipsUnder item.path ↔ tables.HasRow row ∧ row.itemPath = item.path := by
  rw [sound.indexed.mem_membershipsUnder]
  constructor
  · rintro ⟨found, spans⟩
    obtain ⟨carrier, stands', place⟩ := sound.shape.on_item row found
    rw [← place] at spans ⊢
    rw [sound.indexed.alone_of_no_children stands childless stands' spans]
    exact ⟨found, rfl⟩
  · rintro ⟨found, place⟩
    exact ⟨found, place ▸ Path.covers_refl _⟩

end Tables

/-! Deletions. -/

/-- The next row of a plan of deletions goes, with what was on it. -/
theorem Deletable.turn {item : Item} {rest : List Item} {output : TaskOutput}
    (quiet : scene.hooks.WriteNothing) (deletable : Deletable levels before (item :: rest))
    (turns : (deleteItemRow scene item.id).Turns before output after) :
    output = .itemDeleted item (before.membershipsUnder item.path) ∧
      after = before.removeWhole item := by
  obtain ⟨row, stands, same, _, told, gone⟩ := deleteItemRow_turns quiet turns
  obtain rfl := stands.same (deletable.stand item List.mem_cons_self) same
  exact ⟨told, gone⟩

/-- However many rows of a plan of deletions are gone, the others can still be deleted. -/
theorem Deletable.cleared {gone rest : List Item} {done : List (SubTask × TaskOutput)}
    (quiet : scene.hooks.WriteNothing) (deletable : Deletable levels before (gone ++ rest))
    (committed : Committed scene before done after)
    (plan : done.map Prod.fst = gone.map fun row => .deleteItem row.id) :
    after = before.removeEach gone ∧ Deletable levels after rest := by
  induction committed generalizing gone with
  | none tables =>
      obtain rfl := List.map_eq_nil_iff.mp plan.symm
      exact ⟨rfl, deletable⟩
  | next turns _ ih =>
      cases gone with
      | nil => cases plan
      | cons item others =>
          obtain ⟨rfl, later⟩ := List.cons.inj plan
          obtain ⟨_, rfl⟩ := Deletable.turn quiet deletable turns
          exact ih (deletable.next quiet turns) later

/-- The output tells of an item and of the memberships on it, each once. -/
def Tables.TellsOf (tables : Tables) (item : Item) (output : TaskOutput) : Prop :=
  ∃ memberships : List Membership, output = .itemDeleted item memberships ∧ memberships.Nodup ∧
    ∀ row, row ∈ memberships ↔ tables.HasRow row ∧ row.itemPath = item.path

theorem Deletable.told {gone : List Item} {done : List (SubTask × TaskOutput)}
    (quiet : scene.hooks.WriteNothing) (deletable : Deletable levels before gone)
    (committed : Committed scene before done after)
    (plan : done.map Prod.fst = gone.map fun row => .deleteItem row.id) {place : Nat} {item : Item}
    (listed : gone[place]? = some item) :
    ∃ output, done[place]? = some (.deleteItem item.id, output) ∧ before.TellsOf item output := by
  induction committed generalizing gone place with
  | none tables =>
      obtain rfl := List.map_eq_nil_iff.mp plan.symm
      cases listed
  | @next before middle after subtask output others turns _ ih =>
      cases gone with
      | nil => cases plan
      | cons first rest =>
          obtain ⟨rfl, later⟩ := List.cons.inj plan
          have stands := deletable.stand first List.mem_cons_self
          have alone := deletable.sound.mem_membershipsUnder stands deletable.childless
          obtain ⟨rfl, rfl⟩ := Deletable.turn quiet deletable turns
          cases place with
          | zero =>
              cases listed
              exact ⟨_, rfl, _, rfl, deletable.sound.indexed.membershipsUnder_nodup _, alone⟩
          | succ place =>
              rw [List.getElem?_cons_succ] at listed
              obtain ⟨output, ran, memberships, told, distinct, on_it⟩ :=
                ih (deletable.next quiet turns) later listed
              refine ⟨output, ran, memberships, told, distinct, fun row => ?_⟩
              -- What went with the first item was not on the one told of.
              rw [on_it, deletable.sound.indexed.removeWhole_hasRow]
              constructor
              · exact fun found => ⟨found.1.1, found.2⟩
              · rintro ⟨found, on_path⟩
                refine ⟨⟨found, ?_⟩, on_path⟩
                have inside := List.mem_of_getElem? listed
                have stands' := deletable.stand item (List.mem_cons_of_mem first inside)
                rw [on_path, ← Bool.not_eq_true]
                intro spans
                have same := deletable.sound.indexed.alone_of_no_children stands
                  deletable.childless stands' spans
                exact (List.nodup_cons.mp deletable.distinct).1 (same ▸ inside)

/-- A deletion that comes to its end has carried out its whole plan. -/
theorem deleteItem_completed {id : Id} {cascade : Cascade} (quiet : scene.hooks.WriteNothing)
    (sound : before.Sound levels)
    (outcome : Outcome scene (.deleteItem id) before (.ok cascade) after)
    (complete : cascade.failure = none) :
    ∃ (item : Item) (done : List (SubTask × TaskOutput)), before.items[id]? = some item ∧
      Deletable levels before (before.deepestFirst item ++ [item]) ∧
      Committed scene before done after ∧
      done.map Prod.fst =
        (before.deepestFirst item ++ [item]).map (fun row => .deleteItem row.id) ∧
      cascade.completed = numbered 0 done ∧
      after = before.removeEach (before.deepestFirst item ++ [item]) := by
  obtain ⟨item, done, left, found, _, plan, committed, told, report⟩ := deleteItem_split outcome
  rw [told.mp complete, List.append_nil] at plan
  have deletable := Deletable.of_deepestFirst sound (sound.indexed.hasItem found)
  have whole := deletable
  rw [← List.append_nil (_ ++ [item])] at whole
  exact ⟨item, done, found, deletable, committed, plan, report,
    (whole.cleared quiet committed plan).1⟩

/-! Plans that are made again on what is left. -/

theorem split_last {Row : Type} {above gone rest : List Row} {last : Row}
    (plan : above ++ [last] = gone ++ rest) (unfinished : rest ≠ []) :
    ∃ others, above = gone ++ others ∧ rest = others ++ [last] := by
  obtain ⟨others, other, rfl⟩ := List.eq_nil_or_concat' rest |>.resolve_left unfinished
  rw [← List.append_assoc] at plan
  obtain ⟨rfl, same⟩ := List.append_inj' plan rfl
  exact ⟨others, rfl, by rw [same]⟩

theorem filter_left {Row : Type} {gone others : List Row} {keep : Row → Bool}
    (distinct : (gone ++ others).Nodup)
    (kept : ∀ row ∈ gone ++ others, keep row = true ↔ row ∉ gone) :
    (gone ++ others).filter keep = others := by
  have stays (row : Row) (inside : row ∈ others) : keep row = true :=
    (kept row (List.mem_append_right gone inside)).mpr fun among =>
      (List.nodup_append.mp distinct).2.2 row among row inside rfl
  have goes (row : Row) (inside : row ∈ gone) : ¬ keep row = true := fun held =>
    (kept row (List.mem_append_left others inside)).mp held inside
  rw [List.filter_append, List.filter_eq_nil_iff.mpr goes, List.filter_eq_self.mpr stays,
    List.nil_append]

/-- What is left of a plan has no more rows before the last than the plan. -/
theorem no_longer {Row : Type} {above gone rest others : List Row} {last : Row}
    (plan : above ++ [last] = gone ++ rest) (now : others ++ [last] = rest) :
    others.length ≤ above.length := by
  have lengths := congrArg List.length plan
  rw [← now] at lengths
  simp only [List.length_append, List.length_singleton] at lengths
  omega

section Deletion

variable {item : Item} {gone rest : List Item} (sound : before.Sound levels)
  (stands : before.HasItem item) (plan : before.deepestFirst item ++ [item] = gone ++ rest)
  (unfinished : rest ≠ [])
include sound stands plan unfinished

theorem Tables.Sound.gone_below {row : Item} (inside : row ∈ gone) :
    before.HasItem row ∧ item.path.isAncestorOf row.path = true := by
  obtain ⟨others, above, _⟩ := split_last plan unfinished
  rw [← sound.indexed.mem_deepestFirst item row stands, above]
  exact List.mem_append_left others inside

theorem Tables.Sound.left_standing : (before.removeEach gone).HasItem item := by
  refine (before.removeEach_hasItem gone item).mpr ⟨fun row inside same => ?_, stands⟩
  obtain ⟨found, below⟩ := sound.gone_below stands plan unfinished inside
  rw [stands.same found same] at below
  exact ((Path.isAncestorOf_iff_covers _ _).mp below).2 rfl

/-- However far a deletion got, what would be planned now is what is left of its plan. -/
theorem Tables.Sound.deletion_again :
    (before.removeEach gone).deepestFirst item ++ [item] = rest := by
  obtain ⟨others, above, rfl⟩ := split_last plan unfinished
  have distinct : (gone ++ others).Nodup := by
    rw [← above]
    exact (List.mergeSort_perm _ _).nodup_iff.mpr (sound.indexed.descendants_nodup item)
  rw [sound.indexed.deepestFirst_left (sound.indexed.removeEach gone)
    (fun row found => ((before.removeEach_hasItem gone row).mp found).2)
    (sound.left_standing stands plan unfinished), above, filter_left distinct]
  intro row inside
  -- A row that was planned stands unless it is gone itself: no other has its identifier.
  rw [← above, sound.indexed.mem_deepestFirst item row stands] at inside
  rw [decide_eq_true_eq]
  refine (before.removeEach_hasItem gone row).trans
    ⟨fun left among => left.1 row among rfl, fun apart => ⟨fun other among same => ?_, inside.1⟩⟩
  have found := (sound.gone_below stands plan unfinished among).1
  exact apart (found.same inside.1 same.symm ▸ among)

/-- Whoever held something on the item holds it still: what was on it or above it is there. -/
theorem Tables.Sound.grants_left {account : Id} {level : Permission}
    (grants : before.Grants account item.path level) :
    (before.removeEach gone).Grants account item.path level := by
  obtain ⟨row, ⟨found, holder, spans⟩, enough⟩ := grants
  refine ⟨row, ⟨?_, holder, spans⟩, enough⟩
  refine (sound.indexed.removeEach_hasRow gone row).mpr ⟨fun other inside => ?_, found⟩
  obtain ⟨_, below⟩ := sound.gone_below stands plan unfinished inside
  rw [← Bool.not_eq_true]
  intro covers
  have same := Path.covers_antisymm (Path.covers_trans covers spans)
    (Path.covers_of_isAncestorOf below)
  exact ((Path.isAncestorOf_iff_covers _ _).mp below).2 same.symm

end Deletion

section Removal

variable {row : Membership} {gone rest : List Membership} (indexed : before.Indexed)
  (plan : before.membershipsBelow row.account row.itemPath ++ [row] = gone ++ rest)
  (unfinished : rest ≠ [])
include indexed plan unfinished

theorem Tables.Indexed.gone_lower {other : Membership} (inside : other ∈ gone) :
    before.HasRow other ∧ other.account = row.account ∧
      row.itemPath.isAncestorOf other.itemPath = true := by
  obtain ⟨others, above, _⟩ := split_last plan unfinished
  rw [← indexed.mem_membershipsBelow, above]
  exact List.mem_append_left others inside

theorem Tables.Indexed.row_left (stands : before.HasRow row) :
    (before.removeMemberships (gone.map Membership.id)).HasRow row := by
  rw [removeMemberships_hasRow, List.mem_map]
  refine ⟨fun ⟨other, inside, same⟩ => ?_, stands⟩
  obtain ⟨found, _, below⟩ := indexed.gone_lower plan unfinished inside
  rw [stands.same found same.symm] at below
  exact ((Path.isAncestorOf_iff_covers _ _).mp below).2 rfl

/-- However far a removal got, what would be planned now is what is left of its plan. -/
theorem Tables.Indexed.removal_again :
    (before.removeMemberships (gone.map Membership.id)).membershipsBelow row.account row.itemPath ++
      [row] = rest := by
  obtain ⟨others, above, rfl⟩ := split_last plan unfinished
  have distinct : (gone ++ others).Nodup := by
    rw [← above]
    exact indexed.membershipsBelow_nodup _ _
  have left (other : Membership) := before.removeMemberships_hasRow (gone.map Membership.id) other
  rw [indexed.membershipsBelow_left (indexed.removeMemberships _)
    (fun other found => ((left other).mp found).2), above, filter_left distinct]
  intro other inside
  rw [← above, indexed.mem_membershipsBelow] at inside
  rw [decide_eq_true_eq]
  refine (left other).trans
    ⟨fun kept among => kept.1 (List.mem_map_of_mem among), fun apart => ⟨fun listed => ?_, inside.1⟩⟩
  obtain ⟨first, among, same⟩ := List.mem_map.mp listed
  have found := (indexed.gone_lower plan unfinished among).1
  exact apart (found.same inside.1 same ▸ among)

end Removal

end SharedTree
