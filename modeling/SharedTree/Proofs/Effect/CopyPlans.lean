import SharedTree.Proofs.Effect.Completion
import SharedTree.Proofs.Effect.Copies
/-!
A copy comes to its end. The closest items come first in its plan, so every row finds the place that
its parent's copy was given (`ParentsFirst`); and every copy goes under an identifier of its own that
no item has, so there is room for it when its turn comes (`copying_completes`).
-/
namespace SharedTree

def ParentsFirst : List Id → List Item → Prop
  | _, [] => True
  | known, row :: rest =>
      (∃ parent ∈ known, row.parentId? = some parent) ∧ ParentsFirst (row.id :: known) rest

def SubTask.made? : SubTask → Option Id
  | copyItem _ path _ => some path.id
  | _ => none

open SharedTree.Tables SharedTree.Action

variable {levels most : Nat} {scene : Scene} {work after : Work} {tables : Tables} {names : List Id}

theorem ParentsFirst.of_sorted {known : List Id} {rows : List Item}
    (sorted : rows.Pairwise fun a b => a.path.levels ≤ b.path.levels)
    (above : ∀ row ∈ rows, ∃ parent : Item, row.parentId? = some parent.id ∧
      parent.path.levels < row.path.levels ∧ (parent.id ∈ known ∨ parent ∈ rows)) :
    ParentsFirst known rows := by
  induction rows generalizing known with
  | nil => trivial
  | cons row rest ih =>
      obtain ⟨first, later⟩ := List.pairwise_cons.mp sorted
      refine ⟨?_, ih later fun other inside => ?_⟩
      · -- The parent is not the row itself, nor does it come later.
        obtain ⟨parent, above_it, higher, listed | listed⟩ := above row List.mem_cons_self
        · exact ⟨parent.id, listed, above_it⟩
        · rcases List.mem_cons.mp listed with rfl | listed
          · exact absurd higher (Nat.lt_irrefl _)
          · exact absurd higher (Nat.not_lt.mpr (first parent listed))
      · obtain ⟨parent, above_it, higher, listed⟩ := above other (List.mem_cons_of_mem row inside)
        refine ⟨parent, above_it, higher, ?_⟩
        rcases listed with listed | listed
        · exact Or.inl (List.mem_cons_of_mem row.id listed)
        · rcases List.mem_cons.mp listed with rfl | listed
          · exact Or.inl List.mem_cons_self
          · exact Or.inr listed

theorem Tables.Sound.shallowest_parentsFirst (sound : tables.Sound levels) {item : Item}
    (stands : tables.HasItem item) : ParentsFirst [item.id] (tables.shallowestFirst item) := by
  have listed (row : Item) := sound.indexed.mem_shallowestFirst item row stands
  refine .of_sorted (shallowestFirst_sorted item) fun row inside => ?_
  obtain ⟨found, below⟩ := (listed row).mp inside
  obtain ⟨parent, known, _⟩ := (Path.isAncestorOf_iff_parent _ _).mp below
  obtain ⟨folder, stands', rfl, _⟩ := sound.shape.in_folder row parent found known
  refine ⟨folder, ?_, ?_, ?_⟩
  · rw [Item.parentId?, Path.parentId?, known, Option.map_some, sound.shape.own_id folder stands']
  · exact Path.levels_lt_of_isAncestorOf (Path.parent_isAncestorOf known)
  · rcases sound.indexed.parent_within stands stands' known below with rfl | within
    · exact Or.inl (List.mem_singleton_self _)
    · exact Or.inr ((listed folder).mpr ⟨stands', within⟩)

namespace Action

/-! Planning. -/

theorem exists_lookup {copies : List (Id × Path)} {id : Id} (known : id ∈ copies.map Prod.fst) :
    ∃ path, copies.lookup id = some path := by
  induction copies with
  | nil => cases known
  | cons first rest ih =>
      rw [List.lookup_cons]
      by_cases same : id = first.1
      · exact ⟨first.2, by simp [same]⟩
      · obtain ⟨path, found⟩ := ih (by simpa [same] using known)
        rw [beq_eq_false_iff_ne.mpr same]
        exact ⟨path, found⟩

theorem planCopies_neverFails {copies : List (Id × Path)} {rows : List Item}
    (first : ParentsFirst (copies.map Prod.fst) rows) :
    (planCopies scene copies rows).NeverFails most work := by
  induction rows generalizing copies work with
  | nil => exact neverFails_pure _
  | cons row rest ih =>
      obtain ⟨⟨parent, known, above⟩, later⟩ := first
      obtain ⟨path, found⟩ := exists_lookup known
      rw [planCopies, above, Option.bind_some, found]
      exact failsOnly_of_draw (failsOnly_bind (ih later) fun _ _ _ => neverFails_pure _)

theorem planCopy_expected (sound : work.tables.Sound levels) (id : Id) (under : Option Id) :
    (planCopy scene id under).FailsOnly most (Error.Expected (id :: under.toList)) work := by
  refine failsOnly_of_demand (fun _ => getItemFor_expected List.mem_cons_self) fun item ok => ?_
  have stands := sound.indexed.hasItem (getItemFor_ok ok).1
  refine failsOnly_bind (optional_destination_expected fun parent inside =>
    List.mem_cons_of_mem id (Option.mem_toList.mpr inside)) fun folder _ given_folder => ?_
  obtain ⟨_, rfl⟩ := optional_destination_gives given_folder
  refine failsOnly_of_draw (failsOnly_of_ask ?_)
  refine failsOnly_bind (checkDescendants_expected _ _ _) fun _ _ checked => ?_
  obtain ⟨_, rfl⟩ := gives_checkDescendants checked
  refine failsOnly_bind (checkLevels_expected _) fun _ _ measured => ?_
  obtain ⟨_, rfl⟩ := gives_checkLevels measured
  refine failsOnly_of_ask (NeverFails.failsOnly (failsOnly_bind (planCopies_neverFails ?_)
    fun _ _ _ => neverFails_pure _))
  exact sound.shallowest_parentsFirst stands

/-! Every copy is given the next identifier. -/

theorem planCopies_draws {copies : List (Id × Path)} {rows : List Item} {subtasks : List SubTask}
    (gives : (planCopies scene copies rows).Gives work subtasks after) :
    subtasks.filterMap SubTask.made? =
        (List.range' work.drawn rows.length).map scene.ids ∧
      after.drawn = work.drawn + rows.length := by
  induction rows generalizing copies work subtasks with
  | nil =>
      obtain ⟨rfl, rfl⟩ := (gives_pure _ _).mp gives
      exact ⟨rfl, rfl⟩
  | cons item rest ih =>
      rw [planCopies] at gives
      cases place : item.parentId?.bind fun parent => copies.lookup parent with
      | none =>
          rw [place] at gives
          exact absurd gives (gives_throw _ _)
      | some above =>
          rw [place] at gives
          obtain ⟨new, _, drew, later⟩ := (gives_bind _ _ _).mp gives
          obtain ⟨rfl, rfl⟩ := (gives_draw _ _).mp drew
          obtain ⟨more, _, planned, ended⟩ := (gives_bind _ _ _).mp later
          obtain ⟨rfl, rfl⟩ := (gives_pure _ _).mp ended
          obtain ⟨made, drawn⟩ := ih planned
          refine ⟨?_, by simp [drawn, Nat.add_comm, Nat.add_left_comm]⟩
          rw [List.length_cons, List.range'_succ, List.map_cons, ← made]
          simp [SubTask.made?, Path.id_child]

theorem planCopy_draws {id : Id} {under : Option Id} {subtasks : List SubTask}
    (gives : (planCopy scene id under).Gives work subtasks after) :
    ∃ count, subtasks.filterMap SubTask.made? = (List.range' work.drawn count).map scene.ids ∧
      after.drawn = work.drawn + count := by
  obtain ⟨item, _, asked, found⟩ := (gives_bind _ _ _).mp gives
  obtain ⟨_, rfl⟩ := (gives_demand _ _).mp asked
  obtain ⟨folder, _, given_folder, chosen⟩ := (gives_bind _ _ _).mp found
  obtain ⟨_, rfl⟩ := optional_destination_gives given_folder
  obtain ⟨new, _, drew, placed⟩ := (gives_bind _ _ _).mp chosen
  obtain ⟨rfl, rfl⟩ := (gives_draw _ _).mp drew
  obtain ⟨descendants, _, listed, counted⟩ := (gives_bind _ _ _).mp placed
  obtain ⟨rfl, rfl⟩ := (gives_ask _ _).mp listed
  obtain ⟨_, _, checked, measured⟩ := (gives_bind _ _ _).mp counted
  obtain ⟨_, rfl⟩ := gives_checkDescendants checked
  obtain ⟨_, _, within, ordered⟩ := (gives_bind _ _ _).mp measured
  obtain ⟨_, rfl⟩ := gives_checkLevels within
  obtain ⟨rows, _, listed, planning⟩ := (gives_bind _ _ _).mp ordered
  obtain ⟨rfl, rfl⟩ := (gives_ask _ _).mp listed
  obtain ⟨more, _, planned, ended⟩ := (gives_bind _ _ _).mp planning
  obtain ⟨rfl, rfl⟩ := (gives_pure _ _).mp ended
  obtain ⟨made, drawn⟩ := planCopies_draws planned
  refine ⟨(work.tables.shallowestFirst item).length + 1, ?_,
    drawn.trans (Nat.add_right_comm work.drawn 1 _)⟩
  rw [List.range'_succ, List.map_cons, ← made]
  simp [SubTask.made?, pathWithin_id]

/-! Carrying out. -/

theorem copyItemRow_neverFails (bare : scene.hooks.pre = []) (sound : work.tables.Sound levels)
    {id : Id} {source : Item} {path : Path} {top : Bool}
    (found : work.tables.items[id]? = some source)
    (placed : ∀ parent, path.parent? = some parent →
      ∃ row, work.tables.HasItem row ∧ row.path = parent)
    (unused : work.tables.items[path.id]? = none)
    (spare : top = true → work.drawn < most →
      work.tables.memberships[scene.ids work.drawn]? = none) :
    (copyItemRow scene id path top).NeverFails most work := by
  have got := getItem_of_found found
  let made := Item.make path.id path source.name source.type source.extra scene.actor scene.now
  have insertion : NeverFails most (do
      callHooks scene .copyItem (.copy source made)
      let _ ← write (.insertItem made)
      if top then grantCreator scene made
      return TaskOutput.copied source made) work := by
    refine failsOnly_of_callHooks bare (insertion_neverFails sound rfl (fun _ => unused)
      fun after drawn put free => failsOnly_ite _ (fun topmost => ?_) fun _ => neverFails_pure _)
    refine failsOnly_bind (grantCreator_neverFails (free _) ?_) fun _ _ _ => neverFails_pure _
    rw [put, putItem_memberships, drawn]
    exact spare topmost
  refine failsOnly_of_demand (by simp [got]) fun row ok => ?_
  cases got.symm.trans ok
  cases above : path.parent? with
  | none => exact insertion
  | some parent =>
      obtain ⟨folder, stands, place⟩ := placed parent above
      have there := sound.indexed.getItemAt_of_hasItem stands place
      exact failsOnly_of_demand (by simp [there]) fun _ _ => insertion

end Action

/-- Making a copy uses up no identifier but its own. -/
theorem copyItemRow_spares {before after : Tables} {source : Id} {path : Path} {top : Bool}
    {output : TaskOutput} (quiet : scene.hooks.WriteNothing)
    (turns : (copyItemRow scene source path top).Turns before output after) {id : Id}
    (apart : id ≠ path.id) : after.items[id]? = before.items[id]? := by
  obtain ⟨_, work, done, _, rfl, gives, rfl⟩ := turns
  obtain ⟨row, made, _, rfl, _, _, _, _, put⟩ := copyItemRow_gives quiet gives
  have elsewhere : (work.tables.putItem (.make path.id path row.name row.type row.extra scene.actor
      scene.now)).items[id]? = work.tables.items[id]? := by
    rw [putItem_items]
    exact if_neg apart
  cases top with
  | false =>
      have same : done.tables = _ := put
      rw [same, elsewhere]
  | true =>
      have granted : Administered scene path _ done.tables := put
      rcases granted with ⟨_, _, _, same⟩ | ⟨_, _, _, _, same⟩
      · rw [same, elsewhere]
      · rw [same, putMembership_items, elsewhere]

structure Roomy (levels : Nat) (item : Item) (top : Path) (start : Tables) (rest : List SubTask)
    (tables : Tables) : Prop where
  copying : Copying levels item top start rest tables
  unused : ∀ id ∈ rest.filterMap SubTask.made?, tables.items[id]? = none
  distinct : (rest.filterMap SubTask.made?).Nodup

theorem copies_complete {item : Item} {top : Path} {start before : Tables} {rest : List SubTask}
    (bare : scene.hooks.pre = []) (shape : start.Shape levels)
    (leads : work.transaction.LeadsBackTo before)
    (roomy : Roomy levels item top start rest work.tables) :
    Completes scene most rest work := by
  have quiet := Hooks.writeNothing_of_bare bare
  refine .of_invariant (Roomy levels item top start) ?_ leads roomy
  intro subtask rest work roomy
  have copying := roomy.copying
  obtain ⟨copies, rows, laid, known, _, copied⟩ := copying.laid
  refine ⟨?_, fun output after turns => ?_⟩
  · cases laid with
    | @cons _ row others _ parent above new place member later =>
        have upper : Copied item top start work.tables parent above := copied _ member
        have stands := copying.kept row (known row List.mem_cons_self)
        obtain ⟨⟨folder, found, here, _⟩, _⟩ :=
          upper.parent shape (known row List.mem_cons_self) place
        refine copyItemRow_neverFails bare copying.sound stands ?_
          (roomy.unused _ (by simp [SubTask.made?])) (by simp)
        intro parent_path known_parent
        rw [Path.parent_child] at known_parent
        cases known_parent
        exact ⟨folder, found, here⟩
  · have next := Copying.turn quiet shape subtask rest output _ after copying turns
    cases laid with
    | @cons _ row others _ parent above new _ _ _ =>
        have made : (SubTask.copyItem row.id (above.child new) false :: rest).filterMap
            SubTask.made? = (above.child new).id :: rest.filterMap SubTask.made? := rfl
        have unused := roomy.unused
        have distinct := roomy.distinct
        rw [made] at unused distinct
        obtain ⟨apart, distinct⟩ := List.nodup_cons.mp distinct
        refine ⟨next, fun id inside => ?_, distinct⟩
        have other : id ≠ (above.child new).id := fun same => apart (same ▸ inside)
        rw [copyItemRow_spares quiet turns other]
        exact unused id (List.mem_cons_of_mem _ inside)

theorem copying_completes {id : Id} {under : Option Id} {subtasks : List SubTask}
    {next : Work} (bare : scene.hooks.pre = []) (sound : work.tables.Sound levels)
    (fresh : Fresh scene.ids work.drawn most work.tables)
    (gives : (planCopy scene id under).Gives work subtasks after)
    (leads : next.transaction.LeadsBackTo work.tables) (same : next.tables = work.tables)
    (drawn : next.drawn = after.drawn) : Completes scene most subtasks next := by
  intro within
  have quiet := Hooks.writeNothing_of_bare bare
  have deeper := sound.mono (Nat.le_max_left levels scene.settings.maxTreeLevels)
  have started := Nat.le_trans (carryOut_drawn_le bare subtasks next) within
  obtain ⟨item, folder, new, more, found, _, holds, short, rfl, laid, _⟩ := planCopy_gives gives
  obtain ⟨count, made, counted⟩ := planCopy_draws gives
  have listed : (SubTask.copyItem item.id (pathWithin folder new) true :: more).filterMap
      SubTask.made? = (pathWithin folder new).id :: more.filterMap SubTask.made? := rfl
  -- All copies go under identifiers that are drawn from here on.
  have numbers {number : Nat} (inside : number ∈ List.range' work.drawn count) :
      work.drawn ≤ number ∧ number < most := by
    have bounds := List.mem_range'_1.mp inside
    omega
  have unused (id : Id) (inside : id ∈ (pathWithin folder new).id :: more.filterMap SubTask.made?) :
      work.tables.items[id]? = none := by
    rw [← listed, made, List.mem_map] at inside
    obtain ⟨number, member, rfl⟩ := inside
    exact fresh.items number (numbers member).1 (numbers member).2
  have distinct : ((pathWithin folder new).id :: more.filterMap SubTask.made?).Nodup := by
    rw [← listed, made]
    have ascending : (List.range' work.drawn count).Pairwise (· < ·) := List.pairwise_lt_range'
    exact List.pairwise_map.mpr (ascending.imp_of_mem fun left right less =>
      fresh.distinct _ _ (numbers left).1 less (numbers right).2)
  obtain ⟨apart, distinct⟩ := List.nodup_cons.mp distinct
  have stands := sound.indexed.hasItem found
  rw [← same] at deeper found stands holds short laid unused fresh
  refine Completes.next (copyItemRow_neverFails bare deeper stands ?_
    (unused _ List.mem_cons_self) fun _ => ?_) (fun output last gives' => ?_) within
  · intro parent above
    obtain ⟨row, stands', place, _⟩ := holds.placed deeper.indexed new parent above
    exact ⟨row, stands', place⟩
  · exact fresh.memberships next.drawn (by omega)
  · have turns : (copyItemRow scene item.id (pathWithin folder new) true).Turns next.tables output
        last.tables := ⟨_, next, last, leads, rfl, gives', rfl⟩
    have indexed := (turns.indexed (copyItemRow_built _ _ _)).2
    obtain ⟨copying, _⟩ := Copying.of_top quiet (Nat.le_max_right levels _) deeper stands holds
      short laid turns
    refine copies_complete bare deeper.shape (Transaction.leadsBackTo_start indexed)
      ⟨copying, fun id inside => ?_, distinct⟩
    have other : id ≠ (pathWithin folder new).id := fun equal => apart (equal ▸ inside)
    exact (copyItemRow_spares quiet turns other).trans
      (unused id (List.mem_cons_of_mem _ inside))

end SharedTree
