import SharedTree.Proofs.Task.Items
/-!
How a copy is laid out: one subtask for each row, below the place given to the row's parent before.
-/
namespace SharedTree

/-- The subtasks put each row below the place of its parent, out of the places given so far. -/
inductive Laid : List (Id × Path) → List Item → List SubTask → Prop where
  | nil (copies : List (Id × Path)) : Laid copies [] []
  | cons {copies : List (Id × Path)} {item : Item} {rest : List Item} {more : List SubTask}
      {parent : Id} {above : Path} (new : Id) : item.parentId? = some parent →
      (parent, above) ∈ copies → Laid ((item.id, above.child new) :: copies) rest more →
      Laid copies (item :: rest) (.copyItem item.id (above.child new) false :: more)

/-- Every copy but the top one goes strictly below the top. -/
theorem Laid.all_below {copies : List (Id × Path)} {rows : List Item} {subtasks : List SubTask}
    (laid : Laid copies rows subtasks) {top : Path}
    (inside : ∀ copy ∈ copies, top.covers copy.2 = true) :
    ∀ subtask ∈ subtasks, ∃ row ∈ rows, ∃ above new, top.covers above = true ∧
      subtask = .copyItem row.id (above.child new) false := by
  induction laid with
  | nil => simp
  | @cons copies row rest more parent above new known member later ih =>
      have spans := inside _ member
      intro subtask planned
      rcases List.mem_cons.mp planned with rfl | planned
      · exact ⟨row, List.mem_cons_self, above, new, spans, rfl⟩
      · have lower := Path.covers_of_isAncestorOf
          (Path.parent_isAncestorOf (Path.parent_child above new))
        have inside' : ∀ copy ∈ (row.id, above.child new) :: copies, top.covers copy.2 = true := by
          intro copy listed
          rcases List.mem_cons.mp listed with rfl | listed
          · exact Path.covers_trans spans lower
          · exact inside copy listed
        obtain ⟨other, listed, rest⟩ := ih inside' subtask planned
        exact ⟨other, List.mem_cons_of_mem row listed, rest⟩

namespace Action

variable {scene : Scene} {work after : Work}

theorem mem_of_lookup {copies : List (Id × Path)} {id : Id} {path : Path}
    (found : copies.lookup id = some path) : (id, path) ∈ copies := by
  induction copies with
  | nil => cases found
  | cons first rest ih =>
      rw [List.lookup_cons] at found
      split at found
      · rename_i same
        cases found
        rw [eq_of_beq same]
        exact List.mem_cons_self
      · exact List.mem_cons_of_mem first (ih found)

theorem planCopies_gives {copies : List (Id × Path)} {rows : List Item} {subtasks : List SubTask}
    (gives : (planCopies scene copies rows).Gives work subtasks after) :
    Laid copies rows subtasks ∧ after.tables = work.tables := by
  induction rows generalizing copies work subtasks with
  | nil =>
      obtain ⟨rfl, rfl⟩ := (gives_pure _ _).mp gives
      exact ⟨.nil copies, rfl⟩
  | cons item rest ih =>
      rw [planCopies] at gives
      cases place : item.parentId?.bind fun parent => copies.lookup parent with
      | none =>
          rw [place] at gives
          exact absurd gives (gives_throw _ _)
      | some above =>
          rw [place] at gives
          obtain ⟨parent, known, found⟩ := Option.bind_eq_some_iff.mp place
          obtain ⟨new, drawn, drew, later⟩ := (gives_bind _ _ _).mp gives
          obtain ⟨_, rfl⟩ := (gives_draw _ _).mp drew
          obtain ⟨more, _, planned, ended⟩ := (gives_bind _ _ _).mp later
          obtain ⟨rfl, rfl⟩ := (gives_pure _ _).mp ended
          obtain ⟨laid, same⟩ := ih planned
          exact ⟨.cons new known (mem_of_lookup found) laid, same⟩

theorem planCopy_gives {id : Id} {under : Option Id} {subtasks : List SubTask}
    (gives : (planCopy scene id under).Gives work subtasks after) :
    ∃ item folder new more, work.tables.items[id]? = some item ∧
      work.tables.hasPermission scene.actor item.path .read = true ∧
      MayHold scene work.tables under folder ∧
      item.subtreeLevels (work.tables.descendants item) - item.path.levels +
        (pathWithin folder new).levels ≤ scene.settings.maxTreeLevels ∧
      subtasks = .copyItem item.id (pathWithin folder new) true :: more ∧
      Laid [(item.id, pathWithin folder new)] (work.tables.shallowestFirst item) more ∧
      after.tables = work.tables := by
  obtain ⟨item, _, asked, found⟩ := (gives_bind _ _ _).mp gives
  obtain ⟨ok, rfl⟩ := (gives_demand _ _).mp asked
  obtain ⟨folder, _, given_folder, chosen⟩ := (gives_bind _ _ _).mp found
  obtain ⟨holds, rfl⟩ := optional_destination_gives given_folder
  obtain ⟨new, _, drew, placed⟩ := (gives_bind _ _ _).mp chosen
  obtain ⟨_, rfl⟩ := (gives_draw _ _).mp drew
  obtain ⟨descendants, _, listed, counted⟩ := (gives_bind _ _ _).mp placed
  obtain ⟨rfl, rfl⟩ := (gives_ask _ _).mp listed
  obtain ⟨_, _, checked, measured⟩ := (gives_bind _ _ _).mp counted
  obtain ⟨_, rfl⟩ := gives_checkDescendants checked
  obtain ⟨_, _, within, ordered⟩ := (gives_bind _ _ _).mp measured
  obtain ⟨short, rfl⟩ := gives_checkLevels within
  obtain ⟨rows, _, listed, planning⟩ := (gives_bind _ _ _).mp ordered
  obtain ⟨rfl, rfl⟩ := (gives_ask _ _).mp listed
  obtain ⟨more, _, planned, ended⟩ := (gives_bind _ _ _).mp planning
  obtain ⟨rfl, rfl⟩ := (gives_pure _ _).mp ended
  obtain ⟨laid, same⟩ := planCopies_gives planned
  obtain ⟨stands, allowed⟩ := Tables.getItemFor_ok ok
  exact ⟨item, folder, new, more, stands, allowed, holds, short, rfl, laid, same⟩

end Action

end SharedTree
