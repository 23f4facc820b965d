import SharedTree.Task.Act
import SharedTree.Proofs.Transaction.Rollback
/-!
How an action succeeds. `Gives` says that an action ends well, with what answer and after what work;
one lemma for each way of building actions takes such a run apart. What a hook does is left to one
assumption, that it writes no rows.
-/
namespace SharedTree

namespace Work

abbrev tables (work : Work) : Tables := work.transaction.tables

def renewed (work : Work) : Work := { work with transaction := .start work.tables }

end Work

/-- Programs that leave the rows and the log of a transaction as they are, whatever they are run
on. -/
def HookProgram.WritesNothing (program : HookProgram) : Prop :=
  ∀ ids work, (program.run ids work).2.transaction.tables = work.transaction.tables ∧
    (program.run ids work).2.transaction.log = work.transaction.log

def Hooks.WriteNothing (hooks : Hooks) : Prop :=
  ∀ hook ∈ hooks.pre, ∀ call, (hook.2 call).WritesNothing

theorem Hooks.mem_programs {hooks : Hooks} {kind : TaskKind} {call : HookCall}
    {program : HookProgram} (inside : program ∈ hooks.programs kind call) :
    ∃ hook ∈ hooks.pre, hook.1 = kind ∧ program = hook.2 call := by
  obtain ⟨hook, registered, called⟩ := List.mem_filterMap.mp inside
  split at called
  · rename_i same
    cases called
    exact ⟨hook, registered, same, rfl⟩
  · cases called

theorem HookProgram.runAll_writesNothing (ids : Nat → Id) (programs : List HookProgram)
    (quiet : ∀ program ∈ programs, program.WritesNothing) (work : Work) :
    (runAll ids programs work).2.tables = work.tables := by
  induction programs generalizing work with
  | nil => rfl
  | cons program rest ih =>
      have first := (quiet program List.mem_cons_self ids work).1
      have later := ih fun other inside => quiet other (List.mem_cons_of_mem program inside)
      rw [runAll]
      cases ran : program.run ids work with
      | mk ending after =>
          rw [ran] at first
          cases ending with
          | some reason => exact first
          | none => exact (later after).trans first

namespace Action

variable {Answer Next : Type} {work after : Work}

def ending (action : Action Answer) (work : Work) : Except Error Answer × Work :=
  action.run.run work

def Gives (action : Action Answer) (work : Work) (answer : Answer) (after : Work) : Prop :=
  action.ending work = (.ok answer, after)

theorem gives_pure (answer other : Answer) :
    Gives (pure answer) work other after ↔ answer = other ∧ work = after := by
  constructor
  · intro ended
    cases ended
    exact ⟨rfl, rfl⟩
  · rintro ⟨rfl, rfl⟩
    rfl

theorem ending_bind (action : Action Answer) (next : Answer → Action Next) (work : Work) :
    (action >>= next).ending work =
      match action.ending work with
      | (.ok first, middle) => (next first).ending middle
      | (.error cause, middle) => (.error cause, middle) := by
  show (ExceptT.bind action next).run.run work = _
  simp only [ExceptT.bind, ExceptT.run, ExceptT.mk, StateT.run, bind, StateT.bind, ending]
  cases action work with
  | mk result middle => cases result <;> rfl

theorem gives_bind (action : Action Answer) (next : Answer → Action Next) (answer : Next) :
    Gives (action >>= next) work answer after ↔
      ∃ first middle, action.Gives work first middle ∧ (next first).Gives middle answer after := by
  unfold Gives
  rw [ending_bind]
  cases action.ending work with
  | mk result middle => cases result <;> simp

theorem gives_throw (cause : Error) (answer : Answer) :
    ¬ Gives (throw cause) work answer after := by
  intro ended
  cases ended

theorem gives_ask (question : Tables → Answer) (answer : Answer) :
    (ask question).Gives work answer after ↔ question work.tables = answer ∧ work = after := by
  constructor
  · intro ended
    cases ended
    exact ⟨rfl, rfl⟩
  · rintro ⟨rfl, rfl⟩
    rfl

theorem gives_demand (question : Tables → Except Error Answer) (answer : Answer) :
    (demand question).Gives work answer after ↔
      question work.tables = .ok answer ∧ work = after := by
  have ran : (demand question).ending work = (question work.tables, work) := rfl
  rw [Gives, ran, Prod.mk.injEq]

theorem gives_except (result : Except Error Answer) (answer : Answer) :
    Gives (ExceptT.mk (pure result)) work answer after ↔ result = .ok answer ∧ work = after := by
  have ran : ending (ExceptT.mk (pure result) : Action Answer) work = (result, work) := rfl
  rw [Gives, ran, Prod.mk.injEq]

theorem gives_draw (scene : Scene) (id : Id) :
    (draw scene).Gives work id after ↔
      scene.ids work.drawn = id ∧ after = { work with drawn := work.drawn + 1 } := by
  constructor
  · intro ended
    cases ended
    exact ⟨rfl, rfl⟩
  · rintro ⟨rfl, rfl⟩
    rfl

theorem gives_write (op : RowOp) (found : Bool) :
    (write op).Gives work found after ↔
      ∃ transaction, work.transaction.apply op = .ok (found, transaction) ∧
        after = { work with transaction } := by
  have ran : (write op).ending work = work.perform op := rfl
  rw [Gives, ran, Work.perform]
  cases work.transaction.apply op with
  | ok result =>
      cases result
      constructor
      · intro ended
        cases ended
        exact ⟨_, rfl, rfl⟩
      · rintro ⟨transaction, equal, rfl⟩
        cases equal
        rfl
  | error cause => simp

theorem gives_ite (condition : Prop) [Decidable condition] (first second : Action Answer)
    (answer : Answer) :
    Gives (if condition then first else second) work answer after ↔
      (condition ∧ first.Gives work answer after) ∨
        (¬ condition ∧ second.Gives work answer after) := by
  by_cases holds : condition <;> simp [holds]

/-! What the row operations do when they succeed. -/

theorem gives_insertItem {item : Item} {found : Bool}
    (gives : (write (.insertItem item)).Gives work found after) :
    work.tables.items[item.id]? = none ∧ work.tables.itemPaths[item.path]? = none ∧
      after.tables = work.tables.putItem item := by
  obtain ⟨transaction, ok, rfl⟩ := (gives_write _ _).mp gives
  cases inserted : work.transaction.insertItem item with
  | error cause => simp [Transaction.apply, inserted, Except.map] at ok
  | ok done =>
      obtain ⟨unused, free, rfl⟩ := Transaction.insertItem_ok inserted
      simp only [Transaction.apply, inserted, Except.map, Except.ok.injEq, Prod.mk.injEq] at ok
      exact ⟨unused, free, by rw [Work.tables, ← ok.2]⟩

theorem gives_updateItem {item : Item} {found : Bool}
    (gives : (write (.updateItem item)).Gives work found after) :
    (∃ before, work.tables.items[item.id]? = some before) ∧
      (∀ other, work.tables.itemPaths[item.path]? = some other → other = item.id) ∧
      after.tables = work.tables.putItem item := by
  obtain ⟨transaction, ok, rfl⟩ := (gives_write _ _).mp gives
  cases updated : work.transaction.updateItem item with
  | error cause => simp [Transaction.apply, updated, Except.map] at ok
  | ok done =>
      obtain ⟨before, known, own, rfl⟩ := Transaction.updateItem_ok updated
      simp only [Transaction.apply, updated, Except.map, Except.ok.injEq, Prod.mk.injEq] at ok
      exact ⟨⟨before, known⟩, own, by rw [Work.tables, ← ok.2]⟩

theorem gives_deleteItem {id : Id} {found : Bool}
    (gives : (write (.deleteItem id)).Gives work found after) :
    after.tables = work.tables.removeItem id := by
  obtain ⟨transaction, ok, rfl⟩ := (gives_write _ _).mp gives
  have done : (work.transaction.deleteItem id).2 = transaction :=
    congrArg Prod.snd (Except.ok.inj ok)
  rw [Work.tables, ← done]
  exact Transaction.deleteItem_tables work.transaction id

theorem gives_insertMembership {row : Membership} {found : Bool}
    (gives : (write (.insertMembership row)).Gives work found after) :
    work.tables.membershipIdAt? row.account row.itemPath = none ∧
      work.tables.memberships[row.id]? = none ∧
      after.tables = work.tables.putMembership row := by
  obtain ⟨transaction, ok, rfl⟩ := (gives_write _ _).mp gives
  cases inserted : work.transaction.insertMembership row with
  | error cause => simp [Transaction.apply, inserted, Except.map] at ok
  | ok done =>
      obtain ⟨free, unused, rfl⟩ := Transaction.insertMembership_ok inserted
      simp only [Transaction.apply, inserted, Except.map, Except.ok.injEq, Prod.mk.injEq] at ok
      exact ⟨free, unused, by rw [Work.tables, ← ok.2]⟩

theorem gives_updateMembership {row : Membership} {found : Bool}
    (gives : (write (.updateMembership row)).Gives work found after) :
    (∃ before, work.tables.memberships[row.id]? = some before) ∧
      (∀ other, work.tables.membershipIdAt? row.account row.itemPath = some other →
        other = row.id) ∧
      after.tables = work.tables.putMembership row := by
  obtain ⟨transaction, ok, rfl⟩ := (gives_write _ _).mp gives
  cases updated : work.transaction.updateMembership row with
  | error cause => simp [Transaction.apply, updated, Except.map] at ok
  | ok done =>
      obtain ⟨before, known, own, rfl⟩ := Transaction.updateMembership_ok updated
      simp only [Transaction.apply, updated, Except.map, Except.ok.injEq, Prod.mk.injEq] at ok
      exact ⟨⟨before, known⟩, own, by rw [Work.tables, ← ok.2]⟩

theorem gives_deleteMembership {id : Id} {found : Bool}
    (gives : (write (.deleteMembership id)).Gives work found after) :
    after.tables = work.tables.removeMembership id := by
  obtain ⟨transaction, ok, rfl⟩ := (gives_write _ _).mp gives
  have done : (work.transaction.deleteMembership id).2 = transaction :=
    congrArg Prod.snd (Except.ok.inj ok)
  rw [Work.tables, ← done]
  exact Transaction.deleteMembership_tables work.transaction id

/-! Hooks and checks. -/

theorem gives_callHooks {scene : Scene} {kind : TaskKind} {payload : HookPayload} :
    (callHooks scene kind payload).Gives work () after ↔
      HookProgram.runAll scene.ids (scene.hooks.programs kind ⟨scene.actor, payload, scene.now⟩)
        work = (none, after) := by
  unfold Gives ending callHooks
  simp only [ExceptT.run, ExceptT.mk, StateT.run]
  cases HookProgram.runAll scene.ids (scene.hooks.programs kind ⟨scene.actor, payload, scene.now⟩)
    work with
  | mk refusal rest => cases refusal <;> simp

def Hooked (scene : Scene) (kind : TaskKind) (payload : HookPayload) (work after : Work) : Prop :=
  ∃ calling : Work, calling.transaction = work.transaction ∧
    (callHooks scene kind payload).Gives calling () after

theorem hooked_of_gives {scene : Scene} {kind : TaskKind} {payload : HookPayload}
    (gives : (callHooks scene kind payload).Gives work () after) :
    Hooked scene kind payload work after :=
  ⟨work, rfl, gives⟩

theorem Hooked.quiet {scene : Scene} {kind : TaskKind} {payload : HookPayload}
    (hooked : Hooked scene kind payload work after) (quiet : scene.hooks.WriteNothing) :
    after.tables = work.tables := by
  obtain ⟨calling, same, gives⟩ := hooked
  have programs : ∀ program ∈ scene.hooks.programs kind ⟨scene.actor, payload, scene.now⟩,
      program.WritesNothing := by
    intro program inside
    obtain ⟨hook, registered, _, rfl⟩ := Hooks.mem_programs inside
    exact quiet hook registered _
  have kept := HookProgram.runAll_writesNothing scene.ids _ programs calling
  rw [gives_callHooks.mp gives] at kept
  exact kept.trans (congrArg Transaction.tables same)

theorem gives_checkLevels {scene : Scene} {levels : Nat}
    (gives : (checkLevels scene levels).Gives work () after) :
    levels ≤ scene.settings.maxTreeLevels ∧ work = after := by
  unfold checkLevels at gives
  rcases (gives_ite _ _ _ _).mp gives with ⟨_, thrown⟩ | ⟨within, passed⟩
  · exact absurd thrown (gives_throw _ _)
  · exact ⟨Nat.not_lt.mp within, ((gives_pure _ _).mp passed).2⟩

theorem gives_checkDescendants {id : Id} {rows : List Item} {limit : Nat}
    (gives : (checkDescendants id rows limit).Gives work () after) :
    rows.length ≤ limit ∧ work = after := by
  unfold checkDescendants at gives
  rcases (gives_ite _ _ _ _).mp gives with ⟨_, thrown⟩ | ⟨within, passed⟩
  · exact absurd thrown (gives_throw _ _)
  · exact ⟨Nat.not_lt.mp within, ((gives_pure _ _).mp passed).2⟩

end Action

end SharedTree
