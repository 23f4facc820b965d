import SharedTree.Proofs.Action.Success
import SharedTree.Proofs.Tree.Orderly
/-!
Hooks that write. A task reads rows before its hooks are called and writes after, by what it read.
Hooks may write whatever keeps the rows in order (`HookProgram.KeepsOrder`), and heed the task
besides (`HookProgram.Heeds`) if the items that it goes by stay where they are and none are added
where it has listed all. A copy goes by a plan, so what is to be heeded of it depends on the plan.
What each hook keeps and heeds, a call of all of them does (`Action.Hooked.careful`).
-/
namespace SharedTree

def Fills (plan : List SubTask) (place : Path) : Prop :=
  ∃ source path top, SubTask.copyItem source path top ∈ plan ∧ path.parent? = some place

/-- The folders that the copies of a plan go into, and those that are yet to be copied to such a
place. -/
def Receives (plan : List SubTask) (row : Item) : Prop :=
  row.isFolder = true ∧
    (Fills plan row.path ∨
      ∃ place top, SubTask.copyItem row.id place top ∈ plan ∧ Fills plan place)

theorem receives_congr {plan : List SubTask} {row other : Item} (ids : other.id = row.id)
    (place : other.path = row.path) (type : other.type = row.type) (receives : Receives plan row) :
    Receives plan other := by
  simpa [Receives, Item.isFolder, ids, place, type] using receives

namespace HookPayload

/-- The items that a task of a kind has looked up before its hooks are called, and goes by after. A
copy is one of a plan, and goes by the folders of the plan: they were looked up when it was made. -/
def Relied (plan : List SubTask) : TaskKind → HookPayload → Item → Prop
  | .createItem, item made, row => made.path.parent? = some row.path
  | .updateItem, item changed, row => row.id = changed.id
  | .deleteItem, item gone, row => row.id = gone.id
  | .moveItem, move moved under, row => moved.path.covers row.path = true ∨ under = some row.id
  | .copyItem, copy _ _, row => Receives plan row
  | .createMembership, membership given, row => row.path = given.itemPath
  | .updateMembership, membership changed, row => row.path = changed.itemPath
  | _, _, _ => False

/-- Where a task of a kind has listed all items before its hooks are called: below the item that it
deletes, which then has none, and below the one that it moves. -/
def Listed : TaskKind → HookPayload → Item → Prop
  | .deleteItem, item gone, row => gone.path.isAncestorOf row.path = true
  | .moveItem, move moved _, row => moved.path.isAncestorOf row.path = true
  | _, _, _ => False

structure Heeded (plan : List SubTask) (kind : TaskKind) (payload : HookPayload)
    (before after : Tables) : Prop where
  relied : before.Retains (payload.Relied plan kind) after
  listed : after.Retains (payload.Listed kind) before

variable {plan : List SubTask} {kind : TaskKind} {payload : HookPayload}
  {before middle after : Tables}

theorem relied_congr {row other : Item} (ids : other.id = row.id) (place : other.path = row.path)
    (type : other.type = row.type) (relied : payload.Relied plan kind row) :
    payload.Relied plan kind other := by
  cases kind <;> cases payload <;> simp_all [Relied, receives_congr ids place type]

theorem listed_congr {row other : Item} (place : other.path = row.path)
    (listed : payload.Listed kind row) : payload.Listed kind other := by
  cases kind <;> cases payload <;> simp_all [Listed]

theorem receives_of_relied {row : Item} (relied : payload.Relied plan .copyItem row) :
    Receives plan row := by
  cases payload with
  | copy source made => exact relied
  | _ => cases relied

/-- Creating and copying list nothing. -/
theorem not_listed {row : Item} (makes : kind = .createItem ∨ kind = .copyItem) :
    ¬ payload.Listed kind row := by
  rcases makes with rfl | rfl <;> cases payload <;> exact not_false

theorem Heeded.refl (plan : List SubTask) (kind : TaskKind) (payload : HookPayload)
    (tables : Tables) : payload.Heeded plan kind tables tables :=
  ⟨.refl _ tables, .refl _ tables⟩

theorem Heeded.trans (first : payload.Heeded plan kind before middle)
    (later : payload.Heeded plan kind middle after) : payload.Heeded plan kind before after where
  relied := first.relied.trans later.relied fun _ _ => relied_congr
  listed := later.listed.trans first.listed fun _ _ _ place _ => listed_congr place

end HookPayload

namespace HookProgram

def KeepsOrder (program : HookProgram) : Prop :=
  ∀ ids work after, work.tables.Orderly → program.run ids work = (none, after) →
    after.tables.Orderly

def Heeds (plan : List SubTask) (kind : TaskKind) (payload : HookPayload)
    (program : HookProgram) : Prop :=
  ∀ ids work after, work.tables.Orderly → program.run ids work = (none, after) →
    payload.Heeded plan kind work.tables after.tables

/-- A last write is done, or it fails and leaves the rows as they were. -/
theorem run_lastWrite {ids : Nat → Id} {op : RowOp} {work after : Work}
    (ran : (write op fun _ => done).run ids work = (none, after)) :
    (∃ found, (Action.write op).Gives work found after) ∨ after = work := by
  have performed : after = (work.perform op).2 := (congrArg Prod.snd ran).symm
  rw [performed]
  cases applied : work.transaction.apply op with
  | ok result => exact Or.inl ⟨result.1, by simp [Action.gives_write, Work.perform, applied]⟩
  | error cause => exact Or.inr (by simp [Work.perform, applied])

theorem runAll_careful {ids : Nat → Id} {plan : List SubTask} {kind : TaskKind}
    {payload : HookPayload} {programs : List HookProgram} {work after : Work}
    (keep : ∀ program ∈ programs, program.KeepsOrder)
    (heed : ∀ program ∈ programs, program.Heeds plan kind payload)
    (orderly : work.tables.Orderly) (ran : runAll ids programs work = (none, after)) :
    after.tables.Orderly ∧ payload.Heeded plan kind work.tables after.tables := by
  induction programs generalizing work with
  | nil =>
      cases ran
      exact ⟨orderly, .refl plan kind payload _⟩
  | cons program rest ih =>
      rw [runAll] at ran
      split at ran
      · rename_i middle first
        have ordered := keep program List.mem_cons_self ids work middle orderly first
        have heeded := heed program List.mem_cons_self ids work middle orderly first
        obtain ⟨ordered', heeded'⟩ :=
          ih (fun other inside => keep other (List.mem_cons_of_mem _ inside))
            (fun other inside => heed other (List.mem_cons_of_mem _ inside)) ordered ran
        exact ⟨ordered', heeded.trans heeded'⟩
      · cases ran

end HookProgram

def Hooks.KeepOrder (hooks : Hooks) : Prop :=
  ∀ hook ∈ hooks.pre, ∀ call, (hook.2 call).KeepsOrder

/-- Pre-hooks that heed what the tasks that they are called by have read; those on copies, the
folders of the plan that the copies are made by. -/
def Hooks.Heed (hooks : Hooks) (plan : List SubTask) : Prop :=
  ∀ hook ∈ hooks.pre, ∀ call, (hook.2 call).Heeds plan hook.1 call.payload

theorem Action.Hooked.careful {scene : Scene} {plan : List SubTask} {kind : TaskKind}
    {payload : HookPayload} {work after : Work} (keep : scene.hooks.KeepOrder)
    (heed : scene.hooks.Heed plan) (hooked : Hooked scene kind payload work after)
    (orderly : work.tables.Orderly) :
    after.tables.Orderly ∧ payload.Heeded plan kind work.tables after.tables := by
  obtain ⟨calling, same, gives⟩ := hooked
  have begun : calling.tables = work.tables := congrArg Transaction.tables same
  rw [← begun] at orderly ⊢
  refine HookProgram.runAll_careful (fun program inside => ?_) (fun program inside => ?_) orderly
    (Action.gives_callHooks.mp gives)
  · obtain ⟨hook, registered, _, rfl⟩ := Hooks.mem_programs inside
    exact keep hook registered _
  · obtain ⟨hook, registered, rfl, rfl⟩ := Hooks.mem_programs inside
    exact heed hook registered _

end SharedTree
