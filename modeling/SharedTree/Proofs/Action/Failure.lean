import SharedTree.Proofs.Action.Built
import SharedTree.Proofs.Action.Success
/-!
How an action fails. `FailsOnly` says with what errors an action can end where it is run; one lemma
for each way of building actions follows such a statement through it, with what was given so far at
hand. No pre-hooks are called here, so what is left are the questions and the row operations, and
each row operation succeeds where the rows leave room for it.
-/
namespace SharedTree

theorem Hooks.writeNothing_of_bare {hooks : Hooks} (bare : hooks.pre = []) :
    hooks.WriteNothing := by
  intro hook inside
  rw [bare] at inside
  cases inside

namespace Action

variable {Answer Next : Type} {scene : Scene} {work : Work} {allowed more : Error → Prop}
  {most : Nat}

/-- If the action ends with an error, and so many identifiers are drawn by then at most, the error
is an allowed one. -/
def FailsOnly (most : Nat) (allowed : Error → Prop) (action : Action Answer) (work : Work) : Prop :=
  ∀ cause after, action.ending work = (.error cause, after) → after.drawn ≤ most → allowed cause

abbrev NeverFails (most : Nat) (action : Action Answer) (work : Work) : Prop :=
  action.FailsOnly most (fun _ => False) work

theorem FailsOnly.mono {action : Action Answer} (fails : action.FailsOnly most allowed work)
    (imp : ∀ cause, allowed cause → more cause) : action.FailsOnly most more work :=
  fun cause after ended within => imp cause (fails cause after ended within)

theorem NeverFails.failsOnly {action : Action Answer} (never : action.NeverFails most work) :
    action.FailsOnly most allowed work := never.mono fun _ => False.elim

theorem neverFails_pure (answer : Answer) : NeverFails most (pure answer) work := by
  intro cause after ended
  cases ended

theorem failsOnly_throw {cause : Error} (fits : allowed cause) :
    FailsOnly most allowed (throw cause : Action Answer) work := by
  intro other after ended _
  cases ended
  exact fits

theorem failsOnly_bind {action : Action Answer} {next : Answer → Action Next}
    (first : action.FailsOnly most allowed work)
    (later : ∀ answer middle, action.Gives work answer middle →
      (next answer).FailsOnly most allowed middle) :
    (action >>= next).FailsOnly most allowed work := by
  intro cause after ended within
  rw [ending_bind] at ended
  cases ran : action.ending work with
  | mk result middle =>
      rw [ran] at ended
      cases result with
      | ok answer => exact later answer middle ran cause after ended within
      | error other =>
          cases ended
          exact first _ _ ran within

theorem failsOnly_ite (condition : Prop) [Decidable condition] {first second : Action Answer}
    (yes : condition → first.FailsOnly most allowed work)
    (no : ¬ condition → second.FailsOnly most allowed work) :
    FailsOnly most allowed (if condition then first else second) work := by
  split
  · exact yes ‹_›
  · exact no ‹_›

theorem failsOnly_demand {question : Tables → Except Error Answer}
    (refused : ∀ cause, question work.tables = .error cause → allowed cause) :
    (demand question).FailsOnly most allowed work := by
  intro cause after ended _
  exact refused cause (congrArg Prod.fst ended)

/-! What comes after a part that does not change the rows. -/

theorem failsOnly_of_ask {question : Tables → Answer} {next : Answer → Action Next}
    (later : (next (question work.tables)).FailsOnly most allowed work) :
    (ask question >>= next).FailsOnly most allowed work := by
  refine failsOnly_bind (fun cause after ended => by cases ended) fun answer middle gives => ?_
  obtain ⟨rfl, rfl⟩ := (gives_ask _ _).mp gives
  exact later

theorem failsOnly_of_demand {question : Tables → Except Error Answer} {next : Answer → Action Next}
    (refused : ∀ cause, question work.tables = .error cause → allowed cause)
    (later : ∀ answer, question work.tables = .ok answer → (next answer).FailsOnly most allowed work) :
    (demand question >>= next).FailsOnly most allowed work := by
  refine failsOnly_bind (failsOnly_demand refused) fun answer middle gives => ?_
  obtain ⟨ok, rfl⟩ := (gives_demand _ _).mp gives
  exact later answer ok

theorem failsOnly_of_draw {next : Id → Action Next}
    (later : (next (scene.ids work.drawn)).FailsOnly most allowed
      { work with drawn := work.drawn + 1 }) :
    (draw scene >>= next).FailsOnly most allowed work := by
  refine failsOnly_bind (fun cause after ended => by cases ended) fun id middle gives => ?_
  obtain ⟨rfl, rfl⟩ := (gives_draw _ _).mp gives
  exact later

section Bare

variable (bare : scene.hooks.pre = [])
include bare

theorem callHooks_bare (kind : TaskKind) (payload : HookPayload) (work : Work) :
    (callHooks scene kind payload).ending work = (.ok (), work) := by
  have none_called : scene.hooks.programs kind ⟨scene.actor, payload, scene.now⟩ = [] := by
    simp [Hooks.programs, bare]
  simp only [ending, callHooks, ExceptT.run, ExceptT.mk, StateT.run, none_called]
  rfl

theorem failsOnly_of_callHooks {kind : TaskKind} {payload : HookPayload}
    {next : Unit → Action Next} (later : (next ()).FailsOnly most allowed work) :
    (callHooks scene kind payload >>= next).FailsOnly most allowed work := by
  have ended := callHooks_bare bare kind payload work
  refine failsOnly_bind (fun cause after failed => ?_) fun answer middle gives => ?_
  · cases ended.symm.trans failed
  · cases ended.symm.trans gives
    exact later

/-- Identifiers that were drawn stay drawn. -/
theorem Built.drawn_le {action : Action Answer} (built : action.Built scene) (work : Work) :
    work.drawn ≤ (action.ending work).2.drawn := by
  induction built generalizing work with
  | demand question => exact Nat.le_refl _
  | draw => exact Nat.le_succ _
  | @write op _ =>
      show work.drawn ≤ (work.perform op).2.drawn
      unfold Work.perform
      split <;> exact Nat.le_refl _
  | callHooks kind payload =>
      have same := congrArg (fun ending => ending.2.drawn) (callHooks_bare bare kind payload work)
      exact Nat.le_of_eq same.symm
  | @bind _ _ action next _ _ first later =>
      rw [ending_bind]
      have step := first work
      cases ran : action.ending work with
      | mk result middle =>
          rw [ran] at step
          cases result with
          | ok answer => exact Nat.le_trans step (later answer middle)
          | error cause => exact step

theorem Built.drawn_le_of_gives {action : Action Answer} (built : action.Built scene)
    {answer : Answer} {after : Work} (gives : action.Gives work answer after) :
    work.drawn ≤ after.drawn := by
  have le := built.drawn_le bare work
  rw [gives] at le
  exact le

end Bare

theorem failsOnly_forM {Row : Type} {body : Row → Action Unit} (holds : List Row → Work → Prop)
    (turn : ∀ row rest work, holds (row :: rest) work → (body row).FailsOnly most allowed work ∧
      ∀ after, (body row).Gives work () after → holds rest after)
    {rows : List Row} (start : holds rows work) : (rows.forM body).FailsOnly most allowed work := by
  induction rows generalizing work with
  | nil => exact (neverFails_pure ()).failsOnly
  | cons row rest ih =>
      rw [List.forM_eq_forM, List.forM_cons]
      obtain ⟨fails, next⟩ := turn row rest work start
      exact failsOnly_bind fails fun _ after gives => ih (next after gives)

/-! The row operations. -/

theorem neverFails_write {op : RowOp} {result : Bool × Transaction}
    (ok : work.transaction.apply op = .ok result) : (write op).NeverFails most work := by
  have ended : (write op).ending work = work.perform op := rfl
  intro cause after failed
  rw [ended, Work.perform, ok] at failed
  cases failed

/-- A row operation draws no identifier, so it is only to be asked about within the limit. -/
theorem neverFails_write_within {op : RowOp}
    (fits : work.drawn ≤ most → (write op).NeverFails most work) :
    (write op).NeverFails most work := by
  intro cause after failed within
  have drawn : after.drawn = work.drawn := by
    have ended : (write op).ending work = work.perform op := rfl
    rw [ended, Work.perform] at failed
    split at failed <;> cases failed
    rfl
  exact fits (drawn ▸ within) cause after failed within

theorem neverFails_insertItem {item : Item} (unused : work.tables.items[item.id]? = none)
    (free : work.tables.itemPaths[item.path]? = none) :
    (write (.insertItem item)).NeverFails most work := by
  have absent : work.transaction.tables.items.contains item.id = false := by
    rw [Std.ExtTreeMap.contains_eq_isSome_getElem?, unused]
    rfl
  have vacant : work.transaction.tables.itemPaths.contains item.path = false := by
    rw [Std.ExtTreeMap.contains_eq_isSome_getElem?, free]
    rfl
  apply neverFails_write
  simp only [Transaction.apply, Transaction.insertItem, absent, vacant, Bool.or_self,
    Bool.false_eq_true, if_false, Except.map]
  rfl

theorem neverFails_updateItem {item before : Item}
    (known : work.tables.items[item.id]? = some before)
    (own : ∀ other, work.tables.itemPaths[item.path]? = some other → other = item.id) :
    (write (.updateItem item)).NeverFails most work := by
  have vacant : (work.transaction.tables.itemPaths[item.path]?.any fun other =>
      other != item.id) = false := by
    cases entry : work.transaction.tables.itemPaths[item.path]? with
    | none => rfl
    | some other => simp [own other entry]
  apply neverFails_write
  simp only [Transaction.apply, Transaction.updateItem, known, vacant, Bool.false_eq_true,
    if_false, Except.map]
  rfl

theorem neverFails_deleteItem (id : Id) : (write (.deleteItem id)).NeverFails most work :=
  neverFails_write rfl

theorem neverFails_insertMembership {row : Membership}
    (free : work.tables.membershipIdAt? row.account row.itemPath = none)
    (unused : work.tables.memberships[row.id]? = none) :
    (write (.insertMembership row)).NeverFails most work := by
  have absent : work.transaction.tables.memberships.contains row.id = false := by
    rw [Std.ExtTreeMap.contains_eq_isSome_getElem?, unused]
    rfl
  apply neverFails_write
  simp only [Transaction.apply, Transaction.insertMembership, free, absent, Bool.false_eq_true,
    if_false, Except.map]
  rfl

theorem neverFails_updateMembership {row before : Membership}
    (known : work.tables.memberships[row.id]? = some before)
    (own : ∀ other, work.tables.membershipIdAt? row.account row.itemPath = some other →
      other = row.id) :
    (write (.updateMembership row)).NeverFails most work := by
  have vacant : (work.transaction.tables.membershipIdAt? row.account row.itemPath).filter
      (fun other => other != row.id) = none := by
    cases entry : work.transaction.tables.membershipIdAt? row.account row.itemPath with
    | none => rfl
    | some other => simp [own other entry]
  apply neverFails_write
  simp only [Transaction.apply, Transaction.updateMembership, known, vacant, Except.map]
  rfl

theorem neverFails_deleteMembership (id : Id) : (write (.deleteMembership id)).NeverFails most work :=
  neverFails_write rfl

end Action

end SharedTree
