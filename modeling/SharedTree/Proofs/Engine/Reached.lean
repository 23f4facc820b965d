import SharedTree.Proofs.Effect.Copies
import SharedTree.Proofs.Effect.Deletions
import SharedTree.Proofs.Effect.Memberships
import SharedTree.Proofs.Effect.Moves
/-!
The rows that runs of tasks can reach. Every run keeps the rows sound (`run_effect`), so what is
reached from nothing is well-formed (`reached_wellFormed`) and the memberships of an account grow
stronger down the tree (`reached_graded`).
-/
namespace SharedTree

open Tables

variable {levels : Nat} {scene : Scene}

/-- A run keeps the rows sound and goes no further than its actor's authority, whichever task it is
and wherever it stops. -/
theorem Engine.run_effect (engine : Engine) (task : Task) (quiet : scene.hooks.WriteNothing)
    (limit : scene.settings.maxTreeLevels ≤ levels) (sound : engine.store.tables.Sound levels) :
    (engine.run scene task).2.store.tables.Sound levels ∧
      Lawful scene.actor engine.store.tables (engine.run scene task).2.store.tables := by
  have outcome := engine.run_outcome scene task sound.indexed
  generalize (engine.run scene task).1 = result at outcome
  generalize (engine.run scene task).2.store.tables = after at outcome
  cases task with
  | createItem new =>
      exact outcome.of_done rfl sound fun _ turns => createItem_effect quiet limit sound turns
  | updateItem id patch =>
      exact outcome.of_done rfl sound fun _ turns => updateItem_effect quiet sound turns
  | deleteItem id => exact deleteItem_outcome quiet sound outcome
  | moveItem id under =>
      refine outcome.of_done rfl sound fun _ turns => ?_
      obtain ⟨sound', item, folder, _, _, effect⟩ := moveItem_effect quiet limit sound turns
      exact ⟨sound', effect.lawful⟩
  | copyItem id under => exact copyItem_outcome quiet limit sound outcome
  | createMembership item account permission =>
      exact outcome.of_done rfl sound fun _ turns => createMembership_effect quiet sound turns
  | updateMembership id permission => exact updateMembership_outcome quiet sound outcome
  | deleteMembership id purgeBelow => exact deleteMembership_outcome quiet sound outcome

/-- The rows that runs of tasks reach from nothing, under settings that are allowed. An engine may
be any that has reached rows: nothing is asked of the identifiers it has left, of what its store
refuses or of its disk. A hook may refuse but writes no rows. -/
inductive Reached (allowed : Settings → Prop) : Tables → Prop where
  | empty : Reached allowed .empty
  | run (engine : Engine) (scene : Scene) (task : Task) : Reached allowed engine.store.tables →
      allowed scene.settings → scene.hooks.WriteNothing →
      Reached allowed (engine.run scene task).2.store.tables

def Engine.runAll (engine : Engine) (runs : List (Scene × Task)) : Engine :=
  runs.foldl (fun engine run => (engine.run run.1 run.2).2) engine

theorem Reached.runAll {allowed : Settings → Prop} {engine : Engine} (runs : List (Scene × Task))
    (reached : Reached allowed engine.store.tables)
    (fit : ∀ run ∈ runs, allowed run.1.settings ∧ run.1.hooks.WriteNothing) :
    Reached allowed (engine.runAll runs).store.tables := by
  induction runs generalizing engine with
  | nil => exact reached
  | cons run rest ih =>
      obtain ⟨settings, quiet⟩ := fit run List.mem_cons_self
      exact ih (.run engine run.1 run.2 reached settings quiet)
        fun other inside => fit other (List.mem_cons_of_mem run inside)

/-! A small tree to try statements on: two folders and a document in one of them, made by one
account, and what that account grants another. -/

namespace Sample

def id (n : Nat) : Id := Id.ofNat n

theorem id_ne {m n : Nat} (small : m < 1000) (small' : n < 1000) (different : m ≠ n) :
    id m ≠ id n := by
  intro same
  have wide : 1000 ≤ Nat.pow 2 128 := by decide
  have equal : m % Nat.pow 2 128 = n % Nat.pow 2 128 := congrArg (fun id => id.number.val) same
  rw [Nat.mod_eq_of_lt (small.trans_le wide), Nat.mod_eq_of_lt (small'.trans_le wide)] at equal
  exact different equal

def sceneOf (actor : Id) : Scene where
  actor := actor
  now := default
  ids := fun drawn => id (100 + drawn)
  settings := {}
  hooks := {}

theorem quiet (actor : Id) : (sceneOf actor).hooks.WriteNothing := by
  intro hook inside
  cases inside

def owner : Id := id 1

def guest : Id := id 2

def firstFolder : Path := .root (id 100)

def first : Item := .make (id 100) firstFolder "first" .folder .null owner default

def secondFolder : Item :=
  .make (id 102) (.root (id 102)) "second" .folder .null owner default

def document : Item :=
  .make (id 104) (firstFolder.child (id 104)) "notes" .document .null owner default

def upper : Membership := .make (id 105) firstFolder guest .read owner default

def lower : Membership := .make (id 106) document.path guest .write owner default

def tasks : List Task :=
  [.createItem (.folder "first"), .createItem (.folder "second"),
    .createItem ((NewItem.ofType "notes" .document).under (id 100)),
    .createMembership (id 100) guest .read, .createMembership (id 104) guest .write]

def engine : Engine :=
  (Engine.ofStore .inMemory).runAll (tasks.map fun task => (sceneOf owner, task))

theorem reached_after {allowed : Settings → Prop} (fits : allowed {}) (tasks : List Task) :
    Reached allowed ((Engine.ofStore .inMemory).runAll
      (tasks.map fun task => (sceneOf owner, task))).store.tables := by
  refine Reached.runAll _ .empty fun run inside => ?_
  obtain ⟨task, _, rfl⟩ := List.mem_map.mp inside
  exact ⟨fits, quiet owner⟩

theorem reached {allowed : Settings → Prop} (fits : allowed {}) :
    Reached allowed engine.store.tables := reached_after fits tasks

theorem reached_any : Reached (fun _ => True) engine.store.tables := reached trivial

end Sample

theorem Reached.sound_within {tables : Tables}
    (reached : Reached (fun settings => settings.maxTreeLevels ≤ levels) tables) :
    tables.Sound levels := by
  induction reached with
  | empty => exact empty_sound levels
  | run engine scene task _ limit quiet ih => exact (engine.run_effect task quiet limit ih).1

/-- Without a common limit on the levels there still is one that all runs so far have kept. -/
theorem Reached.sound {allowed : Settings → Prop} {tables : Tables}
    (reached : Reached allowed tables) :
    ∃ levels, tables.Sound levels := by
  induction reached with
  | empty => exact ⟨0, empty_sound 0⟩
  | run engine scene task _ _ quiet ih =>
      obtain ⟨levels, sound⟩ := ih
      have wider := sound.mono (Nat.le_max_left levels scene.settings.maxTreeLevels)
      exact ⟨_, (engine.run_effect task quiet (Nat.le_max_right _ _) wider).1⟩

theorem Reached.sound_for {allowed : Settings → Prop} {tables : Tables}
    (reached : Reached allowed tables) (scene : Scene) :
    ∃ levels, scene.settings.maxTreeLevels ≤ levels ∧ tables.Sound levels := by
  obtain ⟨levels, sound⟩ := reached.sound
  exact ⟨_, Nat.le_max_right _ _, sound.mono (Nat.le_max_left levels scene.settings.maxTreeLevels)⟩

theorem Reached.imp {allowed more : Settings → Prop} {tables : Tables}
    (reached : Reached allowed tables) (imp : ∀ settings, allowed settings → more settings) :
    Reached more tables := by
  induction reached with
  | empty => exact .empty
  | run engine scene task _ fits quiet ih => exact .run engine scene task ih (imp _ fits) quiet

/-- The rows are well-formed after any runs under one limit on the levels. -/
theorem reached_wellFormed {tables : Tables}
    (reached : Reached (fun settings => settings.maxTreeLevels = levels) tables) :
    tables.WellFormed levels := by
  have sound := Reached.sound_within (reached.imp fun _ same => Nat.le_of_eq same)
  exact sound.indexed.wellFormed sound.shape

theorem sample_wellFormed :
    Reached (fun settings => settings.maxTreeLevels = 15) Sample.engine.store.tables ∧
      Sample.engine.store.tables.items[Sample.document.id]? = some Sample.document ∧
      Sample.engine.store.tables.WellFormed 15 :=
  ⟨Sample.reached rfl, by decide +kernel, reached_wellFormed (Sample.reached rfl)⟩

/-- Of two memberships of an account, one strictly below the other, the lower one is the stronger
after any runs. -/
theorem reached_graded {allowed : Settings → Prop} {tables : Tables}
    (reached : Reached allowed tables)
    {a b : Id} {upper lower : Membership} (first : tables.memberships[a]? = some upper)
    (second : tables.memberships[b]? = some lower) (holder : upper.account = lower.account)
    (above : upper.itemPath.isAncestorOf lower.itemPath = true) :
    upper.permission < lower.permission := by
  obtain ⟨levels, sound⟩ := reached.sound
  exact sound.graded upper lower (sound.indexed.hasRow first)
    (sound.indexed.hasRow second) holder above

theorem sample_graded :
    Sample.engine.store.tables.memberships[Sample.upper.id]? = some Sample.upper ∧
      Sample.engine.store.tables.memberships[Sample.lower.id]? = some Sample.lower ∧
      Sample.upper.itemPath.isAncestorOf Sample.lower.itemPath = true ∧
      Sample.upper.permission < Sample.lower.permission := by
  have first : Sample.engine.store.tables.memberships[Sample.upper.id]? = some Sample.upper := by
    decide +kernel
  have second : Sample.engine.store.tables.memberships[Sample.lower.id]? = some Sample.lower := by
    decide +kernel
  have above : Sample.upper.itemPath.isAncestorOf Sample.lower.itemPath = true := by
    decide +kernel
  exact ⟨first, second, above, reached_graded Sample.reached_any first second rfl above⟩

end SharedTree
