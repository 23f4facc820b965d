import SharedTree.Proofs.Action.Failure
import SharedTree.Proofs.Tables.Regions
/-!
Actions that look at a region and write to it. Such an action, run on two works that are alike
there, ends in the same way, leaves works that are alike again and keeps what is outside
(`Action.Local`). It follows for an action from its parts: the questions have the same answers, the
identifiers drawn are those that the region has for new rows, and each row written is one of the
region.
-/
namespace SharedTree

open Tables

def RowOp.Within (region : Region) : RowOp → Prop
  | insertItem item => item.id ∈ region.made ∧ item.path.top ∈ region.trees
  | updateItem item => item.id ∈ region.items ∧ item.path.top ∈ region.trees
  | deleteItem id => id ∈ region.items
  | insertMembership row => row.id ∈ region.made ∧ row.itemPath.top ∈ region.trees
  | updateMembership row => row.id ∈ region.memberships ∧ row.itemPath.top ∈ region.trees
  | deleteMembership id => id ∈ region.memberships
  | _ => False

/-- Two works are alike in a region, and the identifiers that they draw next, up to so many drawn in
all, are for new rows of the region. -/
structure Work.Alike (region : Region) (ids : Nat → Id) (most : Nat) (left right : Work) :
    Prop where
  tables : left.tables.Alike region right.tables
  drawn : left.drawn = right.drawn
  within : left.drawn ≤ most
  supplied : ∀ n, left.drawn ≤ n → n < most → ids n ∈ region.made

structure Action.EndsAlike {Answer : Type} (region : Region) (ids : Nat → Id) (most : Nat)
    (before : Work) (left right : Except Error Answer × Work) : Prop where
  same : left.1 = right.1
  works : left.2.Alike region ids most right.2
  keeps : before.tables.KeepsOutside region left.2.tables

variable {region : Region} {ids : Nat → Id} {most : Nat} {left right : Work}

theorem Work.Alike.begun (works : left.Alike region ids most right) {first second : Transaction}
    (alike : first.tables.Alike region second.tables) :
    Work.Alike region ids most { left with transaction := first }
      { right with transaction := second } :=
  ⟨alike, works.drawn, works.within, works.supplied⟩

theorem Work.Alike.renewed (works : left.Alike region ids most right) :
    left.renewed.Alike region ids most right.renewed := works.begun works.tables

namespace Action

variable {Answer Next : Type} {scene : Scene}

theorem EndsAlike.stay (works : left.Alike region ids most right) (result : Except Error Answer) :
    EndsAlike region ids most left (result, left) (result, right) :=
  ⟨rfl, works, .refl region left.tables⟩

theorem EndsAlike.write (works : left.Alike region ids most right) (answer : Answer)
    {first second : Transaction} (alike : first.tables.Alike region second.tables)
    (keeps : left.tables.KeepsOutside region first.tables) :
    EndsAlike region ids most left (.ok answer, { left with transaction := first })
      (.ok answer, { right with transaction := second }) :=
  ⟨rfl, works.begun alike, keeps⟩

section Operations

variable (works : left.Alike region ids most right)
include works

theorem perform_insertItem {item : Item} (new : item.id ∈ region.made)
    (inside : item.path.top ∈ region.trees) :
    EndsAlike region ids most left (left.perform (.insertItem item))
      (right.perform (.insertItem item)) := by
  have listed := region.made_item item.id new
  have unused : left.transaction.tables.items[item.id]? =
      right.transaction.tables.items[item.id]? := works.tables.items item.id listed
  have free : left.transaction.tables.itemPaths[item.path]? =
      right.transaction.tables.itemPaths[item.path]? := works.tables.itemPath inside
  dsimp only [Work.perform, Transaction.apply, Transaction.insertItem]
  simp only [Std.ExtTreeMap.contains_eq_isSome_getElem?, unused, free]
  split_ifs with taken
  · exact .stay works _
  · simp only [Bool.or_eq_true, not_or, Bool.not_eq_true, Option.isSome_eq_false_iff,
      Option.isNone_iff_eq_none] at taken
    have indexed : (left.tables.putItem item).Indexed :=
      works.tables.fits_left.indexed.putItem_own (by simp [Work.tables, free, taken.2])
    have indexed' : (right.tables.putItem item).Indexed :=
      works.tables.fits_right.indexed.putItem_own (by simp [Work.tables, taken.2])
    exact .write works true (works.tables.putItem listed inside indexed indexed')
      (.putItem left.tables listed (.inl new))

theorem perform_updateItem {item : Item} (listed : item.id ∈ region.items)
    (inside : item.path.top ∈ region.trees) :
    EndsAlike region ids most left (left.perform (.updateItem item))
      (right.perform (.updateItem item)) := by
  have known : left.transaction.tables.items[item.id]? = right.transaction.tables.items[item.id]? :=
    works.tables.items item.id listed
  have taken : left.transaction.tables.itemPaths[item.path]? =
      right.transaction.tables.itemPaths[item.path]? := works.tables.itemPath inside
  dsimp only [Work.perform, Transaction.apply, Transaction.updateItem]
  rw [known, taken]
  cases found : right.transaction.tables.items[item.id]? with
  | none => exact .stay works _
  | some before =>
      dsimp only
      split_ifs with other
      · exact .stay works _
      · have own (id : Id) (entry : right.transaction.tables.itemPaths[item.path]? = some id) :
            id = item.id := by
          simpa [entry] using other
        have indexed : (left.tables.putItem item).Indexed :=
          works.tables.fits_left.indexed.putItem_own (taken ▸ own)
        have indexed' : (right.tables.putItem item).Indexed :=
          works.tables.fits_right.indexed.putItem_own own
        have stands : left.tables.items[item.id]? ≠ none := by
          rw [works.tables.items item.id listed, Work.tables, found]
          exact Option.some_ne_none before
        exact .write works true (works.tables.putItem listed inside indexed indexed')
          (.putItem left.tables listed (.inr stands))

theorem perform_deleteItem {id : Id} (listed : id ∈ region.items) :
    EndsAlike region ids most left (left.perform (.deleteItem id))
      (right.perform (.deleteItem id)) := by
  have known : left.transaction.tables.items[id]? = right.transaction.tables.items[id]? :=
    works.tables.items id listed
  dsimp only [Work.perform, Transaction.apply, Transaction.deleteItem]
  rw [known]
  cases found : right.transaction.tables.items[id]? with
  | none => exact .stay works _
  | some before =>
      exact .write works true (works.tables.removeItem id) (.removeItem left.tables listed)

theorem perform_insertMembership {row : Membership} (new : row.id ∈ region.made)
    (inside : row.itemPath.top ∈ region.trees) :
    EndsAlike region ids most left (left.perform (.insertMembership row))
      (right.perform (.insertMembership row)) := by
  have listed := region.made_membership row.id new
  have unused : left.transaction.tables.memberships[row.id]? =
      right.transaction.tables.memberships[row.id]? := works.tables.memberships row.id listed
  have free : left.transaction.tables.membershipIdAt? row.account row.itemPath =
      right.transaction.tables.membershipIdAt? row.account row.itemPath :=
    works.tables.membershipIdAt row.account inside
  dsimp only [Work.perform, Transaction.apply, Transaction.insertMembership]
  simp only [Std.ExtTreeMap.contains_eq_isSome_getElem?, unused, free]
  cases vacant : right.transaction.tables.membershipIdAt? row.account row.itemPath with
  | some existing => exact .stay works _
  | none =>
      dsimp only
      split_ifs with used
      · exact .stay works _
      · have indexed : (left.tables.putMembership row).Indexed :=
          works.tables.fits_left.indexed.putMembership_own (by simp [Work.tables, free, vacant])
        have indexed' : (right.tables.putMembership row).Indexed :=
          works.tables.fits_right.indexed.putMembership_own (by simp [Work.tables, vacant])
        exact .write works true (works.tables.putMembership listed inside indexed indexed')
          (.putMembership left.tables listed (.inl new))

theorem perform_updateMembership {row : Membership} (listed : row.id ∈ region.memberships)
    (inside : row.itemPath.top ∈ region.trees) :
    EndsAlike region ids most left (left.perform (.updateMembership row))
      (right.perform (.updateMembership row)) := by
  have known : left.transaction.tables.memberships[row.id]? =
      right.transaction.tables.memberships[row.id]? := works.tables.memberships row.id listed
  have taken : left.transaction.tables.membershipIdAt? row.account row.itemPath =
      right.transaction.tables.membershipIdAt? row.account row.itemPath :=
    works.tables.membershipIdAt row.account inside
  dsimp only [Work.perform, Transaction.apply, Transaction.updateMembership]
  rw [known, taken]
  cases found : right.transaction.tables.memberships[row.id]? with
  | none => exact .stay works _
  | some before =>
      dsimp only
      cases another : (right.transaction.tables.membershipIdAt? row.account row.itemPath).filter
          fun other => other != row.id with
      | some other => exact .stay works _
      | none =>
          have own (id : Id) (entry : right.transaction.tables.membershipIdAt? row.account
              row.itemPath = some id) : id = row.id := by
            simpa [entry] using another
          have indexed : (left.tables.putMembership row).Indexed :=
            works.tables.fits_left.indexed.putMembership_own (taken ▸ own)
          have indexed' : (right.tables.putMembership row).Indexed :=
            works.tables.fits_right.indexed.putMembership_own own
          have stands : left.tables.memberships[row.id]? ≠ none := by
            rw [works.tables.memberships row.id listed, Work.tables, found]
            exact Option.some_ne_none before
          exact .write works true (works.tables.putMembership listed inside indexed indexed')
            (.putMembership left.tables listed (.inr stands))

theorem perform_deleteMembership {id : Id} (listed : id ∈ region.memberships) :
    EndsAlike region ids most left (left.perform (.deleteMembership id))
      (right.perform (.deleteMembership id)) := by
  have known : left.transaction.tables.memberships[id]? =
      right.transaction.tables.memberships[id]? := works.tables.memberships id listed
  dsimp only [Work.perform, Transaction.apply, Transaction.deleteMembership]
  rw [known]
  cases found : right.transaction.tables.memberships[id]? with
  | none => exact .stay works _
  | some before =>
      exact .write works true (works.tables.removeMembership id)
        (.removeMembership left.tables listed)

/-- A row operation that writes to the region does the same to both works. -/
theorem perform_alike {op : RowOp} (within : op.Within region) :
    EndsAlike region ids most left (left.perform op) (right.perform op) := by
  cases op with
  | insertItem item => exact perform_insertItem works within.1 within.2
  | updateItem item => exact perform_updateItem works within.1 within.2
  | deleteItem id => exact perform_deleteItem works within
  | insertMembership row => exact perform_insertMembership works within.1 within.2
  | updateMembership row => exact perform_updateMembership works within.1 within.2
  | deleteMembership id => exact perform_deleteMembership works within
  | savepoint => exact within.elim
  | releaseSavepoint => exact within.elim
  | rollbackToSavepoint => exact within.elim

end Operations

theorem EndsAlike.after {before : Work} {first second : Except Error Answer × Work}
    (keeps : before.tables.KeepsOutside region left.tables)
    (ends : EndsAlike region ids most left first second) :
    EndsAlike region ids most before first second :=
  ⟨ends.same, ends.works, keeps.trans ends.keeps⟩

/-- Unless it draws more identifiers than that, the action does the same to both works, in the
region and nowhere else. -/
def Local (region : Region) (ids : Nat → Id) (most : Nat) (action : Action Answer)
    (left right : Work) : Prop :=
  (action.ending left).2.drawn ≤ most →
    EndsAlike region ids most left (action.ending left) (action.ending right)

section Parts

variable {action : Action Answer} {next : Answer → Action Next}

theorem local_pure (works : left.Alike region ids most right) (answer : Answer) :
    Local region ids most (pure answer) left right := fun _ => .stay works _

theorem local_throw (works : left.Alike region ids most right) (cause : Error) :
    Local region ids most (throw cause : Action Answer) left right := fun _ => .stay works _

theorem local_ite (condition : Prop) [Decidable condition] {first second : Action Answer}
    (yes : condition → first.Local region ids most left right)
    (no : ¬ condition → second.Local region ids most left right) :
    Local region ids most (if condition then first else second) left right := by
  split
  · exact yes ‹_›
  · exact no ‹_›

/-- The bound on what a sequence draws is one on what its first part draws, as is asked here. -/
theorem local_seq (first : action.Local region ids most left right)
    (bounded : ∀ answer middle, action.Gives left answer middle →
      ((next answer).ending middle).2.drawn ≤ most → middle.drawn ≤ most)
    (later : ∀ answer middle middle', action.Gives left answer middle →
      action.Gives right answer middle' → middle.Alike region ids most middle' →
      (next answer).Local region ids most middle middle') :
    (action >>= next).Local region ids most left right := by
  intro within
  rw [ending_bind] at within
  rw [ending_bind, ending_bind]
  cases ran : action.ending left with
  | mk result middle =>
      cases ran' : action.ending right with
      | mk result' middle' =>
          unfold Local at first
          rw [ran, ran'] at first
          rw [ran] at within
          cases result with
          | error cause =>
              obtain ⟨rfl, works, keeps⟩ := first within
              exact ⟨rfl, works, keeps⟩
          | ok answer =>
              obtain ⟨rfl, works, keeps⟩ := first (bounded answer middle ran within)
              exact (later answer middle middle' ran ran' works within).after keeps

theorem local_bind (bare : scene.hooks.pre = []) (built : ∀ answer, (next answer).Built scene)
    (first : action.Local region ids most left right)
    (later : ∀ answer middle middle', action.Gives left answer middle →
      action.Gives right answer middle' → middle.Alike region ids most middle' →
      (next answer).Local region ids most middle middle') :
    (action >>= next).Local region ids most left right :=
  local_seq first
    (fun answer middle _ within => Nat.le_trans ((built answer).drawn_le bare middle) within) later

/-- What comes after a part that leaves the work as it is. -/
theorem local_of_still (works : left.Alike region ids most right)
    (first : action.Local region ids most left right)
    (still : ∀ work answer after, action.Gives work answer after → work = after)
    (later : ∀ answer, action.Gives left answer left →
      (next answer).Local region ids most left right) :
    (action >>= next).Local region ids most left right := by
  refine local_seq first (fun answer middle ran _ => ?_) fun answer middle middle' ran ran' _ => ?_
  · exact still left answer middle ran ▸ works.within
  · obtain rfl := still left answer middle ran
    obtain rfl := still right answer middle' ran'
    exact later answer ran

theorem local_of_demand (works : left.Alike region ids most right)
    {question : Tables → Except Error Answer}
    (same : question left.tables = question right.tables)
    (later : ∀ answer, question left.tables = .ok answer →
      (next answer).Local region ids most left right) :
    (demand question >>= next).Local region ids most left right := by
  refine local_of_still works (fun _ => ?_) (fun _ _ _ gives => ((gives_demand _ _).mp gives).2)
    fun answer gives => later answer ((gives_demand _ _).mp gives).1
  exact ⟨same, works, .refl region left.tables⟩

theorem local_of_ask (works : left.Alike region ids most right) {question : Tables → Answer}
    (same : question left.tables = question right.tables)
    (later : (next (question left.tables)).Local region ids most left right) :
    (ask question >>= next).Local region ids most left right := by
  let reply : Tables → Except Error Answer := fun tables => .ok (question tables)
  have agreed : reply left.tables = reply right.tables := congrArg Except.ok same
  refine local_of_demand works agreed fun answer ok => ?_
  cases ok
  exact later

theorem local_of_except (works : left.Alike region ids most right) {result : Except Error Answer}
    (later : ∀ answer, result = .ok answer → (next answer).Local region ids most left right) :
    Local region ids most (ExceptT.mk (pure result) >>= next) left right := by
  let reply : Tables → Except Error Answer := fun _ => result
  exact local_of_demand works (rfl : reply left.tables = reply right.tables) later

theorem local_of_throw (works : left.Alike region ids most right) (cause : Error) :
    ((throw cause : Action Answer) >>= next).Local region ids most left right :=
  fun _ => .stay works _

theorem local_of_draw (bare : scene.hooks.pre = [])
    (works : left.Alike region scene.ids most right) {next : Id → Action Next}
    (built : ∀ id, (next id).Built scene)
    (later : ∀ id ∈ region.made, ∀ middle middle', middle.tables = left.tables →
      middle.Alike region scene.ids most middle' →
      (next id).Local region scene.ids most middle middle') :
    (draw scene >>= next).Local region scene.ids most left right := by
  intro within
  rw [ending_bind] at within
  rw [ending_bind, ending_bind]
  have more : left.drawn + 1 ≤ most :=
    Nat.le_trans ((built _).drawn_le bare { left with drawn := left.drawn + 1 }) within
  have made := works.supplied left.drawn (Nat.le_refl _) more
  have drew : (draw scene).ending right =
      (.ok (scene.ids left.drawn), { right with drawn := left.drawn + 1 }) := by
    rw [works.drawn]
    rfl
  let advanced : Work := { left with drawn := left.drawn + 1 }
  have works' : advanced.Alike region scene.ids most { right with drawn := left.drawn + 1 } :=
    ⟨works.tables, rfl, more, fun n above => works.supplied n (Nat.le_of_succ_le above)⟩
  have kept : left.tables.KeepsOutside region advanced.tables := .refl region left.tables
  rw [drew]
  exact (later _ made advanced _ rfl works' within).after kept

theorem local_of_write (works : left.Alike region ids most right) {op : RowOp}
    {next : Bool → Action Next} (inside : op.Within region)
    (later : ∀ found middle middle', middle.Alike region ids most middle' →
      (next found).Local region ids most middle middle') :
    (write op >>= next).Local region ids most left right := by
  have wrote : (write op).Local region ids most left right := fun _ => perform_alike works inside
  refine local_seq wrote (fun found middle gives _ => ?_) fun found middle middle' _ _ =>
    later found middle middle'
  obtain ⟨_, _, rfl⟩ := (gives_write _ _).mp gives
  exact works.within

theorem local_of_checkLevels (works : left.Alike region ids most right) {levels : Nat}
    {next : Unit → Action Next} (later : (next ()).Local region ids most left right) :
    (checkLevels scene levels >>= next).Local region ids most left right :=
  local_of_still works
    (local_ite _ (fun _ => local_throw works _) fun _ => local_pure works ())
    (fun _ _ _ gives => (gives_checkLevels gives).2) fun _ _ => later

theorem local_of_checkDescendants (works : left.Alike region ids most right) {id : Id}
    {rows : List Item} {limit : Nat} {next : Unit → Action Next}
    (later : (next ()).Local region ids most left right) :
    (checkDescendants id rows limit >>= next).Local region ids most left right :=
  local_of_still works
    (local_ite _ (fun _ => local_throw works _) fun _ => local_pure works ())
    (fun _ _ _ gives => (gives_checkDescendants gives).2) fun _ _ => later

theorem local_of_callHooks (bare : scene.hooks.pre = [])
    (works : left.Alike region ids most right) {kind : TaskKind} {payload : HookPayload}
    {next : Unit → Action Next} (later : (next ()).Local region ids most left right) :
    (callHooks scene kind payload >>= next).Local region ids most left right := by
  refine local_of_still works (fun _ => ?_) (fun work _ after gives => ?_) fun _ _ => later
  · rw [callHooks_bare bare, callHooks_bare bare]
    exact .stay works _
  · rw [Gives, callHooks_bare bare] at gives
    exact congrArg Prod.snd gives

theorem local_forM (bare : scene.hooks.pre = []) {Row : Type} {body : Row → Action Unit}
    {rows : List Row} (built : ∀ row, (body row).Built scene)
    (turn : ∀ row ∈ rows, ∀ left right : Work, left.Alike region ids most right →
      (body row).Local region ids most left right)
    (works : left.Alike region ids most right) :
    (rows.forM body).Local region ids most left right := by
  induction rows generalizing left right with
  | nil => exact local_pure works ()
  | cons row rest ih =>
      rw [List.forM_eq_forM, List.forM_cons]
      exact local_bind bare (fun _ => built_forM rest built)
        (turn row List.mem_cons_self left right works) fun _ _ _ _ _ works' =>
          ih (fun other inside => turn other (List.mem_cons_of_mem row inside)) works'

end Parts

end Action

end SharedTree
