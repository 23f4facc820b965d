import SharedTree.Membership
import SharedTree.Task.Kind
/-!
Why a task, a row operation or a setting is refused. Every error is a cause with its data; the
wording is in the `message` functions.
-/
namespace SharedTree

inductive LevelFault where
  | unknown (name : String)
  | weakerThanInherited (asked inherited : Permission) (item : Id)
  | stated (text : String)
deriving DecidableEq

inductive FileFault where
  | notFound
  | notDirectory
  | isDirectory
  | noSpace
  | nameTooLong
  | notText
  | stated (text : String)
deriving DecidableEq

inductive JournalFault where
  | directoryNotCreated (directory : String)
  | foreignFile (file : String)
  | disk (cause : FileFault)
  | unusable (file : String)
  | frameNotWritten
  | frameNotCutBack (length : Nat)
deriving DecidableEq

inductive StoreCall where
  | begin
  | commit
  | rollback
deriving DecidableEq

inductive StorageFault where
  | itemExists (id : Id)
  | pathTaken (path : Path)
  | membershipExists (id : Id)
  | nothingToRelease
  | nothingToRollBackTo
  | commitNotJournaled (cause : JournalFault)
  | journal (cause : JournalFault)
  | refused (call : StoreCall)
  | notAnItem
  | stated (text : String)
deriving DecidableEq

inductive SettingsFault where
  | notANumber (setting text : String)
  | unknownCascadeMode (name : String)
  | notPositive (limit : String)
  | unreadable (file : String) (cause : FileFault)
  | malformed (file : String)
  | stated (text : String)
deriving DecidableEq

inductive Error where
  | insufficientPermission (account item : Id) (required : Permission)
  | invalidPermissionLevel (cause : LevelFault)
  | tooManyDescendants (item : Id) (count limit : Nat)
  | tooManyMemberships (count limit : Nat)
  | itemNotFound (id : Id)
  | membershipNotFound (id : Id)
  | invalidPath (text : String)
  | itemNotFolder (id : Id)
  | invalidMoveTarget (item : Id) (target : Option Id)
  | hierarchyTooDeep (levels limit : Nat)
  | modifyExistingMembership (id : Id)
  | itemHasChildren (id : Id)
  | hook (kind : TaskKind) (reason : String)
  | storage (cause : StorageFault)
  | settings (cause : SettingsFault)
deriving DecidableEq

def Id.shown (id : Id) : String := String.ofList id.text

def Path.shown (path : Path) : String := String.ofList path.text

def shownNumber (number : Nat) : String := String.ofList (Decimal.digits number)

namespace LevelFault

def message : LevelFault → String
  | unknown name => "unknown permission '" ++ name ++ "'"
  | weakerThanInherited asked inherited item =>
      asked.name ++ " is weaker than the " ++ inherited.name ++ " inherited from " ++ item.shown
  | stated text => text

end LevelFault

namespace FileFault

def message : FileFault → String
  | notFound => "No such file or directory (os error 2)"
  | notDirectory => "Not a directory (os error 20)"
  | isDirectory => "Is a directory (os error 21)"
  | noSpace => "No space left on device (os error 28)"
  | nameTooLong => "File name too long (os error 36)"
  | notText => "stream did not contain valid UTF-8"
  | stated text => text

end FileFault

namespace JournalFault

def message : JournalFault → String
  | directoryNotCreated directory => "creating journal directory " ++ directory
  | foreignFile file => file ++ " is not a grove journal"
  | disk cause => cause.message
  | unusable file => "journal " ++ file ++ " is unusable after a failed append"
  | frameNotWritten => "writing journal frame"
  | frameNotCutBack length =>
      "failed append could not be cut back to " ++ shownNumber length ++ " bytes: " ++
        FileFault.noSpace.message

end JournalFault

namespace StoreCall

def name : StoreCall → String
  | begin => "begin"
  | commit => "commit"
  | rollback => "rollback"

end StoreCall

namespace StorageFault

def message : StorageFault → String
  | itemExists id => "item " ++ id.shown ++ " already exists"
  | pathTaken path => "path " ++ path.shown ++ " is taken"
  | membershipExists id => "membership " ++ id.shown ++ " already exists"
  | nothingToRelease => "no savepoint to release"
  | nothingToRollBackTo => "no savepoint to roll back to"
  | commitNotJournaled _ => "journal append failed"
  | journal cause => cause.message
  | refused call => call.name ++ " refused"
  | notAnItem => "expected an item"
  | stated text => text

end StorageFault

namespace SettingsFault

def message : SettingsFault → String
  | notANumber setting text => setting ++ " is not a number: '" ++ text ++ "'"
  | unknownCascadeMode name => "unknown cascade mode '" ++ name ++ "'"
  | notPositive limit => limit ++ " must be positive"
  | unreadable file cause => "reading " ++ file ++ ": " ++ cause.message
  | malformed file => "parsing " ++ file
  | stated text => text

end SettingsFault

namespace Error

def message : Error → String
  | insufficientPermission account item required =>
      "account " ++ account.shown ++ " needs " ++ required.name ++ " permission on item " ++ item.shown
  | invalidPermissionLevel cause => "invalid permission level: " ++ cause.message
  | tooManyDescendants item count limit =>
      "item " ++ item.shown ++ " has " ++ shownNumber count ++ " descendants, limit is " ++
        shownNumber limit
  | tooManyMemberships count limit =>
      "operation touches " ++ shownNumber count ++ " memberships, limit is " ++ shownNumber limit
  | itemNotFound id => "item not found: " ++ id.shown
  | membershipNotFound id => "membership not found: " ++ id.shown
  | invalidPath text => "malformed item path: '" ++ text ++ "'"
  | itemNotFolder id => "item " ++ id.shown ++ " is not a folder"
  | invalidMoveTarget item none => "item " ++ item.shown ++ " cannot be moved under None"
  | invalidMoveTarget item (some target) =>
      "item " ++ item.shown ++ " cannot be moved under Some(" ++ target.shown ++ ")"
  | hierarchyTooDeep levels limit =>
      "hierarchy of " ++ shownNumber levels ++ " levels exceeds the limit of " ++ shownNumber limit
  | modifyExistingMembership id =>
      "membership " ++ id.shown ++ " already exists, update it instead"
  | itemHasChildren id => "item " ++ id.shown ++ " still has children"
  | hook kind reason => kind.name ++ " hook failed: " ++ reason
  | storage cause => "storage error: " ++ cause.message
  | settings cause => "invalid configuration: " ++ cause.message

def kind : Error → String
  | insufficientPermission _ _ _ => "InsufficientPermission"
  | invalidPermissionLevel _ => "InvalidPermissionLevel"
  | tooManyDescendants _ _ _ => "TooManyDescendants"
  | tooManyMemberships _ _ => "TooManyMemberships"
  | itemNotFound _ => "ItemNotFound"
  | membershipNotFound _ => "MembershipNotFound"
  | invalidPath _ => "InvalidPath"
  | itemNotFolder _ => "ItemNotFolder"
  | invalidMoveTarget _ _ => "InvalidMoveTarget"
  | hierarchyTooDeep _ _ => "HierarchyTooDeep"
  | modifyExistingMembership _ => "ModifyExistingMembership"
  | itemHasChildren _ => "ItemHasChildren"
  | hook _ _ => "Hook"
  | storage _ => "Storage"
  | settings _ => "Config"

/-- True of the errors that checks and plans give; the others can also come from a hook, the store
or a row that still has rows below it. -/
def isPrecheck : Error → Bool
  | hook _ _ => false
  | storage _ => false
  | itemHasChildren _ => false
  | _ => true

def isAuthorization : Error → Bool
  | insufficientPermission _ _ _ => true
  | invalidPermissionLevel _ => true
  | _ => false

def isCapacity : Error → Bool
  | tooManyDescendants _ _ _ => true
  | tooManyMemberships _ _ => true
  | _ => false

end Error

def Permission.named (text : String) : Except Error Permission :=
  let lowered := String.ofList (Text.lowerAscii text.toList)
  match ofName? lowered with
  | some level => .ok level
  | none => .error (.invalidPermissionLevel (.unknown lowered))

def Path.read (text : String) : Except Error Path :=
  match parse? text.toList with
  | some path => .ok path
  | none => .error (.invalidPath text)

def Path.rebase (path old new : Path) : Except Error Path :=
  match path.rebase? old new with
  | some rebased => .ok rebased
  | none => .error (.invalidPath path.shown)

end SharedTree
