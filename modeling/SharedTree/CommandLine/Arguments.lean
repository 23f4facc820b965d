import SharedTree.Membership
import SharedTree.Error
/-!
The arguments of a command line, taken apart into options and operands. An option has a long name
behind two hyphens and may have a letter behind one; its value follows in the same argument, behind
an equals sign, or in the next one, and there it must not begin with a hyphen. Behind two hyphens
alone everything is an operand. Arguments are looked at from left to right, and the first that is
wrong or asks for help decides. Main statement: `take_length`, an option takes no argument twice.
-/
namespace SharedTree.CommandLine

inductive Refusal where
  | misuse
  | help
deriving DecidableEq

inductive ValueForm where
  | text
  | fileName
  | id
  | itemType
  | permission
deriving DecidableEq

def readId? (text : String) : Option Id := Id.parse? text.toList

def readType? (text : String) : Option ItemType := (ItemType.named text).toOption

def readPermission? (text : String) : Option Permission := (Permission.named text).toOption

def readFileName? (text : String) : Option String := if text = "" then none else some text

def ValueForm.accepts (form : ValueForm) (value : String) : Bool :=
  match form with
  | text => true
  | fileName => (readFileName? value).isSome
  | id => (readId? value).isSome
  | itemType => (readType? value).isSome
  | permission => (readPermission? value).isSome

/-- An option. One without a form of values is on or off. -/
structure Flag where
  name : String
  letter : Option Char := none
  form : Option ValueForm := none
deriving DecidableEq

def Flag.accepts (flag : Flag) (value : String) : Bool :=
  match flag.form with
  | some form => form.accepts value
  | none => true

structure Usage where
  flags : List Flag := []
  operands : List ValueForm := []
deriving DecidableEq

structure Matches where
  options : List (Flag × String) := []
  operands : List String := []
deriving DecidableEq

namespace Matches

def value? (found : Matches) (name : String) : Option String :=
  (found.options.find? fun option => option.1.name == name).map Prod.snd

def has (found : Matches) (name : String) : Bool := (found.value? name).isSome

def addOption (found : Matches) (flag : Flag) (value : String) : Except Refusal Matches :=
  if found.has flag.name || !flag.accepts value then .error .misuse
  else .ok { found with options := found.options ++ [(flag, value)] }

def addOperand (found : Matches) (usage : Usage) (operand : String) : Except Refusal Matches :=
  match usage.operands[found.operands.length]? with
  | some form =>
      if form.accepts operand then .ok { found with operands := found.operands ++ [operand] }
      else .error .misuse
  | none => .error .misuse

end Matches

inductive Shape where
  | long (name : String) (value : Option String)
  | short (letter : Char) (value : Option String)
  | escape
  | operand
deriving DecidableEq

def splitValue (text : List Char) : String × Option String :=
  let name := text.takeWhile fun c => c != '='
  match text.drop name.length with
  | _ :: value => (String.ofList name, some (String.ofList value))
  | [] => (String.ofList name, none)

/-- What an argument looks like. A single hyphen alone is an operand. -/
def shapeOf (argument : String) : Shape :=
  match argument.toList with
  | ['-', '-'] => .escape
  | '-' :: '-' :: text =>
      let (name, value) := splitValue text
      .long name value
  | '-' :: letter :: '=' :: value => .short letter (some (String.ofList value))
  | ['-', letter] => .short letter none
  | '-' :: letter :: value => .short letter (some (String.ofList value))
  | _ => .operand

def isOperand (argument : String) : Bool := shapeOf argument == .operand

def flagOf (flags : List Flag) : Shape → Except Refusal (Flag × Option String)
  | .long name value =>
      match flags.find? fun flag => flag.name == name with
      | some flag => .ok (flag, value)
      | none => .error (if name = "help" ∧ value = none then .help else .misuse)
  | .short letter value =>
      match flags.find? fun flag => flag.letter == some letter with
      | some flag => .ok (flag, value)
      | none => .error (if letter = 'h' then .help else .misuse)
  | _ => .error .misuse

structure Taken where
  flag : Flag
  value : String
  apart : Bool
  rest : List String

def take (flags : List Flag) (argument : String) (rest : List String) : Except Refusal Taken :=
  match flagOf flags (shapeOf argument) with
  | .error refusal => .error refusal
  | .ok (flag, some value) =>
      if flag.form.isSome then .ok ⟨flag, value, false, rest⟩ else .error .misuse
  | .ok (flag, none) =>
      if flag.form.isSome then
        match rest with
        | value :: tail => if isOperand value then .ok ⟨flag, value, true, tail⟩ else .error .misuse
        | [] => .error .misuse
      else .ok ⟨flag, "", false, rest⟩

theorem take_length (flags : List Flag) (argument : String) (rest : List String) (taken : Taken)
    (found : take flags argument rest = .ok taken) : taken.rest.length ≤ rest.length := by
  unfold take at found
  split at found
  · simp at found
  · split at found
    · simp only [Except.ok.injEq] at found
      simp [← found]
    · simp at found
  · split at found
    · split at found
      · split at found
        · simp only [Except.ok.injEq] at found
          simp [← found]
        · simp at found
      · simp at found
    · simp only [Except.ok.injEq] at found
      simp [← found]

def scan (usage : Usage) (found : Matches) (arguments : List String) : Except Refusal Matches :=
  match arguments with
  | [] => .ok found
  | argument :: rest =>
      match shapeOf argument with
      | .escape => rest.foldlM (fun matched operand => matched.addOperand usage operand) found
      | .operand =>
          match found.addOperand usage argument with
          | .ok more => scan usage more rest
          | .error refusal => .error refusal
      | _ =>
          match read : take usage.flags argument rest with
          | .ok taken =>
              have _ := take_length usage.flags argument rest taken read
              match found.addOption taken.flag taken.value with
              | .ok more => scan usage more taken.rest
              | .error refusal => .error refusal
          | .error refusal => .error refusal
termination_by arguments.length
decreasing_by all_goals simp +arith; try omega

structure Lead where
  found : Matches
  waiting : Option (Flag × String)
  rest : List String

def Lead.settle (lead : Lead) : Except Refusal Matches :=
  match lead.waiting with
  | some (flag, value) => lead.found.addOption flag value
  | none => .ok lead.found

/-- Takes apart the arguments before a command. An option whose value stands right before the
command waits until the command's own arguments were read. -/
def scanLead (flags : List Flag) (found : Matches) (arguments : List String) :
    Except Refusal Lead :=
  match arguments with
  | [] => .ok ⟨found, none, []⟩
  | argument :: rest =>
      if isOperand argument then .ok ⟨found, none, argument :: rest⟩
      else
        match read : take flags argument rest with
        | .ok taken =>
            have _ := take_length flags argument rest taken read
            if taken.apart ∧ (taken.rest.head?.map isOperand).getD false then
              .ok ⟨found, some (taken.flag, taken.value), taken.rest⟩
            else
              match found.addOption taken.flag taken.value with
              | .ok more => scanLead flags more taken.rest
              | .error refusal => .error refusal
        | .error refusal => .error refusal
termination_by arguments.length
decreasing_by all_goals simp +arith; try omega

end SharedTree.CommandLine
