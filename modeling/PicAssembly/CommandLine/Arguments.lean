import PicAssembly.Text.Basic

/-!
# `PicAssembly.CommandLine.Arguments`: options on a command line

An option has a long name after two hyphens or more, or a letter after one, or
both. A flag has no value, so what an equals sign puts behind its long name is
dropped, and its letter can share a hyphen with others. An option with a value
has it behind an equals sign, directly behind its letter, or as the next
argument, unless that begins another option or there is none: then its value is
missing. Anything else is positional, and so is everything behind two hyphens
that stand alone.

A missing value is no mistake if something else can stand for it: the default of
an option, or a value that the same option is given elsewhere.
-/

set_option autoImplicit false

namespace PicAssembly

namespace CommandLine

/-- An option that a program knows, under the `key` that the program calls it. -/
structure Switch where
  key : Text
  long : Option Text
  letter : Option Char
  takesValue : Bool

/-- A piece of a command line. -/
inductive Argument where
  | flag (key : Text)
  | setting (key value : Text)
  /-- An option without the value that it takes. -/
  | bare (key : Text)
  | positional (text : Text)
  deriving DecidableEq, Repr

/-- Letters behind one hyphen, and the key of an option that still has no value. -/
def readLetters (switches : List Switch) : Text → Option (List Argument × Option Text)
  | [] => some ([], none)
  | letter :: rest => do
    let switch ← switches.find? (·.letter = some letter)
    if switch.takesValue then
      if rest.isEmpty then return ([], some switch.key)
      else return ([.setting switch.key (rest.dropWhile (· == '='))], none)
    else
      let (arguments, waiting) ← readLetters switches rest
      return (.flag switch.key :: arguments, waiting)

/-- What stands behind hyphens, and the key of an option that still has no value. -/
def readLong (switches : List Switch) (text : Text) : Option (List Argument × Option Text) := do
  let name := text.takeWhile (· != '=')
  let value := text.drop name.length
  let switch ← switches.find? (·.long = some name)
  match switch.takesValue, value with
  | true, [] => return ([], some switch.key)
  | true, value => return ([.setting switch.key (value.dropWhile (· == '='))], none)
  | false, _ => return ([.flag switch.key], none)

/-- Whether an argument begins an option, or ends all options. A hyphen that
stands alone does neither. -/
def startsOption (text : Text) : Bool := text.head? = some '-' && 1 < text.length

/-- The pieces of a command line. `waiting` is the key of an option that still has
no value. There is no answer for an option that is not known. -/
def readFrom (switches : List Switch) :
    List Text → (waiting : Option Text) → Option (List Argument)
  | [], waiting => some (waiting.map .bare).toList
  | text :: texts, waiting =>
    match waiting, startsOption text with
    | some key, false => (readFrom switches texts none).map (.setting key text :: ·)
    | _, _ =>
      let before := (waiting.map Argument.bare).toList
      match text with
      | ['-', '-'] => some (before ++ texts.map .positional)
      | '-' :: '-' :: option => do
        let (arguments, waiting) ← readLong switches (option.dropWhile (· == '-'))
        let others ← readFrom switches texts waiting
        return before ++ arguments ++ others
      | '-' :: letter :: letters => do
        let (arguments, waiting) ← readLetters switches (letter :: letters)
        let others ← readFrom switches texts waiting
        return before ++ arguments ++ others
      | text => (readFrom switches texts none).map (.positional text :: ·)

/-- The pieces of a command line. -/
def read (switches : List Switch) (texts : List Text) : Option (List Argument) :=
  readFrom switches texts none

namespace Argument

/-- The values that an option was given. -/
def values (key : Text) (arguments : List Argument) : List Text :=
  arguments.filterMap fun
    | .setting k value => if k = key then some value else none
    | _ => none

/-- How often a flag was given. -/
def count (key : Text) (arguments : List Argument) : Nat := arguments.count (.flag key)

/-- Whether a flag that may be given once was given. -/
def once? (key : Text) (arguments : List Argument) : Option Bool :=
  match count key arguments with
  | 0 => some false
  | 1 => some true
  | _ => none

/-- The positional arguments. -/
def positionals (arguments : List Argument) : List Text :=
  arguments.filterMap fun
    | .positional text => some text
    | _ => none

/-- The values of an option that may be given many times. One value is enough for
all the times that it is missing. -/
def many? (key : Text) (arguments : List Argument) : Option (List Text) :=
  match values key arguments with
  | [] => if arguments.contains (.bare key) then none else some []
  | values => some values

/-- The one value of an option that may be given once, or `default`, which also
stands for a missing value. -/
def single? (key : Text) (default : Option Text) (arguments : List Argument) :
    Option (Option Text) :=
  match values key arguments, arguments.count (.bare key) with
  | [], 0 => some default
  | [], 1 => default.map some
  | [value], 0 => some (some value)
  | _, _ => none

end Argument

end CommandLine

end PicAssembly
