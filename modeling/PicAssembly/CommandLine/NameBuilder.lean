import PicAssembly.CommandLine.Arguments
import PicAssembly.CommandLine.Session
import PicAssembly.Device.Correspondence
import PicAssembly.Device.Description
import PicAssembly.Program.Parser

/-!
# `PicAssembly.CommandLine.NameBuilder`: building files of new names

The command prints new names as lines `key=value`, which the converter reads.
`bits` gives the new names of bits from an old header of a device and its
description, `registers` those of wide registers from the description alone.
Reports go to the standard error.
-/

set_option autoImplicit false

namespace PicAssembly

namespace CommandLine

namespace NameBuilder

/-- What is to be built, from which files. -/
inductive Task where
  | bits (header description : Text)
  | registers (description : Text)
  deriving DecidableEq, Repr

/-- What a user asks for. -/
structure Request where
  task : Task
  verbosity : Nat
  deriving DecidableEq, Repr

/-- The options of the command. -/
def switches : List Switch :=
  [⟨"verbose".toList, none, some 'v', false⟩,
   ⟨"inc".toList, some "inc".toList, none, true⟩,
   ⟨"ini".toList, some "ini".toList, none, true⟩]

/-- Whether an argument is a positional one. -/
def isPositional : Argument → Bool
  | .positional _ => true
  | _ => false

/-- The request on a command line, if it is a proper one. The first positional
argument is the task, and the files are named behind it. The task's own
verbosity, if it has one, counts instead of the one before it. -/
def request? (texts : List Text) : Option Request := do
  let arguments ← read switches texts
  let before := arguments.takeWhile (!isPositional ·)
  let header ← Argument.single? "inc".toList none arguments
  let description ← Argument.single? "ini".toList none arguments
  let description ← description
  match arguments.drop before.length with
  | [] => none
  | task :: behind =>
    let own := Argument.count "verbose".toList behind
    let verbosity := if own = 0 then Argument.count "verbose".toList before else own
    if before.any (fun argument => argument ≠ .flag "verbose".toList) then none
    else if behind.any isPositional then none
    else if task = .positional "bits".toList then
      return ⟨.bits (← header) description, verbosity⟩
    else if task = .positional "registers".toList ∧ header = none then
      return ⟨.registers description, verbosity⟩
    else none

variable {m : Type → Type} [Monad m]

/-- A report of the command itself. -/
def record (level : Log.Level) (message : Text) : Log.Record :=
  ⟨level, "picport_map".toList, message⟩

/-- A report of something fatal. -/
def fatal {α : Type} (host : Host m) (least : Log.Level) (message : Text) : Session m α :=
  Session.fail host.printError least (record .error ("fatal: ".toList ++ message))

/-- The text in a file. A file that cannot be read is fatal. -/
def readText (host : Host m) (least : Log.Level) (path : Text) : Session m Text := do
  match ← host.readText path with
  | .ok text => return text
  | .error fault =>
    fatal host least ("unable to read `".toList ++ path ++ "`: ".toList ++ fault.message)

/-- The device that a file describes. Malformed records are reported. -/
def readDevice (host : Host m) (least : Log.Level) (path : Text) : Session m Device := do
  let (device, skipped) := Device.parse (← readText host least path)
  let origin := "picport::mapping".toList
  Session.report host.printError least (skipped.map fun line => ⟨.warn, origin, line.message⟩)
  Session.report host.printError least [⟨.debug, origin,
    "device has ".toList ++ Numeral.decimal device.registers.length ++ " register(s) and ".toList ++
      Numeral.decimal device.fields.length ++ " field(s)".toList⟩]
  return device

/-- The program in a file. -/
def readProgram (host : Host m) (least : Log.Level) (path : Text) : Session m Program := do
  match Program.parse (← readText host least path) with
  | .ok program =>
    Session.report host.printError least [⟨.debug, "picport::assembler::parser".toList,
      "parsed ".toList ++ Numeral.decimal program.size ++ " line(s)".toList⟩]
    return program
  | .error e => fatal host least (path ++ ": ".toList ++ e.render)

/-- The pairs that a task asks for. -/
def pairsFor (host : Host m) (least : Log.Level) : Task → Session m (List (Text × Text))
  | .bits header description => do
    let device ← readDevice host least description
    let program ← readProgram host least header
    match device.bitNames program with
    | .ok pairs => return pairs
    | .error e => fatal host least e.message
  | .registers description => do
    let device ← readDevice host least description
    return device.wideNames

/-- Serves a request. -/
def serve (host : Host m) (request : Request) : Session m Unit := do
  let least := Log.Level.ofVerbosity request.verbosity
  let pairs ← pairsFor host least request.task
  Session.report host.printError least [record .info
    ("built ".toList ++ Numeral.decimal pairs.length ++ " mapping(s)".toList)]
  pairs.forM fun pair => host.print (pair.1 ++ '=' :: pair.2 ++ ['\n'])

/-- Runs the command and gives its exit code, if the command line is a proper
one. -/
def run? (host : Host m) (texts : List Text) : Option (m Nat) :=
  (request? texts).map fun request => Session.exitCode (serve host request)

end NameBuilder

end CommandLine

end PicAssembly
