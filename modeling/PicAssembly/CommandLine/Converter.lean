import PicAssembly.CommandLine.Arguments
import PicAssembly.CommandLine.Session
import PicAssembly.PairFile
import PicAssembly.Project

/-!
# `PicAssembly.CommandLine.Converter`: converting a directory

The command reads every file below one directory, converts those with one of the
extensions, and writes all of them below another directory. If a file cannot be
read or edited, or the header of defined symbols cannot be read, nothing is
written.
-/

set_option autoImplicit false

namespace PicAssembly

namespace Project

/-- What several members of a directory give, in the order of their names. The
first fault in this order is the answer. -/
def inOrder (members : List (Text × Except PathFault (List SourceFile))) :
    Except PathFault (List SourceFile) := do
  let sorted := members.mergeSort fun a b => !List.lex b.1 a.1
  let files ← sorted.mapM Prod.snd
  return files.flatten

mutual

/-- The files under a name in the directory `dir` below `root`. -/
def gather (root dir name : Text) : Entry → Except PathFault (List SourceFile)
  | .file content => .ok [.unread name dir content]
  | .unreadable fault => .error ⟨FilePath.join (FilePath.join root dir) name, fault⟩
  | .folder members => inOrder (gatherMembers root (FilePath.join dir name) members)

/-- What the members of the directory `dir` below `root` give. -/
def gatherMembers (root dir : Text) :
    List (Text × Entry) → List (Text × Except PathFault (List SourceFile))
  | [] => []
  | (name, entry) :: members =>
    (name, gather root dir name entry) :: gatherMembers root dir members

end

/-- The project that a directory holds. -/
def ofEntry (root : Text) (entry : Entry) : Except PathFault Project := do
  let files ← match entry with
    | .folder members => inOrder (gatherMembers root [] members)
    | .unreadable fault => .error ⟨FilePath.join root [], fault⟩
    | .file _ => .ok []
  return ⟨files⟩

/-- A report of detail about the files of a project. -/
def detail (message : Text) : Log.Record := ⟨.debug, "picport::project".toList, message⟩

/-- What is reported when a program is read. -/
def parsed (p : Program) : Log.Record :=
  ⟨.debug, "picport::assembler::parser".toList,
    "parsed ".toList ++ Numeral.decimal p.size ++ " line(s)".toList⟩

/-- What is reported when the files with one of the extensions are read. -/
def parseReports (extensions : List Text) (p : Project) : List Log.Record :=
  p.files.flatMap fun file =>
    if isListed extensions file then
      detail ("parsing ".toList ++ file.path) ::
        match file.parse with
        | .ok read => (read.program.map parsed).toList
        | .error _ => []
    else [detail ("skipping ".toList ++ file.path)]

/-- What is reported when the files are edited. -/
def editReports (context : Context) (p : Project) : List Log.Record :=
  (p.files.filter (·.program.isSome)).flatMap (Catalog.reports context)

/-- What is reported when the header of defined symbols is added. -/
def injectReports (context : Context) : List Log.Record :=
  if context.defines.isEmpty then []
  else match (definesHeader context).parse with
    | .ok header => (header.program.map parsed).toList
    | .error _ => []

/-- What is reported when programs are written over their files. -/
def unparseReports (layout : Layout) (p : Project) : List Log.Record :=
  (p.files.filterMap SourceFile.program).map fun program =>
    ⟨.debug, "picport::assembler::unparser".toList,
      "unparsed ".toList ++ Numeral.decimal program.size ++ " line(s) into ".toList ++
        Numeral.decimal (layout.lines program).length⟩

end Project

namespace Layout

/-- The layout of converted programs. -/
def converted : Layout := ⟨"//".toList, 4, true⟩

/-- A number with zeros before it, up to four digits. -/
def fourDigits (n : Nat) : Text :=
  let digits := Numeral.decimal n
  List.replicate (4 - digits.length) '0' ++ digits

/-- The width of the widest of some texts. -/
def widest (texts : List Text) : Nat := texts.foldr (fun t width => max t.length width) 0

/-- A table of the lines of a program: the number of a line, its shape, and its
text. The first two columns are as wide as their widest entry. -/
def table (layout : Layout) (p : Program) : Text :=
  let gutter := layout.gutter p
  let numbers := (List.range p.size).map fun index => fourDigits (index + 1) ++ [':']
  let shapes := p.lines.map Line.describe
  let texts := p.lines.map (layout.line gutter)
  let row (number shape text : Text) : Text :=
    padTo (widest numbers + 1) number ++ padTo (widest shapes + 1) shape ++ text ++ ['\n']
  ((numbers.zip (shapes.zip texts)).map fun (number, shape, text) => row number shape text).flatten

end Layout

namespace CommandLine

namespace Converter

/-- What a user asks for. -/
structure Request where
  input : Text
  output : Text
  verbosity : Nat
  extensions : List Text
  /-- A file of new names of bits. -/
  registerFile : Option Text
  /-- New names of bits, in the form of lines of that file. -/
  registers : List Text
  /-- A file of new names of identifiers. -/
  replacementFile : Option Text
  /-- Symbols to define, with their values. -/
  defines : List Text
  definesFile : Text
  /-- Whether the converted programs are printed as tables. -/
  shown : Bool
  deriving DecidableEq, Repr

/-- The options of the command. -/
def switches : List Switch :=
  [⟨"verbose".toList, none, some 'v', false⟩,
   ⟨"extensions".toList, some "extensions".toList, some 'e', true⟩,
   ⟨"map".toList, some "map".toList, none, true⟩,
   ⟨"inline-map".toList, some "inline-map".toList, some 'm', true⟩,
   ⟨"replacements".toList, some "replacements".toList, none, true⟩,
   ⟨"define".toList, some "define".toList, some 'd', true⟩,
   ⟨"defines-file-name".toList, some "defines-file-name".toList, none, true⟩,
   ⟨"show".toList, some "show".toList, some 's', false⟩]

/-- The extensions in a list with commas, without blanks and empty ones. -/
def extensionsOf (list : Text) : List Text :=
  ((Text.splitAt ',' list).map Text.trim).filter (!·.isEmpty)

/-- The request on a command line, if it is a proper one. -/
def request? (texts : List Text) : Option Request := do
  let arguments ← read switches texts
  let extensions ← Argument.single? "extensions".toList (some "asm,inc".toList) arguments
  let registerFile ← Argument.single? "map".toList none arguments
  let replacementFile ← Argument.single? "replacements".toList none arguments
  let definesFile ←
    Argument.single? "defines-file-name".toList (some Context.defaultDefinesFile) arguments
  let registers ← Argument.many? "inline-map".toList arguments
  let defines ← Argument.many? "define".toList arguments
  let shown ← Argument.once? "show".toList arguments
  match Argument.positionals arguments with
  | [input, output] =>
    return {
      input, output, registerFile, registers, replacementFile, defines, shown
      verbosity := Argument.count "verbose".toList arguments
      extensions := extensionsOf (extensions.getD [])
      definesFile := definesFile.getD [] }
  | _ => none

variable {m : Type → Type} [Monad m]

/-- A report of the command itself. -/
def record (level : Log.Level) (message : Text) : Log.Record :=
  ⟨level, "picport".toList, message⟩

/-- The pairs in a text. Malformed lines are reported. -/
def pairsOf (host : Host m) (least : Log.Level) (text : Text) :
    Session m (List (Text × Text)) := do
  let (pairs, skipped) := PairFile.parse text
  Session.report host.print least (skipped.map fun line =>
    ⟨.warn, "picport::config".toList, line.message "mapping".toList⟩)
  return pairs

/-- The pairs in a file, if one is named. A file that cannot be read is fatal. -/
def pairsIn (host : Host m) (least : Log.Level) :
    Option Text → Session m (List (Text × Text))
  | none => return []
  | some path => do
    match ← host.readText path with
    | .error fault =>
      Session.fail host.print least (record .error
        ("fatal: unable to read mapping file `".toList ++ path ++ "`: ".toList ++ fault.message))
    | .ok text => do
      let pairs ← pairsOf host least text
      Session.report host.print least [⟨.debug, "picport::config".toList,
        "loaded ".toList ++ Numeral.decimal pairs.length ++ " mapping(s) from ".toList ++ path⟩]
      return pairs

/-- The context that a request describes. What is given on the command line comes
after what a file holds. -/
def contextOf (host : Host m) (least : Log.Level) (request : Request) : Session m Context := do
  let fromFile ← pairsIn host least request.registerFile
  let given ← request.registers.mapM (pairsOf host least)
  let replacements ← pairsIn host least request.replacementFile
  let defines ← request.defines.mapM (pairsOf host least)
  let context := ((Context.empty.addRegisters (fromFile ++ given.flatten)).addReplacements
    replacements).addDefines defines.flatten
  let context := { context with definesFile := request.definesFile }
  Session.report host.print least [record .debug
    (Numeral.decimal context.registers.size ++ " register mapping(s), ".toList ++
      Numeral.decimal context.replacements.size ++ " replacement(s), ".toList ++
      Numeral.decimal context.defines.size ++ " define(s)".toList)]
  return context

/-- Prints a table of every program. -/
def showTables (host : Host m) (layout : Layout) (p : Project) : Session m Unit :=
  p.files.forM fun file =>
    match file.program with
    | some program => host.print (file.path ++ '\n' :: layout.table program ++ ['\n'])
    | none => pure ()

/-- Writes every file below a directory, in the directories that they were in. -/
def writeFiles (host : Host m) (least : Log.Level) (output : Text) (p : Project) :
    Session m Unit :=
  p.files.forM fun file => do
    let dir := FilePath.join output file.dir
    let path := FilePath.join dir file.name
    let refuse (path : Text) (fault : FileFault) : Session m Unit :=
      Session.fail host.print least (record .error
        ("fatal: unable to write output: ".toList ++ PathFault.render ⟨path, fault⟩))
    match ← host.makeFolders dir with
    | .error fault => refuse dir fault
    | .ok () => do
      Session.report host.print least
        [⟨.info, "picport::project".toList, "writing file ".toList ++ path⟩]
      match ← host.writeFile path file.content with
      | .error fault => refuse path fault
      | .ok () => pure ()

/-- Serves a request. -/
def serve (host : Host m) (request : Request) : Session m Unit := do
  let least := Log.Level.ofVerbosity request.verbosity
  let report := Session.report host.print least
  report [record .debug ("Arguments:\n\tVerbosity: ".toList ++ least.describe ++
    "\n\tInput: ".toList ++ request.input ++ "\n\tOutput: ".toList ++ request.output ++
    "\n\tExtensions: ".toList ++ Text.join [','] request.extensions)]
  match ← host.folder? request.input with
  | none =>
    Session.fail host.print least (record .error
      ("fatal: input directory `".toList ++ request.input ++ "` does not exist".toList))
  | some entry =>
  match Project.ofEntry request.input entry with
  | .error fault =>
    Session.fail host.print least (record .error
      ("fatal: unable to read input: ".toList ++ fault.render))
  | .ok project =>
  report [⟨.info, "picport::project".toList,
    "loaded ".toList ++ Numeral.decimal project.files.length ++ " file(s) from ".toList ++
      request.input⟩]
  let context ← contextOf host least request
  let context := { context with files := project.fileNames }
  let (parsed, parseFaults) := project.parse request.extensions
  let (edited, editFaults) := parsed.edit context
  let (injected, injectFault) := edited.injectDefines context
  report (project.parseReports request.extensions ++ parsed.editReports context ++
    Project.injectReports context)
  let faults := parseFaults ++ editFaults ++ injectFault.toList
  report (faults.map fun fault => record .error fault.render)
  if !faults.isEmpty then
    Session.fail host.print least (record .error
      ("Stopped translation due to ".toList ++ Numeral.decimal faults.length ++
        " error(s).".toList))
  if request.shown then showTables host .converted injected
  report (injected.unparseReports .converted)
  writeFiles host least request.output (injected.unparse .converted)

/-- Runs the command and gives its exit code, if the command line is a proper
one. -/
def run? (host : Host m) (texts : List Text) : Option (m Nat) :=
  (request? texts).map fun request => Session.exitCode (serve host request)

end Converter

end CommandLine

end PicAssembly
