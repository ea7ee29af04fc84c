import PicAssembly.Edit.Basic

/-!
# `PicAssembly.Edit.Includes`: the values of include directives

Three changes are made to the value of an include directive, one after the
other. Angle brackets become quotes. A header that the project has under another
letter case gets the spelling of the project. And the header of the device that
the first `list` statement names becomes `<xc.inc>`, which is the one header for
all devices.
-/

set_option autoImplicit false

namespace PicAssembly

namespace Program

/-- The device that the first `list` statement names with `p=`. Device names
look like numbers, so some of them are read as numbers. -/
def device? (p : Program) : Option Text :=
  match (p.withMnemonic "list".toList).head?.bind (·.setting? ['p']) with
  | some (.chipId text) => some text
  | some (.number _ _ literal) => some literal
  | _ => none

end Program

namespace Include

/-- A name in double quotes. -/
def quoted (name : Text) : Text := '"' :: name ++ ['"']

/-- What stands between angle brackets. -/
def bracketed? (value : Text) : Option Text :=
  (Text.dropFront? ['<'] value).bind (Text.dropBack? ['>'])

/-- The header that a value names, between quotes or angle brackets. -/
def header? (value : Text) : Option Text :=
  ((Text.dropFront? ['"'] value).or (Text.dropFront? ['<'] value)).bind fun rest =>
    (Text.dropBack? ['"'] rest).or (Text.dropBack? ['>'] rest)

/-- The header that stands for every device. -/
def deviceHeader : Text := "<xc.inc>".toList

/-- The value with quotes in the place of angle brackets. -/
def unbracket (value : Text) : Text :=
  match bracketed? value with
  | some name => quoted name
  | none => value

/-- The value with the project's spelling of the header it names. -/
def respell (context : Context) (value : Text) : Text :=
  match (header? value).bind context.projectFile? with
  | some name => if header? value = some name then value else quoted name
  | none => value

/-- The value, unless it names the header of the device. -/
def generalize (device : Option Text) (value : Text) : Text :=
  match device with
  | some name =>
    if Text.sameIgnoringCase (quoted ('p' :: name ++ ".inc".toList)) value then deviceHeader
    else value
  | none => value

/-- The value of an include directive after a conversion. -/
def converted (context : Context) (device : Option Text) (value : Text) : Text :=
  generalize device (respell context (unbracket value))

end Include

namespace Directive

/-- Whether the directive includes a header. -/
def isInclude (d : Directive) : Bool := Text.sameIgnoringCase d.word "#include".toList

end Directive

namespace Include

/-- A line after a conversion of the includes. -/
def convertLine (context : Context) (device : Option Text) : Line → Line
  | .directive d =>
    if d.isInclude then .directive { d with value := converted context device d.value }
    else .directive d
  | line => line

end Include

namespace Edit

/-- Changes the values of include directives. -/
def includes : Edit :=
  ofProgram "fix-includes".toList fun context p =>
    p.mapLines (Include.convertLine context p.device?)

end Edit

end PicAssembly
