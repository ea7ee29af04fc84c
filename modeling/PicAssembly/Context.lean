import PicAssembly.Table
import PicAssembly.Text.CaseMap

/-!
# `PicAssembly.Context`: what a conversion knows besides its sources

A context says how registers' bits and identifiers are called on the other side,
which files the project has, and which symbols are to be defined for all of it.
It is put together before a conversion begins and does not change after that.
-/

set_option autoImplicit false

namespace PicAssembly

/-- The look-up tables of a conversion. -/
structure Context where
  /-- New names of bits. A key is `register.bit` in lower case. -/
  registers : Table
  /-- New names of identifiers, in their exact spelling. -/
  replacements : Table
  /-- The names of the files in the project. -/
  files : List Text
  /-- Symbols for the generated header, with their values. -/
  defines : Table
  /-- The name of the generated header. -/
  definesFile : Text
  deriving DecidableEq, Repr

namespace Context

/-- The name of the generated header unless another is given. -/
def defaultDefinesFile : Text := "defines.inc".toList

/-- A context that knows nothing. -/
def empty : Context := ⟨.empty, .empty, [], .empty, defaultDefinesFile⟩

/-- Adds new names of bits, under keys in any letter case. -/
def addRegisters (c : Context) (pairs : List (Text × Text)) : Context :=
  { c with registers := c.registers.putAll (pairs.map fun pair => (Text.lower pair.1, pair.2)) }

/-- Adds new names of identifiers. -/
def addReplacements (c : Context) (pairs : List (Text × Text)) : Context :=
  { c with replacements := c.replacements.putAll pairs }

/-- Adds symbols to define. -/
def addDefines (c : Context) (pairs : List (Text × Text)) : Context :=
  { c with defines := c.defines.putAll pairs }

/-- The new name of a bit of a register, in any letter case. -/
def register? (c : Context) (register bit : Text) : Option Text :=
  c.registers.get? (Text.lower (register ++ '.' :: bit))

/-- The new name of an identifier. -/
def replacement? (c : Context) (name : Text) : Option Text := c.replacements.get? name

/-- The first project file with this name in any letter case, as it is spelled. -/
def projectFile? (c : Context) (name : Text) : Option Text :=
  c.files.find? (Text.sameIgnoringCase · name)

end Context

end PicAssembly
