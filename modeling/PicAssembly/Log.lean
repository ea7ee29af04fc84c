import PicAssembly.Text.Basic

/-!
# `PicAssembly.Log`: what a program reports while it runs

A record has a level, the part of the program that it comes from, and a message.
Which records are shown depends on how talkative the user wants the program.
-/

set_option autoImplicit false

namespace PicAssembly

namespace Log

/-- How much a record matters, the most important level first. -/
inductive Level where
  | error | warn | info | debug
  deriving DecidableEq, Repr

namespace Level

/-- The name of the level at the head of a line of the log. -/
def describe : Level → Text
  | .error => "ERROR".toList
  | .warn => "WARN".toList
  | .info => "INFO".toList
  | .debug => "DEBUG".toList

/-- The place of the level in the order, from zero. -/
def rank : Level → Nat
  | .error => 0
  | .warn => 1
  | .info => 2
  | .debug => 3

/-- The least important level shown to a user who asked for more this often. -/
def ofVerbosity : Nat → Level
  | 0 => .error
  | 1 => .warn
  | 2 => .info
  | _ => .debug

end Level

/-- One report. -/
structure Record where
  level : Level
  origin : Text
  message : Text
  deriving DecidableEq, Repr

namespace Record

/-- The record as a line of output. -/
def render (r : Record) : Text :=
  '[' :: r.origin ++ "][".toList ++ r.level.describe ++ "] ".toList ++ r.message

/-- Whether the record is shown when `least` is the least important level shown. -/
def isShown (least : Level) (r : Record) : Bool := r.level.rank ≤ least.rank

end Record

end Log

end PicAssembly
