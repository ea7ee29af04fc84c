import PicAssembly.Host
import PicAssembly.Log

/-!
# `PicAssembly.CommandLine.Session`: running a command on a host

A command prints reports as it goes, and ends early after a report of something
fatal. Its exit code is zero if it came to its end and one if it did not.
-/

set_option autoImplicit false

namespace PicAssembly

namespace CommandLine

/-- Effects on a host, with an early end. -/
abbrev Session (m : Type → Type) := ExceptT Unit m

namespace Session

variable {m : Type → Type} [Monad m]

/-- Prints reports by `print`, as far as they are shown. -/
def report (print : Text → m Unit) (least : Log.Level) (records : List Log.Record) :
    Session m Unit :=
  (records.filter (·.isShown least)).forM fun record => print (record.render ++ ['\n'])

/-- Prints a report and ends the session. -/
def fail {α : Type} (print : Text → m Unit) (least : Log.Level) (record : Log.Record) :
    Session m α := do
  report print least [record]
  throw ()

/-- The exit code of a session. -/
def exitCode {α : Type} (session : Session m α) : m Nat := do
  match ← session.run with
  | .ok _ => return 0
  | .error () => return 1

end Session

end CommandLine

end PicAssembly
