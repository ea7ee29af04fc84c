import PicAssembly.CommandLine.Session
import PicAssembly.Sandbox

/-!
# `PicAssembly.Proofs.CommandLine.Sessions`: sessions that change no file

A session on a sandbox reads files, prints, and may write files. One that does not write has an
answer that depends on the files alone, and not on what was printed before. Three notions say so,
each less than the one before:

* `Session.Yields`: the answer and the text on the standard output are known.
* `Session.Answers`: the answer is known.
* `Session.Reads`: there is an answer.

Their rules follow the ways in which sessions are put together, so other modules do not look into
the monad.
-/

set_option autoImplicit false

namespace PicAssembly

namespace Sandbox

/-- The text in a file of the sandbox. -/
def text (s : Sandbox) (path : Text) : Except FileFault Text := do
  match Utf8.decode? (← s.read path) with
  | some text => return text
  | none => throw .notUtf8

/-- What a program is given of a directory of the sandbox. -/
def folder? (s : Sandbox) (path : Text) : Option Entry :=
  match s.find path with
  | .ok entry@(.folder _) => some (entry.within (FilePath.join path []))
  | _ => none

end Sandbox

namespace CommandLine

namespace Session

variable {α β : Type} {s : Sandbox}

/-- With the files of the sandbox, the session has this answer and prints the text on the standard
output. It may print reports on the standard error, and it changes nothing else. -/
def Yields (x : Session (StateM Sandbox) α) (s : Sandbox) (answer : Except Unit α)
    (text : Text) : Prop :=
  ∀ output errorOutput, ∃ reports, x.run.run { s with output, errorOutput }
    = (answer, { s with output := output ++ text, errorOutput := reports })

namespace Yields

variable {x : Session (StateM Sandbox) α} {f : α → Session (StateM Sandbox) β} {a : α}
  {answer : Except Unit β} {text text' : Text}

/-- An answer by itself prints nothing. -/
theorem pure (a : α) : Yields (Pure.pure a) s (.ok a) [] :=
  fun output errorOutput => ⟨errorOutput, by rw [List.append_nil]; rfl⟩

/-- A session that ends early prints nothing. -/
theorem throw : Yields (MonadExcept.throw () : Session _ α) s (.error ()) [] :=
  fun output errorOutput => ⟨errorOutput, by rw [List.append_nil]; rfl⟩

/-- A session and what follows on its answer. -/
theorem bind (hx : Yields x s (.ok a) text) (hf : Yields (f a) s answer text') :
    Yields (x >>= f) s answer (text ++ text') := by
  intro output errorOutput
  obtain ⟨reports, hx⟩ := hx output errorOutput
  -- What follows begins with what the session has printed.
  obtain ⟨reports', hf⟩ := hf (output ++ text) reports
  refine ⟨reports', ?_⟩
  rw [ExceptT.run_bind, StateT.run_bind, hx, ← List.append_assoc]
  exact hf

/-- Nothing follows on an early end. -/
theorem bind_error (hx : Yields x s (.error ()) text) (f : α → Session (StateM Sandbox) β) :
    Yields (x >>= f) s (.error ()) text := by
  intro output errorOutput
  obtain ⟨reports, hx⟩ := hx output errorOutput
  refine ⟨reports, ?_⟩
  rw [ExceptT.run_bind, StateT.run_bind, hx]
  rfl

/-- One session for each member of a list. -/
theorem forM {γ : Type} {f : γ → Session (StateM Sandbox) Unit} {text : γ → Text} {xs : List γ}
    (h : ∀ x ∈ xs, Yields (f x) s (.ok ()) (text x)) :
    Yields (xs.forM f) s (.ok ()) (xs.flatMap text) := by
  induction xs with
  | nil => exact .pure ()
  | cons x xs ih =>
      obtain ⟨hx, hxs⟩ := List.forall_mem_cons.mp h
      exact .bind hx (ih hxs)

/-! What the sandbox does for a session. -/

/-- The sandbox answers, and stays as it is. -/
theorem lift {y : StateM Sandbox α} (h : ∀ output errorOutput,
    y.run { s with output, errorOutput } = (a, { s with output, errorOutput })) :
    Yields (y : Session (StateM Sandbox) α) s (.ok a) [] := by
  intro output errorOutput
  refine ⟨errorOutput, ?_⟩
  rw [List.append_nil]
  show (do let a ← y; return Except.ok a : StateM Sandbox (Except Unit α)).run _ = _
  rw [StateT.run_bind, h]
  rfl

/-- What is printed on the standard output is what the session prints. -/
theorem print (text : Text) :
    Yields (Sandbox.host.print text : StateM Sandbox Unit) s (.ok ()) text :=
  fun _ errorOutput => ⟨errorOutput, rfl⟩

/-- What is printed on the standard error does not count. -/
theorem printError (text : Text) :
    Yields (Sandbox.host.printError text : StateM Sandbox Unit) s (.ok ()) [] :=
  fun output errorOutput => ⟨errorOutput ++ text, by rw [List.append_nil]; rfl⟩

/-- Reading a text prints nothing, whether there is a text or not. -/
theorem readText (path : Text) :
    Yields (Sandbox.host.readText path : StateM Sandbox _) s (.ok (s.text path)) [] := by
  refine lift fun output errorOutput => ?_
  have hread : (Sandbox.host.readFile path).run { s with output, errorOutput }
      = (s.read path, { s with output, errorOutput }) := rfl
  rw [Host.readText, StateT.run_bind, hread, Sandbox.text]
  cases s.read path with
  | error fault => rfl
  | ok bytes =>
      cases Utf8.decode? bytes with
      | none => rfl
      | some text => rfl

/-- Looking into a directory prints nothing. -/
theorem folder? (path : Text) :
    Yields (Sandbox.host.folder? path : StateM Sandbox _) s (.ok (s.folder? path)) [] := by
  refine lift fun output errorOutput => ?_
  show (match s.find path with
    | .ok entry@(.folder _) => _
    | _ => _ : StateM Sandbox (Option Entry)).run { s with output, errorOutput } = _
  rw [Sandbox.folder?]
  split <;> rfl

/-- Reports on the standard error leave the standard output alone. -/
theorem reportError (least : Log.Level) (records : List Log.Record) :
    Yields (report Sandbox.host.printError least records) s (.ok ()) [] := by
  have hnothing : (records.filter (·.isShown least)).flatMap (fun _ => ([] : Text)) = [] :=
    List.flatMap_eq_nil_iff.mpr fun _ _ => rfl
  rw [← hnothing]
  exact forM fun record _ => printError (record.render ++ ['\n'])

/-- A session that comes to its end has zero for its exit code. -/
theorem exitCode_eq_zero (h : Yields x s (.ok a) text) :
    ∃ errorOutput, x.exitCode.run s
      = (0, { s with output := s.output ++ text, errorOutput }) := by
  obtain ⟨reports, h⟩ := h s.output s.errorOutput
  refine ⟨reports, ?_⟩
  rw [exitCode, StateT.run_bind, h]
  rfl

end Yields

/-- With the files of the sandbox, the session has this answer. It changes nothing but what is
printed. -/
def Answers (x : Session (StateM Sandbox) α) (s : Sandbox) (answer : Except Unit α) : Prop :=
  ∃ text, Yields x s answer text

namespace Answers

variable {x : Session (StateM Sandbox) α} {f : α → Session (StateM Sandbox) β} {a : α}
  {answer : Except Unit β}

/-- An answer by itself changes nothing. -/
theorem pure (a : α) : Answers (Pure.pure a) s (.ok a) := ⟨_, .pure a⟩

/-- A session goes on with what it has so far. Its files are the same by then, so the answer of the
second part may be told in the sandbox of the first. -/
theorem bind (hx : Answers x s (.ok a)) (hf : Answers (f a) s answer) :
    Answers (x >>= f) s answer := by
  obtain ⟨text, hx⟩ := hx
  obtain ⟨text', hf⟩ := hf
  exact ⟨_, hx.bind hf⟩

/-- What follows a session that has ended is not run. -/
theorem bind_error (hx : Answers x s (.error ())) (f : α → Session (StateM Sandbox) β) :
    Answers (x >>= f) s (.error ()) := by
  obtain ⟨text, hx⟩ := hx
  exact ⟨_, hx.bind_error f⟩

/-- Reading a text is an answer to the files that there are. -/
theorem readText (path : Text) :
    Answers (Sandbox.host.readText path : StateM Sandbox _) s (.ok (s.text path)) :=
  ⟨_, .readText path⟩

/-- Looking into a directory is an answer to the files that there are. -/
theorem folder? (path : Text) :
    Answers (Sandbox.host.folder? path : StateM Sandbox _) s (.ok (s.folder? path)) :=
  ⟨_, .folder? path⟩

/-- Reports come to their end. -/
theorem report (least : Log.Level) (records : List Log.Record) :
    Answers (report Sandbox.host.print least records) s (.ok ()) :=
  ⟨_, .forM fun record _ => .print (record.render ++ ['\n'])⟩

/-- A report of something fatal ends the session. -/
theorem fail (least : Log.Level) (record : Log.Record) :
    Answers (fail Sandbox.host.print least record : Session _ α) s (.error ()) :=
  (report least [record]).bind ⟨_, .throw⟩

/-- The answer is the one that the session has in the sandbox. -/
theorem run_eq {answer : Except Unit α} (h : Answers x s answer) : (x.run.run s).1 = answer := by
  obtain ⟨text, h⟩ := h
  obtain ⟨reports, h⟩ := h s.output s.errorOutput
  exact congrArg Prod.fst h

/-- A session that ends early has one for its exit code. -/
theorem exitCode_eq_one (h : Answers x s (.error ())) :
    ∃ output errorOutput, x.exitCode.run s = (1, { s with output, errorOutput }) := by
  obtain ⟨text, h⟩ := h
  obtain ⟨reports, h⟩ := h s.output s.errorOutput
  refine ⟨s.output ++ text, reports, ?_⟩
  rw [exitCode, StateT.run_bind, h]
  rfl

end Answers

/-- With the files of the sandbox, the session has an answer. It changes nothing but what is
printed. -/
def Reads (x : Session (StateM Sandbox) α) (s : Sandbox) : Prop :=
  ∃ answer, Answers x s answer

/-- A session with a known answer has one. -/
theorem Answers.reads {x : Session (StateM Sandbox) α} {answer : Except Unit α}
    (h : Answers x s answer) : Reads x s :=
  ⟨answer, h⟩

namespace Reads

variable {x : Session (StateM Sandbox) α} {f : α → Session (StateM Sandbox) β}

/-- A session that only gives an answer changes nothing. -/
theorem pure (a : α) : Reads (Pure.pure a) s := (Answers.pure a).reads

/-- Two sessions in a row change nothing if neither does, whatever the first answers. -/
theorem bind (hx : Reads x s) (hf : ∀ a, Reads (f a) s) : Reads (x >>= f) s := by
  obtain ⟨⟨⟩ | a, hx⟩ := hx
  -- What follows on an early end does not matter, nor what follows on any answer but this one.
  · exact (hx.bind_error f).reads
  · obtain ⟨answer, hf⟩ := hf a
    exact (hx.bind hf).reads

/-- A session for each member of a list changes nothing if none of them does. -/
theorem mapM {γ : Type} {f : γ → Session (StateM Sandbox) α} (h : ∀ x, Reads (f x) s)
    (xs : List γ) : Reads (xs.mapM f) s := by
  induction xs with
  | nil => exact .pure []
  | cons x xs ih =>
      rw [List.mapM_cons]
      exact (h x).bind fun y => ih.bind fun ys => .pure (y :: ys)

/-- Reports change nothing. -/
theorem report (least : Log.Level) (records : List Log.Record) :
    Reads (report Sandbox.host.print least records) s :=
  (Answers.report least records).reads

/-- What a session answers in the sandbox, it answers whatever was printed before. -/
theorem answers (h : Reads x s) {answer : Except Unit α} (hrun : (x.run.run s).1 = answer) :
    Answers x s answer := by
  obtain ⟨answer', h⟩ := h
  rwa [← hrun, h.run_eq]

end Reads

end Session

end CommandLine

end PicAssembly
