import Reckon.Calculator

/-!
# Sessions

A session answers commands one after another. Its state holds the settings and, apart from them,
the precision that its machine works with, which is taken from the settings when the session opens.
Assigned values are not checked: a precision out of range shows when a formula is evaluated.

## Main definitions

* `Session`, `Session.start`: the state
* `Session.Command`, `Session.Reply`: what a session is told and what it answers
* `Session.step`, `Session.run`: one command and a list of commands
-/

namespace Reckon

/-- The state of a session. -/
structure Session where
  settings : Settings
  machinePrecision : Int
  deriving DecidableEq, Repr

namespace Session

/-- A session opened with given settings. -/
def start (settings : Settings) : Session := ⟨settings, settings.precision⟩

/-- What a session can be told. -/
inductive Command where
  | evaluate (formula : Text)
  | detailed (formula : Text)
  | validate (formula : Text)
  | formatMessage
  | setMessage (kind : FailureKind) (text : Text)
  | setSettingsPrecision (precision : Int)
  | setMachinePrecision (precision : Int)
  deriving DecidableEq, Repr

/-- What a session answers. -/
inductive Reply where
  | answer (outcome : Except Fault Text)
  | report (outcome : Except Fault Calculator.Report)
  | verdict (invalid : Option Cause)
  | message (text : Text)
  | settings (current : Settings)
  | precisions (settings machine : Int)

/-- The answer to a command, and the state after it. -/
def step (s : Session) : Command → Reply × Session
  | .evaluate formula =>
    (.answer (Calculator.toAnswer s.settings.messages
      (Calculator.detailed s.machinePrecision formula)), s)
  | .detailed formula => (.report (Calculator.report s.machinePrecision formula), s)
  | .validate formula => (.verdict (Tree.invalid? formula), s)
  | .formatMessage => (.message s.settings.messages.malformedFormat, s)
  | .setMessage kind text =>
    let settings := { s.settings with messages := s.settings.messages.set kind text }
    (.settings settings, { s with settings })
  | .setSettingsPrecision precision =>
    (.precisions precision s.machinePrecision,
      { s with settings := { s.settings with precision } })
  | .setMachinePrecision precision =>
    (.precisions s.settings.precision precision, { s with machinePrecision := precision })

/-- The answers to commands in order. -/
def run : Session → List Command → List Reply
  | _, [] => []
  | s, c :: cs => (s.step c).1 :: run (s.step c).2 cs

end Session

end Reckon
