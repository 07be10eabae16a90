import Mathlib
import Reckon.Session

/-!
# The settings in force in a session

A session keeps two precisions, that of its settings and that of its machine, and its answer texts
may be overwritten at any time. A query is answered by the machine's precision and the texts as they
are at that time, and by nothing else: whatever has been asked before, and whatever the precision of
the settings has become since the session was opened, the reply is that of a session freshly opened
with the settings in force.

## Main definitions

* `Session.after s cs`: the session `s` after the commands `cs`
* `Session.lastAssigned`: what commands assign last
* `Session.inForce settings cs`: the settings that queries are answered by after the commands `cs`
* `Session.fresh settings c`: the reply to `c` of a session freshly opened

## Main results

* `forKind_after`, `precision_after`: after commands, every text and every precision is the one that
  was assigned last
* `getElem?_run`: the reply to a command is given by the session after the commands before it
* `query_fresh`: queries are answered by the settings in force
-/

namespace Reckon

namespace Session

/-! ## Commands -/

namespace Command

/-- Whether a command only asks. -/
def isQuery : Command → Bool
  | evaluate _ | detailed _ | validate _ | formatMessage => true
  | setMessage _ _ | setSettingsPrecision _ | setMachinePrecision _ => false

/-- Whether a command overwrites an answer text. -/
def overwrites : Command → Bool
  | setMessage _ _ => true
  | _ => false

/-- Whether a command changes nothing that queries are answered by. -/
def isInert : Command → Bool
  | setMessage _ _ | setMachinePrecision _ => false
  | _ => true

/-- The precision that a command assigns to the settings. -/
def settingsPrecision? : Command → Option Int
  | setSettingsPrecision precision => some precision
  | _ => none

/-- The precision that a command assigns to the machine. -/
def machinePrecision? : Command → Option Int
  | setMachinePrecision precision => some precision
  | _ => none

/-- The text that a command assigns to a kind of failure. -/
def text? (kind : FailureKind) : Command → Option Text
  | setMessage kind' text => if kind = kind' then some text else none
  | _ => none

end Command

open Command

/-- What commands assign last, or the initial value if they assign none. -/
def lastAssigned {α : Type} (assigned? : Command → Option α) (initial : α) (cs : List Command) :
    α :=
  (cs.filterMap assigned?).getLast?.getD initial

/-- The settings that queries are answered by after commands: the precision that was assigned to the
machine last, and for each kind of failure the text that was assigned to it last. -/
def inForce (settings : Settings) (cs : List Command) : Settings where
  precision := lastAssigned machinePrecision? settings.precision cs
  messages := .ofForKind fun kind =>
    lastAssigned (text? kind) (settings.messages.forKind kind) cs

/-- The reply to a command of a session freshly opened with given settings. -/
def fresh (settings : Settings) (c : Command) : Reply := ((start settings).step c).1

/-- A session freshly opened evaluates a formula as the calculator answers it. -/
theorem fresh_evaluate (settings : Settings) (formula : Text) :
    fresh settings (.evaluate formula) = .answer (Calculator.answer settings formula) := rfl

/-! ## What commands change -/

/-- The session after commands. -/
def after (s : Session) (cs : List Command) : Session := cs.foldl (fun s c => (s.step c).2) s

/-- The answer texts after one command. -/
theorem forKind_step_snd (s : Session) (c : Command) (kind : FailureKind) :
    (s.step c).2.settings.messages.forKind kind =
      (c.text? kind).getD (s.settings.messages.forKind kind) := by
  cases c with
  | setMessage kind' text =>
    rw [step, Messages.forKind_set, text?]
    split <;> rfl
  | _ => rfl

/-- The precisions after one command. -/
theorem precision_step_snd (s : Session) (c : Command) :
    (s.step c).2.settings.precision = c.settingsPrecision?.getD s.settings.precision ∧
      (s.step c).2.machinePrecision = c.machinePrecision?.getD s.machinePrecision := by
  cases c <;> exact ⟨rfl, rfl⟩

theorem lastAssigned_concat {α : Type} (assigned? : Command → Option α) (initial : α)
    (cs : List Command) (c : Command) :
    lastAssigned assigned? initial (cs ++ [c]) =
      (assigned? c).getD (lastAssigned assigned? initial cs) := by
  unfold lastAssigned
  cases h : assigned? c <;> simp [h]

theorem after_concat (s : Session) (cs : List Command) (c : Command) :
    s.after (cs ++ [c]) = ((s.after cs).step c).2 :=
  List.foldl_concat ..

/-- The answer texts after a list of commands: each is the one that was assigned last. -/
theorem forKind_after (s : Session) (cs : List Command) (kind : FailureKind) :
    (s.after cs).settings.messages.forKind kind =
      lastAssigned (text? kind) (s.settings.messages.forKind kind) cs := by
  induction cs using List.reverseRecOn with
  | nil => rfl
  | append_singleton cs c ih => rw [after_concat, forKind_step_snd, ih, lastAssigned_concat]

/-- The precisions after a list of commands: each is the one that was assigned last. -/
theorem precision_after (s : Session) (cs : List Command) :
    (s.after cs).settings.precision =
        lastAssigned settingsPrecision? s.settings.precision cs ∧
      (s.after cs).machinePrecision = lastAssigned machinePrecision? s.machinePrecision cs := by
  induction cs using List.reverseRecOn with
  | nil => exact ⟨rfl, rfl⟩
  | append_singleton cs c ih =>
    obtain ⟨hsettings, hmachine⟩ := precision_step_snd (s.after cs) c
    rw [after_concat, hsettings, hmachine, ih.1, ih.2, lastAssigned_concat, lastAssigned_concat]
    exact ⟨rfl, rfl⟩

/-- After commands, a session works with the settings in force. -/
theorem inForce_eq (settings : Settings) (cs : List Command) :
    (⟨((start settings).after cs).machinePrecision, ((start settings).after cs).settings.messages⟩ :
      Settings) = inForce settings cs := by
  have hmessages : ((start settings).after cs).settings.messages = (inForce settings cs).messages :=
    Messages.ext_forKind fun kind => by
      rw [forKind_after, inForce, Messages.forKind_ofForKind]
      rfl
  rw [(precision_after _ cs).2, hmessages]
  rfl

/-! ## Replies -/

theorem length_run (s : Session) (cs : List Command) : (s.run cs).length = cs.length := by
  induction cs generalizing s with
  | nil => rfl
  | cons c cs ih => rw [run, List.length_cons, List.length_cons, ih]

theorem run_append (s : Session) (cs ds : List Command) :
    s.run (cs ++ ds) = s.run cs ++ (s.after cs).run ds := by
  induction cs generalizing s with
  | nil => rfl
  | cons c cs ih =>
    rw [List.cons_append, run, run, ih, List.cons_append]
    rfl

/-- The reply to a command is given by the session after the commands before it. -/
theorem getElem?_run (s : Session) (before : List Command) (c : Command) (rest : List Command) :
    (s.run (before ++ c :: rest))[before.length]? = some ((s.after before).step c).1 := by
  have hle : (s.run before).length ≤ before.length := Nat.le_of_eq (length_run s before)
  rw [run_append, List.getElem?_append_right hle, length_run, Nat.sub_self]
  rfl

/-- A query is answered by the machine's precision and the answer texts. -/
theorem step_fst_of_isQuery {c : Command} (h : c.isQuery = true) (s : Session) :
    (s.step c).1 = fresh ⟨s.machinePrecision, s.settings.messages⟩ c := by
  cases c <;> first | rfl | cases h

/-- A query is answered by the settings in force. -/
theorem getElem?_run_of_isQuery {c : Command} (h : c.isQuery = true) (settings : Settings)
    (before rest : List Command) :
    ((start settings).run (before ++ c :: rest))[before.length]? =
      some (fresh (inForce settings before) c) := by
  rw [getElem?_run, step_fst_of_isQuery h, inForce_eq]

/-! ## Commands that do not matter -/

/-- The same is assigned last when commands are left out that assign nothing. -/
theorem lastAssigned_filter {α : Type} {assigned? : Command → Option α} {keep : Command → Bool}
    (h : ∀ c, keep c = false → assigned? c = none) (initial : α) (cs : List Command) :
    lastAssigned assigned? initial (cs.filter keep) = lastAssigned assigned? initial cs := by
  unfold lastAssigned
  rw [List.filterMap_filter]
  congr 3
  funext c
  by_cases hc : keep c = true
  · rw [if_pos hc]
  · rw [if_neg hc, h c (Bool.eq_false_iff.mpr hc)]

/-- Inert commands do not matter for the settings in force. -/
theorem inForce_filter (settings : Settings) (cs : List Command) :
    inForce settings (cs.filter fun c => !c.isInert) = inForce settings cs := by
  have hinert (c : Command) (hc : (!c.isInert) = false) :
      c.machinePrecision? = none ∧ ∀ kind, c.text? kind = none := by
    cases c <;> first | exact ⟨rfl, fun kind => rfl⟩ | cases hc
  simp only [inForce, lastAssigned_filter fun c hc => (hinert c hc).1,
    lastAssigned_filter fun c hc => (hinert c hc).2 _]

/-- The answer texts do not matter for reports and verdicts. -/
theorem fresh_congr {c : Command}
    (h : ∃ formula, c = .detailed formula ∨ c = .validate formula) {settings settings' : Settings}
    (hp : settings.precision = settings'.precision) : fresh settings c = fresh settings' c := by
  obtain ⟨formula, rfl | rfl⟩ := h
  · exact congrArg (fun precision => Reply.report (Calculator.report precision formula)) hp
  · rfl

/-- A formula with a failure is answered by the text for its kind that is in force. -/
theorem fresh_evaluate_of_failure {settings : Settings} {formula : Text} {failure : Failure}
    (h : Calculator.detailed settings.precision formula = .error (.failure failure)) :
    fresh settings (.evaluate formula) =
      .answer (.ok (settings.messages.forKind failure.cause.kind)) := by
  rw [fresh_evaluate, Calculator.answer, h]
  rfl

/-- **Replies depend on the settings in force only.** Every query of a session is answered like by a
session freshly opened with the settings in force: the precision that the machine was given last,
and for each kind of failure the text that was set last, which is also what a formula with such a
failure is answered by. Queries change nothing, not even those that end in a fault, and an
assignment to the precision of the settings changes that one only. So the reply to a query stays the
same when other queries and such assignments before it are left out or put in, and a report or a
verdict also when answer texts are overwritten otherwise. -/
theorem query_fresh (settings : Settings) :
    (∀ (before : List Command) (c : Command) (rest : List Command), c.isQuery = true →
      ((start settings).run (before ++ c :: rest))[before.length]? =
        some (fresh (inForce settings before) c)) ∧
    (∀ (before : List Command) (kind : FailureKind),
      ((start settings).after before).settings.messages.forKind kind =
          lastAssigned (text? kind) (settings.messages.forKind kind) before ∧
        (inForce settings before).messages.forKind kind =
          lastAssigned (text? kind) (settings.messages.forKind kind) before) ∧
    (∀ (before rest : List Command) (formula : Text) (failure : Failure),
      Calculator.detailed (lastAssigned machinePrecision? settings.precision before) formula =
          .error (.failure failure) →
        ((start settings).run (before ++ Command.evaluate formula :: rest))[before.length]? =
          some (.answer (.ok (lastAssigned (text? failure.cause.kind)
            (settings.messages.forKind failure.cause.kind) before)))) ∧
    (∀ (s : Session) (c : Command), c.isQuery = true → (s.step c).2 = s) ∧
    (∀ (s : Session) (precision : Int), (s.step (.setSettingsPrecision precision)).2 =
      { s with settings := { s.settings with precision } }) ∧
    (∀ (before before' : List Command) (c : Command) (rest rest' : List Command),
      c.isQuery = true →
      (before.filter fun c => !c.isInert) = (before'.filter fun c => !c.isInert) →
      ((start settings).run (before ++ c :: rest))[before.length]? =
        ((start settings).run (before' ++ c :: rest'))[before'.length]?) ∧
    ∀ (messages : Messages) (before before' : List Command) (c : Command)
      (rest rest' : List Command),
      (∃ formula, c = .detailed formula ∨ c = .validate formula) →
      (before.filter fun c => !c.overwrites) = (before'.filter fun c => !c.overwrites) →
      ((start settings).run (before ++ c :: rest))[before.length]? =
        ((start { settings with messages }).run (before' ++ c :: rest'))[before'.length]? := by
  have htexts (before : List Command) (kind : FailureKind) :
      (inForce settings before).messages.forKind kind =
        lastAssigned (text? kind) (settings.messages.forKind kind) before :=
    Messages.forKind_ofForKind _ kind
  refine ⟨fun before c rest hc => getElem?_run_of_isQuery hc settings before rest,
    fun before kind => ⟨forKind_after _ before kind, htexts before kind⟩,
    fun before rest formula failure hf => ?answered, fun s c hc => ?unchanged,
    fun s precision => rfl, fun before before' c rest rest' hc hf => ?inert,
    fun messages before before' c rest rest' hc hf => ?overwritten⟩
  case answered =>
    have hq : (Command.evaluate formula).isQuery = true := rfl
    have hf : Calculator.detailed (inForce settings before).precision formula =
      .error (.failure failure) := hf
    rw [getElem?_run_of_isQuery hq, fresh_evaluate_of_failure hf, htexts]
  case unchanged => cases c <;> first | rfl | cases hc
  case inert =>
    rw [getElem?_run_of_isQuery hc, getElem?_run_of_isQuery hc, ← inForce_filter settings before,
      ← inForce_filter settings before', hf]
  case overwritten =>
    have hq : c.isQuery = true := by obtain ⟨formula, rfl | rfl⟩ := hc <;> rfl
    have hkeep : ∀ c : Command, (!c.overwrites) = false → c.machinePrecision? = none := by
      intro c hc
      cases c <;> first | rfl | cases hc
    rw [getElem?_run_of_isQuery hq, getElem?_run_of_isQuery hq]
    refine congrArg some (fresh_congr hc ?_)
    show lastAssigned machinePrecision? settings.precision before = lastAssigned _ _ before'
    rw [← lastAssigned_filter hkeep, hf, lastAssigned_filter hkeep]

/-- A session whose machine has no valid precision for a while, with and without what does not
matter for the last sum, and a division that is answered by the text that was set last for it. -/
theorem query_fresh_sum :
    let settings : Settings := { precision := 2 }
    let sum := ['2', '7', '+', '1']
    let division := ['1', '/', '0']
    let before : List Command := [.setMachinePrecision 0, .evaluate sum, .setSettingsPrecision 5,
      .setMessage .divisionByZero ['!'], .setMessage .malformedFormat ['#'],
      .setMessage .divisionByZero ['?'], .setMachinePrecision 1]
    let before' : List Command := [.setMachinePrecision 0, .setMessage .divisionByZero ['!'],
      .setMessage .malformedFormat ['#'], .setMessage .divisionByZero ['?'],
      .setMachinePrecision 1]
    let assigned : List Command := [.setMachinePrecision 1]
    let rewritten : List Command := [.setMachinePrecision 1, .setMessage .malformedFormat []]
    ((Command.evaluate sum).isQuery = true ∧
        (before.filter fun c => !c.isInert) = (before'.filter fun c => !c.isInert) ∧
        (assigned.filter fun c => !c.overwrites) = (rewritten.filter fun c => !c.overwrites)) ∧
      ((start settings).run (before ++ [Command.evaluate sum]))[7]? =
        some (Reply.answer (.ok ['3', '0'])) ∧
      ((start settings).run (before' ++ [Command.evaluate sum]))[5]? =
        some (Reply.answer (.ok ['3', '0'])) ∧
      ((start settings).run (before ++ [Command.evaluate division]))[7]? =
        some (Reply.answer (.ok ['?'])) ∧
      ((start settings).run (before ++ [Command.formatMessage]))[7]? =
        some (Reply.message ['#']) ∧
      (Session.step ⟨settings, 0⟩ (.evaluate sum)).2 = ⟨settings, 0⟩ ∧
      ((start settings).run (assigned ++ [Command.detailed sum]))[1]? =
        ((start { settings with messages := ⟨[], [], [], []⟩ }).run
          (rewritten ++ [Command.detailed sum]))[2]? := by
  intro settings sum division before before' assigned rewritten
  obtain ⟨hfresh, -, hanswered, hquery, -, hinert, htexts⟩ := query_fresh settings
  have hq : (Command.evaluate sum).isQuery = true := rfl
  have hprecision : (inForce settings before).precision = 1 := rfl
  have hvalue : Calculator.detailed 1 sum = .ok ['3', '0'] := by cbv
  have hfailure : Calculator.detailed 1 division =
      .error (.failure ⟨.divisionByZero, division, some ['/']⟩) := by cbv
  have hreply := hfresh before (.evaluate sum) [] hq
  rw [fresh_evaluate, Calculator.answer, hprecision, hvalue] at hreply
  exact ⟨⟨hq, rfl, rfl⟩, hreply,
    (hinert before before' (.evaluate sum) [] [] hq rfl).symm.trans hreply,
    hanswered before [] division _ hfailure, hfresh before .formatMessage [] rfl,
    hquery ⟨settings, 0⟩ (.evaluate sum) hq,
    htexts _ assigned rewritten (.detailed sum) [] [] ⟨sum, .inl rfl⟩ rfl⟩

end Session

end Reckon
