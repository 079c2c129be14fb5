import Rpn.Proofs.Effects
import Rpn.Proofs.Reach
import Rpn.Proofs.Totality

/-!
# Observers do not interfere

The observer is told of an evaluation when there is nothing left to do but to
answer. `Course` says so of every command of a session: either it comes to its
end without an evaluation, or it evaluates some calculator and answers with what
comes of that, and nothing of this depends on who observes. So an observer can
do no more than put an objection in the place of an answer (`Observer.heard`).
The calculators stay the same but for their observers, and what holds of a
command holds of a session by induction.

Two commands are left out. One of them sets the observer. The other, which puts
the result of an evaluation on the stack, has two evaluations in it, and does
not come to the second if there is an objection to the first.
-/

namespace Rpn

/-! ## Steps and what is seen of them -/

/-- Whether a command is a step that has one evaluation in it at most, and keeps
the observer. -/
def Command.isStep : Command → Bool
  | .repush | .setObserver _ => false
  | _ => true

/-- Whether a command ends with an evaluation. -/
def Command.evaluates : Command → Bool
  | .push _ | .perform _ | .evaluate => true
  | _ => false

/-- What anyone sees of a report: the answer, and the stack afterwards. -/
def Report.seen (report : Report Reply) : Except Fault Reply × Stack :=
  (report.outcome, report.after.stack)

namespace Observer

/-- What an observer objects to an evaluation, if it does. -/
def objection? (stack : Stack) (outcome : Outcome) : Observer → Option Mishap
  | calling observe =>
    match observe stack outcome with
    | .ok () => none
    | .error cause => some cause
  | _ => none

/-- What is seen of a command under an observer, from what is seen without one.
An objection to an evaluation takes the place of the answer. -/
def heard (observer : Observer) (command : Command)
    (seen : Except Fault Reply × Stack) : Except Fault Reply × Stack :=
  match command.evaluates, seen.1, seen.2.evaluate with
  | true, .ok _, .ok outcome =>
    match observer.objection? seen.2 outcome with
    | some cause => (.error (.observer cause), seen.2)
    | none => seen
  | _, _, _ => seen

/-- What is seen of a command if there is an objection to every evaluation. -/
def interrupted (cause : Mishap) (command : Command)
    (seen : Except Fault Reply × Stack) : Except Fault Reply × Stack :=
  if command.evaluates && seen.1.isOk then (.error (.observer cause), seen.2)
  else seen

section Heard

variable {observer : Observer} {command : Command} {stack : Stack}
  {outcome : Outcome} {seen : Except Fault Reply × Stack}

theorem heard_of_not_evaluates (h : command.evaluates = false) :
    observer.heard command seen = seen := by
  rw [heard, h]

theorem heard_of_error {fault : Fault} :
    observer.heard command (.error fault, stack) = (.error fault, stack) := by
  rw [heard]
  cases command.evaluates with
  | false => rfl
  | true => rfl

theorem heard_of_ok {reply : Reply} (h : command.evaluates = true)
    (hstack : stack.evaluate = .ok outcome) :
    observer.heard command (.ok reply, stack) =
      match observer.objection? stack outcome with
      | some cause => (.error (.observer cause), stack)
      | none => (.ok reply, stack) := by
  rw [heard, h]
  simp only [hstack]

theorem IsQuiet.objection?_eq (h : observer.IsQuiet) (stack : Stack)
    (outcome : Outcome) : observer.objection? stack outcome = none := by
  cases observer with
  | calling observe => rw [objection?, h stack outcome]
  | _ => rfl

theorem IsQuiet.heard_eq (h : observer.IsQuiet) :
    observer.heard = silent.heard := by
  funext command seen
  rw [heard, heard]
  split
  · rw [h.objection?_eq]
    rfl
  · rfl

end Heard

end Observer

/-- What is written down of an evaluation: the stack, its result, and what is
left of it beneath the result. Stacks are written bottom first. -/
structure Record where
  stack : List Operation
  result : Option Float
  remainder : List Operation

/-- What is written down of a notice, if it is one of an evaluation. -/
def Notice.record? : Notice → Option Record
  | .evaluated stack outcome =>
    some ⟨stack.reverse, outcome.value?, (outcome.remainder stack).reverse⟩
  | _ => none

namespace Observer

/-- What an observer writes down, among the notices of a report. -/
def records (observer : Observer) (notices : List Notice) : List Record :=
  (notices.filter observer.keeps).filterMap Notice.record?

theorem records_append (observer : Observer) (notices later : List Notice) :
    observer.records (notices ++ later) =
      observer.records notices ++ observer.records later := by
  rw [records, List.filter_append, List.filterMap_append]
  rfl

theorem records_of_not_evaluated {notices : List Notice}
    (h : ∀ stack outcome, .evaluated stack outcome ∉ notices)
    (observer : Observer) : observer.records notices = [] := by
  refine List.filterMap_eq_nil_iff.2 fun notice hmem => ?_
  cases notice with
  | evaluated stack outcome =>
      exact absurd (List.mem_filter.1 hmem).1 (h stack outcome)
  | ignored symbol => rfl
  | dropped token => rfl

end Observer

namespace Calculator

variable {c : Calculator} {command : Command} {commands : List Command}

/-- The calculator under another observer. -/
def observedBy (observer : Observer) (c : Calculator) : Calculator :=
  { c with observer := observer }

/-! ## An evaluation under an observer -/

theorem evaluate_of_error {fault : Fault} (h : c.stack.evaluate = .error fault)
    (observer : Observer) :
    (c.observedBy observer).evaluate =
      ⟨.error fault, c.observedBy observer, []⟩ := by
  rw [evaluate, observedBy, h]

theorem evaluate_outcome_observedBy {outcome : Outcome}
    (h : c.stack.evaluate = .ok outcome) (observer : Observer) :
    (c.observedBy observer).evaluate.outcome =
      match observer.objection? c.stack outcome with
      | some cause => .error (.observer cause)
      | none => .ok outcome.value? := by
  rw [evaluate, observedBy, h]
  cases observer with
  | calling observe =>
      rw [Observer.objection?]
      simp only []
      cases observe c.stack outcome with
      | error cause => rfl
      | ok _ => rfl
  | _ => rfl

theorem evaluate_recording {outcome : Outcome}
    (h : c.stack.evaluate = .ok outcome) :
    (c.observedBy .recording).evaluate =
      ⟨.ok outcome.value?, c.observedBy .recording,
        [.evaluated c.stack outcome]⟩ := by
  rw [evaluate, observedBy, h]

/-! ## A command under an observer -/

/-- The course of a command, which is the same under every observer: it ends
without an evaluation, or with the evaluation of some calculator. None of the
notices given before that is of an evaluation. -/
inductive Course (c : Calculator) (command : Command) : Prop where
  | apart (outcome : Except Fault Reply) (after : Calculator)
      (notices : List Notice)
      (hnotices : ∀ stack outcome, .evaluated stack outcome ∉ notices)
      (hfault : command.evaluates = true → ∃ fault, outcome = .error fault)
      (heq : ∀ observer, (c.observedBy observer).execute command =
        ⟨outcome, after.observedBy observer, notices⟩)
  | evaluating (before : Calculator) (notices : List Notice)
      (hnotices : ∀ stack outcome, .evaluated stack outcome ∉ notices)
      (hevaluates : command.evaluates = true)
      (heq : ∀ observer, (c.observedBy observer).execute command =
        ⟨(before.observedBy observer).evaluate.outcome.map .result,
          (before.observedBy observer).evaluate.after,
          notices ++ (before.observedBy observer).evaluate.notices⟩)

theorem evaluated_not_mem_nil (stack : Stack) (outcome : Outcome) :
    .evaluated stack outcome ∉ ([] : List Notice) := List.not_mem_nil

/-- A command without an evaluation may be answered in any way. -/
theorem Course.of_not_evaluates (h : command.evaluates = false)
    (outcome : Except Fault Reply) (after : Calculator) (notices : List Notice)
    (hnotices : ∀ stack outcome, .evaluated stack outcome ∉ notices)
    (heq : ∀ observer, (c.observedBy observer).execute command =
      ⟨outcome, after.observedBy observer, notices⟩) : Course c command := by
  refine .apart outcome after notices hnotices (fun hevaluates => ?_) heq
  rw [h] at hevaluates
  cases hevaluates

theorem course_push (c : Calculator) (value : Value) :
    Course c (.push value) := by
  cases h : value.toFloat with
  | error fault =>
      refine .apart (.error fault) c [] evaluated_not_mem_nil
        (fun _ => ⟨fault, rfl⟩) fun _ => ?_
      rw [execute, push_of_error h]
      rfl
  | ok x =>
      refine .evaluating (c.add (.operand x)) [] evaluated_not_mem_nil rfl
        fun observer => ?_
      rw [execute, push_of_ok h]
      rfl

theorem course_perform (c : Calculator) (symbol : Value) :
    Course c (.perform symbol) := by
  have hnone : ∀ stack outcome,
      .evaluated stack outcome ∉ [Notice.ignored symbol] := by
    intro stack outcome hmem
    cases List.mem_singleton.1 hmem
  cases symbol with
  | list items =>
      exact .apart (.error (.notName "list")) c [] evaluated_not_mem_nil
        (fun _ => ⟨_, rfl⟩) fun _ => rfl
  | text token =>
      cases h : c.registry.find? token with
      | some op =>
          refine .evaluating (c.add op) [] evaluated_not_mem_nil rfl
            fun observer => ?_
          have hfound : (c.observedBy observer).registry.find? token = some op := h
          rw [execute, perform_text, hfound]
          rfl
      | none =>
          refine .evaluating c _ hnone rfl fun observer => ?_
          have hmissing : (c.observedBy observer).registry.find? token = none := h
          rw [execute, perform_text, hmissing]
          rfl
  | _ => exact .evaluating c _ hnone rfl fun _ => rfl

theorem course_load (c : Calculator) (tokens : Value) (mode : Option Bool) :
    Course c (.load tokens mode) := by
  cases tokens with
  | list items =>
      let sorted := Program.sort c.registry 0 items
      have hdropped : ∀ stack outcome, .evaluated stack outcome ∉
          (sorted.dropped (mode.getD c.strict)).map Notice.dropped := by
        intro stack outcome hmem
        obtain ⟨token, _, hnotice⟩ := List.mem_map.1 hmem
        cases hnotice
      cases h : sorted.stack (mode.getD c.strict) with
      | error fault =>
          refine .of_not_evaluates rfl (.error fault) c _ hdropped
            fun observer => ?_
          have hstack : (Program.sort (c.observedBy observer).registry 0 items).stack
              (mode.getD (c.observedBy observer).strict) = .error fault := h
          rw [execute, load, hstack]
          rfl
      | ok stack =>
          refine .of_not_evaluates rfl (.ok .done) { c with stack := stack } _
            hdropped fun observer => ?_
          have hstack : (Program.sort (c.observedBy observer).registry 0 items).stack
              (mode.getD (c.observedBy observer).strict) = .ok stack := h
          rw [execute, load, hstack]
          rfl
  | text text =>
      exact .of_not_evaluates rfl (.error .textForProgram) c []
        evaluated_not_mem_nil fun _ => rfl
  | _ =>
      exact .of_not_evaluates rfl _ c [] evaluated_not_mem_nil fun _ => rfl

theorem course (h : command.isStep = true) (c : Calculator) :
    Course c command := by
  cases command with
  | push value => exact course_push c value
  | perform symbol => exact course_perform c symbol
  | evaluate => exact .evaluating c [] evaluated_not_mem_nil rfl fun _ => rfl
  | repush => cases h
  | reset =>
      exact .of_not_evaluates rfl (.ok (.display c.settings.resetValue))
        { c with stack := [] } [] evaluated_not_mem_nil fun _ => rfl
  | load tokens mode => exact course_load c tokens mode
  | setStrict strict =>
      exact .of_not_evaluates rfl (.ok .done) { c with strict := strict } []
        evaluated_not_mem_nil fun _ => rfl
  | setObserver observer => cases h

theorem Course.exists_after (h : Course c command) :
    ∃ after : Calculator, ∀ observer,
      ((c.observedBy observer).execute command).after =
        after.observedBy observer := by
  cases h with
  | apart outcome after notices _ _ heq =>
      exact ⟨after, fun observer => by rw [heq observer]⟩
  | evaluating before notices _ _ heq =>
      exact ⟨before, fun observer => by rw [heq observer, evaluate_after]⟩

/-- What is seen of a step is the same under every observer, or it is an
evaluation that has an outcome, and an objection to it is seen in the place of
the answer. -/
theorem Course.seen_cases (h : Course c command) :
    (∃ outcome stack,
      (command.evaluates = true → ∃ fault, outcome = .error fault) ∧
        ∀ observer, ((c.observedBy observer).execute command).seen =
          (outcome, stack)) ∨
      command.evaluates = true ∧
        ∃ stack outcome, Stack.evaluate stack = .ok outcome ∧
          ∀ observer, ((c.observedBy observer).execute command).seen =
            match observer.objection? stack outcome with
            | some cause => (.error (.observer cause), stack)
            | none => (.ok (.result outcome.value?), stack) := by
  cases h with
  | apart outcome after notices _ hfault heq =>
      refine Or.inl ⟨outcome, after.stack, hfault, fun observer => ?_⟩
      rw [heq]
      rfl
  | evaluating before notices _ hevaluates heq =>
      cases hstack : before.stack.evaluate with
      | error fault =>
          refine Or.inl ⟨.error fault, before.stack, fun _ => ⟨fault, rfl⟩,
            fun observer => ?_⟩
          rw [heq, evaluate_of_error hstack]
          rfl
      | ok outcome =>
          refine Or.inr ⟨hevaluates, before.stack, outcome, hstack,
            fun observer => ?_⟩
          rw [heq, evaluate_outcome_observedBy hstack, evaluate_after]
          cases observer.objection? before.stack outcome with
          | some cause => rfl
          | none => rfl

/-- What is seen of a step under an observer is what is seen without one, but
for an objection. -/
theorem Course.seen_eq (h : Course c command) (observer : Observer) :
    ((c.observedBy observer).execute command).seen =
      observer.heard command ((c.observedBy .silent).execute command).seen := by
  rcases h.seen_cases with ⟨outcome, stack, hfault, hseen⟩ |
    ⟨hevaluates, stack, outcome, hstack, hseen⟩
  · rw [hseen, hseen]
    cases hevaluates : command.evaluates with
    | false => exact (Observer.heard_of_not_evaluates hevaluates).symm
    | true =>
        obtain ⟨fault, rfl⟩ := hfault hevaluates
        exact Observer.heard_of_error.symm
  · rw [hseen, hseen]
    exact (Observer.heard_of_ok hevaluates hstack).symm

theorem Course.seen_failing (h : Course c command) (cause : Mishap) :
    ((c.observedBy (.failing cause)).execute command).seen =
      Observer.interrupted cause command
        ((c.observedBy .silent).execute command).seen := by
  rw [Observer.interrupted]
  rcases h.seen_cases with ⟨outcome, stack, hfault, hseen⟩ |
    ⟨hevaluates, stack, outcome, hstack, hseen⟩
  · rw [hseen, hseen]
    cases hevaluates : command.evaluates with
    | false => rfl
    | true =>
        obtain ⟨fault, rfl⟩ := hfault hevaluates
        rfl
  · rw [hseen, hseen, hevaluates]
    rfl

/-! ## What is written down -/

/-- What is written down of a step: of an evaluation that was answered the stack
afterwards, its value, which was the answer, and its remainder, which lies at the
bottom of the stack and is all of it if there is no result; and of anything else
nothing. -/
structure IsRecorded (command : Command) (report : Report Reply) : Prop where
  answered : command.evaluates = true → ∀ reply, report.outcome = .ok reply →
    ∃ outcome, report.after.stack.evaluate = .ok outcome ∧
      reply = .result outcome.value? ∧
      let remainder := (outcome.remainder report.after.stack).reverse
      Observer.recording.records report.notices =
        [⟨report.after.stack.reverse, outcome.value?, remainder⟩] ∧
      remainder <+: report.after.stack.reverse ∧
      (outcome.value? = none → remainder = report.after.stack.reverse)
  unanswered : command.evaluates = false ∨
    (∃ fault, report.outcome = .error fault) →
    Observer.recording.records report.notices = []

theorem Course.isRecorded (h : Course c command) :
    IsRecorded command ((c.observedBy .recording).execute command) := by
  cases h with
  | apart outcome after notices hnotices hfault heq =>
      rw [heq]
      refine ⟨fun hevaluates reply hreply => ?_, fun _ => ?_⟩
      · obtain ⟨fault, rfl⟩ := hfault hevaluates
        cases hreply
      · exact Observer.records_of_not_evaluated hnotices _
  | evaluating before notices hnotices hevaluates heq =>
      rw [heq]
      cases hstack : before.stack.evaluate with
      | error fault =>
          rw [evaluate_of_error hstack]
          refine ⟨fun _ reply hreply => ?_, fun _ => ?_⟩
          · cases hreply
          · rw [List.append_nil]
            exact Observer.records_of_not_evaluated hnotices _
      | ok outcome =>
          obtain ⟨hsuffix, hall⟩ := Stack.remainder_suffix hstack
          rw [evaluate_recording hstack]
          refine ⟨fun _ reply hreply => ?_, fun hnone => ?_⟩
          · obtain rfl : Reply.result outcome.value? = reply :=
              Except.ok.inj hreply
            refine ⟨outcome, hstack, rfl, ?_, List.reverse_prefix.2 hsuffix,
              fun hnone => ?_⟩
            · rw [Observer.records_append,
                Observer.records_of_not_evaluated hnotices]
              rfl
            · exact congrArg List.reverse (hall.2 hnone)
          · rcases hnone with hnone | ⟨fault, hfault⟩
            · rw [hevaluates] at hnone
              cases hnone
            · cases hfault

/-! ## Sessions -/

/-- What is seen of each step of a session follows from what is seen of it
without an observer, if that is so for steps alone. -/
theorem session_seen {observer : Observer}
    {view : Command → Except Fault Reply × Stack → Except Fault Reply × Stack}
    (hview : ∀ {c : Calculator} {command : Command}, Course c command →
      ((c.observedBy observer).execute command).seen =
        view command ((c.observedBy .silent).execute command).seen)
    (hsteps : ∀ command ∈ commands, command.isStep = true) (c : Calculator) :
    ((c.observedBy observer).session commands).map Report.seen =
      List.zipWith view commands
        (((c.observedBy .silent).session commands).map Report.seen) := by
  induction commands generalizing c with
  | nil => rfl
  | cons command rest ih =>
      obtain ⟨hfirst, hrest⟩ := List.forall_mem_cons.1 hsteps
      -- Both sessions go on from one calculator, but for the observer.
      have hcourse := course hfirst c
      obtain ⟨after, hafter⟩ := hcourse.exists_after
      rw [session, session, List.map_cons, List.map_cons, List.zipWith_cons_cons,
        hview hcourse, hafter, hafter, ih hrest after]

theorem session_isRecorded
    (hsteps : ∀ command ∈ commands, command.isStep = true) (c : Calculator)
    {report : Report Reply}
    (h : (command, report) ∈
      commands.zip ((c.observedBy .recording).session commands)) :
    IsRecorded command report := by
  induction commands generalizing c with
  | nil => cases h
  | cons first rest ih =>
      obtain ⟨hfirst, hrest⟩ := List.forall_mem_cons.1 hsteps
      have hcourse := course hfirst c
      obtain ⟨after, hafter⟩ := hcourse.exists_after
      rw [session, List.zip_cons_cons, hafter] at h
      rcases List.mem_cons.1 h with heq | hmem
      · cases heq
        exact hcourse.isRecorded
      · exact ih hrest after hmem

/-- An observer that lets every evaluation pass changes nothing that is seen of a
session. One that fails at every evaluation changes the answers to the commands
that end with one, and any other the answers to those evaluations that it fails
at; the stacks are always the same. A recording observer writes down each answer
to an evaluation and nothing else. -/
theorem observers_do_not_interfere (c : Calculator)
    (hsteps : ∀ command ∈ commands, command.isStep = true) :
    let unobserved := ((c.observedBy .silent).session commands).map Report.seen
    (∀ observer : Observer, observer.IsQuiet →
      ((c.observedBy observer).session commands).map Report.seen =
        unobserved) ∧
    (∀ cause, ((c.observedBy (.failing cause)).session commands).map
        Report.seen =
      List.zipWith (Observer.interrupted cause) commands unobserved) ∧
    (∀ observer : Observer,
      ((c.observedBy observer).session commands).map Report.seen =
        List.zipWith observer.heard commands unobserved) ∧
    ∀ command report, (command, report) ∈
        commands.zip ((c.observedBy .recording).session commands) →
      IsRecorded command report := by
  intro unobserved
  have hheard : ∀ observer : Observer,
      ((c.observedBy observer).session commands).map Report.seen =
        List.zipWith observer.heard commands unobserved :=
    fun observer => session_seen (fun hcourse => hcourse.seen_eq observer) hsteps c
  refine ⟨fun observer hquiet => ?_, fun cause => ?_, hheard,
    fun _ _ => session_isRecorded hsteps c⟩
  · rw [hheard observer, hquiet.heard_eq]
    exact (hheard .silent).symm
  · exact session_seen (fun hcourse => hcourse.seen_failing cause) hsteps c

/-- Steps that are answered with a result or with none, steps that are faults,
and steps without an evaluation. -/
def mixedSteps : List Command :=
  [.push (.text "2"), .perform (.text "×"), .perform (.text "?"),
    .push (.text "two"), .load (.list [.text "3", .text "x"]) (some true),
    .load (.list [.text "3", .text "4"]) none, .evaluate, .reset]

/-- An observer that fails at every evaluation has the stacks grow and shrink as
they do without one, and one evaluation of a session is written down. -/
theorem observers_do_not_interfere_mixed :
    (∀ command ∈ mixedSteps, command.isStep = true) ∧
      ((watched.observedBy .silent).session mixedSteps).map
        (·.after.stack.length) = [1, 2, 2, 2, 2, 2, 2, 0] ∧
      (watched.session mixedSteps).map Report.seen =
        List.zipWith (Observer.interrupted ⟨"ValueError", "trace"⟩) mixedSteps
          (((watched.observedBy .silent).session mixedSteps).map Report.seen) ∧
      ∃ report ∈ (watched.observedBy .recording).session mixedSteps,
        IsRecorded .evaluate report := by
  have hsteps : ∀ command ∈ mixedSteps, command.isStep = true := by decide
  obtain ⟨_, hfailing, _, hrecorded⟩ :=
    observers_do_not_interfere watched hsteps
  refine ⟨hsteps, by decide +kernel, hfailing ⟨"ValueError", "trace"⟩,
    _, List.mem_of_getElem? (i := 6) rfl, hrecorded _ _ ?_⟩
  exact List.mem_of_getElem? (i := 6) rfl

end Calculator

end Rpn
