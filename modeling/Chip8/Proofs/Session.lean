import Chip8.Console.Session
import Chip8.Machine.Run

/-!
Sessions, told by the steps that they make. What a turn leaves is told by the step it makes, if it
makes one, and what a run leaves by all its steps: the machine, what was reported, how often the
beeper was started, and what the session keeps in order to know when the next step is due.
-/

namespace Chip8.Console

/-- A step that a session makes: when, on which machine, and with which input. -/
structure MadeStep where
  now : Nat
  machine : Machine
  input : Input

namespace MadeStep

variable (step : MadeStep)

def outcome : Outcome := step.machine.step step.input

def fault? : Option Fault :=
  match step.outcome.result with
  | .error fault => some fault
  | .ok _ => none

/-- The step succeeded and said that the machine has halted. -/
def halts : Bool :=
  match step.outcome.result with
  | .error _ => false
  | .ok halted => halted

/-- The step succeeded and the sound timer ran out in it. -/
def beeps : Bool := step.fault?.isNone && step.outcome.machine.beep

def notices : List Notice :=
  step.outcome.events.map .machine ++ Session.haltNotices step.halts

variable {step}

theorem fault?_eq_some_iff {fault : Fault} :
    step.fault? = some fault ↔ step.outcome.result = .error fault := by
  unfold fault?
  split <;> simp [*]

theorem fault?_eq_none_iff : step.fault? = none ↔ ∃ halted, step.outcome.result = .ok halted := by
  unfold fault?
  split <;> simp [*]

theorem halts_iff : step.halts = true ↔ step.outcome.result = .ok true := by
  unfold halts
  split <;> simp [*]

theorem notices_of_error {fault : Fault} (h : step.outcome.result = .error fault) :
    step.notices = step.outcome.events.map .machine := by
  simp [notices, halts, h, Session.haltNotices]

theorem notices_of_ok {halted : Bool} (h : step.outcome.result = .ok halted) :
    step.notices = step.outcome.events.map .machine ++ Session.haltNotices halted := by
  simp [notices, halts, h]

end MadeStep

def timeAfter (opened : Nat) (made : List MadeStep) : Nat :=
  made.foldl (fun _ step => step.now) opened

/-- What follows on a turn, unless the turn ends the session. -/
def TurnResult.andThen (result : TurnResult) (next : Session → TurnResult) : TurnResult :=
  match result.ending? with
  | some _ => result
  | none =>
    let later := next result.session
    { later with
      notices := result.notices ++ later.notices
      calls := result.calls ++ later.calls }

namespace TurnResult

variable {result : TurnResult}

theorem andThen_of_some {ending : Ending} (h : result.ending? = some ending)
    (next : Session → TurnResult) : result.andThen next = result := by
  simp only [andThen, h]

theorem andThen_of_none (h : result.ending? = none) (next : Session → TurnResult) :
    result.andThen next =
      { next result.session with
        notices := result.notices ++ (next result.session).notices
        calls := result.calls ++ (next result.session).calls } := by
  simp only [andThen, h]

theorem andThen_assoc (next next' : Session → TurnResult) :
    (result.andThen next).andThen next' = result.andThen fun s => (next s).andThen next' := by
  cases h : result.ending? with
  | some ending => rw [andThen_of_some h, andThen_of_some h, andThen_of_some h]
  | none =>
      rw [andThen_of_none h, andThen_of_none h]
      cases hnext : (next result.session).ending? with
      | some ending => simp only [andThen, hnext]
      | none => simp only [andThen, hnext, List.append_assoc]

end TurnResult

/-- Seeing to the beeper never starts it. -/
theorem Beeper.count_resume_update (b : Beeper) (now length : Nat) :
    (b.update now length).2.count .resume = 0 := by
  unfold update
  split
  · rfl
  · split <;> rfl

namespace Session

section

variable (s : Session)

def stepAt (pad : Keypad) (t : Turn) : MadeStep := ⟨t.now, s.machine, s.stepInput pad t⟩

def step? (t : Turn) : Option MadeStep :=
  match t.poll with
  | .quit => none
  | .keys pad => if s.isDue t.now then some (s.stepAt pad t) else none

def steps (s : Session) : List Turn → List MadeStep
  | [] => []
  | t :: rest =>
    (s.step? t).toList ++
      match (s.turn t).ending? with
      | some _ => []
      | none => (s.turn t).session.steps rest

/-! ### Turns one after the other -/

theorem run_cons (t : Turn) (rest : List Turn) :
    s.run (t :: rest) = (s.turn t).andThen (·.run rest) := rfl

theorem run_append (earlier later : List Turn) :
    s.run (earlier ++ later) = (s.run earlier).andThen (·.run later) := by
  induction earlier generalizing s with
  | nil => rfl
  | cons t rest ih =>
      rw [List.cons_append, run_cons, run_cons, TurnResult.andThen_assoc]
      simp only [ih]

theorem steps_append (earlier later : List Turn) :
    s.steps (earlier ++ later) =
      s.steps earlier ++
        match (s.run earlier).ending? with
        | some _ => []
        | none => (s.run earlier).session.steps later := by
  induction earlier generalizing s with
  | nil => rfl
  | cons t rest ih =>
      rw [run_cons, List.cons_append, steps, steps]
      cases h : (s.turn t).ending? with
      | some ending => simp only [TurnResult.andThen_of_some h, h, List.append_nil]
      | none => simp only [TurnResult.andThen_of_none h, ih, List.append_assoc]

end

/-! ### One turn -/

/-- What some turns of a session have come to, told by the steps that were made in them. -/
structure Account (s : Session) (made : List MadeStep) (result : TurnResult) : Prop where
  machine : result.session.machine = s.machine.run (made.map MadeStep.input)
  notices : result.notices = made.flatMap MadeStep.notices
  resumes : result.calls.count .resume = made.countP MadeStep.beeps
  unit : result.session.unit = s.unit
  halted : result.ending? = none → result.session.halted = (s.halted || made.any MadeStep.halts)
  lastStep : result.ending? = none → result.session.lastStep = timeAfter s.lastStep made

theorem refresh_account (s : Session) (now : Nat) : Account s [] (s.refresh now [] []) where
  machine := rfl
  notices := rfl
  resumes := s.beeper.count_resume_update now _
  unit := rfl
  halted _ := (Bool.or_false _).symm
  lastStep _ := rfl

section StepTurn

variable {s : Session} {pad : Keypad} {t : Turn}

theorem stepTurn_of_error {fault : Fault}
    (h : (s.stepAt pad t).outcome.result = .error fault) :
    s.stepTurn pad t =
      ⟨{ s with machine := (s.stepAt pad t).outcome.machine }, some (.failed fault),
        (s.stepAt pad t).notices, []⟩ := by
  rw [MadeStep.notices_of_error h]
  simp only [MadeStep.outcome, stepAt] at h ⊢
  simp only [stepTurn, h]

theorem stepTurn_of_ok {halted : Bool} (h : (s.stepAt pad t).outcome.result = .ok halted) :
    ∃ beeper,
      s.stepTurn pad t =
        { s with
          machine := (s.stepAt pad t).outcome.machine
          halted
          lastStep := t.now
          beeper }.refresh t.now (s.stepAt pad t).notices
            (if (s.stepAt pad t).beeps then [.resume] else []) := by
  have hbeeps : (s.stepAt pad t).beeps = (s.stepAt pad t).outcome.machine.beep := by
    rw [MadeStep.beeps, MadeStep.fault?_eq_none_iff.mpr ⟨halted, h⟩]
    rfl
  have hresult : (s.machine.step (s.stepInput pad t)).result = .ok halted := h
  rw [MadeStep.notices_of_ok h]
  by_cases hbeep : (s.stepAt pad t).beeps = true
  · have hsound : (s.machine.step (s.stepInput pad t)).machine.beep = true :=
      hbeeps.symm.trans hbeep
    simp only [stepTurn, hresult, if_pos hsound, if_pos hbeep]
    exact ⟨_, rfl⟩
  · have hsound : ¬(s.machine.step (s.stepInput pad t)).machine.beep = true :=
      fun hsound => hbeep (hbeeps.trans hsound)
    simp only [stepTurn, hresult, if_neg hsound, if_neg hbeep]
    exact ⟨_, rfl⟩

theorem stepTurn_ending? :
    (s.stepTurn pad t).ending? = (s.stepAt pad t).fault?.map .failed := by
  cases h : (s.stepAt pad t).outcome.result with
  | error fault =>
      rw [stepTurn_of_error h, MadeStep.fault?_eq_some_iff.mpr h]
      rfl
  | ok halted =>
      obtain ⟨beeper, heq⟩ := stepTurn_of_ok h
      rw [heq, MadeStep.fault?_eq_none_iff.mpr ⟨halted, h⟩]
      rfl

theorem stepTurn_account (hdue : s.halted = false) :
    Account s [s.stepAt pad t] (s.stepTurn pad t) := by
  cases h : (s.stepAt pad t).outcome.result with
  | error fault =>
      have hbeeps : (s.stepAt pad t).beeps = false := by
        rw [MadeStep.beeps, MadeStep.fault?_eq_some_iff.mpr h]
        rfl
      rw [stepTurn_of_error h]
      exact ⟨rfl, by simp, by simp [hbeeps], rfl, nofun, nofun⟩
  | ok halted =>
      have hhalts : (s.stepAt pad t).halts = halted := by
        rw [MadeStep.halts, h]
      obtain ⟨beeper, heq⟩ := stepTurn_of_ok h
      rw [heq]
      refine ⟨rfl, by simp [refresh], ?_, rfl, fun _ => ?_, fun _ => rfl⟩
      · have hupdate := beeper.count_resume_update t.now (Beeper.duration * s.unit)
        simp only [refresh, List.count_append, hupdate]
        cases hbeeps : (s.stepAt pad t).beeps <;> simp [hbeeps]
      · simp [refresh, hdue, hhalts]

end StepTurn

section Turn

variable {s : Session} {t : Turn}

theorem turn_of_quit (h : t.poll = .quit) :
    s.step? t = none ∧ s.turn t = ⟨s, some .quit, [], []⟩ := by
  simp only [step?, turn, h, and_self]

theorem turn_of_rest {pad : Keypad} (h : t.poll = .keys pad) (hdue : s.isDue t.now = false) :
    s.step? t = none ∧ s.turn t = s.refresh t.now [] [] := by
  simp [step?, turn, h, hdue]

theorem turn_of_due {pad : Keypad} (h : t.poll = .keys pad) (hdue : s.isDue t.now = true) :
    s.step? t = some (s.stepAt pad t) ∧ s.turn t = s.stepTurn pad t := by
  simp [step?, turn, h, hdue]

theorem isDue_iff {now : Nat} :
    s.isDue now = true ↔ s.halted = false ∧ stepInterval < s.elapsed now := by
  simp [isDue]

theorem step?_eq_some {step : MadeStep} (h : s.step? t = some step) :
    ∃ pad, t.poll = .keys pad ∧ s.isDue t.now = true ∧ step = s.stepAt pad t := by
  cases hpoll : t.poll with
  | quit => simp [step?, hpoll] at h
  | keys pad =>
      simp only [step?, hpoll, Option.ite_none_right_eq_some, Option.some_inj] at h
      exact ⟨pad, rfl, h.1, h.2.symm⟩

theorem turn_ending? (s : Session) (t : Turn) :
    (s.turn t).ending? =
      match t.poll with
      | .quit => some .quit
      | .keys _ => ((s.step? t).bind MadeStep.fault?).map .failed := by
  cases hpoll : t.poll with
  | quit => rw [(turn_of_quit hpoll).2]
  | keys pad =>
      cases hdue : s.isDue t.now with
      | false =>
          obtain ⟨hstep, hturn⟩ := turn_of_rest hpoll hdue
          rw [hstep, hturn]
          rfl
      | true =>
          obtain ⟨hstep, hturn⟩ := turn_of_due hpoll hdue
          rw [hstep, hturn]
          exact stepTurn_ending?

theorem turn_account (s : Session) (t : Turn) : Account s (s.step? t).toList (s.turn t) := by
  cases hpoll : t.poll with
  | quit =>
      obtain ⟨hstep, hturn⟩ := turn_of_quit (s := s) hpoll
      rw [hstep, hturn]
      exact ⟨rfl, rfl, rfl, rfl, nofun, nofun⟩
  | keys pad =>
      cases hdue : s.isDue t.now with
      | false =>
          obtain ⟨hstep, hturn⟩ := turn_of_rest hpoll hdue
          rw [hstep, hturn]
          exact s.refresh_account t.now
      | true =>
          obtain ⟨hstep, hturn⟩ := turn_of_due hpoll hdue
          rw [hstep, hturn]
          exact stepTurn_account (isDue_iff.mp hdue).1

end Turn

/-! ### A whole run -/

theorem Account.append {s : Session} {made made' : List MadeStep} {result : TurnResult}
    {next : Session → TurnResult} (h : Account s made result) (hgoes : result.ending? = none)
    (h' : Account result.session made' (next result.session)) :
    Account s (made ++ made') (result.andThen next) := by
  rw [TurnResult.andThen_of_none hgoes]
  refine ⟨?_, ?_, ?_, h'.unit.trans h.unit, fun hends => ?_, fun hends => ?_⟩
  · rw [List.map_append, Machine.run, List.foldl_append]
    exact h'.machine.trans (congrArg (·.run (made'.map MadeStep.input)) h.machine)
  · rw [List.flatMap_append, ← h.notices, ← h'.notices]
  · rw [List.count_append, List.countP_append, h.resumes, h'.resumes]
  · rw [List.any_append, ← Bool.or_assoc, ← h.halted hgoes]
    exact h'.halted hends
  · rw [timeAfter, List.foldl_append]
    exact (h'.lastStep hends).trans (congrArg (timeAfter · made') (h.lastStep hgoes))

/-- A run comes to what its steps tell. -/
theorem run_account (s : Session) (turns : List Turn) :
    Account s (s.steps turns) (s.run turns) := by
  induction turns generalizing s with
  | nil => exact ⟨rfl, rfl, rfl, rfl, fun _ => (Bool.or_false _).symm, fun _ => rfl⟩
  | cons t rest ih =>
      rw [run_cons, steps]
      cases hturn : (s.turn t).ending? with
      | some ending =>
          rw [TurnResult.andThen_of_some hturn]
          simpa using s.turn_account t
      | none => exact (s.turn_account t).append hturn (ih _)

theorem run_singleton (s : Session) (t : Turn) : s.run [t] = s.turn t := by
  rw [run_cons]
  cases hturn : (s.turn t).ending? with
  | some ending => exact TurnResult.andThen_of_some hturn _
  | none => simp [TurnResult.andThen_of_none hturn, run, ← hturn]

theorem steps_singleton (s : Session) (t : Turn) : s.steps [t] = (s.step? t).toList := by
  rw [steps]
  split
  · exact List.append_nil _
  · exact List.append_nil _

theorem run_of_ended {s : Session} {earlier : List Turn} {ending : Ending}
    (h : (s.run earlier).ending? = some ending) (later : List Turn) :
    s.run (earlier ++ later) = s.run earlier ∧ s.steps (earlier ++ later) = s.steps earlier := by
  rw [run_append, steps_append, h, TurnResult.andThen_of_some h]
  exact ⟨rfl, List.append_nil _⟩

/-! ### Halting -/

theorem step?_of_halted {s : Session} (h : s.halted = true) (t : Turn) : s.step? t = none := by
  cases hpoll : t.poll <;> simp [step?, hpoll, isDue, h]

/-- A session that knows that its machine has halted makes no step any more. -/
theorem steps_of_halted {s : Session} (h : s.halted = true) (turns : List Turn) :
    s.steps turns = [] := by
  induction turns generalizing s with
  | nil => rfl
  | cons t rest ih =>
      have hstep := step?_of_halted h t
      rw [steps, hstep]
      cases hturn : (s.turn t).ending? with
      | some ending => rfl
      | none =>
          have hhalted := (s.turn_account t).halted hturn
          rw [h, Bool.true_or] at hhalted
          exact ih hhalted

theorem countP_halts_le_one (s : Session) (turns : List Turn) :
    (s.steps turns).countP MadeStep.halts ≤ 1 := by
  induction turns generalizing s with
  | nil => exact Nat.zero_le 1
  | cons t rest ih =>
      rw [steps, List.countP_append]
      cases hturn : (s.turn t).ending? with
      | some ending => exact Nat.le_trans List.countP_le_length (by cases s.step? t <;> simp)
      | none =>
          have hhalted := (s.turn_account t).halted hturn
          cases hstep : s.step? t with
          | none => simpa using ih (s.turn t).session
          | some step =>
              rw [hstep] at hhalted
              cases hhalts : step.halts with
              | false => simpa [hhalts] using ih (s.turn t).session
              | true =>
                  -- once a step has said so there is no further step to say it again
                  have hrest : (s.turn t).session.steps rest = [] :=
                    steps_of_halted (by simp [hhalted, hhalts]) rest
                  simp [hhalts, hrest]

/-- A step that halts the machine is the last one, whatever turns follow. -/
theorem steps_after_halt {s : Session} {earlier : List Turn} {step : MadeStep}
    (hstep : step ∈ s.steps earlier) (hhalts : step.halts = true) (later : List Turn) :
    s.steps (earlier ++ later) = s.steps earlier := by
  rw [steps_append]
  cases hending : (s.run earlier).ending? with
  | some ending => exact List.append_nil _
  | none =>
      have hhalted : (s.run earlier).session.halted = true := by
        rw [(s.run_account earlier).halted hending, Bool.or_eq_true]
        exact .inr (List.any_eq_true.mpr ⟨step, hstep, hhalts⟩)
      rw [steps_of_halted hhalted]
      exact List.append_nil _

end Session

end Chip8.Console
