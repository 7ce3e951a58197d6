import Chip8.Proofs.Clock
import Chip8.Proofs.Passage

/-!
The beep flag over whole runs. Every beep uses up one value that was written to the sound timer: the
timer has to be set before it can run out, and once it has run out it has to be set again. So what
is counted is the beeps, and one more while the timer is running.
-/

namespace Chip8

namespace Machine

def Beeps (m : Machine) (input : Input) : Prop := (m.step input).machine.beep = true

/-- The step writes a value other than zero to the sound timer. -/
def StartsSound (m : Machine) (input : Input) : Prop :=
  ∃ word, m.Fetches input word ∧ (Pattern.firstAndByte 0xF 0x18).Matches word ∧
    (m.receive input.keys).registers.get (Opcode.digit word 2) ≠ 0

def StopsSound (m : Machine) (input : Input) : Prop :=
  ∃ word, m.Fetches input word ∧ (Pattern.firstAndByte 0xF 0x18).Matches word ∧
    (m.receive input.keys).registers.get (Opcode.digit word 2) = 0

instance (m : Machine) (input : Input) : Decidable (m.Beeps input) :=
  inferInstanceAs (Decidable (_ = _))

instance (m : Machine) (input : Input) : Decidable (m.StartsSound input) :=
  inferInstanceAs (Decidable (∃ word, m.Fetches input word ∧
    (Pattern.firstAndByte 0xF 0x18).Matches word ∧
    (m.receive input.keys).registers.get (Opcode.digit word 2) ≠ 0))

/-! ### One step -/

section Step

variable {m : Machine} {input : Input}

/-- The sound timer after a step holds what was written to it, or what the time has left of it. -/
theorem step_sound_cases (m : Machine) (input : Input) :
    (m.StartsSound input ∧ (m.step input).machine.timers.sound ≠ 0) ∨
      (m.StopsSound input ∧ (m.step input).machine.timers.sound = 0) ∨
      (¬m.StartsSound input ∧ (m.step input).machine.timers.sound = (m.passed input).sound) := by
  by_cases hset : m.Executes input (.firstAndByte 0xF 0x18)
  · obtain ⟨word, hfetch, hmatches⟩ := hset
    have hsound : (m.step input).machine.timers.sound =
        (m.receive input.keys).registers.get (Opcode.digit word 2) := by
      rw [step_timers_of_fetches hfetch, Instruction.setTimers_decode]
      exact if_pos hmatches
    rw [hsound]
    by_cases hzero : (m.receive input.keys).registers.get (Opcode.digit word 2) = 0
    · exact .inr (.inl ⟨⟨word, hfetch, hmatches, hzero⟩, hzero⟩)
    · exact .inl ⟨⟨word, hfetch, hmatches, hzero⟩, hzero⟩
  · have hno : ¬m.StartsSound input := fun ⟨word, hfetch, hmatches, _⟩ =>
      hset ⟨word, hfetch, hmatches⟩
    exact .inr (.inr ⟨hno, step_sound_of_not_executes hset⟩)

theorem Beeps.sound_passed (h : m.Beeps input) : (m.passed input).sound = 0 := by
  obtain ⟨htick, hone⟩ := (step_beep_iff m input).mp h
  rw [passed_of_ticks htick]
  exact Timers.down_eq_zero_iff.mpr (.inr hone)

/-- A silent sound timer stays silent unless it is set. -/
theorem sound_passed_of_zero (h : m.timers.sound = 0) : (m.passed input).sound = 0 := by
  by_cases htick : m.Ticks input
  · rw [passed_of_ticks htick]
    exact Timers.down_eq_zero_iff.mpr (.inl h)
  · rw [passed_of_not_ticks htick]
    exact h

theorem sound_step_of_zero (hzero : (m.passed input).sound = 0) (hno : ¬m.StartsSound input) :
    (m.step input).machine.timers.sound = 0 := by
  obtain ⟨hstarts, -⟩ | ⟨-, hstopped⟩ | ⟨-, hpassed⟩ := step_sound_cases m input
  · exact absurd hstarts hno
  · exact hstopped
  · rw [hpassed, hzero]

/-- Where the sound timer goes to zero, it was heard to run out, or set to zero. -/
theorem beeps_or_stops (hbefore : m.timers.sound ≠ 0)
    (hafter : (m.step input).machine.timers.sound = 0) :
    m.Beeps input ∨ m.StopsSound input := by
  obtain ⟨-, hstarted⟩ | ⟨hstops, -⟩ | ⟨-, hpassed⟩ := step_sound_cases m input
  · exact absurd hafter hstarted
  · exact .inr hstops
  · rw [hpassed] at hafter
    by_cases htick : m.Ticks input
    · rw [passed_of_ticks htick] at hafter
      have hone := (Timers.down_eq_zero_iff.mp hafter).resolve_left hbefore
      exact .inl ((step_beep_iff m input).mpr ⟨htick, hone⟩)
    · rw [passed_of_not_ticks htick] at hafter
      exact absurd hafter hbefore

end Step

/-! ### Runs -/

/-- One while the sound timer is running: the beep that is still to come. -/
def due (m : Machine) : Nat := if m.timers.sound = 0 then 0 else 1

/-- A step beeps, or has a beep due afterwards, only at the cost of a beep that was due before or of
a new start. -/
theorem due_step_le (m : Machine) (input : Input) :
    (if m.Beeps input then 1 else 0) + (m.step input).machine.due ≤
      m.due + if m.StartsSound input then 1 else 0 := by
  have hbeep : m.Beeps input → m.due = 1 := by
    intro h
    have hone := ((step_beep_iff m input).mp h).2
    simp [due, hone]
  have hdue : (m.step input).machine.due ≤ 1 := by
    unfold due
    split <;> omega
  by_cases hstarts : m.StartsSound input
  · rw [if_pos hstarts]
    split
    · rename_i h
      have hone := hbeep h
      omega
    · omega
  · rw [if_neg hstarts]
    -- nothing starts the timer, so that after a beep, or without a beep due, none is due
    have hnone (hzero : (m.passed input).sound = 0) : (m.step input).machine.due = 0 :=
      if_pos (sound_step_of_zero hzero hstarts)
    split
    · rename_i h
      have hone := hbeep h
      have hzero := hnone h.sound_passed
      omega
    · by_cases hsilent : m.timers.sound = 0
      · have hzero := hnone (sound_passed_of_zero hsilent)
        omega
      · have hone : m.due = 1 := if_neg hsilent
        omega

def beepCount (past : List Stage) : Nat :=
  past.countP fun stage => stage.machine.Beeps stage.input

def startCount (past : List Stage) : Nat :=
  past.countP fun stage => stage.machine.StartsSound stage.input

theorem Passage.beeps_le_starts {start m : Machine} {past : List Stage}
    (h : Passage start past m) : beepCount past + m.due ≤ start.due + startCount past := by
  induction h with
  | refl => exact Nat.le_of_eq (Nat.add_comm 0 _)
  | enable _ setting ih => exact ih
  | @step past m h input ih =>
      have hstep := due_step_le m input
      simp only [beepCount, startCount, List.countP_cons, decide_eq_true_eq] at ih ⊢
      omega

/-- A silent sound timer stays silent through steps that do not set it. -/
theorem Passage.silent {start m : Machine} {past : List Stage} (h : Passage start past m)
    (hstart : start.timers.sound = 0)
    (hno : ∀ stage ∈ past, ¬stage.machine.StartsSound stage.input) : m.timers.sound = 0 := by
  induction h with
  | refl => exact hstart
  | enable _ setting ih => exact ih hno
  | step _ input ih =>
      obtain ⟨hnow, hpast⟩ := List.forall_mem_cons.mp hno
      exact sound_step_of_zero (sound_passed_of_zero (ih hpast)) hnow

/-- Between two beeps the sound timer was set, at the earliest by the step of the first one. -/
theorem Passage.exists_start_between {start m : Machine} {later middle earlier : List Stage}
    {last first : Stage} (h : Passage start (later ++ last :: (middle ++ first :: earlier)) m)
    (hlast : last.machine.Beeps last.input) (hfirst : first.machine.Beeps first.input) :
    ∃ stage ∈ middle ++ [first], stage.machine.StartsSound stage.input := by
  apply Decidable.byContradiction
  intro hnone
  have hno : ∀ stage ∈ middle ++ [first], ¬stage.machine.StartsSound stage.input :=
    fun stage hstage hstarts => hnone ⟨stage, hstage, hstarts⟩
  obtain ⟨_, hback, -⟩ := h.split
  obtain ⟨between, hearlier, hmiddle⟩ := hback.of_cons.1.split
  obtain ⟨-, settings, rfl⟩ := hearlier.of_cons
  -- the first beep leaves the timer at zero, and nothing sets it up to the second one
  have hsilent : last.machine.timers.sound = 0 := by
    apply hmiddle.silent
    · exact sound_step_of_zero hfirst.sound_passed
        (hno first (List.mem_append_right _ (List.mem_singleton_self first)))
    · exact fun stage hstage => hno stage (List.mem_append_left _ hstage)
  have hone := ((step_beep_iff _ _).mp hlast).2
  rw [hsilent] at hone
  contradiction

/-- When the machine beeps, in every run from a machine just built. A step beeps exactly if it is
not idle and its time takes the sound timer from one to zero, and so each beep has a start of the
timer of its own. The timer does not get to zero without a beep unless zero is written to it. -/
theorem beep_over_run {program font : List UInt8} {fontOffset : UInt16} {past : List Stage}
    {m : Machine} (h : Passage (build program font fontOffset).1 past m) :
    (∀ input, (m.step input).machine.beep = true ↔
      ¬m.Idle input ∧ m.Ticks input ∧ m.timers.sound = 1 ∧ (m.passed input).sound = 0) ∧
    (∀ later last middle first earlier, past = later ++ last :: (middle ++ first :: earlier) →
      last.machine.Beeps last.input → first.machine.Beeps first.input →
      ∃ stage ∈ middle ++ [first], stage.machine.StartsSound stage.input) ∧
    beepCount past ≤ startCount past ∧
    ∀ input, m.timers.sound ≠ 0 → (m.step input).machine.timers.sound = 0 →
      (m.step input).machine.beep = true ∨ m.StopsSound input := by
  refine ⟨fun input => ?_, ?_, ?_, fun input => beeps_or_stops⟩
  · rw [step_beep_iff]
    constructor
    · rintro ⟨htick, hone⟩
      have hbeeps : m.Beeps input := (step_beep_iff m input).mpr ⟨htick, hone⟩
      exact ⟨htick.1, htick, hone, hbeeps.sound_passed⟩
    · rintro ⟨-, htick, hone, -⟩
      exact ⟨htick, hone⟩
  · rintro later last middle first earlier rfl hlast hfirst
    exact h.exists_start_between hlast hfirst
  · have hdue : (build program font fontOffset).1.due = 0 := rfl
    have hcount := h.beeps_le_starts
    omega

/-- A step on which the sound timer runs out and is set again, and the next step, on which it runs
out once more. -/
theorem beep_over_run_restarted :
    let start := (build [0x60, 0x01, 0xF0, 0x18, 0xF0, 0x18, 0x12, 0x06] Font.builtIn 0).1
    let still : Input := ⟨.released, 0, 0⟩
    let tick : Input := ⟨.released, 17, 0⟩
    let first : Stage := ⟨start.run [still, still], tick⟩
    let last : Stage := ⟨start.run [still, still, tick], tick⟩
    let past := (start.stages [still, still, tick, tick]).reverse
    first.machine.Beeps first.input ∧ last.machine.Beeps last.input ∧
      (∃ stage ∈ [] ++ [first], stage.machine.StartsSound stage.input) ∧
      beepCount past = 2 ∧ beepCount past ≤ startCount past := by
  intro start still tick first last past
  have hfirst : first.machine.Beeps first.input := by decide +kernel
  have hlast : last.machine.Beeps last.input := by decide +kernel
  have hstart : Passage start [] start := .refl
  obtain ⟨-, hbetween, hcount, -⟩ := beep_over_run (hstart.run [still, still, tick, tick])
  refine ⟨hfirst, hlast, ?_, by decide +kernel, hcount⟩
  exact hbetween [] last [] first [⟨start.run [still], still⟩, ⟨start, still⟩] rfl hlast hfirst

end Machine

end Chip8
