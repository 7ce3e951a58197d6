import Chip8.Proofs.Clock
import Chip8.Proofs.Passage
import Mathlib.Data.List.Forall2

/-!
What time can do to a program. Two machines that differ in their clocks only, and get different
times, answer the same and stay that way, until one reads its delay timer. The sound timer is read
by no instruction, so that two machines that differ in it stay that way for good.
-/

namespace Chip8

def Input.SameButTime (input input' : Input) : Prop :=
  input.keys = input'.keys ∧ input.random = input'.random

namespace Machine

/-- The machines differ in their timers, with the gathered time, and in the beep flag at most. -/
def SameButClock (m m' : Machine) : Prop :=
  m' = { m with timers := m'.timers, beep := m'.beep }

def SameButSound (m m' : Machine) : Prop :=
  m' = { m with timers := { m.timers with sound := m'.timers.sound }, beep := m'.beep }

end Machine

/-- The outcomes have the same result and the same reports, and leave machines so related. -/
structure Outcome.Alike (R : Machine → Machine → Prop) (outcome outcome' : Outcome) : Prop where
  result_eq : outcome.result = outcome'.result
  events_eq : outcome.events = outcome'.events
  machines : R outcome.machine outcome'.machine

/-- A tick of the one timer does not depend on the other. -/
theorem Timers.advance_withSound (t : Timers) (sound : UInt8) (elapsed : UInt32) :
    ({ t with sound }.advance elapsed).1 =
      { (t.advance elapsed).1 with sound := ({ t with sound }.advance elapsed).1.sound } := by
  have hticks : { t with sound }.ticks elapsed = t.ticks elapsed := rfl
  by_cases h : t.ticks elapsed = true
  · rw [advance_of_ticks h, advance_of_ticks (hticks.trans h)]
  · rw [advance_of_not_ticks h, advance_of_not_ticks (hticks ▸ h)]

/-- No instruction sets the delay timer from the sound timer. -/
theorem Instruction.setTimers_withSound (registers : Registers) (t : Timers) (sound : UInt8)
    (i : Instruction) :
    i.setTimers registers { t with sound } =
      { i.setTimers registers t with sound := (i.setTimers registers { t with sound }).sound } := by
  cases i <;> rfl

namespace Machine

/-! ### One step with another clock -/

section Step

variable {m : Machine} {t : Timers} {b : Bool} {input input' : Input}

theorem receive_withClock (keys : Keypad) :
    (m.withClock t b).receive keys = (m.receive keys).withClock t b := by
  cases hw : m.waiting? <;> cases hk : keys.lowest? <;>
    simp [receive, withClock, hw, hk, takeKey]

/-- Of its input only the random byte matters to an instruction. -/
theorem execute_sameButTime (h : input.SameButTime input') (i : Instruction) :
    m.execute input' i = m.execute input i := by
  obtain ⟨-, hrandom⟩ := h
  cases i with
  | random x nn => simp only [execute, hrandom]
  | _ => rfl

theorem idle_withClock (h : input.SameButTime input') :
    (m.withClock t b).Idle input' ↔ m.Idle input := by
  rw [Idle, Idle, h.1]
  rfl

theorem fetches_withClock {word : UInt16} (h : input.SameButTime input') :
    (m.withClock t b).Fetches input' word ↔ m.Fetches input word := by
  rw [Fetches, Fetches, idle_withClock h]
  rfl

theorem ready_withClock (h : input.SameButTime input') :
    (m.withClock t b).ready input' =
      (m.ready input).withClock (t.advance input'.elapsed).1 (t.advance input'.elapsed).2 := by
  rw [ready_eq, ready_eq, receive_withClock, ← h.1]
  rfl

theorem keyEvents_withClock (h : input.SameButTime input') :
    (m.withClock t b).keyEvents input'.keys = m.keyEvents input.keys := by
  rw [← h.1]
  rfl

/-- With another clock and another time an instruction does the same to the rest of the machine,
unless it reads the delay timer and finds it different. -/
theorem effect_withClock {word : UInt16} (hfetch : m.Fetches input word)
    (h : input.SameButTime input')
    (hread : m.Executes input (.firstAndByte 0xF 0x07) →
      ((m.withClock t b).passed input').delay = (m.passed input).delay) :
    ∃ t' b', (m.withClock t b).effect input' word = (m.effect input word).withClock t' b' := by
  have hadvance (ready : Machine) (t' : Timers) (b' : Bool) :
      (ready.withClock t' b').advance = ready.advance.withClock t' b' := rfl
  rw [effect, ready_withClock h, hadvance, execute_sameButTime h, execute_withClock]
  · exact ⟨_, _, rfl⟩
  · intro x hx
    have hmatches : (Pattern.firstAndByte 0xF 0x07).Matches word :=
      Instruction.matches_of_decode (by rw [hx]; rfl)
    have hdelay := hread ⟨word, hfetch, hmatches⟩
    rw [passed_of_not_idle hfetch.1,
      passed_of_not_idle ((fetches_withClock h).mpr hfetch).1] at hdelay
    exact hdelay.trans (congrArg Timers.delay (m.ready_timers input)).symm

theorem step_withClock (h : input.SameButTime input')
    (hread : m.Executes input (.firstAndByte 0xF 0x07) →
      ((m.withClock t b).passed input').delay = (m.passed input).delay) :
    (m.step input).Alike SameButClock ((m.withClock t b).step input') := by
  obtain hidle | ⟨hawake, hpc⟩ | ⟨word, hfetch⟩ := m.step_trichotomy input
  · rw [step_of_idle hidle, step_of_idle ((idle_withClock h).mpr hidle)]
    exact ⟨rfl, rfl, rfl⟩
  · have hfault := m.memory.readWord_of_le hpc
    have hawake' : ¬(m.withClock t b).Idle input' := mt (idle_withClock h).mp hawake
    rw [step_of_fault hawake hfault, step_of_fault hawake' hfault, ready_withClock h,
      keyEvents_withClock h]
    exact ⟨rfl, rfl, rfl⟩
  · obtain ⟨t', b', heffect⟩ := effect_withClock hfetch h hread
    rw [step_of_fetches hfetch, step_of_fetches ((fetches_withClock h).mpr hfetch), heffect,
      keyEvents_withClock h]
    exact ⟨rfl, rfl, rfl⟩

/-- What a step answers and reports does not depend on the clock, even if it reads the timer. -/
theorem step_answer_withClock (h : input.SameButTime input') :
    (m.step input).result = ((m.withClock t b).step input').result ∧
      (m.step input).events = ((m.withClock t b).step input').events := by
  by_cases hread : m.Executes input (.firstAndByte 0xF 0x07)
  · obtain ⟨word, hfetch, hmatches⟩ := hread
    have heffect (m : Machine) (input : Input) :
        m.effect input word =
          .silent ((m.ready input).advance.setRegister (Opcode.digit word 2)
            (m.ready input).timers.delay) := by
      rw [effect, Instruction.decode_of_firstAndByte hmatches]
      rfl
    rw [step_of_fetches hfetch, step_of_fetches ((fetches_withClock h).mpr hfetch), heffect,
      heffect, ready_withClock h, keyEvents_withClock h]
    exact ⟨rfl, rfl⟩
  · have halike := step_withClock (t := t) (b := b) h fun hexecutes => absurd hexecutes hread
    exact ⟨halike.result_eq, halike.events_eq⟩

end Step

/-! ### One step with another sound timer -/

theorem SameButClock.sameButSound {m m' : Machine} (hm : SameButClock m m')
    (htimers : m'.timers = { m.timers with sound := m'.timers.sound }) : SameButSound m m' := by
  rw [SameButSound, ← htimers]
  exact hm

section Sound

variable {m : Machine} {sound : UInt8} {b : Bool} {input : Input}

theorem passed_withSound :
    (m.withClock { m.timers with sound } b).passed input =
      { m.passed input with
        sound := ((m.withClock { m.timers with sound } b).passed input).sound } := by
  have hsame : input.SameButTime input := ⟨rfl, rfl⟩
  by_cases hidle : m.Idle input
  · rw [passed, passed, if_pos hidle, if_pos ((idle_withClock hsame).mpr hidle)]
    rfl
  · rw [passed_of_not_idle hidle, passed_of_not_idle (mt (idle_withClock hsame).mp hidle)]
    exact m.timers.advance_withSound sound input.elapsed

theorem step_timers_withSound :
    ((m.withClock { m.timers with sound } b).step input).machine.timers =
      { (m.step input).machine.timers with
        sound := ((m.withClock { m.timers with sound } b).step input).machine.timers.sound } := by
  have hsame : input.SameButTime input := ⟨rfl, rfl⟩
  by_cases hfetch : ∃ word, m.Fetches input word
  · obtain ⟨word, hword⟩ := hfetch
    rw [step_timers_of_fetches hword, step_timers_of_fetches ((fetches_withClock hsame).mpr hword),
      receive_withClock, passed_withSound]
    exact Instruction.setTimers_withSound ..
  · rw [not_exists] at hfetch
    rw [step_timers_of_not_fetches hfetch,
      step_timers_of_not_fetches fun word => mt (fetches_withClock hsame).mp (hfetch word)]
    exact passed_withSound

theorem step_withSound :
    (m.step input).Alike SameButSound ((m.withClock { m.timers with sound } b).step input) := by
  have hdelay : ((m.withClock { m.timers with sound } b).passed input).delay =
      (m.passed input).delay := by
    rw [passed_withSound]
  have hstep : (m.step input).Alike SameButClock
      ((m.withClock { m.timers with sound } b).step input) :=
    step_withClock ⟨rfl, rfl⟩ fun _ => hdelay
  exact ⟨hstep.result_eq, hstep.events_eq, hstep.machines.sameButSound step_timers_withSound⟩

end Sound

/-! ### Runs -/

section DifferentClock

variable {m m' : Machine}

theorem SameButClock.eq_withClock (hm : SameButClock m m') :
    m' = m.withClock m'.timers m'.beep :=
  hm

theorem SameButClock.step (hm : SameButClock m m') {input input' : Input}
    (h : input.SameButTime input') (hread : ¬m.Executes input (.firstAndByte 0xF 0x07)) :
    (m.step input).Alike SameButClock (m'.step input') := by
  rw [hm.eq_withClock]
  exact step_withClock h fun hexecutes => absurd hexecutes hread

theorem SameButClock.run (hm : SameButClock m m') {inputs inputs' : List Input}
    (h : List.Forall₂ Input.SameButTime inputs inputs')
    (hread : ∀ stage ∈ m.stages inputs,
      ¬stage.machine.Executes stage.input (.firstAndByte 0xF 0x07)) :
    List.Forall₂ (Outcome.Alike SameButClock) (m.outcomes inputs) (m'.outcomes inputs') ∧
      SameButClock (m.run inputs) (m'.run inputs') := by
  -- every step may move the clocks further apart, so both machines change along the run
  induction h generalizing m m' with
  | nil => exact ⟨.nil, hm⟩
  | cons hinput hrest ih =>
      obtain ⟨hnow, hlater⟩ := List.forall_mem_cons.mp hread
      have hstep := hm.step hinput hnow
      obtain ⟨houtcomes, hrun⟩ := ih hstep.machines hlater
      exact ⟨.cons hstep houtcomes, hrun⟩

end DifferentClock

section DifferentSound

variable {m m' : Machine}

theorem SameButSound.step (hm : SameButSound m m') (input : Input) :
    (m.step input).Alike SameButSound (m'.step input) := by
  have heq : m' = m.withClock { m.timers with sound := m'.timers.sound } m'.beep := hm
  rw [heq]
  exact step_withSound

theorem SameButSound.run (hm : SameButSound m m') (inputs : List Input) :
    List.Forall₂ (Outcome.Alike SameButSound) (m.outcomes inputs) (m'.outcomes inputs) ∧
      SameButSound (m.run inputs) (m'.run inputs) := by
  induction inputs generalizing m m' with
  | nil => exact ⟨.nil, hm⟩
  | cons input rest ih =>
      have hstep := hm.step input
      obtain ⟨houtcomes, hrun⟩ := ih hstep.machines
      exact ⟨.cons hstep houtcomes, hrun⟩

end DifferentSound

/-- A program learns of time by reading its delay timer, and in no other way.

Two machines whose clocks are all that they differ in are run with the same keys and random bytes,
but each with times of its own. As long as no delay timer is read, each step answers and reports the
same on both, and leaves machines whose clocks are all that they differ in; the step that reads the
timer first still answers the same. Machines that differ in the sound timer and the beep flag are
run with the same inputs. Each step answers the same on both, and the sound timer and the beep flag
remain all that they differ in, whatever the steps execute. -/
theorem runs_blind_to_time :
    (∀ m m' inputs inputs', SameButClock m m' → List.Forall₂ Input.SameButTime inputs inputs' →
      (∀ stage ∈ m.stages inputs,
        ¬stage.machine.Executes stage.input (.firstAndByte 0xF 0x07)) →
      List.Forall₂ (Outcome.Alike SameButClock) (m.outcomes inputs) (m'.outcomes inputs') ∧
      SameButClock (m.run inputs) (m'.run inputs') ∧
      ∀ input input', input.SameButTime input' →
        ((m.run inputs).step input).result = ((m'.run inputs').step input').result ∧
        ((m.run inputs).step input).events = ((m'.run inputs').step input').events) ∧
    ∀ m m' inputs, SameButSound m m' →
      List.Forall₂ (Outcome.Alike SameButSound) (m.outcomes inputs) (m'.outcomes inputs) ∧
      SameButSound (m.run inputs) (m'.run inputs) := by
  refine ⟨fun m m' inputs inputs' hm hinputs hread => ?_, fun m m' inputs hm => hm.run inputs⟩
  obtain ⟨houtcomes, hrun⟩ := hm.run hinputs hread
  refine ⟨houtcomes, hrun, fun input input' hinput => ?_⟩
  rw [hrun.eq_withClock]
  exact step_answer_withClock hinput

/-- A machine writes its delay timer, waits for a key, and reads the timer. With another clock, and
with times that make a tick, it does the same up to the read, and reads another value. With another
sound timer it reads the same, and beeps where it did not. -/
theorem runs_blind_to_time_until_read :
    let start := (build [0x60, 0x05, 0xF0, 0x15, 0xF2, 0x0A, 0xF1, 0x07] Font.builtIn 0).1
    let timed (elapsed : UInt32) : List Input :=
      [⟨.released, elapsed, 0⟩, ⟨.released, elapsed, 0⟩, ⟨.released, elapsed, 0⟩,
        ⟨.released, elapsed, 0⟩]
    let press (elapsed : UInt32) : Input := ⟨⟨0x20⟩, elapsed, 0⟩
    let other := start.withClock ⟨7, 3, 5⟩ true
    let sounding := start.withClock { start.timers with sound := 4 } true
    let read (m : Machine) (elapsed : UInt32) : UInt8 :=
      ((m.run (timed elapsed)).step (press elapsed)).machine.registers.get 1
    SameButClock (start.run (timed 0)) (other.run (timed 20)) ∧
      ((start.run (timed 0)).step (press 0)).result =
        ((other.run (timed 20)).step (press 20)).result ∧
      read start 0 = 5 ∧ read other 20 = 3 ∧
      SameButSound (start.run (timed 20 ++ [press 20])) (sounding.run (timed 20 ++ [press 20])) ∧
      (start.run (timed 20 ++ [press 20])).beep = false ∧
      (sounding.run (timed 20 ++ [press 20])).beep = true := by
  intro start timed press other sounding read
  have htimed : List.Forall₂ Input.SameButTime (timed 0) (timed 20) :=
    .cons ⟨rfl, rfl⟩ (.cons ⟨rfl, rfl⟩ (.cons ⟨rfl, rfl⟩ (.cons ⟨rfl, rfl⟩ .nil)))
  have hvalues : (read start 0 = 5 ∧ read other 20 = 3) ∧
      (start.run (timed 20 ++ [press 20])).beep = false ∧
      (sounding.run (timed 20 ++ [press 20])).beep = true := by
    decide +kernel
  obtain ⟨-, hrun, hnext⟩ :=
    runs_blind_to_time.1 start other (timed 0) (timed 20) rfl htimed (by decide +kernel)
  obtain ⟨-, hsound⟩ := runs_blind_to_time.2 start sounding (timed 20 ++ [press 20]) rfl
  exact ⟨hrun, (hnext (press 0) (press 20) ⟨rfl, rfl⟩).1, hvalues.1.1, hvalues.1.2, hsound,
    hvalues.2⟩

end Machine

end Chip8
