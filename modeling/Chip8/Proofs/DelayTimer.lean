import Chip8.Proofs.Clock
import Chip8.Proofs.Passage

/-!
The delay timer over whole runs. A tick comes as soon as more than sixteen milliseconds have been
gathered by the steps that take time, and what an instruction reads from the delay timer is what was
last written to it, less one for every tick since, down to zero.
-/

namespace Chip8

/-- The time gathered since the last tick, after steps that took these times, the newest first. A
tick comes with more than sixteen milliseconds, and none of them are kept. -/
def sinceTick : List Nat → Nat
  | [] => 0
  | elapsed :: earlier =>
    let gathered := sinceTick earlier + elapsed
    if 16 < gathered then 0 else gathered

/-- The times of the steps, those of idle steps left out. -/
def awakeTimes (past : List Stage) : List Nat :=
  (past.filter fun stage => ¬stage.machine.Idle stage.input).map fun stage =>
    stage.input.elapsed.toNat

def tickCount (past : List Stage) : Nat :=
  past.countP fun stage => stage.machine.Ticks stage.input

theorem awakeTimes_cons (m : Machine) (input : Input) (past : List Stage) :
    awakeTimes (⟨m, input⟩ :: past) =
      if m.Idle input then awakeTimes past else input.elapsed.toNat :: awakeTimes past := by
  by_cases h : m.Idle input <;> simp [awakeTimes, h]

theorem tickCount_cons (m : Machine) (input : Input) (past : List Stage) :
    tickCount (⟨m, input⟩ :: past) = tickCount past + if m.Ticks input then 1 else 0 := by
  simp [tickCount, List.countP_cons]

namespace Machine

/-! ### The gathered time -/

theorem ticks_iff_gathered (m : Machine) (input : Input) :
    m.Ticks input ↔ ¬m.Idle input ∧ 16 < m.timers.gathered + input.elapsed.toNat := by
  rw [Ticks, Timers.ticks_iff]

theorem gathered_passed (m : Machine) (input : Input) :
    (m.passed input).gathered =
      if m.Idle input then m.timers.gathered
      else if 16 < m.timers.gathered + input.elapsed.toNat then 0
      else m.timers.gathered + input.elapsed.toNat := by
  by_cases hidle : m.Idle input
  · rw [passed, if_pos hidle, if_pos hidle]
  · rw [if_neg hidle, passed_of_not_idle hidle]
    by_cases htick : m.timers.ticks input.elapsed = true
    · rw [Timers.advance_of_ticks htick, if_pos ((Timers.ticks_iff _ _).mp htick)]
    · rw [Timers.advance_of_not_ticks htick, if_neg (mt (Timers.ticks_iff _ _).mpr htick)]

/-- The gathered time after a step is read off the times of the steps so far. -/
theorem gathered_step {m : Machine} {past : List Stage}
    (h : m.timers.gathered = sinceTick (awakeTimes past)) (input : Input) :
    (m.step input).machine.timers.gathered = sinceTick (awakeTimes (⟨m, input⟩ :: past)) := by
  rw [step_gathered, gathered_passed, awakeTimes_cons]
  split
  · exact h
  · rw [sinceTick, ← h]

theorem Passage.gathered {start m : Machine} {past : List Stage} (h : Passage start past m)
    (hstart : start.timers.gathered = 0) : m.timers.gathered = sinceTick (awakeTimes past) := by
  induction h with
  | refl => exact hstart
  | enable _ setting ih => exact ih
  | step _ input ih => exact gathered_step ih input

/-! ### Writing and reading -/

/-- Nothing is written, so the delay timer goes down with the ticks. -/
theorem Passage.delay_unset {start m : Machine} {past : List Stage} (h : Passage start past m)
    (hunset : ∀ stage ∈ past, ¬stage.machine.Executes stage.input (.firstAndByte 0xF 0x15)) :
    m.timers.delay.toNat = start.timers.delay.toNat - tickCount past := by
  induction h with
  | refl => rfl
  | enable _ setting ih => exact ih hunset
  | step _ input ih =>
      obtain ⟨hnow, hpast⟩ := List.forall_mem_cons.mp hunset
      rw [step_delay_of_not_executes hnow, toNat_delay_passed, ih hpast, tickCount_cons,
        Nat.sub_sub]

theorem step_delay_of_set {m : Machine} {input : Input} {word : UInt16}
    (hfetch : m.Fetches input word) (hset : (Pattern.firstAndByte 0xF 0x15).Matches word) :
    (m.step input).machine.timers.delay =
      (m.receive input.keys).registers.get (Opcode.digit word 2) := by
  rw [step_timers_of_fetches hfetch, Instruction.setTimers_decode]
  exact if_pos hset

/-- The instruction that reads the delay timer finds it as the tick of its own step left it. -/
theorem read_delay {m : Machine} {input : Input} {word : UInt16} (hfetch : m.Fetches input word)
    (hread : (Pattern.firstAndByte 0xF 0x07).Matches word) :
    (m.step input).machine.registers.get (Opcode.digit word 2) = (m.passed input).delay := by
  rw [step_of_fetches hfetch, effect, Instruction.decode_of_firstAndByte hread,
    passed_of_not_idle hfetch.1, ← ready_timers]
  simp [Instruction.ofLowByte?, execute, Effect.silent, setRegister, Registers.get_set, advance]

/-- An instruction that fails sets no timer. -/
theorem setTimers_of_fault {m : Machine} {input : Input} {i : Instruction} {fault : Fault}
    (h : (m.execute input i).fault? = some fault) (registers : Registers) (t : Timers) :
    i.setTimers registers t = t := by
  cases i with
  | setDelay x | setSound x =>
      rw [execute_fault?] at h
      simp [Instruction.need, unmet?] at h
  | _ => rfl

/-- A step that fails, in the fetch or afterwards, leaves the timers as the time leaves them. -/
theorem step_timers_of_error {m : Machine} {input : Input} {fault : Fault}
    (h : (m.step input).result = .error fault) :
    (m.step input).machine.timers = m.passed input := by
  obtain ⟨word, hfetch, htimers⟩ | htimers := m.step_timers_cases input
  · rw [step_of_fetches hfetch] at h
    rw [htimers]
    exact setTimers_of_fault (Effect.answer_eq_error_iff.mp h) _ _
  · exact htimers

/-- What the delay timer is read as, and when it ticks, in every run from a machine just built.

An instruction that reads the timer gets the value that was last written to it, less the ticks of
the steps since, its own step included, or zero if none was written. A step ticks if the times of
the steps since the last tick make more than sixteen milliseconds, where idle steps do not count;
it ticks once, takes both timers down, and starts the gathering anew. What the instruction of the
step is, and whether it can be fetched and succeeds, plays no part. -/
theorem delay_over_run {program font : List UInt8} {fontOffset : UInt16} {past : List Stage}
    {m : Machine} (h : Passage (build program font fontOffset).1 past m) (input : Input) :
    (∀ read, m.Fetches input read → (Pattern.firstAndByte 0xF 0x07).Matches read →
      let value := ((m.step input).machine.registers.get (Opcode.digit read 2)).toNat
      (∀ later setter earlier set, past = later ++ setter :: earlier →
        setter.machine.Fetches setter.input set → (Pattern.firstAndByte 0xF 0x15).Matches set →
        (∀ stage ∈ later, ¬stage.machine.Executes stage.input (.firstAndByte 0xF 0x15)) →
        let written :=
          ((setter.machine.receive setter.input.keys).registers.get (Opcode.digit set 2)).toNat
        value = written - tickCount (⟨m, input⟩ :: later)) ∧
      ((∀ stage ∈ past, ¬stage.machine.Executes stage.input (.firstAndByte 0xF 0x15)) →
        value = 0)) ∧
    (m.Ticks input ↔ ¬m.Idle input ∧ 16 < sinceTick (awakeTimes past) + input.elapsed.toNat) ∧
    (m.Ticks input →
      m.passed input = ⟨Timers.down m.timers.delay, Timers.down m.timers.sound, 0⟩) ∧
    (¬m.Ticks input →
      (m.passed input).delay = m.timers.delay ∧ (m.passed input).sound = m.timers.sound) ∧
    (m.step input).machine.timers.gathered = sinceTick (awakeTimes (⟨m, input⟩ :: past)) ∧
    (m.Ticks input → (m.step input).machine.timers.gathered = 0) ∧
    ∀ fault, (m.step input).result = .error fault →
      (m.step input).machine.timers = m.passed input := by
  have hgathered := h.gathered rfl
  refine ⟨?_, ?_, passed_of_ticks, ?_, gathered_step hgathered input, ?_,
    fun _ => step_timers_of_error⟩
  · intro read hfetch hread value
    have hvalue : value = (m.passed input).delay.toNat :=
      congrArg UInt8.toNat (read_delay hfetch hread)
    rw [hvalue, toNat_delay_passed]
    constructor
    · rintro later setter earlier set rfl hset hwrites hunset written
      obtain ⟨middle, hearlier, hlater⟩ := h.split
      have hwritten : middle.timers.delay.toNat = written := by
        obtain ⟨-, settings, rfl⟩ := hearlier.of_cons
        exact congrArg UInt8.toNat (step_delay_of_set hset hwrites)
      rw [hlater.delay_unset hunset, hwritten, tickCount_cons, Nat.sub_sub]
    · intro hunset
      have hzero : (build program font fontOffset).1.timers.delay.toNat = 0 := rfl
      rw [h.delay_unset hunset, hzero, Nat.zero_sub, Nat.zero_sub]
  · rw [ticks_iff_gathered, hgathered]
  · intro hno
    rw [passed_of_not_ticks hno]
    exact ⟨rfl, rfl⟩
  · intro htick
    rw [step_gathered, passed_of_ticks htick]

/-- Five is written, the machine waits for a key, and a poll without one takes no time. -/
theorem delay_over_run_with_wait :
    let start := (build [0x60, 0x05, 0xF0, 0x15, 0xF2, 0x0A, 0xF1, 0x07] Font.builtIn 0).1
    let poll : Input := ⟨.released, 1000, 0⟩
    let press : Input := ⟨⟨0x20⟩, 10, 0⟩
    let m := start.run [⟨.released, 0, 0⟩, ⟨.released, 17, 0⟩, ⟨.released, 10, 0⟩, poll]
    m.Fetches press 0xF107 ∧ ((m.step press).machine.registers.get 1).toNat = 5 - 1 := by
  intro start poll press m
  have hstart : Passage start [] start := .refl
  have hpassage := hstart.run
    [⟨.released, 0, 0⟩, ⟨.released, 17, 0⟩, ⟨.released, 10, 0⟩, poll]
  have hread : m.Fetches press 0xF107 :=
    fetches_iff.mpr (by decide +kernel)
  have hset : (start.run [⟨.released, 0, 0⟩]).Fetches ⟨.released, 17, 0⟩ 0xF015 :=
    fetches_iff.mpr (by decide +kernel)
  have hvalue := ((delay_over_run hpassage press).1 0xF107 hread (by decide)).1
    [⟨start.run [⟨.released, 0, 0⟩, ⟨.released, 17, 0⟩, ⟨.released, 10, 0⟩], poll⟩,
      ⟨start.run [⟨.released, 0, 0⟩, ⟨.released, 17, 0⟩], ⟨.released, 10, 0⟩⟩]
    ⟨start.run [⟨.released, 0, 0⟩], ⟨.released, 17, 0⟩⟩ [⟨start, ⟨.released, 0, 0⟩⟩] 0xF015 rfl
    hset (by decide) (by decide +kernel)
  refine ⟨hread, hvalue.trans ?_⟩
  decide +kernel

end Machine

end Chip8
