import Chip8.Proofs.Patterns

/-!
The clock of the machine, that is, its timers and its beep flag. A step lets time pass before it
fetches, and an instruction afterwards sets one of the timers or neither. Conversely the clock can
be exchanged under an instruction: only the instruction that reads the delay timer notices.
-/

namespace Chip8

/-! ### Time -/

namespace Timers

/-- A sixtieth of a second is over as soon as more than sixteen milliseconds are gathered. -/
theorem ticks_iff (t : Timers) (elapsed : UInt32) :
    t.ticks elapsed = true ↔ 16 < t.gathered + elapsed.toNat := by
  simp only [ticks, rate, decide_eq_true_eq]
  omega

theorem advance_of_ticks {t : Timers} {elapsed : UInt32} (h : t.ticks elapsed = true) :
    t.advance elapsed = (⟨down t.delay, down t.sound, 0⟩, t.sound == 1) :=
  if_pos h

theorem advance_of_not_ticks {t : Timers} {elapsed : UInt32} (h : ¬t.ticks elapsed = true) :
    t.advance elapsed = ({ t with gathered := t.gathered + elapsed.toNat }, false) :=
  if_neg h

/-- The sound timer runs out at a tick from one. -/
theorem advance_expired_iff (t : Timers) (elapsed : UInt32) :
    (t.advance elapsed).2 = true ↔ t.ticks elapsed = true ∧ t.sound = 1 := by
  by_cases h : t.ticks elapsed = true
  · simp [advance_of_ticks h, h]
  · simp [advance_of_not_ticks h, h]

theorem toNat_down (value : UInt8) : (down value).toNat = value.toNat - 1 := by
  by_cases hzero : value = 0
  · rw [hzero]
    rfl
  · have hpos : (0 : UInt8) < value := UInt8.pos_iff_ne_zero.mpr hzero
    have hone : (1 : UInt8) ≤ value := UInt8.le_iff_toNat_le.mpr (UInt8.lt_iff_toNat_lt.mp hpos)
    rw [down, if_neg hzero]
    exact UInt8.toNat_sub_of_le value 1 hone

theorem down_eq_zero_iff {value : UInt8} : down value = 0 ↔ value = 0 ∨ value = 1 := by
  rw [← UInt8.toNat_inj, ← UInt8.toNat_inj, ← UInt8.toNat_inj, toNat_down]
  change value.toNat - 1 = 0 ↔ value.toNat = 0 ∨ value.toNat = 1
  omega

end Timers

/-- What an instruction sets the timers to. -/
def Instruction.setTimers (registers : Registers) (t : Timers) : Instruction → Timers
  | .setDelay x => { t with delay := registers.get x }
  | .setSound x => { t with sound := registers.get x }
  | _ => t

/-- What a word sets the timers to: FX15 the delay timer, and FX18 the sound timer. -/
theorem Instruction.setTimers_decode (registers : Registers) (t : Timers) (word : UInt16) :
    (decode word).setTimers registers t =
      { t with
        delay :=
          if (Pattern.firstAndByte 0xF 0x15).Matches word then registers.get (Opcode.digit word 2)
          else t.delay
        sound :=
          if (Pattern.firstAndByte 0xF 0x18).Matches word then registers.get (Opcode.digit word 2)
          else t.sound } := by
  by_cases hdelay : (Pattern.firstAndByte 0xF 0x15).Matches word
  · have hsound : ¬(Pattern.firstAndByte 0xF 0x18).Matches word := by
      simp [Pattern.Matches, hdelay.2]
    rw [decode_of_firstAndByte hdelay, if_pos hdelay, if_neg hsound]
    rfl
  · by_cases hsound : (Pattern.firstAndByte 0xF 0x18).Matches word
    · rw [decode_of_firstAndByte hsound, if_neg hdelay, if_pos hsound]
      rfl
    · rw [if_neg hdelay, if_neg hsound]
      have hpattern := @matches_of_decode word
      cases hi : decode word with
      | setDelay x => exact absurd (hpattern (by rw [hi]; rfl)) hdelay
      | setSound x => exact absurd (hpattern (by rw [hi]; rfl)) hsound
      | _ => rfl

namespace Machine

/-- The machine with another clock. -/
def withClock (m : Machine) (t : Timers) (b : Bool) : Machine := { m with timers := t, beep := b }

end Machine

def Effect.withClock (effect : Effect) (t : Timers) (b : Bool) : Effect :=
  { effect with machine := effect.machine.withClock t b }

namespace Machine

/-! ### Instructions -/

section Access

variable (m : Machine) (t : Timers) (b : Bool) (x : Register)

theorem passRegisters_withClock :
    (m.withClock t b).passRegisters x = (m.passRegisters x).withClock t b := by
  unfold passRegisters
  rw [apply_ite fun machine : Machine => machine.withClock t b]
  rfl

theorem storeRegisters_withClock :
    (m.withClock t b).storeRegisters x = (m.storeRegisters x).withClock t b := by
  simp only [storeRegisters, Effect.withClock,
    apply_ite fun machine : Machine => machine.withClock t b, ← passRegisters_withClock]
  rfl

theorem loadRegisters_withClock :
    (m.withClock t b).loadRegisters x = (m.loadRegisters x).withClock t b := by
  simp only [loadRegisters, Effect.withClock,
    apply_ite fun machine : Machine => machine.withClock t b, ← passRegisters_withClock]
  rfl

end Access

/-- The clock can be exchanged under an instruction, as far as the delay timer is not read. -/
theorem execute_withClock {m : Machine} {t : Timers} (b : Bool) (input : Input) {i : Instruction}
    (h : ∀ x, i = .readDelay x → t.delay = m.timers.delay) :
    (m.withClock t b).execute input i =
      (m.execute input i).withClock (i.setTimers m.registers t) b := by
  cases i with
  | ret =>
      simp only [execute, ret, withClock]
      cases m.stack.pop? <;> rfl
  | call nnn =>
      simp only [execute, call, withClock]
      cases m.stack.push m.pc <;> rfl
  | skipIf condition =>
      have hholds : (m.withClock t b).holds condition = m.holds condition := by
        cases condition <;> rfl
      simp only [execute, hholds]
      split <;> rfl
  | draw x y n =>
      simp only [execute, draw, withClock]
      cases (m.memory.readRun m.index.toNat n.val).2 <;> rfl
  | readDelay x =>
      simp only [execute, withClock, h x rfl]
      rfl
  | storeRegisters x =>
      exact m.storeRegisters_withClock t b x
  | loadRegisters x =>
      exact m.loadRegisters_withClock t b x
  | _ => rfl

/-- What an instruction does to the clock. -/
theorem execute_clock (m : Machine) (input : Input) (i : Instruction) :
    (m.execute input i).machine.timers = i.setTimers m.registers m.timers ∧
      (m.execute input i).machine.beep = m.beep := by
  -- the machine's own clock is one that it can be exchanged for
  have hown : m.execute input i =
      (m.execute input i).withClock (i.setTimers m.registers m.timers) m.beep :=
    execute_withClock m.beep input fun _ _ => rfl
  have hmachine := congrArg Effect.machine hown
  constructor
  · rw [hmachine]
    rfl
  · rw [hmachine]
    rfl

/-! ### Steps -/

/-- The time of the step makes a tick. An idle step takes no time. -/
def Ticks (m : Machine) (input : Input) : Prop :=
  ¬m.Idle input ∧ m.timers.ticks input.elapsed = true

instance (m : Machine) (input : Input) : Decidable (m.Ticks input) :=
  inferInstanceAs (Decidable (_ ∧ _))

/-- The timers when the time of the step has passed, that is, as its instruction finds them. -/
def passed (m : Machine) (input : Input) : Timers :=
  if m.Idle input then m.timers else (m.timers.advance input.elapsed).1

section Passed

variable {m : Machine} {input : Input}

theorem passed_of_not_idle (h : ¬m.Idle input) :
    m.passed input = (m.timers.advance input.elapsed).1 :=
  if_neg h

theorem passed_of_ticks (h : m.Ticks input) :
    m.passed input = ⟨Timers.down m.timers.delay, Timers.down m.timers.sound, 0⟩ := by
  rw [passed_of_not_idle h.1, Timers.advance_of_ticks h.2]

/-- Without a tick time is gathered at most. -/
theorem passed_of_not_ticks (h : ¬m.Ticks input) :
    m.passed input = { m.timers with gathered := (m.passed input).gathered } := by
  by_cases hidle : m.Idle input
  · rw [passed, if_pos hidle]
  · have hno : ¬m.timers.ticks input.elapsed = true := fun htick => h ⟨hidle, htick⟩
    rw [passed_of_not_idle hidle, Timers.advance_of_not_ticks hno]

theorem toNat_delay_passed (m : Machine) (input : Input) :
    (m.passed input).delay.toNat = m.timers.delay.toNat - if m.Ticks input then 1 else 0 := by
  by_cases h : m.Ticks input
  · rw [passed_of_ticks h, if_pos h]
    exact Timers.toNat_down m.timers.delay
  · rw [passed_of_not_ticks h, if_neg h]
    rfl

end Passed

theorem effect_timers {m : Machine} {input : Input} {word : UInt16} (h : ¬m.Idle input) :
    (m.effect input word).machine.timers =
      (Instruction.decode word).setTimers (m.receive input.keys).registers (m.passed input) := by
  rw [passed_of_not_idle h, ← ready_registers m input, ← ready_timers m input]
  exact (execute_clock _ input _).1

/-- A step that fetches nothing leaves the timers as the time leaves them. -/
theorem step_timers_of_not_fetches {m : Machine} {input : Input}
    (h : ∀ word, ¬m.Fetches input word) : (m.step input).machine.timers = m.passed input := by
  obtain hidle | ⟨hawake, hpc⟩ | ⟨word, hfetch⟩ := m.step_trichotomy input
  · rw [step_of_idle hidle, passed, if_pos hidle]
  · rw [step_of_fault hawake (m.memory.readWord_of_le hpc), passed_of_not_idle hawake,
      ready_timers]
  · exact absurd hfetch (h word)

theorem step_timers_of_fetches {m : Machine} {input : Input} {word : UInt16}
    (h : m.Fetches input word) :
    (m.step input).machine.timers =
      (Instruction.decode word).setTimers (m.receive input.keys).registers (m.passed input) := by
  rw [step_of_fetches h]
  exact effect_timers h.1

/-- The timers after a step are as its instruction sets them, or as its time leaves them. -/
theorem step_timers_cases (m : Machine) (input : Input) :
    (∃ word, m.Fetches input word ∧
      (m.step input).machine.timers =
        (Instruction.decode word).setTimers (m.receive input.keys).registers (m.passed input)) ∨
    (m.step input).machine.timers = m.passed input := by
  by_cases hfetch : ∃ word, m.Fetches input word
  · obtain ⟨word, hword⟩ := hfetch
    exact .inl ⟨word, hword, step_timers_of_fetches hword⟩
  · exact .inr (step_timers_of_not_fetches (not_exists.mp hfetch))

section Unset

variable {m : Machine} {input : Input}

theorem step_delay_of_not_executes (h : ¬m.Executes input (.firstAndByte 0xF 0x15)) :
    (m.step input).machine.timers.delay = (m.passed input).delay := by
  obtain ⟨word, hfetch, htimers⟩ | htimers := m.step_timers_cases input
  · rw [htimers, Instruction.setTimers_decode]
    exact if_neg fun hmatches => h ⟨word, hfetch, hmatches⟩
  · rw [htimers]

theorem step_sound_of_not_executes (h : ¬m.Executes input (.firstAndByte 0xF 0x18)) :
    (m.step input).machine.timers.sound = (m.passed input).sound := by
  obtain ⟨word, hfetch, htimers⟩ | htimers := m.step_timers_cases input
  · rw [htimers, Instruction.setTimers_decode]
    exact if_neg fun hmatches => h ⟨word, hfetch, hmatches⟩
  · rw [htimers]

theorem step_gathered (m : Machine) (input : Input) :
    (m.step input).machine.timers.gathered = (m.passed input).gathered := by
  obtain ⟨word, -, htimers⟩ | htimers := m.step_timers_cases input
  · rw [htimers, Instruction.setTimers_decode]
  · rw [htimers]

end Unset

/-- The beep flag after a step says whether the sound timer ran out at a tick of this very step,
whatever came of the step afterwards. -/
theorem step_beep_iff (m : Machine) (input : Input) :
    (m.step input).machine.beep = true ↔ m.Ticks input ∧ m.timers.sound = 1 := by
  obtain hidle | ⟨hawake, hpc⟩ | ⟨word, hfetch⟩ := m.step_trichotomy input
  · rw [step_of_idle hidle]
    simp [Ticks, hidle]
  · rw [step_of_fault hawake (m.memory.readWord_of_le hpc), ready_eq, Timers.advance_expired_iff]
    simp [Ticks, hawake]
  · have hbeep : (m.effect input word).machine.beep = (m.ready input).beep :=
      (execute_clock _ input _).2
    rw [step_of_fetches hfetch, hbeep, ready_eq, Timers.advance_expired_iff]
    simp [Ticks, hfetch.1]

end Machine

end Chip8
