import Chip8.Proofs.Noninterference
import Chip8.Proofs.Results

/-!
Machines that cannot fetch, because their program counter is at the last byte of memory or behind
it. No step gets such a machine any further. All that its steps can do is to let time pass, and to
give a key to the register that waits for one, once.
-/

namespace Chip8

/-- The keys of the first input that has any. -/
def firstKeys (inputs : List Input) : Keypad :=
  ((inputs.map Input.keys).find? (· ≠ .released)).getD .released

theorem firstKeys_cons (input : Input) (rest : List Input) :
    firstKeys (input :: rest) =
      if input.keys = .released then firstKeys rest else input.keys := by
  by_cases h : input.keys = .released <;> simp [firstKeys, h]

theorem firstKeys_eq_released_iff (inputs : List Input) :
    firstKeys inputs = .released ↔ ∀ input ∈ inputs, input.keys = .released := by
  induction inputs with
  | nil => simp [firstKeys]
  | cons input rest ih =>
      rw [firstKeys_cons, List.forall_mem_cons, ← ih]
      split <;> simp_all

namespace Machine

/-- There is no whole instruction at the program counter. -/
def Stuck (m : Machine) : Prop := 0xFFF ≤ m.pc.toNat

instance (m : Machine) : Decidable m.Stuck := inferInstanceAs (Decidable (_ ≤ _))

/-! ### The register that waits -/

section Receive

variable (m : Machine)

theorem receive_released : m.receive .released = m := by
  have hnone : Keypad.released.lowest? = none := Keypad.lowest?_eq_none_iff.mpr rfl
  unfold receive
  split
  · rename_i hkey
    rw [hnone] at hkey
    contradiction
  · rfl

theorem receive_of_not_waiting {m : Machine} (h : m.waiting? = none) (keys : Keypad) :
    m.receive keys = m := by
  simp [receive, h]

theorem receive_registers_waiting? (keys : Keypad) :
    ((m.receive keys).registers, (m.receive keys).waiting?) =
      match m.waiting?, keys.lowest? with
      | some x, some key => (m.registers.set x (UInt8.ofNat key.val), none)
      | waiting?, _ => (m.registers, waiting?) := by
  cases hw : m.waiting? <;> cases hk : keys.lowest? <;> simp [receive, hw, hk, takeKey]

/-- The first key ends the wait, and the later ones find none. -/
theorem waiting?_receive_isSome (keys : Keypad) :
    (m.receive keys).waiting?.isSome = true ↔ m.waiting?.isSome = true ∧ keys = .released := by
  rw [← Keypad.lowest?_eq_none_iff]
  cases hw : m.waiting? <;> cases hk : keys.lowest? <;> simp [receive, hw, hk, takeKey]

theorem receive_receive (keys keys' : Keypad) :
    (m.receive keys).receive keys' =
      m.receive (if keys = .released then keys' else keys) := by
  split
  · rename_i hreleased
    rw [hreleased, receive_released]
  · rename_i hpressed
    apply receive_of_not_waiting
    rw [← Option.not_isSome_iff_eq_none, waiting?_receive_isSome]
    exact fun hstill => hpressed hstill.2

end Receive

/-! ### One step -/

section Step

variable {m : Machine} {input : Input}

theorem Stuck.size_le (h : m.Stuck) : Memory.size ≤ m.pc.toNat + 1 := Nat.succ_le_succ h

theorem Stuck.step_result (h : m.Stuck) (input : Input) :
    (m.step input).result =
      if m.Idle input then .ok false else .error (.memoryFault (max m.pc.toNat Memory.size)) := by
  by_cases hidle : m.Idle input
  · rw [step_of_idle hidle, if_pos hidle]
  · rw [step_of_fault hidle (m.memory.readWord_of_le h.size_le), if_neg hidle]

theorem Stuck.not_fetches (h : m.Stuck) (input : Input) (word : UInt16) :
    ¬m.Fetches input word :=
  fun hfetch => Nat.not_lt.mpr h.size_le hfetch.pc_lt

/-- The machine takes its key and its time, and is otherwise left alone. -/
theorem Stuck.step_machine (h : m.Stuck) (input : Input) :
    (m.step input).machine =
      { m.receive input.keys with
        keys := input.keys
        timers := m.passed input
        beep := (m.step input).machine.beep } := by
  by_cases hidle : m.Idle input
  · rw [step_of_idle hidle, hidle.2, receive_released, passed, if_pos hidle]
  · rw [step_of_fault hidle (m.memory.readWord_of_le h.size_le), ready_eq,
      passed_of_not_idle hidle]

theorem Stuck.step (h : m.Stuck) (input : Input) : (m.step input).machine.Stuck := by
  rw [h.step_machine, receive_frame]
  exact h

/-- A step that sets neither timer leaves them as its time does. -/
theorem step_timers_of_unset (hdelay : ¬m.Executes input (.firstAndByte 0xF 0x15))
    (hsound : ¬m.Executes input (.firstAndByte 0xF 0x18)) :
    (m.step input).machine.timers = m.passed input :=
  (Timers.mk.injEq ..).mpr ⟨step_delay_of_not_executes hdelay, step_sound_of_not_executes hsound,
    step_gathered m input⟩

/-- The beep flag that a step leaves does not depend on its instruction. -/
theorem step_beep (m : Machine) (input : Input) :
    (m.step input).machine.beep =
      if m.Idle input then false else (m.timers.advance input.elapsed).2 := by
  rw [Bool.eq_iff_iff, step_beep_iff]
  split
  · rename_i hidle
    simp [Ticks, hidle]
  · rename_i hawake
    simp [Ticks, hawake, Timers.advance_expired_iff]

/-- Where a whole instruction is at the program counter, it is fetched. -/
theorem exists_fetches_iff_lt (hawake : ¬m.Idle input) :
    (∃ word, m.Fetches input word) ↔ m.pc.toNat < 0xFFF := by
  have hsize : Memory.size = 4096 := rfl
  constructor
  · rintro ⟨word, hfetch⟩
    have hin := hfetch.pc_lt
    omega
  · intro hpc
    exact ⟨_, fetches_iff.mpr ⟨hawake, by omega, rfl⟩⟩

end Step

/-! ### Runs -/

/-- After any run the machine is as the first key of the run leaves it, up to the clock and the keys
that were held last. -/
theorem Stuck.run_eq {m : Machine} (h : m.Stuck) (inputs : List Input) :
    m.run inputs =
      { m.receive (firstKeys inputs) with
        keys := (m.run inputs).keys
        timers := (m.run inputs).timers
        beep := (m.run inputs).beep } := by
  induction inputs generalizing m with
  | nil =>
      have hnone : firstKeys [] = .released := rfl
      rw [hnone, receive_released]
      rfl
  | cons input rest ih =>
      have hreceive : (m.step input).machine.receive (firstKeys rest) =
          { m.receive (firstKeys (input :: rest)) with
            keys := input.keys
            timers := m.passed input
            beep := (m.step input).machine.beep } := by
        rw [firstKeys_cons, ← receive_receive, ← receive_with, ← h.step_machine input]
      change (m.step input).machine.run rest = _
      rw [ih (h.step input), hreceive]
      rfl

section Run

variable {m : Machine} (h : m.Stuck) (inputs : List Input)

include h

theorem Stuck.run_pc : (m.run inputs).pc = m.pc := by
  rw [h.run_eq, receive_frame]

theorem Stuck.run_idle_iff (input : Input) :
    (m.run inputs).Idle input ↔
      m.waiting?.isSome = true ∧ ∀ earlier ∈ inputs ++ [input], earlier.keys = .released := by
  have hwaiting : (m.run inputs).waiting? = (m.receive (firstKeys inputs)).waiting? := by
    rw [h.run_eq]
  rw [Idle, hwaiting, waiting?_receive_isSome, firstKeys_eq_released_iff, List.forall_mem_append,
    List.forall_mem_singleton, and_assoc]

end Run

/-- A machine that cannot fetch is frozen.

Whatever the steps of a run are, nothing of the machine changes but its clock, the keys that it
takes down and, with the first key of the run, the register that waits for one. Every further step
answers that the first byte behind memory is missing, unless it is still waiting. It takes its time
like the same step of any other machine: the beep flag is the same, and so are the timers, if the
other step sets neither.

Conversely, where a whole instruction is at the program counter, it is fetched by every step that is
not idle. So a machine that neither waits nor has halted fails to fetch exactly at the last byte of
memory. -/
theorem stuck_for_good (m : Machine) :
    (m.Stuck → ∀ inputs,
      let n := m.run inputs
      (n.pc = m.pc ∧ n.index = m.index ∧ n.memory = m.memory ∧ n.screen = m.screen ∧
        n.stack = m.stack ∧ n.settings = m.settings ∧ n.fontOffset = m.fontOffset) ∧
      ((n.registers, n.waiting?) =
        match m.waiting?, (firstKeys inputs).lowest? with
        | some x, some key => (m.registers.set x (UInt8.ofNat key.val), none)
        | waiting?, _ => (m.registers, waiting?)) ∧
      ∀ input,
        let after := n.step input
        let idle := m.waiting?.isSome = true ∧
          ∀ earlier ∈ inputs ++ [input], earlier.keys = .released
        (idle →
          after.result = .ok false ∧ after.machine.timers = n.timers ∧
            after.machine.beep = false) ∧
        (¬idle →
          after.result = .error (.memoryFault (max m.pc.toNat 4096)) ∧
            after.machine.timers = (n.timers.advance input.elapsed).1 ∧
            after.machine.beep = (n.timers.advance input.elapsed).2) ∧
        ∀ other : Machine, other.timers = n.timers → (other.Idle input ↔ idle) →
          (other.step input).machine.beep = after.machine.beep ∧
          (¬other.Executes input (.firstAndByte 0xF 0x15) →
            ¬other.Executes input (.firstAndByte 0xF 0x18) →
            (other.step input).machine.timers = after.machine.timers)) ∧
    (m.pc.toNat < 0xFFF → ∀ input, ¬m.Idle input → ∃ word, m.Fetches input word) ∧
    (m.isHalted = false → m.waiting? = none →
      ∀ input, (¬∃ word, m.Fetches input word) ↔ m.pc.toNat = 0xFFF) := by
  refine ⟨fun h inputs => ?_, fun hpc input hawake => (exists_fetches_iff_lt hawake).mpr hpc,
    fun hin hwaiting input => ?_⟩
  · intro n
    have hrun : n =
        { m.receive (firstKeys inputs) with keys := n.keys, timers := n.timers, beep := n.beep } :=
      h.run_eq inputs
    have hpc : n.pc = m.pc := h.run_pc inputs
    have hn : n.Stuck := by
      rw [Stuck, hpc]
      exact h
    refine ⟨?_, ?_, fun input => ?_⟩
    · rw [receive_frame] at hrun
      rw [hrun]
      exact ⟨rfl, rfl, rfl, rfl, rfl, rfl, rfl⟩
    · rw [← receive_registers_waiting?, hrun]
    · intro after idle
      have hidle : n.Idle input ↔ idle := h.run_idle_iff inputs input
      have htimers : after.machine.timers = n.passed input :=
        step_timers_of_not_fetches (hn.not_fetches input)
      refine ⟨fun hi => ?_, fun hi => ?_, fun other htime hsame => ⟨?_, fun hdelay hsound => ?_⟩⟩
      · have hi := hidle.mpr hi
        refine ⟨?_, ?_, ?_⟩
        · rw [hn.step_result, if_pos hi]
        · rw [htimers, passed, if_pos hi]
        · rw [step_beep, if_pos hi]
      · have hi := mt hidle.mp hi
        refine ⟨?_, ?_, ?_⟩
        · rw [hn.step_result, if_neg hi, hpc]
        · rw [htimers, passed_of_not_idle hi]
        · rw [step_beep, if_neg hi]
      · rw [step_beep, step_beep n, htime]
        simp only [hsame, hidle]
      · rw [step_timers_of_unset hdelay hsound, htimers, passed, passed, htime]
        simp only [hsame, hidle]
  · have hawake : ¬m.Idle input := by simp [Idle, hwaiting]
    have hpc : m.pc.toNat < 4096 := Nat.not_le.mp fun hout =>
      Bool.false_ne_true (hin.symm.trans (isHalted_iff.mpr hout))
    rw [exists_fetches_iff_lt hawake]
    omega

/-- A program that stores the instruction to wait for a key in the last two bytes of memory and goes
there gets its key at the second poll. Another one jumps to the last byte of memory. -/
theorem stuck_for_good_waiting_at_end :
    let poll : Input := ⟨.released, 1000, 0⟩
    let press : Input := ⟨⟨0x28⟩, 1000, 0⟩
    let program : List UInt8 := [0x60, 0xF0, 0x61, 0x0A, 0xAF, 0xFE, 0xF1, 0x55, 0x1F, 0xFE]
    let m := (build program [] 0).1.run (List.replicate 6 poll)
    let n := m.run [poll, press, press]
    let start := (build [0x1F, 0xFF] [] 0).1
    let last := (start.step poll).machine
    m.Stuck ∧ n.pc = m.pc ∧ n.registers = m.registers.set 0 3 ∧ n.waiting? = none ∧
      ((m.run [poll]).step poll).result = .ok false ∧
      (n.step poll).result = .error (.memoryFault 4096) ∧
      (start.step poll).machine.beep = (n.step poll).machine.beep ∧
      (∃ word, start.Fetches poll word) ∧ ¬∃ word, last.Fetches poll word := by
  intro poll press program m n start last
  have hm : m.pc = 0x1000 ∧ m.waiting? = some 0 := by decide +kernel
  have hn : start.timers = n.timers := by decide +kernel
  have hstuck : m.Stuck := by
    rw [Stuck, hm.1]
    decide
  have hpoll := (((stuck_for_good m).1 hstuck [poll]).2.2 poll).1
    ⟨Option.isSome_of_mem hm.2, by decide⟩
  obtain ⟨⟨hpc, -⟩, hkey, hsteps⟩ := (stuck_for_good m).1 hstuck [poll, press, press]
  have hfirst : (firstKeys [poll, press, press]).lowest? = some 3 := by decide
  rw [hm.2, hfirst] at hkey
  obtain ⟨hregisters, hwaiting⟩ := Prod.mk.inj hkey
  obtain ⟨-, hfault, hlike⟩ := hsteps poll
  have hawake : ¬(m.waiting?.isSome = true ∧
      ∀ earlier ∈ [poll, press, press] ++ [poll], earlier.keys = .released) :=
    fun hidle => absurd hidle.2 (by decide)
  have hresult : (n.step poll).result = .error (.memoryFault 4096) := by
    rw [(hfault hawake).1, hm.1]
    rfl
  obtain ⟨hbeep, -⟩ := hlike start hn (iff_of_false (by decide) hawake)
  have hfetch := (stuck_for_good start).2.1 (by decide) poll (by decide)
  have hlast : last.isHalted = false ∧ last.waiting? = none ∧ last.pc.toNat = 0xFFF := by
    decide +kernel
  have hnone := ((stuck_for_good last).2.2 hlast.1 hlast.2.1 poll).mpr hlast.2.2
  refine ⟨hstuck, hpc, hregisters, hwaiting, hpoll.1, hresult, ?_, hfetch, hnone⟩
  rw [hbeep]

end Machine

end Chip8
