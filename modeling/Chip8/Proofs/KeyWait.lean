import Chip8.Proofs.Encoding
import Chip8.Proofs.Step

/-!
Waiting for a key. The steps that a machine spends waiting can be left out of a run, and the other
steps go as before: waiting changes nothing but the beep flag and the keys that the machine took
down, and the next step sets both anew before anything reads them. The step that brings the key goes
like the step of a machine that has the key in its register already.
-/

namespace Chip8

/-- The entries that are not marked. -/
def unmarked {α : Type} : List Bool → List α → List α
  | true :: marks, _ :: rest => unmarked marks rest
  | false :: marks, entry :: rest => entry :: unmarked marks rest
  | _, _ => []

namespace Keypad

theorem lowest?_spec {pad : Keypad} {key : Key} (h : pad.lowest? = some key) :
    pad.mask.toNat.testBit key.val = true ∧
      ∀ lower < key, pad.mask.toNat.testBit lower.val = false := by
  rw [lowest?, List.find?_eq_some_iff_getElem] at h
  obtain ⟨hheld, place, hplace, hkey, hlower⟩ := h
  rw [List.getElem_finRange] at hkey
  refine ⟨(pad.testBit_mask key.val).trans hheld, fun lower hlt => ?_⟩
  have hbefore : lower.val < place := by
    rw [← hkey] at hlt
    exact hlt
  have hfree := hlower lower.val hbefore
  rw [List.getElem_finRange] at hfree
  rw [testBit_mask]
  simpa using hfree

/-- A keypad with a key held has a lowest held key. -/
theorem exists_lowest? {pad : Keypad} (h : pad.mask ≠ 0) : ∃ key, pad.lowest? = some key := by
  cases hlowest : pad.lowest? with
  | none =>
      rw [lowest?_eq_none_iff] at hlowest
      subst hlowest
      exact absurd rfl h
  | some key => exact ⟨key, rfl⟩

end Keypad

namespace Machine

/-- The machine with no key taken down and the beep flag off. -/
def quiet (m : Machine) : Machine := { m with keys := .released, beep := false }

def idleSteps (m : Machine) : List Input → List Bool
  | [] => []
  | input :: rest => decide (m.Idle input) :: (m.step input).machine.idleSteps rest

/-! ### Idle steps -/

section Idle

variable (m : Machine) (inputs : List Input)

/-- The keys and the beep flag that one step leaves do not reach the next one. -/
theorem outcomes_leftover (keys : Keypad) (beep : Bool) :
    { m with keys, beep }.outcomes inputs = m.outcomes inputs := by
  cases inputs <;> rfl

theorem quiet_run_quiet : (m.quiet.run inputs).quiet = (m.run inputs).quiet := by
  cases inputs <;> rfl

theorem machine_step_of_idle {m : Machine} {input : Input} (h : m.Idle input) :
    (m.step input).machine = m.quiet := by
  rw [step_of_idle h]
  rfl

/-- The run without its idle steps has the outcomes of the others. -/
theorem outcomes_unmarked :
    m.outcomes (unmarked (m.idleSteps inputs) inputs) =
      unmarked (m.idleSteps inputs) (m.outcomes inputs) := by
  induction inputs generalizing m with
  | nil => rfl
  | cons input rest ih =>
      by_cases h : m.Idle input
      · simp only [idleSteps, outcomes, decide_eq_true h, unmarked, machine_step_of_idle h]
        -- what the idle step may have changed is left over for no other step
        rw [← ih m.quiet]
        exact (m.outcomes_leftover _ .released false).symm
      · simp only [idleSteps, outcomes, decide_eq_false h, unmarked]
        rw [ih (m.step input).machine]

theorem run_unmarked :
    (m.run (unmarked (m.idleSteps inputs) inputs)).quiet = (m.run inputs).quiet := by
  induction inputs generalizing m with
  | nil => rfl
  | cons input rest ih =>
      have hrest := ih (m.step input).machine
      by_cases h : m.Idle input
      · simp only [idleSteps, decide_eq_true h, unmarked]
        rw [machine_step_of_idle h, quiet_run_quiet] at hrest
        rw [machine_step_of_idle h, hrest, ← machine_step_of_idle h]
        rfl
      · simp only [idleSteps, decide_eq_false h, unmarked]
        exact hrest

end Idle

/-! ### The end of a wait -/

/-- The step that ends a wait goes like the step of a machine with the key in its register, but for
the report of the key. -/
theorem step_of_key {m : Machine} {x : Register} {key : Key} {input : Input}
    (hwaiting : m.waiting? = some x) (hkey : input.keys.lowest? = some key) :
    m.step input =
      { (m.takeKey x key).step input with
        events := .keyStored key x :: ((m.takeKey x key).step input).events } := by
  have hgiven : (m.takeKey x key).waiting? = none := rfl
  simp only [step, hwaiting, hkey, hgiven]
  rfl

theorem decode_of_waitKey {word : UInt16} (hfirst : (Opcode.digit word 3).val = 0xF)
    (hbyte : (Opcode.lowByte word).toNat = 0x0A) :
    Instruction.decode word = .waitKey (Opcode.digit word 2) := by
  simp [Instruction.decode, Instruction.ofLowByte?, hfirst, hbyte]

theorem waiting?_step_of_waitKey {m : Machine} {input : Input} {word : UInt16}
    (h : m.Fetches input word) (hfirst : (Opcode.digit word 3).val = 0xF)
    (hbyte : (Opcode.lowByte word).toNat = 0x0A) :
    (m.step input).machine.waiting? = some (Opcode.digit word 2) := by
  rw [step_of_fetches h, effect, decode_of_waitKey hfirst hbyte]
  rfl

/-- The keys and the beep flag that are left over from before a run reach nothing in it. A run goes
as it does without its idle steps, and ends in the same machine up to these two; an idle step
succeeds and changes nothing else. The step that brings a key answers and leaves what it would with
the lowest held key in the register already and no wait. The step that begins to wait takes no key,
whatever is held. -/
theorem wait_transparent (m : Machine) :
    (∀ keys beep inputs, { m with keys, beep }.outcomes inputs = m.outcomes inputs) ∧
    (∀ inputs,
      let idle := m.idleSteps inputs
      m.outcomes (unmarked idle inputs) = unmarked idle (m.outcomes inputs) ∧
        (m.run (unmarked idle inputs)).quiet = (m.run inputs).quiet) ∧
    (∀ input, m.Idle input → m.step input = ⟨m.quiet, .ok false, []⟩) ∧
    (∀ x input, m.waiting? = some x → input.keys.mask ≠ 0 →
      ∃ key : Key, input.keys.mask.toNat.testBit key.val = true ∧
        (∀ lower < key, input.keys.mask.toNat.testBit lower.val = false) ∧
        let given : Machine :=
          { m with registers := m.registers.set x (UInt8.ofNat key.val), waiting? := none }
        (m.step input).result = (given.step input).result ∧
          (m.step input).machine = (given.step input).machine) ∧
    (∀ input word, m.Fetches input word →
      (Opcode.digit word 3).val = 0xF → (Opcode.lowByte word).toNat = 0x0A →
      (m.step input).machine.waiting? = some (Opcode.digit word 2)) := by
  refine ⟨fun keys beep inputs => m.outcomes_leftover inputs keys beep,
    fun inputs => ⟨m.outcomes_unmarked inputs, m.run_unmarked inputs⟩,
    fun _ => step_of_idle, ?_, fun _ _ => waiting?_step_of_waitKey⟩
  intro x input hwaiting hmask
  obtain ⟨key, hkey⟩ := Keypad.exists_lowest? hmask
  obtain ⟨hheld, hlower⟩ := Keypad.lowest?_spec hkey
  refine ⟨key, hheld, hlower, ?_⟩
  rw [step_of_key hwaiting hkey]
  exact ⟨rfl, rfl⟩

/-- Two polls without a key, then two keys at once, then none again. The wait began with the same
two keys held, which the machine has still taken down. -/
theorem wait_transparent_two_polls :
    let poll : Input := ⟨.released, 1000, 0⟩
    let press : Input := ⟨⟨0x28⟩, 1, 0⟩
    let start := (build [0xF1, 0x0A, 0x71, 0x01, 0x12, 0x02] Font.builtIn 0).1
    let m := (start.step press).machine
    m.waiting? = some 1 ∧
      m.outcomes [press, poll] =
        unmarked [true, true, false, false] (m.outcomes [poll, poll, press, poll]) ∧
      m.step poll = ⟨m.quiet, .ok false, []⟩ ∧
      { m with keys := .released }.outcomes [press, poll] = m.outcomes [press, poll] ∧
      ∃ key : Key, press.keys.mask.toNat.testBit key.val = true ∧
        (∀ lower < key, press.keys.mask.toNat.testBit lower.val = false) ∧
        (m.step press).machine =
          (({ m with
            registers := m.registers.set 1 (UInt8.ofNat key.val)
            waiting? := none } : Machine).step press).machine := by
  intro poll press start m
  have hfetch : start.Fetches press 0xF10A :=
    fetches_iff.mpr ⟨by decide +kernel, by decide +kernel, by decide +kernel⟩
  obtain ⟨-, -, -, -, hbegin⟩ := wait_transparent start
  have hwaiting : m.waiting? = some 1 := hbegin press 0xF10A hfetch (by decide) (by decide)
  obtain ⟨hleftover, hruns, hpoll, hpress, -⟩ := wait_transparent m
  have hidle : m.idleSteps [poll, poll, press, poll] = [true, true, false, false] := by
    decide +kernel
  have houtcomes := (hruns [poll, poll, press, poll]).1
  rw [hidle] at houtcomes
  have hstep := hpoll poll (by decide +kernel)
  obtain ⟨key, hheld, hlower, -, hmachine⟩ := hpress 1 press hwaiting (by decide)
  exact ⟨hwaiting, houtcomes, hstep, hleftover .released m.beep [press, poll], key, hheld, hlower,
    hmachine⟩

end Machine

end Chip8
