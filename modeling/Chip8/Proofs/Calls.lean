import Chip8.Proofs.Results

/-!
Calls and returns match. A return address that a call has saved stays where it is, whatever goes on
above it, until the step that takes it off the stack; and that step goes there.
-/

namespace Chip8.Machine

/-- What is saved at the bottom of the stack stays there, or the newest saved address is where
control goes. -/
theorem Transfer.keeps_or_returns {m m' : Machine} (h : m.Transfer m') {saved : List UInt16}
    (hsaved : saved <:+ m.stack.frames) :
    saved <:+ m'.stack.frames ∨ saved = m'.pc :: m'.stack.frames := by
  cases h with
  | next _ hstack | skip _ hstack | jump _ _ hstack | jumpOffset _ _ hstack =>
      rw [hstack]
      exact .inl hsaved
  | call _ _ _ hstack =>
      rw [hstack]
      exact .inl (hsaved.trans (List.suffix_cons _ _))
  | ret hframes hpc hstack =>
      rw [hframes, List.suffix_cons_iff] at hsaved
      rw [hpc, hstack]
      exact hsaved.symm

theorem step_keeps_or_returns {m : Machine} {saved : List UInt16}
    (hsaved : saved <:+ m.stack.frames) (input : Input) :
    saved <:+ (m.step input).machine.stack.frames ∨
      saved = (m.step input).machine.pc :: (m.step input).machine.stack.frames := by
  obtain hidle | ⟨hawake, hpc⟩ | ⟨word, hfetch⟩ := m.step_trichotomy input
  · rw [step_of_idle hidle]
    exact .inl hsaved
  · rw [step_of_fault hawake (m.memory.readWord_of_le hpc), ready_stack]
    exact .inl hsaved
  · rw [step_of_fetches hfetch]
    apply (execute_transfer (m.ready input).advance input _).keeps_or_returns
    simpa [advance] using hsaved

/-- As long as the depth does not fall below what is saved, a run keeps it. -/
theorem run_keeps {m : Machine} {saved : List UInt16} (hsaved : saved <:+ m.stack.frames)
    (inputs : List Input)
    (hdepth : ∀ k < inputs.length, saved.length ≤ (m.run (inputs.take (k + 1))).stack.depth) :
    saved <:+ (m.run inputs).stack.frames := by
  induction inputs generalizing m with
  | nil => exact hsaved
  | cons input rest ih =>
      have hstep : saved.length ≤ (m.step input).machine.stack.depth := by
        simpa [run] using hdepth 0 (Nat.zero_lt_succ _)
      apply ih
      · -- the step cannot take the newest saved address, or the depth would fall below them all
        obtain hkept | htaken := step_keeps_or_returns hsaved input
        · exact hkept
        · rw [htaken, List.length_cons] at hstep
          exact absurd hstep (Nat.not_succ_le_self _)
      · intro k hk
        exact hdepth (k + 1) (Nat.succ_lt_succ hk)

/-- A call that succeeds saves the address behind itself on top of the stack. -/
theorem frames_step_of_call {m : Machine} {input : Input} {word : UInt16} {halted : Bool}
    (hfetch : m.Fetches input word) (hcall : Opcode.IsCall word)
    (hok : (m.step input).result = .ok halted) :
    (m.step input).machine.stack.frames = (m.ready input).advance.pc :: m.stack.frames := by
  obtain ⟨nnn, hnnn⟩ := Instruction.need_eq_place_iff.mp hcall.need
  by_cases hroom : m.stack.depth < CallStack.capacity
  · have hready : (m.ready input).advance.stack.depth < CallStack.capacity := by
      simpa [advance] using hroom
    rw [step_of_fetches hfetch]
    simp only [effect, hnnn, execute, call_of_lt nnn hready]
    simp [Effect.reporting, advance]
  · have hunmet : m.unmet? (Instruction.decode word).need =
        some (.stackOverflow m.stack.depth) := by
      simp [hcall.need, unmet?, hroom]
    rw [step_result_of_unmet hfetch hunmet] at hok
    contradiction

/-- After a call, the first step that brings the stack back to its depth before the call goes on
behind the call, and the stack is what it was before the call. Nothing is assumed of the steps in
between, but that the stack stays deeper. -/
theorem return_matches_call {m : Machine} {input : Input} {word : UInt16} {halted : Bool}
    (hfetch : m.Fetches input word) (hcall : Opcode.IsCall word)
    (hok : (m.step input).result = .ok halted) (inputs : List Input) (last : Input)
    (hdeeper : ∀ k < inputs.length,
      m.stack.depth + 1 ≤ ((m.step input).machine.run (inputs.take (k + 1))).stack.depth)
    (hback : (((m.step input).machine.run inputs).step last).machine.stack.depth ≤
      m.stack.depth) :
    let back := (((m.step input).machine.run inputs).step last).machine
    back.pc.toNat = m.pc.toNat + 2 ∧ back.stack = m.stack := by
  intro back
  have hframes := frames_step_of_call hfetch hcall hok
  have hkept : (m.ready input).advance.pc :: m.stack.frames <:+
      ((m.step input).machine.run inputs).stack.frames := by
    apply run_keeps
    · exact hframes ▸ List.suffix_rfl
    · exact hdeeper
  obtain hstill | htaken := step_keeps_or_returns hkept last
  · have hlength := hstill.length_le
    rw [List.length_cons] at hlength
    exact absurd (Nat.le_trans hlength hback) (Nat.not_succ_le_self _)
  · injection htaken with hpc hstack
    constructor
    · rw [← hfetch.toNat_advance_pc, hpc]
    · exact congrArg CallStack.mk hstack.symm

/-- A call whose body calls once more and returns, and then returns itself. Behind the call the
program goes on, so that the machine would be elsewhere by then if it had not called. -/
theorem return_matches_call_nested :
    let quiet : Input := ⟨.released, 17, 0⟩
    let m := (build [0x22, 0x04, 0x60, 0x01, 0x22, 0x08, 0x00, 0xEE, 0x00, 0xEE] Font.builtIn 0).1
    m.Fetches quiet 0x2204 ∧ Opcode.IsCall 0x2204 ∧
      ((((m.step quiet).machine.run [quiet, quiet]).step quiet).machine).pc.toNat = m.pc.toNat + 2 ∧
      ((((m.step quiet).machine.run [quiet, quiet]).step quiet).machine).stack = m.stack := by
  intro quiet m
  have hm : Reachable m := Reachable.build _ _ _
  have hfetch : m.Fetches quiet 0x2204 :=
    fetches_iff.mpr ⟨by decide +kernel, by decide +kernel, by decide +kernel⟩
  have hcall : Opcode.IsCall 0x2204 := by decide
  have hok : (m.step quiet).result = .ok (m.step quiet).machine.isHalted := by
    rw [hm.step_result hfetch, if_neg (by decide +kernel), if_neg (by decide +kernel)]
  refine ⟨hfetch, hcall, return_matches_call hfetch hcall hok [quiet, quiet] quiet ?_ ?_⟩
  · decide +kernel
  · decide +kernel

end Chip8.Machine
