import Chip8.Proofs.Execute
import Chip8.Proofs.Step

/-!
The machines that can come about, and the bounds that all of them keep. The bound on the program
counter needs the one on the saved return addresses, which come back into it, and these need that an
instruction is only fetched from memory; so the bounds are carried through a step together.
-/

namespace Chip8.Machine

/-- The machine comes about from some program and font by steps, whatever these answer, and by
settings put into force at any time. -/
inductive Reachable : Machine → Prop where
  | build (program font : List UInt8) (fontOffset : UInt16) :
      Reachable (Machine.build program font fontOffset).1
  | enable {m : Machine} (h : Reachable m) (setting : Setting) : Reachable (m.enable setting).1
  | step {m : Machine} (h : Reachable m) (input : Input) : Reachable (m.step input).machine

theorem Reachable.run {m : Machine} (h : Reachable m) (inputs : List Input) :
    Reachable (m.run inputs) := by
  induction inputs generalizing m with
  | nil => exact h
  | cons input rest ih => exact ih (h.step input)

/-- The bounds on the control and on the gathered time. -/
structure Bounded (m : Machine) : Prop where
  pc_le : m.pc.toNat ≤ 0x10FE
  depth_le : m.stack.depth ≤ CallStack.capacity
  frame_bounds : ∀ address ∈ m.stack.frames, 2 ≤ address.toNat ∧ address.toNat ≤ Memory.size
  gathered_le : m.timers.gathered ≤ 16

theorem bounded_build (program font : List UInt8) (fontOffset : UInt16) :
    Bounded (build program font fontOffset).1 where
  pc_le := by simp [build, empty, programOffset]
  depth_le := by simp [build, empty, CallStack.empty, CallStack.depth]
  frame_bounds := by simp [build, empty, CallStack.empty]
  gathered_le := by simp [build, empty, Timers.zero]

/-- The program counter does not wrap when it moves on from within memory. -/
theorem toNat_advance_pc {m : Machine} (h : m.pc.toNat ≤ Memory.size) :
    m.advance.pc.toNat = m.pc.toNat + 2 := by
  have hword : m.pc.toNat + 2 < 65536 := by
    simp only [Memory.size] at h
    omega
  simp [advance, UInt16.toNat_add, Nat.mod_eq_of_lt hword]

theorem Fetches.toNat_advance_pc {m : Machine} {input : Input} {word : UInt16}
    (h : m.Fetches input word) : (m.ready input).advance.pc.toNat = m.pc.toNat + 2 := by
  have hin := h.pc_lt
  rw [Machine.toNat_advance_pc (by rw [ready_pc]; omega), ready_pc]

/-- Handing on control keeps the bounds, if the program counter is just behind an instruction in
memory. -/
theorem Bounded.transfer {m m' : Machine} (h : Bounded m) (hlow : 2 ≤ m.pc.toNat)
    (hhigh : m.pc.toNat ≤ Memory.size) (ht : m.Transfer m')
    (hgathered : m'.timers.gathered ≤ 16) : Bounded m' := by
  obtain ⟨hpc, hdepth, hframes, -⟩ := h
  have hsize : Memory.size = 4096 := rfl
  cases ht with
  | next hpc' hstack =>
      exact ⟨hpc' ▸ hpc, hstack ▸ hdepth, hstack ▸ hframes, hgathered⟩
  | skip hpc' hstack =>
      refine ⟨?_, hstack ▸ hdepth, hstack ▸ hframes, hgathered⟩
      have hskip := toNat_advance_pc hhigh
      rw [hpc']
      change m.advance.pc.toNat ≤ 0x10FE
      omega
  | jump nnn hpc' hstack =>
      refine ⟨?_, hstack ▸ hdepth, hstack ▸ hframes, hgathered⟩
      have hnnn := nnn.isLt
      rw [hpc', Address.toNat_toWord]
      omega
  | jumpOffset nnn hpc' hstack =>
      refine ⟨?_, hstack ▸ hdepth, hstack ▸ hframes, hgathered⟩
      have hnnn := nnn.isLt
      have hoffset := (m.registers.get .offset).toNat_lt
      rw [hpc', Address.toNat_toWord_add]
      omega
  | call nnn hroom hpc' hstack =>
      have hnnn := nnn.isLt
      refine ⟨?_, ?_, ?_, hgathered⟩
      · rw [hpc', Address.toNat_toWord]
        omega
      · rw [hstack]
        exact hroom
      · rw [hstack]
        -- the new return address is the program counter behind the call
        exact List.forall_mem_cons.mpr ⟨⟨hlow, hhigh⟩, hframes⟩
  | ret hold hpc' hstack =>
      -- the program counter gets the bound that the address had when it was saved
      rw [hold, List.forall_mem_cons] at hframes
      simp only [CallStack.depth, hold, List.length_cons] at hdepth
      refine ⟨?_, ?_, ?_, hgathered⟩
      · rw [hpc']
        have hback := hframes.1.2
        omega
      · rw [hstack]
        exact Nat.le_of_succ_le hdepth
      · rw [hstack]
        exact hframes.2

theorem Bounded.ready {m : Machine} (h : Bounded m) (input : Input) :
    Bounded (m.ready input) := by
  obtain ⟨hpc, hdepth, hframes, -⟩ := h
  refine ⟨by simpa using hpc, by simpa using hdepth, by simpa using hframes, ?_⟩
  rw [ready_timers]
  exact m.timers.advance_gathered_le input.elapsed

theorem Bounded.step {m : Machine} (h : Bounded m) (input : Input) :
    Bounded (m.step input).machine := by
  obtain hidle | ⟨hawake, hpc⟩ | ⟨word, hfetch⟩ := m.step_trichotomy input
  · rw [step_of_idle hidle]
    exact ⟨h.pc_le, h.depth_le, h.frame_bounds, h.gathered_le⟩
  · rw [step_of_fault hawake (m.memory.readWord_of_le hpc)]
    exact h.ready input
  · have hsize : Memory.size = 4096 := rfl
    have hin := hfetch.pc_lt
    have hready := h.ready input
    have hadvance := hfetch.toNat_advance_pc
    have hfetched : Bounded (m.ready input).advance :=
      ⟨by omega, hready.depth_le, hready.frame_bounds, hready.gathered_le⟩
    rw [step_of_fetches hfetch]
    refine hfetched.transfer (by omega) (by omega) (execute_transfer _ input _) ?_
    rw [effect, execute_gathered]
    exact hready.gathered_le

theorem Reachable.bounded {m : Machine} (h : Reachable m) : Bounded m := by
  induction h with
  | build program font fontOffset => exact bounded_build program font fontOffset
  | enable _ setting ih => exact ⟨ih.pc_le, ih.depth_le, ih.frame_bounds, ih.gathered_le⟩
  | step _ input ih => exact ih.step input

/-! ### What the bounds are for

The program counter is a word and wraps, and gathered time is to fit into sixty-four bits. Neither
limit is ever met: the three additions on the program counter are exact wherever an instruction is
executed, and so are the sum and the product that decide on a tick. -/

theorem reachable_bounds_exact {m : Machine} (h : Reachable m) :
    (m.pc.toNat ≤ 0x10FE ∧ m.stack.depth ≤ 254 ∧
      (∀ address ∈ m.stack.frames, 2 ≤ address.toNat ∧ address.toNat ≤ 4096) ∧
      (∀ x, m.waiting? = some x → x.val < 16) ∧ m.timers.gathered ≤ 16) ∧
    (∀ input word, m.Fetches input word →
      let fetched := (m.ready input).advance
      fetched.pc.toNat = m.pc.toNat + 2 ∧
        fetched.advance.pc.toNat = fetched.pc.toNat + 2 ∧
        ∀ nnn, (fetched.execute input (.jumpOffset nnn)).machine.pc.toNat =
          nnn.val + (fetched.registers.get .offset).toNat) ∧
    ∀ elapsed : UInt32,
      m.timers.gathered + elapsed.toNat < UInt64.size ∧
        (m.timers.gathered + elapsed.toNat) * Timers.rate < UInt64.size := by
  have hbounded := h.bounded
  refine ⟨⟨hbounded.pc_le, hbounded.depth_le, hbounded.frame_bounds, fun x _ => x.isLt,
    hbounded.gathered_le⟩, ?_, ?_⟩
  · intro input word hfetch fetched
    have hin := hfetch.pc_lt
    have hfetched : fetched.pc.toNat = m.pc.toNat + 2 := hfetch.toNat_advance_pc
    refine ⟨hfetched, toNat_advance_pc (by omega), fun nnn => ?_⟩
    exact nnn.toNat_toWord_add (fetched.registers.get .offset)
  · intro elapsed
    have hgathered := hbounded.gathered_le
    have helapsed := elapsed.toNat_lt
    simp only [Timers.rate, UInt64.size]
    omega

/-- A program that calls itself for ever, at the end of a run of three hundred steps. -/
theorem reachable_bounds_exact_recursion :
    let m := (build [0x22, 0x00] Font.builtIn 0).1.run (List.replicate 300 ⟨.released, 17, 0⟩)
    Reachable m ∧ m.pc.toNat ≤ 0x10FE ∧ m.stack.depth ≤ 254 ∧
      ∀ address ∈ m.stack.frames, 2 ≤ address.toNat ∧ address.toNat ≤ 4096 := by
  intro m
  have hm : Reachable m := (Reachable.build _ _ _).run _
  have hbounds := (reachable_bounds_exact hm).1
  exact ⟨hm, hbounds.1, hbounds.2.1, hbounds.2.2.1⟩

end Chip8.Machine
