import Chip8.Proofs.Control

/-!
Control in one array of 255 slots, and the program counter beside a stack of 254 places. Both go
through the same values under all moves, and find the same calls too deep.
-/

namespace Chip8

/-- The slots show the same control. -/
structure Control.Shown (c : Control) (s : Slots) : Prop where
  pc_eq : c.pc = s.live
  depth_eq : c.stack.depth = s.top.val
  frames_eq : c.stack.frames.reverse = s.saved

namespace Slots

/-- Writing at or above the index leaves the return addresses alone. -/
theorem take_set {values : Vector UInt16 255} {top place : Nat} (hplace : place < 255)
    (h : top ≤ place) (value : UInt16) :
    (values.set place value).toList.take top = values.toList.take top := by
  rw [Vector.toList_set, List.take_set_of_le h]

/-- One slot further up, the slot that was live is the newest return address. -/
theorem saved_succ {values : Vector UInt16 255} {top : Nat} (htop : top + 1 < 255) :
    saved ⟨values, ⟨top + 1, htop⟩⟩ =
      saved ⟨values, ⟨top, by omega⟩⟩ ++ [live ⟨values, ⟨top, by omega⟩⟩] := by
  have hlength : top < values.toList.length := by
    rw [Vector.length_toList]
    omega
  simp only [saved, live]
  rw [List.take_succ_eq_append_getElem hlength, Vector.getElem_toList]
  rfl

section Call

variable {s : Slots} (h : s.top.val ≠ 254) (target : Address)

include h

theorem live_call : (s.move (.call target)).live = target.toWord := by
  simp [move, dif_neg h, live]

theorem top_call : (s.move (.call target)).top.val = s.top.val + 1 := by
  simp only [move, dif_neg h]

/-- The live slot is not written any more, so that it holds the return address. -/
theorem saved_call : (s.move (.call target)).saved = s.saved ++ [s.live] := by
  simp only [move, dif_neg h]
  rw [saved, take_set (succ_top_lt h) (Nat.le_refl _)]
  exact saved_succ (succ_top_lt h)

end Call

end Slots

namespace Control.Shown

open Slots

theorem initial : Shown Control.initial Slots.initial where
  pc_eq := by simp [Control.initial, Slots.initial, live]
  depth_eq := rfl
  frames_eq := rfl

variable {c : Control} {s : Slots}

theorem full_iff (h : c.Shown s) : CallStack.capacity ≤ c.stack.depth ↔ s.top.val = 254 := by
  have htop := s.top.isLt
  have hcapacity : CallStack.capacity = 254 := rfl
  rw [h.depth_eq]
  omega

theorem put (h : c.Shown s) (value : UInt16) : Shown ⟨value, c.stack⟩ (s.put value) where
  pc_eq := by simp [Slots.put, live]
  depth_eq := h.depth_eq
  frames_eq := by
    rw [h.frames_eq]
    exact (take_set s.top.isLt (Nat.le_refl _) value).symm

theorem call (h : c.Shown s) (target : Address) :
    Shown (c.move (.call target)).1 (s.move (.call target)) := by
  by_cases hfull : s.top.val = 254
  · rw [move_call_of_le target (h.full_iff.mpr hfull)]
    simpa only [Slots.move, dif_pos hfull] using h
  · rw [move_call_of_lt target (Nat.not_le.mp (mt h.full_iff.mp hfull))]
    refine ⟨(live_call hfull target).symm, ?_, ?_⟩
    · rw [top_call hfull, ← h.depth_eq]
      rfl
    · rw [saved_call hfull, List.reverse_cons, h.frames_eq, h.pc_eq]

theorem ret (h : c.Shown s) : Shown (c.move .ret).1 (s.move .ret) := by
  obtain ⟨values, ⟨top, htop⟩⟩ := s
  cases hframes : c.stack.frames with
  | nil =>
      have hzero : top = 0 := by
        have hdepth := h.depth_eq
        simpa [CallStack.depth, hframes] using hdepth.symm
      rw [move_ret_of_nil hframes]
      simpa only [Slots.move, hzero, if_pos] using hzero ▸ h
  | cons address rest =>
      have hdepth : rest.length + 1 = top := by
        have hdepth := h.depth_eq
        simpa [CallStack.depth, hframes] using hdepth
      subst hdepth
      -- the newest of the saved addresses is in the slot that the return makes live
      have hsaved := h.frames_eq
      rw [hframes, List.reverse_cons, saved_succ htop] at hsaved
      obtain ⟨hrest, haddress⟩ := List.append_singleton_inj.mp hsaved
      rw [move_ret_of_cons hframes]
      exact ⟨haddress, rfl, hrest⟩

/-- One move keeps the same control on show. -/
theorem move (h : c.Shown s) (move : Move) : Shown (c.move move).1 (s.move move) := by
  cases move with
  | advance | skip =>
      simp only [Control.move, Slots.move, ← h.pc_eq]
      exact h.put _
  | jump target => exact h.put target
  | call target => exact h.call target
  | ret => exact h.ret

theorem follow (h : c.Shown s) (moves : List Move) : Shown (c.follow moves) (s.follow moves) := by
  induction moves generalizing c s with
  | nil => exact h
  | cons move rest ih => exact ih (h.move move)

/-- A move of the control fails exactly where the slots overflow. -/
theorem fault (h : c.Shown s) (move : Move) :
    (c.move move).2 = if s.overflows move then some (.stackOverflow 254) else none := by
  cases move with
  | call target =>
      by_cases hfull : s.top.val = 254
      · rw [move_call_of_le target (h.full_iff.mpr hfull), h.depth_eq, hfull]
        simp [overflows, hfull]
      · rw [move_call_of_lt target (Nat.not_le.mp (mt h.full_iff.mp hfull))]
        simp [overflows, hfull]
  | ret =>
      simp only [Control.move, overflows]
      split <;> rfl
  | _ => rfl

/-- A move that fails changes nothing on either side. -/
theorem move_of_overflows (h : c.Shown s) {move : Move} (hover : s.overflows move = true) :
    (c.move move).1 = c ∧ s.move move = s := by
  cases move with
  | call target =>
      have hfull : s.top.val = 254 := by simpa [overflows] using hover
      rw [move_call_of_le target (h.full_iff.mpr hfull)]
      exact ⟨rfl, by simp only [Slots.move, dif_pos hfull]⟩
  | _ => contradiction

end Control.Shown

namespace Machine

/-- A step answers that the stack overflows exactly if one of its moves does so in the slots. -/
theorem step_overflow_iff {m : Machine} {s : Slots} (h : m.control.Shown s) (input : Input) :
    (m.step input).result = .error (.stackOverflow 254) ↔ s.overflowsIn (m.moves input) := by
  obtain hidle | ⟨hawake, hpc⟩ | ⟨word, hfetch⟩ := m.step_trichotomy input
  · simp [step_of_idle hidle, moves_of_idle hidle, Slots.overflowsIn]
  · simp [step_of_fault hawake (m.memory.readWord_of_le hpc), moves_of_fault hpc,
      Slots.overflowsIn]
  · rw [step_of_fetches hfetch, moves_of_fetches hfetch, Effect.answer_eq_error_iff, effect,
      execute_overflow_iff, advance_move?]
    -- the advance does not overflow, and leaves the slots as deep as they were
    have hadvance : (s.move .advance).top = s.top := rfl
    have hdepth : m.stack.depth = s.top.val := h.depth_eq
    have hfull : CallStack.capacity ≤ m.stack.depth ∧ m.stack.depth = 254 ↔ s.top.val = 254 := by
      rw [hdepth]
      exact and_iff_right_of_imp fun htop => hdepth ▸ h.full_iff.mpr htop
    simp only [Slots.overflowsIn, Slots.overflows, Bool.false_or]
    cases hmove : (m.ready input).move? (Instruction.decode word) with
    | none => simp [Slots.overflowsIn]
    | some move =>
        cases move with
        | call target => simp [Slots.overflowsIn, Slots.overflows, hadvance, advance, hfull]
        | _ => simp [Slots.overflowsIn, Slots.overflows]

/-- The slots go through the same control as the program counter with the stack. -/
theorem slots_refined :
    (∀ moves : List Move,
      let c := Control.initial.follow moves
      let s := Slots.initial.follow moves
      c.Shown s ∧
      ∀ move,
        (c.move move).2 = (if s.overflows move then some (.stackOverflow 254) else none) ∧
        (s.overflows move → (c.move move).1 = c ∧ s.move move = s)) ∧
    ∀ (program font : List UInt8) (fontOffset : UInt16) (inputs : List Input),
      let start := (build program font fontOffset).1
      let m := start.run inputs
      let s := Slots.initial.follow (start.runMoves inputs)
      m.control.Shown s ∧
      ∀ input,
        ((m.step input).result = .error (.stackOverflow 254) ↔ s.overflowsIn (m.moves input)) := by
  constructor
  · intro moves c s
    have hshown : c.Shown s := Control.Shown.initial.follow moves
    exact ⟨hshown, fun move => ⟨hshown.fault move, hshown.move_of_overflows⟩⟩
  · intro program font fontOffset inputs start m s
    have hshown : m.control.Shown s := by
      rw [control_run]
      exact Control.Shown.initial.follow (start.runMoves inputs)
    exact ⟨hshown, step_overflow_iff hshown⟩

/-- The call after 254 others. -/
theorem slots_refined_full :
    let c := Control.initial.follow (List.replicate 254 (.call 0x300))
    let s := Slots.initial.follow (List.replicate 254 (.call 0x300))
    s.overflows (.call 0x300) = true ∧ (c.move (.call 0x300)).2 = some (.stackOverflow 254) ∧
      (c.move (.call 0x300)).1 = c := by
  intro c s
  have hover : s.overflows (.call 0x300) = true := by decide +kernel
  obtain ⟨hfault, hsame⟩ := (slots_refined.1 (List.replicate 254 (.call 0x300))).2 (.call 0x300)
  refine ⟨hover, ?_, (hsame hover).1⟩
  rw [hfault]
  exact if_pos hover

end Machine

end Chip8
