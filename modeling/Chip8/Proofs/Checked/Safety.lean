import Chip8.Proofs.Checked.Loops
import Chip8.Proofs.Reachable

/-!
The machine on numbers and arrays never traps. In every build it answers whatever is asked of it as
the machine does, and goes through states that show it. What keeps the operations within their types
and arrays are the bounds on the operands of a word and the bounds that all machines keep which come
about.
-/

namespace Chip8

namespace Checked

/-! ### The machine in numbers and arrays -/

/-- The state that shows a machine, with its return addresses in the given slots. -/
def State.ofMachine (m : Machine) (slots : Vector UInt16 254) : State where
  registers := m.registers
  index := m.index
  pc := m.pc
  stack := ⟨slots, m.stack.depth⟩
  timers := m.timers
  memory := m.memory
  cells := .ofScreen m.screen
  keys := m.keys
  settings := m.settings
  fontOffset := m.fontOffset
  waiting? := m.waiting?.map Fin.val
  beep := m.beep

/-- The state is the machine in numbers and arrays. Slots behind the return addresses do not
matter. -/
def State.Shows (c : State) (m : Machine) : Prop :=
  ∃ slots, Saved slots m.stack ∧ c = .ofMachine m slots

/-- In every build the computation ends without a trap, with the same answer, and in the same state,
which shows the machine. -/
def ComesTo {α : Type} (run : Build → Attempt (State × α)) (m : Machine) (answer : α) : Prop :=
  ∃ c : State, c.Shows m ∧ ∀ b, run b = .ok (c, answer)

theorem ComesTo.intro {α : Type} {run : Build → Attempt (State × α)} {m : Machine} {answer : α}
    (slots : Vector UInt16 254) (hs : Saved slots m.stack)
    (h : ∀ b, run b = .ok (.ofMachine m slots, answer)) : ComesTo run m answer :=
  ⟨_, ⟨slots, hs, rfl⟩, h⟩

theorem ComesTo.congr {α : Type} {run run' : Build → Attempt (State × α)} {m : Machine}
    {answer : α} (h : ComesTo run' m answer) (heq : ∀ b, run b = run' b) :
    ComesTo run m answer := by
  obtain ⟨c, hc, hrun⟩ := h
  exact ⟨c, hc, fun b => (heq b).trans (hrun b)⟩

open State

/-! ### Instructions -/

section Instructions

variable (b : Build) (m : Machine) (slots : Vector UInt16 254) {o : Operands}

@[simp] theorem registers_ofMachine : (ofMachine m slots).registers = m.registers := rfl

theorem setRegister_eq (x : Register) (value : UInt8) :
    (ofMachine m slots).setRegister x.val value =
      .ok (ofMachine (m.setRegister x value) slots) := by
  simp only [State.setRegister, ofMachine, writeRegister_val, ok_bind, pure_eq_ok]
  rfl

theorem holds_eq {condition : Condition} (ho : o.Hold (.skipIf condition)) :
    (ofMachine m slots).holds b o condition = .ok (m.holds condition) := by
  cases condition with
  | byteEq x nn | byteNe x nn | regEq x y | regNe x y =>
      simp [State.holds, ofMachine, ho.1, ho.2, Machine.holds]
  | keyHeld x | keyFree x =>
      simp only [Operands.Hold] at ho
      simp [State.holds, ofMachine, ho, Machine.holds, b.isHeld_eq]

theorem passRegisters_eq (x : Register) :
    (ofMachine m slots).passRegisters b x.val = .ok (ofMachine (m.passRegisters x) slots) := by
  have hx := x.isLt
  have hcast : x.val % 2 ^ 16 = x.val := Nat.mod_eq_of_lt (by omega)
  have hsum : x.val + 1 < 2 ^ 16 := by omega
  cases hset : m.settings.loadStore with
  | true => simp [State.passRegisters, ofMachine, Machine.passRegisters, hset]
  | false =>
      simp only [State.passRegisters, ofMachine, Machine.passRegisters, hset, hcast,
        b.add_of_lt hsum]
      rfl

theorem finish_eq (x : Register) (fault? : Option Fault) :
    (ofMachine m slots).finish b x.val fault? =
      .ok (ofMachine (if fault?.isNone then m.passRegisters x else m) slots, fault?) := by
  cases fault? <;> simp [State.finish, passRegisters_eq]

theorem draw_eq {x y : Register} {n : Fin 16} (ho : o.Hold (.draw x y n)) :
    (ofMachine m slots).draw b o =
      .ok (ofMachine (m.draw x y n.val).machine slots, (m.draw x y n.val).fault?) := by
  obtain ⟨hx, hy, hn⟩ := ho
  have hcolumn : (m.registers.get x).toNat % Screen.width < 64 := Nat.mod_lt _ (by decide)
  have hline : (m.registers.get y).toNat % Screen.height < 32 := Nat.mod_lt _ (by decide)
  have hrows : 0 + n.val ≤ 16 := by omega
  have hdraw := drawRows_eq b m.memory m.screen m.registers false m.index.toNat_lt hcolumn hline
    hrows
  have hflag : flagOf false = 0 := rfl
  rw [hflag] at hdraw
  simp only [State.draw, ofMachine, hx, hy, hn, readRegister_val, ok_bind, pure_eq_ok,
    remainder_of_ne_zero (show Screen.width ≠ 0 by decide),
    remainder_of_ne_zero (show Screen.height ≠ 0 by decide), writeRegister_val,
    List.range_eq_range', hdraw, Nat.add_zero, Bool.false_or, Machine.draw]
  cases (m.memory.readRun m.index.toNat n.val).2 <;> rfl

theorem storeDecimal_eq {x : Register} (ho : o.Hold (.storeDecimal x)) :
    (ofMachine m slots).storeDecimal b o =
      .ok (ofMachine (m.storeDecimal x).machine slots, (m.storeDecimal x).fault?) := by
  have hx : o.x = x.val := ho
  have hindex := m.index.toNat_lt
  have hlength : m.index.toNat + 0 +
      (Machine.decimalDigits (m.registers.get x)).length < 2 ^ 32 :=
    Nat.lt_of_lt_of_le (Nat.add_lt_add_right hindex 3) (by decide)
  simp only [State.storeDecimal, ofMachine, hx, readRegister_val, decimalDigits_eq,
    writeEach_eq b _ _ hlength, ok_bind, Nat.add_zero]
  rfl

theorem storeRegisters_eq {x : Register} (ho : o.Hold (.storeRegisters x)) :
    (ofMachine m slots).storeRegisters b o =
      .ok (ofMachine (m.storeRegisters x).machine slots, (m.storeRegisters x).fault?) := by
  have hx : o.x = x.val := ho
  have hindex := m.index.toNat_lt
  have hlength : m.index.toNat + 0 + (m.registers.upTo x).length < 2 ^ 32 := by
    rw [m.registers.length_upTo]
    omega
  simp only [State.storeRegisters, ofMachine, hx, map_readRegister, writeEach_eq b _ _ hlength,
    ok_bind, Nat.add_zero]
  let memory := (m.memory.writeRun m.index.toNat (m.registers.upTo x)).1
  exact finish_eq b { m with memory } slots x _

theorem loadRegisters_eq {x : Register} (ho : o.Hold (.loadRegisters x)) :
    (ofMachine m slots).loadRegisters b o =
      .ok (ofMachine (m.loadRegisters x).machine slots, (m.loadRegisters x).fault?) := by
  have hx : o.x = x.val := ho
  have hcount : 0 + (x.val + 1) ≤ 16 := by omega
  simp only [State.loadRegisters, ofMachine, hx, List.range_eq_range',
    loadEach_eq b m.memory m.registers m.index.toNat_lt hcount, ok_bind, Nat.add_zero,
    Registers.fillFrom_zero]
  let bytes := (m.memory.readRun m.index.toNat (x.val + 1)).1
  exact finish_eq b { m with registers := m.registers.fill bytes } slots x _

end Instructions

section Step

variable {c : State} {m : Machine} {o : Operands} {i : Instruction}

theorem execute_comesTo (input : Input) (hc : c.Shows m) (ho : o.Hold i) :
    ComesTo (fun b => c.execute b input o i) (m.execute input i).machine
      (m.execute input i).fault? := by
  obtain ⟨slots, hs, rfl⟩ := hc
  cases i with
  | ret =>
      cases hframes : m.stack.frames with
      | nil =>
          simp only [Machine.execute, Machine.ret_of_nil hframes]
          refine .intro slots hs fun b => ?_
          simp [State.execute, ofMachine, pop_of_nil hframes, Effect.reporting]
      | cons address rest =>
          simp only [Machine.execute, Machine.ret_of_cons hframes]
          have hpop (b : Build) := hs.pop (b := b) hframes
          refine .intro slots (hpop ⟨true, true⟩).2 fun b => ?_
          simp [State.execute, ofMachine, (hpop b).1, Effect.silent]
          rfl
  | call nnn =>
      by_cases hroom : m.stack.depth < 254
      · simp only [Machine.execute, Machine.call_of_lt nnn hroom]
        refine .intro (slots.set m.stack.depth m.pc) (hs.push m.pc hroom) fun b => ?_
        have hnnn : o.nnn = nnn.toWord := ho
        simp only [State.execute, ofMachine, push_of_lt hroom, ok_bind, pure_eq_ok, hnnn]
        rfl
      · have hfull := Nat.not_lt.mp hroom
        simp only [Machine.execute, Machine.call_of_le nnn hfull]
        refine .intro slots hs fun b => ?_
        simp only [State.execute, ofMachine, push_of_le hfull, ok_bind, pure_eq_ok]
  | skipIf condition =>
      have hstack : (m.execute input (.skipIf condition)).machine.stack = m.stack := by
        simp only [Machine.execute, Effect.silent]
        split <;> rfl
      refine .intro slots (hstack ▸ hs) fun b => ?_
      simp only [Machine.execute, State.execute, holds_eq b m slots ho, ok_bind, pure_eq_ok]
      cases m.holds condition <;> rfl
  | draw x y n =>
      refine .intro slots ?_ fun b => draw_eq b m slots ho
      rw [Machine.execute, Machine.draw_frame]
      exact hs
  | storeDecimal x => exact .intro slots hs fun b => storeDecimal_eq b m slots ho
  | storeRegisters x =>
      refine .intro slots ?_ fun b => storeRegisters_eq b m slots ho
      rw [Machine.execute, Machine.storeRegisters_frame]
      exact hs
  | loadRegisters x =>
      refine .intro slots ?_ fun b => loadRegisters_eq b m slots ho
      rw [Machine.execute, Machine.loadRegisters_frame]
      exact hs
  | combine operation x y =>
      refine .intro slots hs fun b => ?_
      simp only [State.execute, ofMachine, ho.1, ho.2, combine_eq b m operation x y, ok_bind,
        pure_eq_ok]
      rfl
  | setByte x nn | addByte x nn | random x nn =>
      refine .intro slots hs fun b => ?_
      simp only [State.execute, ho.1, ho.2, registers_ofMachine, readRegister_val, setRegister_eq,
        ok_bind, pure_eq_ok]
      rfl
  | readDelay x =>
      have hx : o.x = x.val := ho
      refine .intro slots hs fun b => ?_
      simp only [State.execute, hx, setRegister_eq, ok_bind, pure_eq_ok]
      rfl
  | fontGlyph x =>
      have hx : o.x = x.val := ho
      have hdigit : (m.registers.get x &&& 0x0F).toNat = (m.registers.get x).toNat % 16 :=
        (UInt8.toNat_and ..).trans (Nat.and_two_pow_sub_one_eq_mod _ 4)
      have hproduct : (m.registers.get x).toNat % 16 * Font.glyphSize < 2 ^ 16 := by
        rw [Font.glyphSize]
        omega
      refine .intro slots hs fun b => ?_
      simp only [State.execute, hx, registers_ofMachine, readRegister_val, hdigit,
        b.mul_of_lt hproduct, ok_bind, pure_eq_ok]
      rfl
  | clearScreen =>
      refine .intro slots hs fun b => ?_
      simp only [State.execute, ← Cells.ofScreen_blank, pure_eq_ok]
      rfl
  | _ =>
      refine .intro slots hs fun b => ?_
      simp only [Operands.Hold] at ho
      simp [State.execute, ofMachine, ho, Machine.execute, Effect.silent, Effect.reporting]

/-- Time, a fetch, and the instruction that it finds. The time gathered so far is to be little. -/
theorem proceed_comesTo (hc : c.Shows m) (hgathered : m.timers.gathered ≤ 16) (input : Input) :
    let outcome := (m.tick input.elapsed).runInstruction input
    ComesTo (fun b => c.proceed b input) outcome.machine outcome.result := by
  obtain ⟨slots, hs, rfl⟩ := hc
  intro outcome
  have hrun : outcome = (m.tick input.elapsed).runInstruction input := rfl
  have hmemory : (m.tick input.elapsed).memory.readWord (m.tick input.elapsed).pc.toNat =
      m.memory.readWord m.pc.toNat := rfl
  simp only [Machine.runInstruction, hmemory] at hrun
  cases hword : m.memory.readWord m.pc.toNat with
  | error fault =>
      rw [hword] at hrun
      rw [hrun]
      refine .intro slots hs fun b => ?_
      simp only [State.proceed, ofMachine, b.advance_eq hgathered, b.readWord_eq, hword, ok_bind,
        pure_eq_ok]
      rfl
  | ok word =>
      rw [hword] at hrun
      have hfetched : (ofMachine (m.tick input.elapsed).advance slots).Shows
          (m.tick input.elapsed).advance := ⟨slots, hs, rfl⟩
      obtain ⟨after, hafter, hexecute⟩ := execute_comesTo input hfetched (hold_decode word)
      dsimp only at hexecute
      refine ⟨after, hrun ▸ hafter, fun b => ?_⟩
      have hproceed : (ofMachine m slots).proceed b input = (do
          return State.answer (← (ofMachine (m.tick input.elapsed).advance slots).execute b input
            (.ofWord word) (Instruction.decode word))) := by
        simp only [State.proceed, ofMachine, b.advance_eq hgathered, b.readWord_eq, hword,
          operands_eq, ok_bind, pure_eq_ok]
        rfl
      obtain ⟨slots', -, rfl⟩ := hafter
      refine hproceed.trans ?_
      rw [hexecute, ok_bind, pure_eq_ok, hrun]
      dsimp only
      cases ((m.tick input.elapsed).advance.execute input (Instruction.decode word)).fault? <;> rfl

theorem step_comesTo (hc : c.Shows m) (hgathered : m.timers.gathered ≤ 16) (input : Input) :
    ComesTo (fun b => c.step b input) (m.step input).machine (m.step input).result := by
  obtain ⟨slots, hs, rfl⟩ := hc
  cases hwaiting : m.waiting? with
  | none =>
      let quiet : Machine := { m with keys := input.keys, beep := false }
      have hquiet : (ofMachine quiet slots).Shows quiet := ⟨slots, hs, rfl⟩
      have hstep : m.step input = (quiet.tick input.elapsed).runInstruction input := by
        simp only [Machine.step, hwaiting, quiet]
      rw [hstep]
      refine (proceed_comesTo hquiet hgathered input).congr fun b => ?_
      simp only [State.step, ofMachine, hwaiting, Option.map_none, quiet]
  | some x =>
      cases hkey : input.keys.lowest? with
      | none =>
          have hstep : m.step input = ⟨{ m with keys := input.keys, beep := false }, .ok false, []⟩ := by
            simp only [Machine.step, hwaiting, hkey]
          rw [hstep]
          refine .intro slots hs fun b => ?_
          simp only [State.step, ofMachine, hwaiting, Option.map_some, b.firstHeld_range, hkey,
            Option.map_none, ok_bind, pure_eq_ok]
      | some key =>
          let given := { m with keys := input.keys, beep := false }.takeKey x key
          have hgiven : (ofMachine given slots).Shows given := ⟨slots, hs, rfl⟩
          have hstep : m.step input =
              { (given.tick input.elapsed).runInstruction input with
                events := .keyStored key x ::
                  ((given.tick input.elapsed).runInstruction input).events } := by
            simp only [Machine.step, hwaiting, hkey, given]
          rw [hstep]
          refine (proceed_comesTo hgiven hgathered input).congr fun b => ?_
          simp only [State.step, ofMachine, hwaiting, Option.map_some, b.firstHeld_range, hkey,
            ok_bind, State.setRegister, writeRegister_val, pure_eq_ok]
          rfl

end Step

end Checked

/-! ### Requests -/

theorem Machine.Reachable.serve {m : Machine} (h : m.Reachable) (request : Request) :
    (m.serve request).1.Reachable := by
  cases request with
  | enable setting => exact h.enable setting
  | step input => exact h.step input
  | cell x y => exact h
  | litCount => exact h

namespace Checked

open State

theorem build_eq (b : Build) (program font : List UInt8) (fontOffset : UInt16) :
    State.build b program font fontOffset =
      .ok (ofMachine (Machine.build program font fontOffset).1 (Vector.replicate 254 0)) := by
  simp only [State.build, b.load_eq, ok_bind, pure_eq_ok, ← Cells.ofScreen_blank]
  rfl

section Serve

variable {c : State} {m : Machine}

theorem serve_comesTo (hc : c.Shows m) (hm : m.Reachable) (request : Request) :
    ComesTo (fun b => c.serve b request) (m.serve request).1 (m.serve request).2 := by
  cases request with
  | enable setting =>
      obtain ⟨slots, hs, rfl⟩ := hc
      exact .intro slots hs fun b => rfl
  | step input =>
      obtain ⟨after, hafter, hstep⟩ := step_comesTo hc hm.bounded.gathered_le input
      refine ⟨after, hafter, fun b => ?_⟩
      dsimp only at hstep ⊢
      rw [State.serve, hstep, ok_bind]
      rfl
  | cell x y =>
      obtain ⟨slots, hs, rfl⟩ := hc
      refine .intro slots hs fun b => ?_
      simp only [State.serve, ofMachine, Cells.get_ofScreen, ok_bind, pure_eq_ok]
      rfl
  | litCount =>
      obtain ⟨slots, hs, rfl⟩ := hc
      refine .intro slots hs fun b => ?_
      simp only [State.serve, ofMachine, Cells.litCount_ofScreen, ok_bind, pure_eq_ok]
      rfl

theorem serveAll_comesTo (hc : c.Shows m) (hm : m.Reachable) (requests : List Request) :
    ComesTo (fun b => c.serveAll b requests) (m.serveAll requests).1 (m.serveAll requests).2 := by
  induction requests generalizing c m with
  | nil => exact ⟨c, hc, fun b => rfl⟩
  | cons request rest ih =>
      obtain ⟨served, hserved, hserve⟩ := serve_comesTo hc hm request
      obtain ⟨last, hlast, hrest⟩ := ih hserved (hm.serve request)
      refine ⟨last, hlast, fun b => ?_⟩
      dsimp only at hserve hrest ⊢
      rw [State.serveAll, hserve, ok_bind]
      dsimp only
      rw [hrest, ok_bind]
      rfl

end Serve

/-- Nothing that can be asked of a machine makes the computation in numbers and arrays trap,
whatever the program, the font and its address are, and whatever was answered before: no index is
outside its array, no slice outside its bounds, no shift as far as its type is wide, and no sum,
difference or product outside its type. So the builds do not differ: all of them answer as the
machine does, and end in one and the same state, which shows it. -/
theorem requests_never_trap (program font : List UInt8) (fontOffset : UInt16)
    (requests : List Request) :
    let m := (Machine.build program font fontOffset).1
    ∃ c : State, c.Shows (m.serveAll requests).1 ∧ ∀ b : Build,
      (do (← State.build b program font fontOffset).serveAll b requests) =
        .ok (c, (m.serveAll requests).2) := by
  intro m
  have hbuilt : (ofMachine m (Vector.replicate 254 0)).Shows m := ⟨_, saved_empty _, rfl⟩
  obtain ⟨c, hc, hserve⟩ :=
    serveAll_comesTo hbuilt (Machine.Reachable.build program font fontOffset) requests
  refine ⟨c, hc, fun b => ?_⟩
  rw [build_eq, ok_bind]
  exact hserve b

end Checked

end Chip8
