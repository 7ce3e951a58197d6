import Chip8.Proofs.Clock
import Chip8.Proofs.Passage

/-!
The footprint of a step. A machine falls into parts, and for each of them it is said which words may
write it, and what the key and the time of a step may make of it beforehand. Everything else is
where it was, whether the step succeeds or fails.
-/

namespace Chip8

def Opcode.Among (word : UInt16) (patterns : List Pattern) : Prop :=
  ∃ p ∈ patterns, p.Matches word

/-- The patterns of the words that write a value to the register of their second digit. -/
def Pattern.valued : List Pattern := [
  first 0x6, -- 6XNN
  first 0x7, -- 7XNN
  firstAndLast 0x8 0x0, -- 8XY0
  firstAndLast 0x8 0x1, -- 8XY1
  firstAndLast 0x8 0x2, -- 8XY2
  firstAndLast 0x8 0x3, -- 8XY3
  firstAndLast 0x8 0x4, -- 8XY4
  firstAndLast 0x8 0x5, -- 8XY5
  firstAndLast 0x8 0x6, -- 8XY6
  firstAndLast 0x8 0x7, -- 8XY7
  firstAndLast 0x8 0xE, -- 8XYE
  first 0xC, -- CXNN
  firstAndByte 0xF 0x07] -- FX07

def Pattern.flagged : List Pattern := [
  firstAndLast 0x8 0x4, -- 8XY4
  firstAndLast 0x8 0x5, -- 8XY5
  firstAndLast 0x8 0x6, -- 8XY6
  firstAndLast 0x8 0x7, -- 8XY7
  firstAndLast 0x8 0xE, -- 8XYE
  first 0xD] -- DXYN

/-- A part of the machine. Memory has a part for each address, and the registers one for each of
them. -/
inductive Part where
  | byte (address : Nat)
  | register (r : Register)
  | index
  | pc
  | stack
  | screen
  | delay
  | sound
  | gathered
  | waiting
  | keys
  | settings
  | fontOffset
  | beep
  deriving DecidableEq, Repr

namespace Part

def Same (m m' : Machine) : Part → Prop
  | byte address => m'.memory.peek address = m.memory.peek address
  | register r => m'.registers.get r = m.registers.get r
  | index => m'.index = m.index
  | pc => m'.pc = m.pc
  | stack => m'.stack = m.stack
  | screen => m'.screen = m.screen
  | delay => m'.timers.delay = m.timers.delay
  | sound => m'.timers.sound = m.timers.sound
  | gathered => m'.timers.gathered = m.timers.gathered
  | waiting => m'.waiting? = m.waiting?
  | keys => m'.keys = m.keys
  | settings => m'.settings = m.settings
  | fontOffset => m'.fontOffset = m.fontOffset
  | beep => m'.beep = m.beep

/-- A step whose instruction is `word` may write the part by the instruction. The machine becomes
`m'`, and `succeeds` tells whether the instruction succeeds. -/
def Written (m m' : Machine) (word : UInt16) (succeeds : Prop) : Part → Prop
  | byte address =>
    address < Memory.size ∧ m.index.toNat ≤ address ∧
      ((Pattern.firstAndByte 0xF 0x33).Matches word ∧ address ≤ m.index.toNat + 2 ∨
        (Pattern.firstAndByte 0xF 0x55).Matches word ∧
          address ≤ m.index.toNat + (Opcode.digit word 2).val)
  | register r =>
    Opcode.Among word Pattern.valued ∧ r = Opcode.digit word 2 ∨
      Opcode.Among word Pattern.flagged ∧ r = .flag ∨
      (Pattern.firstAndByte 0xF 0x65).Matches word ∧ r ≤ Opcode.digit word 2
  | index =>
    Opcode.Among word [.first 0xA, .firstAndByte 0xF 0x1E, .firstAndByte 0xF 0x29] ∨
      Opcode.Among word [.firstAndByte 0xF 0x55, .firstAndByte 0xF 0x65] ∧
        m.settings.loadStore = false ∧ succeeds
  | pc => True
  | stack =>
    (Pattern.whole 0x00EE).Matches word ∧ 0 < m.stack.depth ∨
      (Pattern.first 0x2).Matches word ∧ succeeds
  | screen => Opcode.Among word [.whole 0x00E0, .first 0xD]
  | delay => (Pattern.firstAndByte 0xF 0x15).Matches word
  | sound => (Pattern.firstAndByte 0xF 0x18).Matches word
  | waiting =>
    (Pattern.firstAndByte 0xF 0x0A).Matches word ∧ m'.waiting? = some (Opcode.digit word 2)
  | gathered | keys | settings | fontOffset | beep => False

/-- What the key and the time of the step may make of the part before there is an instruction. -/
def Readied (m m' : Machine) (input : Input) : Part → Prop
  | register r =>
    m.waiting? = some r ∧
      ∃ key, input.keys.lowest? = some key ∧ m'.registers.get r = UInt8.ofNat key.val
  | waiting => input.keys ≠ .released ∧ m'.waiting? = none
  | delay => m.Ticks input ∧ m'.timers.delay = Timers.down m.timers.delay
  | sound => m.Ticks input ∧ m'.timers.sound = Timers.down m.timers.sound
  | gathered => ¬m.Idle input
  | keys => m.keys ≠ input.keys ∧ m'.keys = input.keys
  | beep => m.beep = true ∧ m'.beep = false ∨ m.Ticks input ∧ m.timers.sound = 1
  | byte _ | index | pc | stack | screen | settings | fontOffset => False

/-- The parts make up the machine. -/
theorem eq_of_same {m m' : Machine} (h : ∀ part : Part, part.Same m m') : m' = m := by
  have hmemory : m'.memory = m.memory := Memory.eq_of_peek fun address _ => h (byte address)
  have hregisters : m'.registers = m.registers :=
    congrArg Registers.mk (Vector.ext fun r hlt => h (register ⟨r, hlt⟩))
  have htimers : m'.timers = m.timers :=
    (Timers.mk.injEq ..).mpr ⟨h delay, h sound, h gathered⟩
  exact (Machine.mk.injEq ..).mpr ⟨hregisters, h index, h pc, h stack, htimers, hmemory, h screen,
    h keys, h settings, h fontOffset, h waiting, h beep⟩

end Part

/-! ### Instructions -/

namespace Registers

theorem eq_of_get_set_ne {registers : Registers} {x r : Register} {value : UInt8}
    (h : (registers.set x value).get r ≠ registers.get r) : r = x := by
  apply Decidable.byContradiction
  intro hne
  exact h (by rw [get_set, if_neg (Ne.symm hne)])

theorem lt_of_get_fill_ne {registers : Registers} {bytes : List UInt8} {r : Register}
    (h : (registers.fill bytes).get r ≠ registers.get r) : r.val < bytes.length := by
  apply Nat.lt_of_not_le
  intro hle
  exact h (by rw [get_fill, List.getElem?_eq_none hle, Option.getD_none])

end Registers

namespace Machine

theorem flagged_of_compute {operation : Operation} {inPlace : Bool} {vx vy : UInt8}
    (h : (operation.compute inPlace vx vy).flag? ≠ none) :
    .firstAndLast 0x8 operation.digit ∈ Pattern.flagged := by
  cases operation with
  | copy | or | and | xor => exact (h rfl).elim
  | _ => decide

theorem valued_of_operation (operation : Operation) :
    .firstAndLast 0x8 operation.digit ∈ Pattern.valued := by
  cases operation <;> decide

theorem combine_register {m : Machine} {operation : Operation} {x y r : Register}
    (h : (m.combine operation x y).registers.get r ≠ m.registers.get r) :
    r = x ∨ .firstAndLast 0x8 operation.digit ∈ Pattern.flagged ∧ r = .flag := by
  by_cases hx : r = x
  · exact .inl hx
  -- past the value there is only the flag, if the operation has one
  · simp only [combine, Registers.get_set, if_neg (Ne.symm hx)] at h
    cases hflag : (operation.compute m.settings.shift (m.registers.get x)
      (m.registers.get y)).flag? with
    | none => simp [hflag] at h
    | some flag =>
        simp only [hflag] at h
        exact .inr ⟨flagged_of_compute (by rw [hflag]; exact Option.some_ne_none flag),
          Registers.eq_of_get_set_ne h⟩

section Access

variable {m : Machine} {word : UInt16} {part : Part}

theorem written_of_ret (hword : (Pattern.whole 0x00EE).Matches word)
    (h : ¬part.Same m m.ret.machine) :
    part.Written m m.ret.machine word (m.ret.fault? = none) := by
  cases hframes : m.stack.frames with
  | nil =>
      rw [ret_of_nil hframes] at h
      exact (h (by cases part <;> rfl)).elim
  | cons address rest =>
      rw [ret_of_cons hframes] at h
      cases part with
      | pc => trivial
      | stack => exact .inl ⟨hword, by simp [CallStack.depth, hframes]⟩
      | _ => exact (h rfl).elim

theorem written_of_call {nnn : Address} (hword : (Pattern.first 0x2).Matches word)
    (h : ¬part.Same m (m.call nnn).machine) :
    part.Written m (m.call nnn).machine word ((m.call nnn).fault? = none) := by
  by_cases hroom : m.stack.depth < CallStack.capacity
  · rw [call_of_lt nnn hroom] at h ⊢
    cases part with
    | pc => trivial
    | stack => exact .inr ⟨hword, rfl⟩
    | _ => exact (h rfl).elim
  · rw [call_of_le nnn (Nat.not_lt.mp hroom)] at h
    exact (h (by cases part <;> rfl)).elim

theorem written_of_draw {x y : Register} {n : Nat} (hword : (Pattern.first 0xD).Matches word)
    (h : ¬part.Same m (m.draw x y n).machine) :
    part.Written m (m.draw x y n).machine word ((m.draw x y n).fault? = none) := by
  obtain ⟨flag, hflag⟩ := m.draw_registers x y n
  rw [draw_frame] at h
  cases part with
  | register r =>
      rw [hflag] at h
      have hr : r = .flag := Registers.eq_of_get_set_ne h
      exact .inr (.inl ⟨⟨_, by simp [Pattern.flagged], hword⟩, hr⟩)
  | screen => exact ⟨_, by simp, hword⟩
  | _ => exact (h rfl).elim

theorem written_of_storeDecimal {x : Register}
    (hword : (Pattern.firstAndByte 0xF 0x33).Matches word)
    (h : ¬part.Same m (m.storeDecimal x).machine) :
    part.Written m (m.storeDecimal x).machine word ((m.storeDecimal x).fault? = none) := by
  cases part with
  | byte address =>
      have hne : (m.memory.writeRun m.index.toNat
          (decimalDigits (m.registers.get x))).1.peek address ≠ m.memory.peek address := h
      obtain ⟨hlt, hle, hrun⟩ := Memory.of_peek_writeRun_ne hne
      exact ⟨hlt, hle, .inl ⟨hword, Nat.le_of_lt_succ hrun⟩⟩
  | _ => exact (h rfl).elim

theorem written_of_storeRegisters {x : Register}
    (hword : (Pattern.firstAndByte 0xF 0x55).Matches word) (hx : Opcode.digit word 2 = x)
    (h : ¬part.Same m (m.storeRegisters x).machine) :
    part.Written m (m.storeRegisters x).machine word ((m.storeRegisters x).fault? = none) := by
  rw [storeRegisters_frame] at h
  cases part with
  | byte address =>
      rw [storeRegisters_memory] at h
      obtain ⟨hlt, hle, hrun⟩ := Memory.of_peek_writeRun_ne h
      rw [Registers.length_upTo, ← hx] at hrun
      exact ⟨hlt, hle, .inr ⟨hword, Nat.le_of_lt_succ hrun⟩⟩
  | index => exact .inr ⟨⟨_, by simp, hword⟩, m.storeRegisters_index x h⟩
  | _ => exact (h rfl).elim

theorem written_of_loadRegisters {x : Register}
    (hword : (Pattern.firstAndByte 0xF 0x65).Matches word) (hx : Opcode.digit word 2 = x)
    (h : ¬part.Same m (m.loadRegisters x).machine) :
    part.Written m (m.loadRegisters x).machine word ((m.loadRegisters x).fault? = none) := by
  rw [loadRegisters_frame] at h
  cases part with
  | register r =>
      rw [loadRegisters_registers] at h
      have hr : r.val < x.val + 1 := Nat.lt_of_lt_of_le (Registers.lt_of_get_fill_ne h)
        (m.memory.length_readRun_le m.index.toNat (x.val + 1))
      rw [← hx] at hr
      exact .inr (.inr ⟨hword, Nat.le_of_lt_succ hr⟩)
  | index => exact .inr ⟨⟨_, by simp, hword⟩, m.loadRegisters_index x h⟩
  | _ => exact (h rfl).elim

end Access

/-- What an instruction changes is what its word may write. -/
theorem written_of_execute {m : Machine} {input : Input} {word : UInt16} {i : Instruction}
    (hi : Instruction.decode word = i) {part : Part}
    (h : ¬part.Same m (m.execute input i).machine) :
    part.Written m (m.execute input i).machine word ((m.execute input i).fault? = none) := by
  have hword {p : Pattern} (hp : i.pattern? = some p) : p.Matches word :=
    Instruction.matches_of_decode (hi ▸ hp)
  have hdigit {x : Register} (hx : i.register? = some x) : Opcode.digit word 2 = x :=
    Instruction.digit_two_of_decode (hi ▸ hx)
  -- the parts that an instruction writes are looked at, and the others are the same by computation
  cases i with
  | clearScreen =>
      cases part with
      | screen => exact ⟨_, by simp, hword rfl⟩
      | _ => exact (h rfl).elim
  | ret => exact written_of_ret (hword rfl) h
  | call nnn => exact written_of_call (hword rfl) h
  | jump nnn | jumpOffset nnn =>
      cases part with
      | pc => trivial
      | _ => exact (h rfl).elim
  | skipIf condition =>
      cases part with
      | pc => trivial
      | _ =>
          refine (h ?_).elim
          simp only [execute, Effect.silent, Part.Same]
          split <;> rfl
  | setByte x nn | addByte x nn | random x nn | readDelay x =>
      cases part with
      | register r =>
          have hr : r = x := Registers.eq_of_get_set_ne h
          exact .inl ⟨⟨_, by simp [Pattern.valued], hword rfl⟩, hr.trans (hdigit rfl).symm⟩
      | _ => exact (h rfl).elim
  | combine operation x y =>
      cases part with
      | register r =>
          obtain hr | ⟨hflagged, hr⟩ := combine_register h
          · exact .inl ⟨⟨_, valued_of_operation operation, hword rfl⟩, hr.trans (hdigit rfl).symm⟩
          · exact .inr (.inl ⟨⟨_, hflagged, hword rfl⟩, hr⟩)
      | _ => exact (h rfl).elim
  | setIndex nnn | addIndex x | fontGlyph x =>
      cases part with
      | index => exact .inl ⟨_, by simp, hword rfl⟩
      | _ => exact (h rfl).elim
  | draw x y n => exact written_of_draw (hword rfl) h
  | waitKey x =>
      cases part with
      | waiting => exact ⟨hword rfl, congrArg some (hdigit rfl).symm⟩
      | _ => exact (h rfl).elim
  | setDelay x =>
      cases part with
      | delay => exact hword rfl
      | _ => exact (h rfl).elim
  | setSound x =>
      cases part with
      | sound => exact hword rfl
      | _ => exact (h rfl).elim
  | storeDecimal x => exact written_of_storeDecimal (hword rfl) h
  | storeRegisters x => exact written_of_storeRegisters (hword rfl) (hdigit rfl) h
  | loadRegisters x => exact written_of_loadRegisters (hword rfl) (hdigit rfl) h
  | unknown word' => exact (h (by cases part <;> rfl)).elim

/-! ### Keys and time -/

section Ready

variable {m : Machine} {input : Input}

theorem receive_register {keys : Keypad} {r : Register}
    (h : (m.receive keys).registers.get r ≠ m.registers.get r) :
    m.waiting? = some r ∧
      ∃ key, keys.lowest? = some key ∧
        (m.receive keys).registers.get r = UInt8.ofNat key.val := by
  unfold receive at h ⊢
  split at h
  · rename_i x key hx hkey
    have hr : r = x := Registers.eq_of_get_set_ne h
    rw [hx, hkey, hr]
    exact ⟨rfl, key, rfl, by simp [takeKey, Registers.get_set]⟩
  · exact absurd rfl h

theorem receive_waiting {keys : Keypad} (h : (m.receive keys).waiting? ≠ m.waiting?) :
    keys ≠ .released ∧ (m.receive keys).waiting? = none := by
  unfold receive at h ⊢
  split at h
  · rename_i hkey
    refine ⟨fun hreleased => ?_, rfl⟩
    rw [Keypad.lowest?_eq_none_iff.mpr hreleased] at hkey
    contradiction
  · exact absurd rfl h

/-- What the fetch finds changed is what the key and the time may make of it. -/
theorem readied_of_ready {part : Part} (hawake : ¬m.Idle input)
    (h : ¬part.Same m (m.ready input)) : part.Readied m (m.ready input) input := by
  have hready := m.ready_eq input
  rw [receive_frame, ← passed_of_not_idle hawake] at hready
  rw [hready] at h ⊢
  cases part with
  | register r => exact receive_register h
  | waiting => exact receive_waiting h
  | delay | sound =>
      have hticks : m.Ticks input := by
        apply Decidable.byContradiction
        intro hno
        rw [passed_of_not_ticks hno] at h
        exact h rfl
      rw [passed_of_ticks hticks]
      exact ⟨hticks, rfl⟩
  | gathered => exact hawake
  | keys => exact ⟨Ne.symm h, rfl⟩
  | beep =>
      by_cases hexpired : (m.timers.advance input.elapsed).2 = true
      · obtain ⟨htick, hone⟩ := (Timers.advance_expired_iff _ _).mp hexpired
        exact .inr ⟨⟨hawake, htick⟩, hone⟩
      · have hcleared := eq_false_of_ne_true hexpired
        exact .inl ⟨eq_true_of_ne_false fun hbeep => h (hcleared.trans hbeep.symm), hcleared⟩
  | _ => exact (h rfl).elim

end Ready

end Machine

namespace Part

variable {part : Part} {m n m' : Machine}

theorem Same.trans (h : part.Same m n) (h' : part.Same n m') : part.Same m m' := by
  cases part <;> exact Eq.trans h' h

theorem same_advance (hpc : part ≠ .pc) : part.Same m.advance m' ↔ part.Same m m' := by
  cases part with
  | pc => exact absurd rfl hpc
  | _ => rfl

/-- What the instruction keeps is as the key and the time left it. -/
theorem Readied.of_same {input : Input} (h : part.Readied m n input) (hsame : part.Same n m') :
    part.Readied m m' input := by
  cases part with
  | register r =>
      obtain ⟨hwaiting, key, hkey, hget⟩ := h
      exact ⟨hwaiting, key, hkey, Eq.trans hsame hget⟩
  | waiting | delay | sound | keys => exact ⟨h.1, Eq.trans hsame h.2⟩
  | beep => exact h.imp_left fun hcleared => ⟨hcleared.1, Eq.trans hsame hcleared.2⟩
  | _ => exact h

/-- The key and the time do not move the places where an instruction may write. -/
theorem Written.of_ready {input : Input} {word : UInt16} {P Q : Prop} (hsucceeds : P → Q)
    (h : part.Written (m.ready input).advance m' word P) : part.Written m m' word Q := by
  have hready : (m.ready input).advance =
      { (m.ready input).advance with
        index := m.index
        stack := m.stack
        settings := m.settings } := by
    rw [Machine.ready_eq, Machine.receive_frame]
    rfl
  rw [hready] at h
  cases part with
  | index => exact h.imp_right fun hmoved => ⟨hmoved.1, hmoved.2.1, hsucceeds hmoved.2.2⟩
  | stack => exact h.imp_right fun hcall => ⟨hcall.1, hsucceeds hcall.2⟩
  | _ => exact h

def Affected (m : Machine) (input : Input) (part : Part) : Prop :=
  part.Readied m (m.step input).machine input ∨
    ∃ word, m.Fetches input word ∧
      part.Written m (m.step input).machine word (∃ halted, (m.step input).result = .ok halted)

end Part

namespace Machine

/-! ### Steps and runs -/

theorem affected_of_step {m : Machine} {input : Input} {part : Part}
    (h : ¬part.Same m (m.step input).machine) : part.Affected m input := by
  obtain hidle | ⟨hawake, hpc⟩ | ⟨word, hfetch⟩ := m.step_trichotomy input
  · refine .inl ?_
    rw [step_of_idle hidle] at h ⊢
    cases part with
    | keys => exact ⟨hidle.2.symm ▸ Ne.symm h, hidle.2.symm⟩
    | beep => exact .inl ⟨eq_true_of_ne_false fun hbeep => h hbeep.symm, rfl⟩
    | _ => exact (h rfl).elim
  · refine .inl ?_
    rw [step_of_fault hawake (m.memory.readWord_of_le hpc)] at h ⊢
    exact readied_of_ready hawake h
  · by_cases hpc : part = .pc
    · rw [hpc]
      exact .inr ⟨word, hfetch, trivial⟩
    have hstep := step_of_fetches hfetch
    by_cases hkept : part.Same (m.ready input).advance (m.effect input word).machine
    -- the instruction keeps the part, so that it was changed before
    · refine .inl ?_
      rw [Part.same_advance hpc] at hkept
      rw [hstep] at h ⊢
      exact (readied_of_ready hfetch.1 fun hready => h (hready.trans hkept)).of_same hkept
    · have hsucceeds : (m.effect input word).fault? = none →
          ∃ halted, (m.step input).result = .ok halted := by
        intro hnone
        rw [hstep, Effect.answer, hnone]
        exact ⟨_, rfl⟩
      have hwritten := (written_of_execute rfl hkept).of_ready hsucceeds
      refine .inr ⟨word, hfetch, ?_⟩
      rw [hstep] at hwritten ⊢
      exact hwritten

/-- An idle step changes nothing of a machine that has no key taken down and does not beep. -/
theorem not_affected_of_idle {m : Machine} {input : Input} {part : Part} (hidle : m.Idle input)
    (hkeys : m.keys = .released) (hbeep : m.beep = false) : ¬part.Affected m input := by
  rintro (hreadied | ⟨word, hfetch, -⟩)
  · cases part with
    | register r =>
        obtain ⟨-, key, hkey, -⟩ := hreadied
        rw [Keypad.lowest?_eq_none_iff.mpr hidle.2] at hkey
        contradiction
    | waiting => exact hreadied.1 hidle.2
    | delay | sound => exact hreadied.1.1 hidle
    | gathered => exact hreadied hidle
    | keys => exact hreadied.1 (hkeys.trans hidle.2.symm)
    | beep =>
        obtain ⟨hset, -⟩ | ⟨htick, -⟩ := hreadied
        · rw [hbeep] at hset
          contradiction
        · exact htick.1 hidle
    | _ => exact hreadied
  · exact hfetch.1 hidle

/-- A part that no step of a run may change is the same at its end. -/
theorem run_same {m : Machine} {inputs : List Input} {part : Part}
    (h : ∀ stage ∈ m.stages inputs, ¬part.Affected stage.machine stage.input) :
    part.Same m (m.run inputs) := by
  induction inputs generalizing m with
  | nil => cases part <;> rfl
  | cons input rest ih =>
      obtain ⟨hnow, hlater⟩ := List.forall_mem_cons.mp h
      have hstep : part.Same m (m.step input).machine :=
        Classical.byContradiction fun hne => hnow (affected_of_step hne)
      exact hstep.trans (ih hlater)

/-- What a step changes, whether it succeeds or fails, is what its key, its time and its instruction
may change, as the parts have it one by one. No part of the machine is left out. -/
theorem step_footprint (m : Machine) (input : Input) :
    (∀ part : Part, ¬part.Same m (m.step input).machine → part.Affected m input) ∧
      ((∀ part : Part, ¬part.Affected m input) → (m.step input).machine = m) := by
  refine ⟨fun part => affected_of_step, fun h => Part.eq_of_same fun part => ?_⟩
  exact Classical.byContradiction fun hne => h part (affected_of_step hne)

/-- A machine waits for a key. A step without one changes no part. A step with one stores two
registers at the last byte of memory and fails there, but has taken the key and stored a byte. -/
theorem step_footprint_failing_store :
    let start := (build [0xAF, 0xFF, 0x60, 0x07, 0xF1, 0x0A, 0xF1, 0x55] Font.builtIn 0).1
    let still : Input := ⟨.released, 0, 0⟩
    let press : Input := ⟨⟨0x20⟩, 17, 0⟩
    let m := start.run [still, still, still]
    (m.step still).machine = m ∧
      (m.step press).result.isOk = false ∧
      (m.step press).machine.memory.peek 4095 = 7 ∧ (Part.byte 4095).Affected m press ∧
      (m.step press).machine.registers.get 1 = 5 ∧ (Part.register 1).Affected m press := by
  intro start still press m
  have hidle : m.Idle still ∧ m.keys = .released ∧ m.beep = false := by decide +kernel
  have hpress : (m.step press).result.isOk = false ∧
      (m.step press).machine.memory.peek 4095 = 7 ∧ m.memory.peek 4095 = 0 ∧
      (m.step press).machine.registers.get 1 = 5 ∧ m.registers.get 1 = 0 := by
    decide +kernel
  obtain ⟨hfails, hbyte, hbyteBefore, hregister, hregisterBefore⟩ := hpress
  refine ⟨(step_footprint m still).2 fun part =>
    not_affected_of_idle hidle.1 hidle.2.1 hidle.2.2, hfails, hbyte, ?_, hregister, ?_⟩
  · apply (step_footprint m press).1
    rw [Part.Same, hbyte, hbyteBefore]
    decide
  · apply (step_footprint m press).1
    rw [Part.Same, hregister, hregisterBefore]
    decide

end Machine

end Chip8
