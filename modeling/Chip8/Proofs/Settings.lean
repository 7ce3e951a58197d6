import Chip8.Proofs.Footprint
import Chip8.Proofs.Noninterference

/-!
What the settings can do to a program. One of them decides where the index is when registers have
been stored or loaded, and the other on which of two registers a shift works. Two machines that
differ in their settings only answer the same and stay that way, until an instruction brings one of
these decisions to light: registers that were all stored or loaded, or a shift with different bytes
in its two registers.
-/

namespace Chip8

/-- Where the registers up to `x` leave the index when they have been stored or loaded. -/
def Settings.indexBehind (settings : Settings) (x : Register) (index : UInt16) : UInt16 :=
  if settings.loadStore then index else index + UInt16.ofNat (x.val + 1)

section IndexBehind

variable {settings : Settings} {x : Register} {index : UInt16}

theorem Settings.indexBehind_of_loadStore (h : settings.loadStore = true) :
    settings.indexBehind x index = index :=
  if_pos h

theorem Settings.toNat_indexBehind (h : settings.loadStore = false) :
    (settings.indexBehind x index).toNat = (index.toNat + (x.val + 1)) % 65536 := by
  have hcount : (UInt16.ofNat (x.val + 1)).toNat = x.val + 1 := by
    rw [UInt16.toNat_ofNat']
    omega
  rw [indexBehind, if_neg (by rw [h]; decide), UInt16.toNat_add, hcount]

end IndexBehind

/-- The patterns of the words that store or load registers. -/
def Pattern.bulk : List Pattern := [
  firstAndByte 0xF 0x55, -- FX55
  firstAndByte 0xF 0x65] -- FX65

def Pattern.shifting : List Pattern := [
  firstAndLast 0x8 0x6, -- 8XY6
  firstAndLast 0x8 0xE] -- 8XYE

def Operation.IsShift (operation : Operation) : Prop :=
  operation = shiftRight ∨ operation = shiftLeft

/-- Only a shift of different bytes depends on the register that it works on. -/
theorem Operation.compute_inPlace {operation : Operation} {inPlace inPlace' : Bool}
    {vx vy : UInt8} (h : operation.IsShift → vx ≠ vy → inPlace = inPlace') :
    operation.compute inPlace vx vy = operation.compute inPlace' vx vy := by
  by_cases hequal : vx = vy
  · subst hequal
    cases operation <;> simp only [compute, ite_self]
  · cases operation with
    | shiftRight => rw [h (.inl rfl) hequal]
    | shiftLeft => rw [h (.inr rfl) hequal]
    | _ => rfl

namespace Opcode

instance (word : UInt16) (patterns : List Pattern) : Decidable (Among word patterns) :=
  inferInstanceAs (Decidable (∃ p ∈ patterns, p.Matches word))

theorem among_shifting {word : UInt16} {operation : Operation} {x y : Register}
    (hi : Instruction.decode word = .combine operation x y) (hshift : operation.IsShift) :
    Among word Pattern.shifting := by
  refine ⟨.firstAndLast 0x8 operation.digit, ?_, Instruction.matches_of_decode (by rw [hi]; rfl)⟩
  obtain rfl | rfl := hshift <;> decide

theorem among_bulk {word : UInt16} {x : Register}
    (hi : Instruction.decode word = .storeRegisters x ∨
      Instruction.decode word = .loadRegisters x) : Among word Pattern.bulk := by
  obtain hstore | hload := hi
  · exact ⟨.firstAndByte 0xF 0x55, by decide, Instruction.matches_of_decode (by rw [hstore]; rfl)⟩
  · exact ⟨.firstAndByte 0xF 0x65, by decide, Instruction.matches_of_decode (by rw [hload]; rfl)⟩

/-- A word of these patterns stores or loads the registers up to its second digit. -/
theorem decode_of_among_bulk {word : UInt16} (h : Among word Pattern.bulk) :
    Instruction.decode word = .storeRegisters (digit word 2) ∨
      Instruction.decode word = .loadRegisters (digit word 2) := by
  obtain ⟨p, hp, hmatches⟩ := h
  simp only [Pattern.bulk, List.mem_cons, List.not_mem_nil, or_false] at hp
  obtain rfl | rfl := hp
  · exact .inl (Instruction.decode_of_firstAndByte hmatches)
  · exact .inr (Instruction.decode_of_firstAndByte hmatches)

theorem digit_one_of_combine {word : UInt16} {operation : Operation} {x y : Register}
    (hi : Instruction.decode word = .combine operation x y) : digit word 1 = y := by
  rw [← Instruction.encode_decode word, hi]
  exact Instruction.digit_one_wordXYN (by omega) x y operation.digit_lt

end Opcode

namespace Machine

def withSettings (m : Machine) (settings : Settings) : Machine := { m with settings }

def SameButSettings (m m' : Machine) : Prop := m' = m.withSettings m'.settings

/-- The step stores or loads registers, and gets to the last of them. -/
def PassesRegisters (m : Machine) (input : Input) : Prop :=
  ∃ word, m.Fetches input word ∧
    Opcode.Among word Pattern.bulk ∧ (m.step input).result.isOk = true

/-- The step shifts, and its two registers hold different bytes. -/
def ShiftsUnequal (m : Machine) (input : Input) : Prop :=
  ∃ word, m.Fetches input word ∧ Opcode.Among word Pattern.shifting ∧
    let registers := (m.receive input.keys).registers
    registers.get (Opcode.digit word 2) ≠ registers.get (Opcode.digit word 1)

instance (m : Machine) (input : Input) : Decidable (m.PassesRegisters input) :=
  inferInstanceAs (Decidable (∃ word, m.Fetches input word ∧
    Opcode.Among word Pattern.bulk ∧ (m.step input).result.isOk = true))

instance (m : Machine) (input : Input) : Decidable (m.ShiftsUnequal input) :=
  inferInstanceAs (Decidable (∃ word, m.Fetches input word ∧
    Opcode.Among word Pattern.shifting ∧
      (m.receive input.keys).registers.get (Opcode.digit word 2) ≠
        (m.receive input.keys).registers.get (Opcode.digit word 1)))

end Machine

theorem Effect.fault?_of_isOk {effect : Effect} (h : effect.answer.isOk = true) :
    effect.fault? = none := by
  cases hanswer : effect.answer with
  | ok halted => exact fault?_of_answer_ok hanswer
  | error fault =>
      rw [hanswer] at h
      contradiction

def Effect.withSettings (effect : Effect) (settings : Settings) : Effect :=
  { effect with machine := effect.machine.withSettings settings }

namespace Machine

/-! ### Instructions -/

section Instructions

variable (m : Machine) (settings : Settings) (x y : Register)

theorem passRegisters_eq :
    m.passRegisters x = { m with index := m.settings.indexBehind x m.index } := by
  unfold passRegisters Settings.indexBehind
  split <;> rfl

theorem storeRegisters_eq :
    m.storeRegisters x =
      let (memory, fault?) := m.memory.writeRun m.index.toNat (m.registers.upTo x)
      let index := if fault?.isNone then m.settings.indexBehind x m.index else m.index
      ⟨{ m with memory, index }, fault?, []⟩ := by
  simp only [storeRegisters, passRegisters_eq]
  split <;> rfl

theorem loadRegisters_eq :
    m.loadRegisters x =
      let (bytes, fault?) := m.memory.readRun m.index.toNat (x.val + 1)
      let index := if fault?.isNone then m.settings.indexBehind x m.index else m.index
      ⟨{ m with registers := m.registers.fill bytes, index }, fault?, []⟩ := by
  simp only [loadRegisters, passRegisters_eq]
  split <;> rfl

/-- The settings have a say in the index only, and only when all registers have been stored or
loaded. -/
theorem bulk_withSettings (input : Input) {i : Instruction}
    (hi : i = .storeRegisters x ∨ i = .loadRegisters x) :
    (m.withSettings settings).execute input i =
      let effect := m.execute input i
      let index :=
        if effect.fault?.isNone then settings.indexBehind x m.index else m.index
      { effect with machine := { effect.machine with settings, index } } := by
  obtain rfl | rfl := hi
  · simp only [execute, storeRegisters_eq]
    rfl
  · simp only [execute, loadRegisters_eq]
    rfl

/-- Where the machine's own settings put the index. -/
theorem bulk_index (input : Input) {i : Instruction}
    (hi : i = .storeRegisters x ∨ i = .loadRegisters x) :
    (m.execute input i).machine.index =
      if (m.execute input i).fault?.isNone then m.settings.indexBehind x m.index else m.index :=
  congrArg (fun effect : Effect => effect.machine.index) (m.bulk_withSettings m.settings x input hi)

theorem bulk_of_success {input : Input} {i : Instruction}
    (hi : i = .storeRegisters x ∨ i = .loadRegisters x) (hok : (m.execute input i).fault? = none) :
    (m.withSettings settings).execute input i =
        { m.execute input i with
          machine :=
            { (m.execute input i).machine with
              settings
              index := settings.indexBehind x m.index } } ∧
      (m.execute input i).machine.index = m.settings.indexBehind x m.index := by
  rw [m.bulk_withSettings settings x input hi, m.bulk_index x input hi]
  simp only [hok, Option.isNone_none, if_true, and_self]

theorem combine_withSettings {operation : Operation}
    (h : operation.IsShift → m.registers.get x ≠ m.registers.get y →
      settings.shift = m.settings.shift) :
    (m.withSettings settings).combine operation x y =
      (m.combine operation x y).withSettings settings := by
  have hcompute := Operation.compute_inPlace h
  simp only [combine, withSettings, hcompute]

end Instructions

/-- The settings can be exchanged under an instruction that does not depend on them. -/
theorem execute_withSettings {m : Machine} {settings : Settings} (input : Input) {i : Instruction}
    (hbulk : ∀ x, i = .storeRegisters x ∨ i = .loadRegisters x →
      (m.execute input i).fault? = none → settings.loadStore = m.settings.loadStore)
    (hshift : ∀ operation x y, i = .combine operation x y → operation.IsShift →
      m.registers.get x ≠ m.registers.get y → settings.shift = m.settings.shift) :
    (m.withSettings settings).execute input i = (m.execute input i).withSettings settings := by
  have hstored (x : Register) (hi : i = .storeRegisters x ∨ i = .loadRegisters x) :
      (m.withSettings settings).execute input i = (m.execute input i).withSettings settings := by
    have hindex : (m.execute input i).machine.index =
        if (m.execute input i).fault?.isNone then settings.indexBehind x m.index else m.index := by
      rw [m.bulk_index x input hi]
      split
      · rename_i hok
        rw [Settings.indexBehind, Settings.indexBehind,
          hbulk x hi (Option.isNone_iff_eq_none.mp hok)]
      · rfl
    rw [m.bulk_withSettings settings x input hi]
    simp only [← hindex]
    rfl
  cases i with
  | ret =>
      simp only [execute, ret, withSettings]
      cases m.stack.pop? <;> rfl
  | call nnn =>
      simp only [execute, call, withSettings]
      cases m.stack.push m.pc <;> rfl
  | skipIf condition =>
      have hholds :
          (m.withSettings settings).holds condition = m.holds condition := by
        cases condition <;> rfl
      simp only [execute, hholds]
      split <;> rfl
  | combine operation x y =>
      exact congrArg Effect.silent (m.combine_withSettings settings x y (hshift operation x y rfl))
  | draw x y n =>
      simp only [execute, draw, withSettings]
      cases (m.memory.readRun m.index.toNat n.val).2 <;> rfl
  | storeRegisters x => exact hstored x (.inl rfl)
  | loadRegisters x => exact hstored x (.inr rfl)
  | _ => rfl

/-! ### Steps -/

/-- A step never changes the settings. -/
theorem step_settings (m : Machine) (input : Input) :
    (m.step input).machine.settings = m.settings := by
  apply Classical.byContradiction
  intro hchanged
  have haffected : Part.settings.Affected m input := affected_of_step hchanged
  obtain hreadied | ⟨word, -, hwritten⟩ := haffected
  · exact hreadied
  · exact hwritten

section Step

variable {m : Machine} {settings : Settings} {input : Input}

theorem receive_withSettings (keys : Keypad) :
    (m.withSettings settings).receive keys = (m.receive keys).withSettings settings := by
  cases hw : m.waiting? <;> cases hk : keys.lowest? <;>
    simp [receive, withSettings, hw, hk, takeKey]

theorem ready_withSettings :
    (m.withSettings settings).ready input = (m.ready input).withSettings settings := by
  rw [ready_eq, ready_eq, receive_withSettings]
  rfl

theorem ready_settings : (m.ready input).settings = m.settings := by
  rw [ready_eq, receive_frame]

theorem PassesRegisters.of_decode {word : UInt16} {x : Register} (hfetch : m.Fetches input word)
    (hi : Instruction.decode word = .storeRegisters x ∨ Instruction.decode word = .loadRegisters x)
    (hok : (m.effect input word).fault? = none) : m.PassesRegisters input := by
  refine ⟨word, hfetch, Opcode.among_bulk hi, ?_⟩
  rw [step_of_fetches hfetch, Effect.answer, hok]
  rfl

theorem ShiftsUnequal.of_decode {word : UInt16} {operation : Operation} {x y : Register}
    (hfetch : m.Fetches input word) (hi : Instruction.decode word = .combine operation x y)
    (hshift : operation.IsShift)
    (hne : (m.ready input).registers.get x ≠ (m.ready input).registers.get y) :
    m.ShiftsUnequal input := by
  have hx : Opcode.digit word 2 = x := Instruction.digit_two_of_decode (by rw [hi]; rfl)
  refine ⟨word, hfetch, Opcode.among_shifting hi hshift, ?_⟩
  rw [hx, Opcode.digit_one_of_combine hi, ← ready_registers]
  exact hne

/-- The step with other settings, where its instruction does not depend on them. -/
theorem step_withSettings
    (hbulk : settings.loadStore ≠ m.settings.loadStore → ¬m.PassesRegisters input)
    (hshift : settings.shift ≠ m.settings.shift → ¬m.ShiftsUnequal input) :
    (m.step input).Alike SameButSettings ((m.withSettings settings).step input) := by
  obtain hidle | ⟨hawake, hpc⟩ | ⟨word, hfetch⟩ := m.step_trichotomy input
  · have hidle' : (m.withSettings settings).Idle input := hidle
    rw [step_of_idle hidle, step_of_idle hidle']
    exact ⟨rfl, rfl, rfl⟩
  · have hfault := m.memory.readWord_of_le hpc
    have hawake' : ¬(m.withSettings settings).Idle input := hawake
    rw [step_of_fault hawake hfault, step_of_fault hawake' hfault, ready_withSettings]
    exact ⟨rfl, rfl, rfl⟩
  · have hfetch' : (m.withSettings settings).Fetches input word := hfetch
    have heffect : (m.withSettings settings).effect input word =
        (m.effect input word).withSettings settings := by
      rw [effect, ready_withSettings]
      apply execute_withSettings (m := (m.ready input).advance)
      · intro x hi hok
        apply Decidable.byContradiction
        intro hne
        exact hbulk (ready_settings ▸ hne) (.of_decode hfetch hi hok)
      · intro operation x y hi hshifts hunequal
        apply Decidable.byContradiction
        intro hne
        exact hshift (ready_settings ▸ hne) (.of_decode hfetch hi hshifts hunequal)
    rw [step_of_fetches hfetch, step_of_fetches hfetch', heffect]
    exact ⟨rfl, rfl, rfl⟩

/-- A step that stores or loads registers to the last of them, with other settings: only the index
can be at another place. -/
theorem step_of_bulk (settings : Settings) {word : UInt16} (hfetch : m.Fetches input word)
    (hbulk : Opcode.Among word Pattern.bulk)
    (hok : (m.step input).result.isOk = true) :
    let after := m.step input
    let after' := (m.withSettings settings).step input
    after'.result = after.result ∧ after'.events = after.events ∧
      after'.machine =
        { after.machine with
          settings
          index := settings.indexBehind (Opcode.digit word 2) m.index } ∧
      after.machine.index = m.settings.indexBehind (Opcode.digit word 2) m.index := by
  have hfetch' : (m.withSettings settings).Fetches input word := hfetch
  have hnone : (m.effect input word).fault? = none := by
    rw [step_of_fetches hfetch] at hok
    exact Effect.fault?_of_isOk hok
  have hindex : (m.ready input).advance.index = m.index := m.ready_index input
  have hsettings : (m.ready input).advance.settings = m.settings := ready_settings
  obtain ⟨hother, hown⟩ := (m.ready input).advance.bulk_of_success settings _
    (Opcode.decode_of_among_bulk hbulk) hnone
  rw [hindex] at hother
  rw [hindex, hsettings] at hown
  have heffect : (m.withSettings settings).effect input word =
      ((m.ready input).advance.withSettings settings).execute input
        (Instruction.decode word) := by
    rw [effect, ready_withSettings]
    rfl
  intro after after'
  rw [show after = _ from step_of_fetches hfetch, show after' = _ from step_of_fetches hfetch',
    heffect, hother]
  exact ⟨rfl, rfl, rfl, hown⟩

end Step

/-! ### Runs -/

theorem run_settings (m : Machine) (inputs : List Input) :
    (m.run inputs).settings = m.settings := by
  induction inputs generalizing m with
  | nil => rfl
  | cons input rest ih => exact (ih (m.step input).machine).trans (m.step_settings input)

section DifferentSettings

variable {m m' : Machine}

theorem SameButSettings.step (hm : SameButSettings m m') {input : Input}
    (hbulk : m'.settings.loadStore ≠ m.settings.loadStore → ¬m.PassesRegisters input)
    (hshift : m'.settings.shift ≠ m.settings.shift → ¬m.ShiftsUnequal input) :
    (m.step input).Alike SameButSettings (m'.step input) := by
  have heq : m' = m.withSettings m'.settings := hm
  rw [heq]
  exact step_withSettings hbulk hshift

theorem SameButSettings.run (hm : SameButSettings m m') {inputs : List Input}
    (hbulk : m'.settings.loadStore ≠ m.settings.loadStore →
      ∀ stage ∈ m.stages inputs, ¬stage.machine.PassesRegisters stage.input)
    (hshift : m'.settings.shift ≠ m.settings.shift →
      ∀ stage ∈ m.stages inputs, ¬stage.machine.ShiftsUnequal stage.input) :
    List.Forall₂ (Outcome.Alike SameButSettings) (m.outcomes inputs) (m'.outcomes inputs) ∧
      SameButSettings (m.run inputs) (m'.run inputs) := by
  induction inputs generalizing m m' with
  | nil => exact ⟨.nil, hm⟩
  | cons input rest ih =>
      have hstep := hm.step (fun hne => (List.forall_mem_cons.mp (hbulk hne)).1)
        (fun hne => (List.forall_mem_cons.mp (hshift hne)).1)
      -- the settings on either side are still those of the start
      rw [← m.step_settings input, ← m'.step_settings input] at hbulk hshift
      obtain ⟨houtcomes, hrun⟩ := ih hstep.machines
        (fun hne => (List.forall_mem_cons.mp (hbulk hne)).2)
        (fun hne => (List.forall_mem_cons.mp (hshift hne)).2)
      exact ⟨.cons hstep houtcomes, hrun⟩

end DifferentSettings

/-- A program learns of the settings by storing or loading registers and by shifting, and in no
other way.

Two machines whose settings are all that they differ in are run with the same inputs. As long as no
step shifts with different bytes in its two registers, if the settings disagree on shifts, and none
stores or loads registers to the last of them, if the settings disagree on the index, each step
answers and reports the same on both, and the settings remain all that they differ in. The step that
stores or loads registers first still answers and reports the same. It leaves the index on one
machine, and on the other one moves it behind the registers, which is all that it adds to the
difference. -/
theorem runs_blind_to_settings {m m' : Machine} (hm : SameButSettings m m') (inputs : List Input)
    (hbulk : m'.settings.loadStore ≠ m.settings.loadStore →
      ∀ stage ∈ m.stages inputs, ¬stage.machine.PassesRegisters stage.input)
    (hshift : m'.settings.shift ≠ m.settings.shift →
      ∀ stage ∈ m.stages inputs, ¬stage.machine.ShiftsUnequal stage.input) :
    (List.Forall₂ (Outcome.Alike SameButSettings) (m.outcomes inputs) (m'.outcomes inputs) ∧
      SameButSettings (m.run inputs) (m'.run inputs) ∧
      (m.run inputs).settings = m.settings ∧ (m'.run inputs).settings = m'.settings) ∧
    ∀ input word, m'.settings.loadStore ≠ m.settings.loadStore →
      (m.run inputs).Fetches input word → Opcode.Among word Pattern.bulk →
      ((m.run inputs).step input).result.isOk = true →
      let after := (m.run inputs).step input
      let after' := (m'.run inputs).step input
      let behind (index : UInt16) := (index.toNat + ((Opcode.digit word 2).val + 1)) % 65536
      after'.result = after.result ∧ after'.events = after.events ∧
        after'.machine =
          { after.machine with settings := m'.settings, index := after'.machine.index } ∧
        (m.settings.loadStore = true →
          after'.machine.index.toNat = behind after.machine.index) ∧
        (m.settings.loadStore = false →
          after.machine.index.toNat = behind after'.machine.index) := by
  obtain ⟨houtcomes, hrun⟩ := hm.run hbulk hshift
  have hown := m.run_settings inputs
  have hother := m'.run_settings inputs
  refine ⟨⟨houtcomes, hrun, hown, hother⟩, fun input word hne hfetch hword hok => ?_⟩
  intro after after' behind
  have heq : m'.run inputs = (m.run inputs).withSettings m'.settings := by
    rw [← hother]
    exact hrun
  obtain ⟨hresult, hevents, hmachine, hindex⟩ :=
    step_of_bulk m'.settings hfetch hword hok
  rw [← heq] at hresult hevents hmachine
  rw [hown] at hindex
  have hindex' : after'.machine.index =
      m'.settings.indexBehind (Opcode.digit word 2) (m.run inputs).index :=
    congrArg Machine.index hmachine
  refine ⟨hresult, hevents, hindex' ▸ hmachine, fun hkeeps => ?_, fun hmoves => ?_⟩
  · have hmoves : m'.settings.loadStore = false := by simpa [hkeeps] using hne
    rw [hindex', Settings.toNat_indexBehind hmoves, hindex,
      Settings.indexBehind_of_loadStore hkeeps]
  · have hkeeps : m'.settings.loadStore = true := by simpa [hmoves] using hne
    rw [hindex', Settings.indexBehind_of_loadStore hkeeps, hindex,
      Settings.toNat_indexBehind hmoves]

/-- A shift of equal bytes and a store that does not fit go the same way under all settings. Loading
two registers then takes the index past them, or leaves it where it was. -/
theorem runs_blind_to_settings_until_load :
    let program : List UInt8 :=
      [0x60, 0x05, 0x61, 0x05, 0x80, 0x16, 0xAF, 0xFF, 0xF1, 0x55, 0xA3, 0x00, 0xF1, 0x65]
    let start := (build program Font.builtIn 0).1
    let other := start.withSettings ⟨true, true⟩
    let still : Input := ⟨.released, 0, 0⟩
    let inputs := List.replicate 6 still
    SameButSettings (start.run inputs) (other.run inputs) ∧
      ((other.run inputs).step still).result = ((start.run inputs).step still).result ∧
      ((start.run inputs).step still).machine.index.toNat =
        (((other.run inputs).step still).machine.index.toNat + 2) % 65536 := by
  intro program start other still inputs
  have hbulk : ∀ stage ∈ start.stages inputs, ¬stage.machine.PassesRegisters stage.input := by
    decide +kernel
  have hshift : ∀ stage ∈ start.stages inputs, ¬stage.machine.ShiftsUnequal stage.input := by
    decide +kernel
  have hfetch : (start.run inputs).Fetches still 0xF165 := fetches_iff.mpr (by decide +kernel)
  have hsame : SameButSettings start other := rfl
  obtain ⟨⟨-, hrun, -⟩, hload⟩ :=
    runs_blind_to_settings hsame inputs (fun _ => hbulk) (fun _ => hshift)
  obtain ⟨hresult, -, -, -, hindex⟩ :=
    hload still 0xF165 (by decide) hfetch (by decide) (by decide +kernel)
  exact ⟨hrun, hresult, hindex rfl⟩

end Machine

end Chip8
