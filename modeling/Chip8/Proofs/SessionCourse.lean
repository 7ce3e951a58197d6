import Chip8.Console.Exit
import Chip8.Proofs.Results
import Chip8.Proofs.Session

/-!
The course of a session: which turns step the machine, and how the session ends. A session always
knows whether its machine has halted, since the very step that leads out of memory says so. It
therefore never steps a machine that has halted, though such a step may well succeed.
-/

namespace Chip8

/-- Machines report nothing at this level, only what is around them does. -/
theorem Event.level_ne_info (event : Event) : event.level ≠ .info := by
  cases event <;> exact nofun

namespace Console

theorem Launch.build_pc (arguments : CommandLine.Arguments) (program font : List UInt8) :
    (Launch.build arguments program font).1.pc = 0x200 := by
  unfold Launch.build Launch.follow
  dsimp only
  split <;> split <;> rfl

namespace MadeStep

variable {step : MadeStep}

/-- A step from within memory says truly whether it has led out of it. -/
theorem halts_eq_isHalted (hin : step.machine.isHalted = false) (h : step.fault? = none) :
    step.halts = step.outcome.machine.isHalted := by
  obtain ⟨halted, hresult⟩ := fault?_eq_none_iff.mp h
  rw [halts, hresult]
  exact (Machine.step_answers_halted hresult).1 hin

theorem count_halted_line (step : MadeStep) :
    (step.notices.map Notice.line).count Notice.halted.line = if step.halts then 1 else 0 := by
  have hevents : Notice.halted.line ∉ (step.outcome.events.map Notice.machine).map Notice.line := by
    intro hmem
    obtain ⟨notice, hnotice, hline⟩ := List.mem_map.mp hmem
    obtain ⟨event, -, rfl⟩ := List.mem_map.mp hnotice
    exact event.level_ne_info (congrArg Log.Line.level hline)
  rw [notices, List.map_append, List.count_append, List.count_eq_zero.mpr hevents, Nat.zero_add]
  cases step.halts <;> rfl

theorem count_halted_lines (made : List MadeStep) :
    ((made.flatMap notices).map Notice.line).count Notice.halted.line = made.countP halts := by
  induction made with
  | nil => rfl
  | cons step rest ih =>
      rw [List.flatMap_cons, List.map_append, List.count_append, ih, count_halted_line,
        List.countP_cons, Nat.add_comm]

theorem pc_lt (hin : step.machine.isHalted = false) :
    step.machine.pc.toNat < 4096 := by
  apply Nat.lt_of_not_le
  intro hout
  exact Bool.false_ne_true (hin.symm.trans (Machine.isHalted_iff.mpr hout))

/-- Within memory the fetch only fails at the last byte. -/
theorem fetch_fault (hin : step.machine.isHalted = false) {fault : Fault}
    (h : step.machine.memory.readWord step.machine.pc.toNat = .error fault) :
    step.machine.pc = 0xFFF ∧ fault = .memoryFault 4096 := by
  have hsize : Memory.size = 4096 := rfl
  have hlt := pc_lt hin
  have hlast : Memory.size ≤ step.machine.pc.toNat + 1 := by
    apply Nat.le_of_not_lt
    intro hfetch
    rw [Memory.readWord_of_lt _ hfetch] at h
    contradiction
  have hpc : step.machine.pc.toNat = 4095 := by omega
  rw [Memory.readWord_of_le _ hlast, hpc] at h
  cases h
  exact ⟨UInt16.toNat_inj.mp hpc, rfl⟩

end MadeStep

namespace Session

/-! ### Knowing that the machine has halted -/

/-- What a session keeps as halted is whether its machine has halted. -/
def Informed (s : Session) : Prop := s.halted = s.machine.isHalted

theorem Informed.isHalted_step {s : Session} (h : s.Informed) {t : Turn} {step : MadeStep}
    (hstep : s.step? t = some step) : step.machine.isHalted = false := by
  obtain ⟨pad, -, hdue, rfl⟩ := step?_eq_some hstep
  exact h.symm.trans (isDue_iff.mp hdue).1

theorem Informed.turn {s : Session} (h : s.Informed) {t : Turn}
    (hgoes : (s.turn t).ending? = none) : (s.turn t).session.Informed := by
  have haccount := s.turn_account t
  rw [Informed, haccount.halted hgoes, haccount.machine]
  cases hstep : s.step? t with
  | none => exact (Bool.or_false _).trans h
  | some step =>
      obtain ⟨pad, hpoll, hdue, rfl⟩ := step?_eq_some hstep
      have hending := s.turn_ending? t
      rw [hpoll, hstep, hgoes] at hending
      have hsuccess : (s.stepAt pad t).fault? = none := Option.map_eq_none_iff.mp hending.symm
      rw [(isDue_iff.mp hdue).1, Bool.false_or]
      exact (Bool.or_false _).trans (MadeStep.halts_eq_isHalted (h.isHalted_step hstep) hsuccess)

/-- No step is made on a machine that has halted. -/
theorem Informed.isHalted_steps {s : Session} (h : s.Informed) (turns : List Turn) :
    ∀ step ∈ s.steps turns, step.machine.isHalted = false := by
  induction turns generalizing s with
  | nil => exact List.forall_mem_nil _
  | cons t rest ih =>
      intro step hmem
      rw [steps] at hmem
      rcases List.mem_append.mp hmem with hfirst | hlater
      · exact h.isHalted_step (Option.mem_toList.mp hfirst)
      · cases hturn : (s.turn t).ending? with
        | some ending => simp [hturn] at hlater
        | none =>
            rw [hturn] at hlater
            exact ih (h.turn hturn) step hlater

theorem informed_start (arguments : CommandLine.Arguments) (program font : List UInt8)
    (opened unit : Nat) : (start (Launch.build arguments program font).1 opened unit).Informed := by
  have hin : (Launch.build arguments program font).1.isHalted = false := by
    rw [Machine.isHalted, Launch.build_pc]
    rfl
  exact hin.symm

/-! ### The next turn and the last one -/

section Next

variable {m : Machine} {opened unit : Nat} {earlier : List Turn} {t : Turn}
  (hgoes : ((start m opened unit).run earlier).ending? = none)

include hgoes

theorem run_next :
    ((start m opened unit).run (earlier ++ [t])).ending? =
        (((start m opened unit).run earlier).session.turn t).ending? ∧
      (start m opened unit).steps (earlier ++ [t]) =
        (start m opened unit).steps earlier ++
          (((start m opened unit).run earlier).session.step? t).toList := by
  rw [run_append, steps_append, TurnResult.andThen_of_none hgoes, hgoes, run_singleton]
  exact ⟨rfl, congrArg _ (steps_singleton _ t)⟩

/-- A turn is due by what the session keeps if it is due by the steps made before. -/
theorem isDue_next_iff :
    ((start m opened unit).run earlier).session.isDue t.now = true ↔
      2 < (t.now - timeAfter opened ((start m opened unit).steps earlier)) / unit ∧
        ∀ step ∈ (start m opened unit).steps earlier, step.outcome.result ≠ .ok true := by
  have haccount := (start m opened unit).run_account earlier
  rw [isDue_iff, elapsed, haccount.halted hgoes, haccount.lastStep hgoes, haccount.unit, and_comm]
  refine and_congr_right fun _ => ?_
  rw [show (start m opened unit).halted = false from rfl, Bool.false_or, List.any_eq_false]
  exact forall₂_congr fun step _ => not_congr MadeStep.halts_iff

theorem stepAt_next (pad : Keypad) :
    ((start m opened unit).run earlier).session.stepAt pad t =
      ⟨t.now, ((start m opened unit).run earlier).session.machine,
        ⟨pad, UInt32.ofNat
          (min ((t.now - timeAfter opened ((start m opened unit).steps earlier)) / unit) 4294967295),
          t.random⟩⟩ := by
  have haccount := (start m opened unit).run_account earlier
  rw [stepAt, stepInput, elapsed, haccount.lastStep hgoes, haccount.unit]
  rfl

/-- The next turn makes a step exactly when it is due, and ends the session if the step fails. -/
theorem next_of_keys {pad : Keypad} (hpoll : t.poll = .keys pad) :
    let start := start m opened unit
    let made := start.steps earlier
    let elapsed := (t.now - timeAfter opened made) / unit
    let due := 2 < elapsed ∧ ∀ step ∈ made, step.outcome.result ≠ .ok true
    let step : MadeStep :=
      ⟨t.now, (start.run earlier).session.machine,
        ⟨pad, UInt32.ofNat (min elapsed 4294967295), t.random⟩⟩
    (¬due → start.steps (earlier ++ [t]) = made ∧ (start.run (earlier ++ [t])).ending? = none) ∧
      (due → start.steps (earlier ++ [t]) = made ++ [step] ∧
        (start.run (earlier ++ [t])).ending? = step.fault?.map .failed) := by
  intro start made elapsed due step
  obtain ⟨hending, hsteps⟩ := run_next (t := t) hgoes
  have hdue := isDue_next_iff (t := t) hgoes
  rw [hending, hsteps]
  refine ⟨fun hnot => ?_, fun h => ?_⟩
  · have hrest := Bool.eq_false_iff.mpr (mt hdue.mp hnot)
    obtain ⟨hstep, hturn⟩ := turn_of_rest hpoll hrest
    rw [hstep, hturn]
    exact ⟨List.append_nil _, rfl⟩
  · obtain ⟨hstep, hturn⟩ := turn_of_due hpoll (hdue.mpr h)
    rw [hstep, hturn, stepTurn_ending?, stepAt_next hgoes]
    exact ⟨rfl, rfl⟩

theorem next_of_quit (hpoll : t.poll = .quit) :
    (start m opened unit).steps (earlier ++ [t]) = (start m opened unit).steps earlier ∧
      ((start m opened unit).run (earlier ++ [t])).ending? = some .quit := by
  obtain ⟨hending, hsteps⟩ := run_next (t := t) hgoes
  obtain ⟨hstep, hturn⟩ := turn_of_quit (s := ((start m opened unit).run earlier).session) hpoll
  rw [hending, hsteps, hstep, hturn]
  exact ⟨List.append_nil _, rfl⟩

end Next

/-- The step that fails is the last one. -/
theorem steps_of_failed {s : Session} {turns : List Turn} {fault : Fault}
    (h : (s.run turns).ending? = some (.failed fault)) :
    ∃ before step, s.steps turns = before ++ [step] ∧ step.outcome.result = .error fault := by
  induction turns generalizing s with
  | nil => contradiction
  | cons t rest ih =>
      rw [run_cons] at h
      rw [steps]
      cases hturn : (s.turn t).ending? with
      | some ending =>
          rw [TurnResult.andThen_of_some hturn, turn_ending?] at h
          cases hpoll : t.poll with
          | quit => simp [hpoll] at h
          | keys pad =>
              simp only [hpoll, Option.map_eq_some_iff, Option.bind_eq_some_iff] at h
              obtain ⟨fault', ⟨step, hstep, hfault⟩, hending⟩ := h
              cases hending
              rw [hstep]
              exact ⟨[], step, rfl, MadeStep.fault?_eq_some_iff.mp hfault⟩
      | none =>
          rw [TurnResult.andThen_of_none hturn] at h
          obtain ⟨before, step, hsteps, hfault⟩ := ih h
          exact ⟨(s.step? t).toList ++ before, step, by simp [hsteps], hfault⟩

/-- How a session goes from turn to turn, from any machine that a launch builds, with a clock of any
fineness, `unit` to the millisecond.

The machine, the reports and the beeps of a session are those of the steps it has made; the line
that it has halted is among them at most once. As long as the session goes on, its next turn makes a
step exactly if no step before has said that the machine has halted and more than two whole
milliseconds have passed since the last one. It steps the machine as it is, with the keys of the
turn and these milliseconds, cut to what fits. The session ends with success when it is asked to
quit, without a step, and with the error of a step that fails; then no later turn changes anything.
Once a step has said that the machine has halted, no later turn makes a step, changes the machine,
reports anything or starts the beeper. Every step is made with the program counter in memory, so
that only one at the very last byte can fail for want of an instruction. -/
theorem run_steps_and_ends (arguments : CommandLine.Arguments) (program font : List UInt8)
    (opened unit : Nat) (earlier : List Turn) :
    let machine := (Launch.build arguments program font).1
    let start := Session.start machine opened unit
    let before := start.run earlier
    let made := start.steps earlier
    (before.session.machine = machine.run (made.map MadeStep.input) ∧
      before.notices = made.flatMap MadeStep.notices ∧
      before.calls.count .resume = made.countP MadeStep.beeps ∧
      (before.notices.map Notice.line).count Notice.halted.line = made.countP MadeStep.halts ∧
      made.countP MadeStep.halts ≤ 1) ∧
    (before.ending? = none → ∀ t : Turn,
      let after := start.run (earlier ++ [t])
      let exit? := after.ending?.map Exit.ofEnding
      let madeAfter := start.steps (earlier ++ [t])
      (t.poll = .quit → madeAfter = made ∧ exit? = some ⟨0, none⟩) ∧
      ∀ pad, t.poll = .keys pad →
        let elapsed := (t.now - timeAfter opened made) / unit
        let due := 2 < elapsed ∧ ∀ step ∈ made, step.outcome.result ≠ .ok true
        let step : MadeStep :=
          ⟨t.now, before.session.machine,
            ⟨pad, UInt32.ofNat (min elapsed 4294967295), t.random⟩⟩
        (¬due → madeAfter = made ∧ after.ending? = none) ∧
        (due → madeAfter = made ++ [step] ∧
          (∀ halted, step.outcome.result = .ok halted → after.ending? = none) ∧
          ∀ fault, step.outcome.result = .error fault →
            exit? = some ⟨1, some ("Error: " ++ fault.detail)⟩)) ∧
    (before.ending? ≠ none → ∀ later,
      start.run (earlier ++ later) = before ∧ start.steps (earlier ++ later) = made) ∧
    ((∃ step ∈ made, step.outcome.result = .ok true) → ∀ later,
      let after := start.run (earlier ++ later)
      start.steps (earlier ++ later) = made ∧
        after.session.machine = before.session.machine ∧ after.notices = before.notices ∧
        after.calls.count .resume = before.calls.count .resume) ∧
    (∀ fault, before.ending? = some (.failed fault) →
      ∃ others step, made = others ++ [step] ∧ step.outcome.result = .error fault) ∧
    ∀ step ∈ made, step.machine.pc.toNat < 4096 ∧
      ∀ fault, step.machine.memory.readWord step.machine.pc.toNat = .error fault →
        step.machine.pc = 0xFFF ∧ fault = .memoryFault 4096 := by
  intro machine start before made
  have haccount := start.run_account earlier
  have hinformed : start.Informed := informed_start arguments program font opened unit
  refine ⟨⟨haccount.machine, haccount.notices, haccount.resumes, ?_,
    start.countP_halts_le_one earlier⟩, fun hgoes t => ?_, fun hended later => ?_, ?_,
    fun fault hfailed => steps_of_failed hfailed, fun step hstep => ?_⟩
  · rw [haccount.notices]
    exact MadeStep.count_halted_lines made
  · intro after exit? madeAfter
    refine ⟨fun hpoll => ?_, ?_⟩
    · obtain ⟨hsteps, hending⟩ := next_of_quit hgoes hpoll
      exact ⟨hsteps, congrArg (Option.map Exit.ofEnding) hending⟩
    · intro pad hpoll elapsed due step
      obtain ⟨hrest, hdue⟩ := next_of_keys hgoes hpoll
      refine ⟨hrest, fun h => ?_⟩
      obtain ⟨hsteps, hending⟩ := hdue h
      refine ⟨hsteps, fun halted hresult => ?_, fun fault hresult => ?_⟩
      · exact hending.trans
          (congrArg (Option.map Ending.failed) (MadeStep.fault?_eq_none_iff.mpr ⟨halted, hresult⟩))
      · have hfault : after.ending? = some (.failed fault) := hending.trans
          (congrArg (Option.map Ending.failed) (MadeStep.fault?_eq_some_iff.mpr hresult))
        exact congrArg (Option.map Exit.ofEnding) hfault
  · obtain ⟨ending, hending⟩ := Option.ne_none_iff_exists'.mp hended
    exact run_of_ended hending later
  · rintro ⟨step, hstep, hresult⟩ later after
    have hsteps := steps_after_halt hstep (MadeStep.halts_iff.mpr hresult) later
    have hafter := start.run_account (earlier ++ later)
    rw [hsteps] at hafter
    exact ⟨hsteps, hafter.machine.trans haccount.machine.symm,
      hafter.notices.trans haccount.notices.symm, hafter.resumes.trans haccount.resumes.symm⟩
  · have hin := hinformed.isHalted_steps earlier step hstep
    exact ⟨MadeStep.pc_lt hin, fun fault => MadeStep.fetch_fault hin⟩

/-- Sessions on a clock of microseconds, with a program that goes to the last instruction of memory,
and with one that goes to the last byte. Just before three milliseconds no step is made. The first
machine halts in its second step and stays as it is for good, the second session fails there. -/
theorem run_steps_and_ends_at_the_end :
    let arguments : CommandLine.Arguments := ⟨"game", false, false, none, 0⟩
    let turns : List Turn := [2999, 3000, 6000].map fun now => ⟨.keys .released, now, 0⟩
    let halting := start (Launch.build arguments [0x1F, 0xFE] Font.builtIn).1 0 1000
    let failing := start (Launch.build arguments [0x1F, 0xFF] Font.builtIn).1 0 1000
    halting.steps [⟨.keys .released, 2999, 0⟩] = [] ∧
      (∀ later,
        (halting.run (turns ++ later)).session.machine = (halting.run turns).session.machine) ∧
      ∀ later, failing.run (turns ++ later) = failing.run turns := by
  intro arguments turns halting failing
  obtain ⟨-, hnext, -⟩ := run_steps_and_ends arguments [0x1F, 0xFE] Font.builtIn 0 1000 []
  obtain ⟨-, -, -, hhalting, -⟩ :=
    run_steps_and_ends arguments [0x1F, 0xFE] Font.builtIn 0 1000 turns
  obtain ⟨-, -, hfailing, -⟩ :=
    run_steps_and_ends arguments [0x1F, 0xFF] Font.builtIn 0 1000 turns
  have hstep : ∃ step ∈ halting.steps turns, step.outcome.result = .ok true := by
    have hhalts : (halting.steps turns).any MadeStep.halts = true := by decide +kernel
    obtain ⟨step, hmem, hhalts⟩ := List.any_eq_true.mp hhalts
    exact ⟨step, hmem, MadeStep.halts_iff.mp hhalts⟩
  have hended : (failing.run turns).ending? ≠ none := by decide +kernel
  refine ⟨?_, fun later => (hhalting hstep later).2.1, fun later => (hfailing hended later).1⟩
  obtain ⟨-, hkeys⟩ := hnext rfl ⟨.keys .released, 2999, 0⟩
  exact ((hkeys .released rfl).1 fun hdue => absurd hdue.1 (by decide)).1

end Session

end Console

end Chip8
