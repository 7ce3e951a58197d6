import Chip8.Proofs.Reachable

/-!
Runs with their history. A passage leads from one machine to another by steps, and keeps the machine
and the input of each of them, the newest step first. A passage can be taken apart at any step, and
what a reachable machine has been through is a passage from a machine just built.
-/

namespace Chip8

/-- A step of a run: the machine before it, and its input. -/
structure Stage where
  machine : Machine
  input : Input

namespace Machine

/-- The first machine becomes the second one by these steps, the newest first. Settings may be put
into force at any time. -/
inductive Passage (start : Machine) : List Stage → Machine → Prop where
  | refl : Passage start [] start
  | enable {past : List Stage} {m : Machine} (h : Passage start past m) (setting : Setting) :
      Passage start past (m.enable setting).1
  | step {past : List Stage} {m : Machine} (h : Passage start past m) (input : Input) :
      Passage start (⟨m, input⟩ :: past) (m.step input).machine

def stages (m : Machine) : List Input → List Stage
  | [] => []
  | input :: rest => ⟨m, input⟩ :: (m.step input).machine.stages rest

namespace Passage

variable {start m : Machine} {past : List Stage}

theorem reachable (h : Passage start past m) (hstart : Reachable start) : Reachable m := by
  induction h with
  | refl => exact hstart
  | enable _ setting ih => exact ih.enable setting
  | step _ input ih => exact ih.step input

/-- The reachable machines are those that a passage from a machine just built leads to. -/
theorem reachable_iff :
    Reachable m ↔
      ∃ program font fontOffset past, Passage (build program font fontOffset).1 past m := by
  constructor
  · intro h
    induction h with
    | build program font fontOffset => exact ⟨program, font, fontOffset, [], .refl⟩
    | enable _ setting ih =>
        obtain ⟨program, font, fontOffset, past, hpast⟩ := ih
        exact ⟨program, font, fontOffset, past, hpast.enable setting⟩
    | step _ input ih =>
        obtain ⟨program, font, fontOffset, past, hpast⟩ := ih
        exact ⟨program, font, fontOffset, _, hpast.step input⟩
  · rintro ⟨program, font, fontOffset, past, hpast⟩
    exact hpast.reachable (.build program font fontOffset)

theorem run (h : Passage start past m) (inputs : List Input) :
    Passage start ((m.stages inputs).reverse ++ past) (m.run inputs) := by
  induction inputs generalizing m past with
  | nil => exact h
  | cons input rest ih =>
      rw [stages, List.reverse_cons, List.append_assoc]
      exact ih (h.step input)

/-- A passage leads through the machine after each of its steps. -/
theorem split {later earlier : List Stage} (h : Passage start (later ++ earlier) m) :
    ∃ middle, Passage start earlier middle ∧ Passage middle later m := by
  generalize hpast : later ++ earlier = past at h
  induction h generalizing later with
  | refl =>
      obtain ⟨rfl, rfl⟩ := List.append_eq_nil_iff.mp hpast
      exact ⟨start, .refl, .refl⟩
  | enable _ setting ih =>
      obtain ⟨middle, hearlier, hlater⟩ := ih hpast
      exact ⟨middle, hearlier, hlater.enable setting⟩
  | step h input ih =>
      cases later with
      | nil =>
          rw [List.nil_append] at hpast
          subst hpast
          exact ⟨_, h.step input, .refl⟩
      | cons stage rest =>
          obtain ⟨rfl, hrest⟩ := List.cons.inj hpast
          obtain ⟨middle, hearlier, hlater⟩ := ih hrest
          exact ⟨middle, hearlier, hlater.step input⟩

/-- A passage leads up to the machine before its newest step, and behind that step there can only
be settings. -/
theorem of_cons {stage : Stage} (h : Passage start (stage :: past) m) :
    Passage start past stage.machine ∧
      ∃ settings, m = { (stage.machine.step stage.input).machine with settings } := by
  generalize hpast : stage :: past = steps at h
  induction h with
  | refl => contradiction
  | enable _ setting ih =>
      obtain ⟨hbefore, settings, rfl⟩ := ih hpast
      exact ⟨hbefore, _, rfl⟩
  | step h input ih =>
      obtain ⟨rfl, rfl⟩ := List.cons.inj hpast
      exact ⟨h, _, rfl⟩

end Passage

end Machine

end Chip8
