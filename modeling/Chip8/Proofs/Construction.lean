import Chip8.Image.Basic
import Chip8.Proofs.Memory

/-!
Machines just built. Two images are copied into empty memory, the font first and the program over
it, each as far as there is memory for it. What is cut off is reported, and a program loses nothing
exactly if its size is one that is accepted.
-/

namespace Chip8

namespace Memory

@[simp] theorem peek_zero (a : Nat) : zero.peek a = 0 := by
  simp only [peek, zero, Vector.getElem?_replicate]
  split <;> rfl

/-- Behind the end of memory there is no room, and otherwise the room ends there. -/
theorem room_eq (offset count : Nat) : room offset count = min count (size - offset) := by
  simp only [room, size]
  omega

/-- An image lies where it was loaded as far as there is memory, and the rest of memory is as it was
before. -/
theorem peek_load (m : Memory) (offset : Nat) (image : List UInt8) {a : Nat} (h : a < size) :
    (m.load offset image).1.peek a =
      if h : offset ≤ a ∧ a - offset < image.length then image[a - offset] else m.peek a := by
  have hload : (m.load offset image).1.peek a =
      if offset ≤ a ∧ a < size then image[a - offset]?.getD (m.peek a) else m.peek a :=
    m.peek_writeRun offset image a
  rw [hload]
  by_cases hfrom : offset ≤ a
  · rw [if_pos ⟨hfrom, h⟩]
    by_cases hlt : a - offset < image.length
    · rw [dif_pos ⟨hfrom, hlt⟩, List.getElem?_eq_getElem hlt, Option.getD_some]
    · rw [dif_neg fun hin => hlt hin.2, List.getElem?_eq_none (Nat.not_lt.mp hlt),
        Option.getD_none]
  · rw [if_neg fun hin => hfrom hin.1, dif_neg fun hin => hfrom hin.1]

end Memory

theorem Image.check_eq_ok_iff {kind : Kind} {image : List UInt8} :
    check kind image = .ok image ↔ image.length ≤ kind.limit := by
  unfold check
  split
  · rename_i hover
    exact iff_of_false (fun h => nomatch h) (Nat.not_le.mpr hover)
  · rename_i hfits
    exact iff_of_true rfl (Nat.not_lt.mp hfits)

namespace Machine

/-- The report of an image that was loaded at `offset`: it names how many bytes had room, if that
was not all of them. -/
theorem truncation_room (event : Nat → Nat → Event) (offset count : Nat) :
    truncation event (Memory.room offset count) count =
      if Memory.size < offset + count ∧ 0 < count then
        [event (min count (Memory.size - offset)) count]
      else [] := by
  have hover : min count (Memory.size - offset) < count ↔
      Memory.size < offset + count ∧ 0 < count := by omega
  simp only [truncation, Memory.room_eq, hover]

section Build

variable (program font : List UInt8) (offset : UInt16)

theorem build_memory :
    (build program font offset).1.memory =
      ((Memory.zero.load offset.toNat font).1.load programOffset program).1 := rfl

theorem read_build (a : Fin Memory.size) :
    (build program font offset).1.memory.read a.val =
      .ok (if h : programOffset ≤ a.val ∧ a.val - programOffset < program.length then
          program[a.val - programOffset]
        else if h : offset.toNat ≤ a.val ∧ a.val - offset.toNat < font.length then
          font[a.val - offset.toNat]
        else 0) := by
  rw [Memory.read_eq_peek _ a.isLt, build_memory, Memory.peek_load _ _ _ a.isLt,
    Memory.peek_load _ _ _ a.isLt, Memory.peek_zero]

theorem build_events :
    (build program font offset).2 =
      (if Memory.size < offset.toNat + font.length ∧ 0 < font.length then
        [.fontTruncated (min font.length (Memory.size - offset.toNat)) font.length]
      else []) ++
      (if Image.Kind.program.limit < program.length then
        [.programTruncated (min program.length Image.Kind.program.limit) program.length]
      else []) := by
  have hover : Memory.size < programOffset + program.length ∧ 0 < program.length ↔
      Image.Kind.program.limit < program.length := by
    simp only [Image.Kind.limit]
    omega
  have hevents : (build program font offset).2 =
      truncation .fontTruncated (Memory.room offset.toNat font.length) font.length ++
        truncation .programTruncated (Memory.room programOffset program.length)
          program.length := rfl
  rw [hevents, truncation_room, truncation_room]
  simp only [hover]
  rfl

/-- A program is in memory as a whole exactly if it is not too large. -/
theorem program_loaded_iff :
    (∀ k, ∀ h : k < program.length,
      (build program font offset).1.memory.read (programOffset + k) = .ok program[k]) ↔
      program.length ≤ Image.Kind.program.limit := by
  have hlimit : Image.Kind.program.limit = 3584 := rfl
  constructor
  · intro hloaded
    apply Nat.le_of_not_lt
    intro hover
    -- the first byte that has no room would have to be behind the last one of memory
    have hread := hloaded Image.Kind.program.limit hover
    have hend : Memory.size ≤ programOffset + Image.Kind.program.limit := by decide
    rw [Memory.read_of_le _ hend] at hread
    contradiction
  · intro hfits k hk
    have hin : programOffset + k < Memory.size := by
      simp only [programOffset, Memory.size]
      omega
    have hplace : programOffset ≤ programOffset + k ∧
        programOffset + k - programOffset < program.length := by omega
    have hread := read_build program font offset ⟨_, hin⟩
    rw [dif_pos hplace] at hread
    simpa only [Nat.add_sub_cancel_left] using hread

/-- A program goes unreported exactly if it is not too large. -/
theorem program_unreported_iff :
    (∀ written size, .programTruncated written size ∉ (build program font offset).2) ↔
      program.length ≤ Image.Kind.program.limit := by
  rw [build_events]
  constructor
  · intro hunreported
    apply Nat.le_of_not_lt
    intro hover
    rw [if_pos hover] at hunreported
    exact hunreported _ _ (List.mem_append_right _ (List.mem_singleton_self _))
  · intro hfits written size hreported
    rw [if_neg (Nat.not_lt.mpr hfits), List.append_nil] at hreported
    split at hreported
    · exact absurd (List.mem_singleton.mp hreported) Event.noConfusion
    · exact absurd hreported List.not_mem_nil

end Build

/-- What construction makes of a program and a font of any size, with the font at any offset.

A byte of memory is the program's where the program reaches, otherwise the font's where the font
reaches, and otherwise zero. Everything else is zero, empty or off, and the program counter is at
the start of the program. An image that has no room for all of its bytes is reported with how many
were written, the font before the program. The programs that are loaded whole, and those that go
unreported, are the ones that are accepted as images. -/
theorem build_lays_out_images (program font : List UInt8) (offset : UInt16) :
    let f := offset.toNat
    let m := (build program font offset).1
    let lines := (build program font offset).2.map Event.line
    (∀ a : Fin 4096,
      m.memory.read a.val =
        .ok (if h : 0x200 ≤ a.val ∧ a.val - 0x200 < program.length then program[a.val - 0x200]
          else if h : f ≤ a.val ∧ a.val - f < font.length then font[a.val - f]
          else 0)) ∧
    (m.pc = 0x200 ∧ (∀ x, m.registers.get x = 0) ∧ m.index = 0 ∧ m.stack.frames = [] ∧
      m.timers = ⟨0, 0, 0⟩ ∧ (∀ px py, m.screen.get px py = false) ∧ m.keys = .released ∧
      m.waiting? = none ∧ m.settings = ⟨false, false⟩ ∧ m.beep = false ∧ m.fontOffset = offset) ∧
    lines =
      (if 4096 < f + font.length ∧ 0 < font.length then
        [⟨.warn, s!"Font truncated to {min font.length (4096 - f)} of {font.length} bytes"⟩]
      else []) ++
      (if 3584 < program.length then
        [⟨.warn, s!"Program truncated to {min program.length 3584} of {program.length} bytes"⟩]
      else []) ∧
    (Image.check .program program = .ok program ↔
      ∀ k, ∀ h : k < program.length, m.memory.read (0x200 + k) = .ok program[k]) ∧
    (Image.check .program program = .ok program ↔
      ∀ written size, .programTruncated written size ∉ (build program font offset).2) := by
  intro f m lines
  refine ⟨read_build program font offset, ⟨rfl, Registers.get_zero, rfl, rfl, rfl,
    Screen.get_blank, rfl, rfl, rfl, rfl, rfl⟩, ?_, ?_, ?_⟩
  · have hlines : lines = (build program font offset).2.map Event.line := rfl
    rw [hlines, build_events, List.map_append, apply_ite (List.map Event.line),
      apply_ite (List.map Event.line)]
    rfl
  · rw [Image.check_eq_ok_iff]
    exact (program_loaded_iff program font offset).symm
  · rw [Image.check_eq_ok_iff]
    exact (program_unreported_iff program font offset).symm

end Machine

end Chip8
