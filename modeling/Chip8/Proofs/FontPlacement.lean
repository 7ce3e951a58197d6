import Chip8.CommandLine.Address
import Chip8.Image.Basic
import Chip8.Proofs.Footprint

/-!
Where the bytes of a font end up. The address of the font, the font and the program are each checked
alone, and then the machine is built from the font first and the program second. A font may start in
front of the program and reach into it all the same, and is overwritten there.
-/

namespace Chip8

/-! ### What the checks let through -/

theorem CommandLine.toNat_lt_of_readAddress {text : String} {offset : UInt16}
    (h : readAddress text = .ok offset) : offset.toNat < Machine.programOffset := by
  unfold readAddress at h
  split at h
  · contradiction
  · split at h
    · rename_i address _ hlt
      obtain rfl := Except.ok.inj h
      rw [UInt16.toNat_ofNat_of_lt' (Nat.lt_trans hlt (by decide))]
      exact hlt
    · contradiction

namespace Image

/-- There is a file with this image. -/
def Accepted (kind : Kind) (image : List UInt8) : Prop :=
  ∃ content, ofFile kind content = .ok image

theorem accepted_iff {kind : Kind} {image : List UInt8} :
    Accepted kind image ↔ image.length ≤ kind.limit := by
  constructor
  · rintro ⟨_ | bytes, h⟩
    · contradiction
    · simp only [ofFile, check] at h
      split at h
      · contradiction
      · rename_i hlength
        obtain rfl := Except.ok.inj h
        exact Nat.not_lt.mp hlength
  · intro h
    exact ⟨.ok image, if_neg (Nat.not_lt.mpr h)⟩

instance (kind : Kind) (image : List UInt8) : Decidable (Accepted kind image) :=
  decidable_of_iff _ accepted_iff.symm

/-- The font that needs no file would be accepted from one. -/
theorem accepted_builtIn : Accepted .font Font.builtIn := by decide

end Image

theorem Font.toNat_glyphAddress {offset : UInt16} (value : UInt8)
    (h : offset.toNat < Machine.programOffset) :
    (glyphAddress offset value).toNat = offset.toNat + value.toNat % 16 * glyphSize := by
  have hdigit : value.toNat % 16 < 16 := Nat.mod_lt _ (by decide)
  have hoffset : offset.toNat < 512 := h
  rw [glyphAddress, UInt16.toNat_add, UInt16.toNat_ofNat', glyphSize]
  omega

namespace Machine

section Build

variable (program font : List UInt8) (offset : UInt16)

/-- In a machine just built a byte of the font is the font's or, from the program's start on, the
program's. -/
theorem peek_build_font {k : Nat} (hk : k < font.length) (hin : offset.toNat + k < Memory.size) :
    (build program font offset).1.memory.peek (offset.toNat + k) =
      if programOffset ≤ offset.toNat + k then
        program[offset.toNat + k - programOffset]?.getD font[k]
      else font[k] := by
  have hmemory : (build program font offset).1.memory =
      ((Memory.zero.writeRun offset.toNat font).1.writeRun programOffset program).1 := rfl
  have hfont : (Memory.zero.writeRun offset.toNat font).1.peek (offset.toNat + k) = font[k] := by
    rw [Memory.peek_writeRun, if_pos ⟨Nat.le_add_right _ k, hin⟩, Nat.add_sub_cancel_left,
      List.getElem?_eq_getElem hk, Option.getD_some]
  rw [hmemory, Memory.peek_writeRun, hfont]
  simp only [hin, and_true]

/-- A font is kept whatever the program is, exactly if it ends where programs start. -/
theorem font_kept_iff (hoffset : offset.toNat < programOffset) :
    (∀ program, Image.Accepted .program program → ∀ k (hk : k < font.length),
      (build program font offset).1.memory.peek (offset.toNat + k) = font[k]) ↔
      offset.toNat + font.length ≤ programOffset := by
  have hstart : programOffset = 512 := rfl
  have hsize : Memory.size = 4096 := rfl
  constructor
  · intro hkept
    apply Nat.le_of_not_lt
    intro hover
    -- a program of one byte, other than the one of the font where programs start
    have hk : programOffset - offset.toNat < font.length := by omega
    have hplace : offset.toNat + (programOffset - offset.toNat) = programOffset := by omega
    have hbyte := hkept [font[programOffset - offset.toNat] + 1]
      (Image.accepted_iff.mpr (Nat.le_of_ble_eq_true rfl)) _ hk
    rw [peek_build_font _ _ _ hk (by omega), hplace, if_pos (Nat.le_refl _), Nat.sub_self] at hbyte
    exact absurd hbyte (by simp)
  · intro hfits program _ k hk
    rw [peek_build_font _ _ _ hk (by omega), if_neg (by omega)]

end Build

theorem run_fontOffset (m : Machine) (inputs : List Input) :
    (m.run inputs).fontOffset = m.fontOffset := by
  have hsame : Part.fontOffset.Same m (m.run inputs) :=
    run_same fun stage _ => by rintro (h | ⟨word, _, h⟩) <;> exact h
  exact hsame

/-- The step that executes FX29 leaves the address of the glyph in the index. -/
theorem step_index_of_fontGlyph {m : Machine} {input : Input} {word : UInt16}
    (h : m.Fetches input word) (hword : (Pattern.firstAndByte 0xF 0x29).Matches word) :
    (m.step input).machine.index =
      Font.glyphAddress m.fontOffset
        ((m.receive input.keys).registers.get (Opcode.digit word 2)) := by
  have hdecode : Instruction.decode word = .fontGlyph (Opcode.digit word 2) :=
    Instruction.decode_of_firstAndByte hword
  have hoffset : (m.ready input).fontOffset = m.fontOffset := by
    rw [ready_eq, receive_frame]
  rw [step_of_fetches h, effect, hdecode, ← ready_registers, ← hoffset]
  rfl

/-- What becomes of a font whose address and size are accepted. Each of its bytes is in memory when
the machine has been built, but for those that the program is loaded over. It is kept under every
program exactly if it ends where programs start. In any run FX29 goes to the glyph of its digit, and
a glyph that lies in front of the program is the font's own. -/
theorem font_placement {text : String} {offset : UInt16} {font : List UInt8}
    (hoffset : CommandLine.readAddress text = .ok offset) (hfont : Image.Accepted .font font) :
    (∀ program k (hk : k < font.length),
      (build program font offset).1.memory.peek (offset.toNat + k) =
        if programOffset ≤ offset.toNat + k then
          program[offset.toNat + k - programOffset]?.getD font[k]
        else font[k]) ∧
    ((∀ program, Image.Accepted .program program → ∀ k (hk : k < font.length),
      (build program font offset).1.memory.peek (offset.toNat + k) = font[k]) ↔
        offset.toNat + font.length ≤ programOffset) ∧
    ∀ program inputs input word,
      let m := (build program font offset).1
      let n := m.run inputs
      n.Fetches input word → (Pattern.firstAndByte 0xF 0x29).Matches word →
        let digit := ((n.receive input.keys).registers.get (Opcode.digit word 2)).toNat % 16
        (n.step input).machine.index.toNat = offset.toNat + 5 * digit ∧
          (offset.toNat + 5 * digit + 5 ≤ programOffset →
            ∀ row < 5, ∀ hrow : 5 * digit + row < font.length,
              m.memory.peek ((n.step input).machine.index.toNat + row) =
                font[5 * digit + row]) := by
  have hstart := CommandLine.toNat_lt_of_readAddress hoffset
  have hlength := Image.accepted_iff.mp hfont
  have hin : ∀ k < font.length, offset.toNat + k < Memory.size := by
    intro k hk
    have hlimit : Image.Kind.font.limit = 512 := rfl
    have hprogram : programOffset = 512 := rfl
    have hsize : Memory.size = 4096 := rfl
    omega
  refine ⟨fun program k hk => peek_build_font _ _ _ hk (hin k hk),
    font_kept_iff font offset hstart, ?_⟩
  intro program inputs input word m n hfetch hword digit
  have hindex : (n.step input).machine.index.toNat = offset.toNat + 5 * digit := by
    rw [step_index_of_fontGlyph hfetch hword, run_fontOffset, Nat.mul_comm]
    exact Font.toNat_glyphAddress _ hstart
  refine ⟨hindex, fun hfree row hlt hrow => ?_⟩
  rw [hindex, Nat.add_assoc, peek_build_font _ _ _ hrow (hin _ hrow), if_neg (by omega)]

/-- The glyphs of two digits where they just fit, and the step that looks up the second one. -/
theorem font_placement_fitting :
    let font := Font.builtIn.take 10
    let program : List UInt8 := [0x61, 0x01, 0xF1, 0x29]
    let still : Input := ⟨.released, 0, 0⟩
    let m := (build program font 0x1F6).1
    let n := m.run [still]
    (∀ other, Image.Accepted .program other → ∀ k (hk : k < font.length),
        (build other font 0x1F6).1.memory.peek ((0x1F6 : UInt16).toNat + k) = font[k]) ∧
      (n.step still).machine.index.toNat = 0x1FB ∧
      m.memory.peek ((n.step still).machine.index.toNat + 4) = 0x70 := by
  intro font program still m n
  obtain ⟨-, hkept, hglyph⟩ :=
    font_placement (show CommandLine.readAddress "0x1F6" = .ok 0x1F6 by rfl)
      (show Image.Accepted .font font by decide)
  have hfetch : n.Fetches still 0xF129 ∧
      ((n.receive still.keys).registers.get (Opcode.digit 0xF129 2)).toNat % 16 = 1 := by
    rw [fetches_iff]
    decide +kernel
  obtain ⟨hindex, hown⟩ := hglyph program [still] still 0xF129 hfetch.1 (by decide)
  rw [hfetch.2] at hindex hown
  have hrow : m.memory.peek ((n.step still).machine.index.toNat + 4) = font[5 * 1 + 4] :=
    hown (by decide) 4 (by decide) (by decide)
  exact ⟨hkept.mpr (by decide), hindex, hrow⟩

/-- A font may be accepted and not be kept: one byte in front of the program there is no room for
more than its first byte. -/
theorem exists_accepted_font_not_kept :
    ¬∀ text offset font program, CommandLine.readAddress text = .ok offset →
      Image.Accepted .font font → Image.Accepted .program program →
      ∀ k (hk : k < font.length),
        (build program font offset).1.memory.peek (offset.toNat + k) = font[k] := by
  intro hall
  have hbyte := hall "511" 511 Font.builtIn [0x12, 0x00] (by rfl)
    Image.accepted_builtIn (by decide) 1 (by decide)
  exact absurd hbyte (by decide +kernel)

end Machine

end Chip8
