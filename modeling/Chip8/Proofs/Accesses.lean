import Chip8.Proofs.Checked.Parts
import Chip8.Proofs.Construction
import Mathlib.Data.List.Induction

/-!
Memory in use. Images are loaded, bytes are written and read, and words are read, one after the
other and at any address, however large. At every time a byte of memory is the one that was last
given to its address, and everything that an access answers follows from this. No address that is
computed on the way leaves its type.
-/

namespace Chip8

/-- A use of memory. The addresses may be any numbers. -/
inductive Access where
  | load (offset : Nat) (image : List UInt8)
  | write (address : Nat) (value : UInt8)
  | read (address : Nat)
  | readWord (address : Nat)

inductive Access.Reply where
  | loaded (count : Nat)
  | written (result : Except Fault Unit)
  | byte (result : Except Fault UInt8)
  | word (result : Except Fault UInt16)

namespace Access

/-- The byte that an access gives to an address, if it covers it. -/
def given? (address : Nat) : Access → Option UInt8
  | load offset image => if offset ≤ address then image[address - offset]? else none
  | write target value => if target = address then some value else none
  | read _ | readWord _ => none

/-- The byte that was last given to an address, and zero if none was. -/
def lastGiven (history : List Access) (address : Nat) : UInt8 :=
  (history.filterMap (given? address)).getLast?.getD 0

theorem lastGiven_append_singleton (history : List Access) (access : Access) (address : Nat) :
    lastGiven (history ++ [access]) address =
      (access.given? address).getD (lastGiven history address) := by
  rw [lastGiven, List.filterMap_append]
  cases hgiven : access.given? address with
  | none => simp [hgiven, lastGiven]
  | some byte => simp [hgiven]

end Access

open Access (Reply lastGiven)

namespace Memory

/-! ### One access -/

def access (m : Memory) : Access → Memory × Reply
  | .load offset image =>
    let (loaded, count) := m.load offset image
    (loaded, .loaded count)
  | .write address value =>
    match m.write address value with
    | .ok written => (written, .written (.ok ()))
    | .error fault => (m, .written (.error fault))
  | .read address => (m, .byte (m.read address))
  | .readWord address => (m, .word (m.readWord address))

theorem access_write_of_lt (m : Memory) {address : Nat} (h : address < size) (value : UInt8) :
    m.access (.write address value) = (⟨m.bytes.set address value⟩, .written (.ok ())) := by
  simp only [access, write, dif_pos h]

theorem access_write_of_le (m : Memory) {address : Nat} (h : size ≤ address) (value : UInt8) :
    m.access (.write address value) = (m, .written (.error (.memoryFault address))) := by
  simp only [access, write, dif_neg (Nat.not_lt.mpr h)]

theorem peek_access (m : Memory) (access : Access) {a : Nat} (h : a < size) :
    (m.access access).1.peek a = (access.given? a).getD (m.peek a) := by
  cases access with
  | load offset image =>
      refine (m.peek_writeRun offset image a).trans ?_
      by_cases hfrom : offset ≤ a
      · rw [if_pos ⟨hfrom, h⟩, Access.given?, if_pos hfrom]
      · rw [if_neg fun hin => hfrom hin.1, Access.given?, if_neg hfrom, Option.getD_none]
  | write address value =>
      by_cases haddress : address < size
      · rw [m.access_write_of_lt haddress, peek_set m haddress, Access.given?]
        split <;> rfl
      · have hne : address ≠ a := by omega
        rw [m.access_write_of_le (Nat.not_lt.mp haddress), Access.given?, if_neg hne,
          Option.getD_none]
  | read address => rfl
  | readWord address => rfl

/-- An image is written at its offset as far as there is memory, and no other byte changes. -/
theorem read_load (m : Memory) (offset : Nat) (image : List UInt8) :
    (∀ i byte, image[i]? = some byte → i < min image.length (size - min offset size) →
      (m.load offset image).1.read (offset + i) = .ok byte) ∧
    ∀ a, (a < offset ∨ offset + min image.length (size - min offset size) ≤ a) →
      (m.load offset image).1.read a = m.read a := by
  constructor
  · intro i byte hbyte hfits
    have hin : offset + i < size := by omega
    obtain ⟨hlength, rfl⟩ := List.getElem?_eq_some_iff.mp hbyte
    rw [read_eq_peek _ hin]
    exact congrArg Except.ok (m.peek_writeRun_of_lt hlength hin)
  · intro a hout
    by_cases hin : a < size
    · rw [read_eq_peek _ hin, read_eq_peek _ hin]
      exact congrArg Except.ok (m.peek_writeRun_of_outside (by omega))
    · rw [read_of_le _ (Nat.not_lt.mp hin), read_of_le _ (Nat.not_lt.mp hin)]

theorem read_set (m : Memory) {address : Nat} (h : address < size) (value : UInt8) (a : Nat) :
    Memory.read ⟨m.bytes.set address value⟩ a = if a = address then .ok value else m.read a := by
  by_cases hin : a < size
  · rw [read_eq_peek _ hin, read_eq_peek _ hin, peek_set m h, apply_ite Except.ok]
    simp only [eq_comm]
  · rw [read_of_le _ (Nat.not_lt.mp hin), read_of_le _ (Nat.not_lt.mp hin), if_neg (by omega)]

theorem toNat_word (high low : UInt8) :
    (word high low).toNat = 256 * high.toNat + low.toNat := by
  have hhigh := high.toNat_lt
  have hlow := low.toNat_lt
  rw [word, UInt16.toNat_ofNat', Nat.mod_eq_of_lt (by omega)]

/-! ### Accesses one after the other -/

def accessAll (m : Memory) : List Access → Memory × List Reply
  | [] => (m, [])
  | access :: rest =>
    let (next, reply) := m.access access
    let (last, replies) := next.accessAll rest
    (last, reply :: replies)

/-- Memory that was empty at first, after some accesses. -/
def after (history : List Access) : Memory := (zero.accessAll history).1

theorem accessAll_append (m : Memory) (accesses more : List Access) :
    m.accessAll (accesses ++ more) =
      (((m.accessAll accesses).1.accessAll more).1,
        (m.accessAll accesses).2 ++ ((m.accessAll accesses).1.accessAll more).2) := by
  induction accesses generalizing m with
  | nil => rfl
  | cons access rest ih => simp only [List.cons_append, accessAll, ih]

theorem length_accessAll (m : Memory) (accesses : List Access) :
    (m.accessAll accesses).2.length = accesses.length := by
  induction accesses generalizing m with
  | nil => rfl
  | cons access rest ih => simp only [accessAll, List.length_cons, ih]

theorem after_append_singleton (history : List Access) (access : Access) :
    after (history ++ [access]) = ((after history).access access).1 := by
  rw [after, accessAll_append]
  rfl

/-- What a run of accesses answers is what each of them answers after those before it. -/
theorem getElem?_accessAll (history : List Access) (access : Access) (later : List Access) :
    (zero.accessAll (history ++ access :: later)).2[history.length]? =
      some ((after history).access access).2 := by
  rw [accessAll_append, List.getElem?_append_right (Nat.le_of_eq (length_accessAll ..)),
    length_accessAll, Nat.sub_self]
  rfl

/-- The bytes of memory are the ones that were last given to their addresses. -/
theorem peek_after (history : List Access) {a : Nat} (h : a < size) :
    (after history).peek a = lastGiven history a := by
  induction history using List.reverseRecOn with
  | nil => exact peek_zero a
  | append_singleton history access ih =>
      rw [after_append_singleton, peek_access _ _ h, ih, Access.lastGiven_append_singleton]

theorem read_after (history : List Access) (a : Nat) :
    (after history).read a =
      if a < size then .ok (lastGiven history a) else .error (.memoryFault a) := by
  split
  · rename_i h
    rw [read_eq_peek _ h, peek_after history h]
  · rename_i h
    exact read_of_le _ (Nat.not_lt.mp h)

end Memory

/-! ### Accesses on numbers of so many bits -/

namespace Checked.Build

variable (b : Build)

/-- An access with all that can go wrong on the way. Single bytes are looked up at the very address
that is given. -/
def access (m : Memory) : Access → Attempt (Memory × Reply)
  | .load offset image => do
    let (loaded, count) ← b.load m offset image
    return (loaded, .loaded count)
  | .write address value => return m.access (.write address value)
  | .read address => return m.access (.read address)
  | .readWord address => do return (m, .word (← b.readWord m address))

def accessAll (m : Memory) : List Access → Attempt (Memory × List Reply)
  | [] => return (m, [])
  | access :: rest => do
    let (next, reply) ← b.access m access
    let (last, replies) ← accessAll next rest
    return (last, reply :: replies)

theorem access_eq (m : Memory) (access : Access) : b.access m access = .ok (m.access access) := by
  cases access with
  | load offset image => simp only [Build.access, b.load_eq, ok_bind, pure_eq_ok, Memory.access]
  | write address value => rfl
  | read address => rfl
  | readWord address =>
      simp only [Build.access, b.readWord_eq, ok_bind, pure_eq_ok, Memory.access]

theorem accessAll_eq (m : Memory) (accesses : List Access) :
    b.accessAll m accesses = .ok (m.accessAll accesses) := by
  induction accesses generalizing m with
  | nil => rfl
  | cons access rest ih =>
      simp only [Build.accessAll, access_eq, ih, ok_bind, pure_eq_ok, Memory.accessAll]

end Checked.Build

namespace Memory

/-- Memory is a store of 4096 bytes at all addresses, after any accesses to it since it was empty.
These never trap, in no build: no address that is computed leaves its type. Each access of a run
answers as it does behind the ones before it, as follows. A byte that is read is the one last given
to its address. An image is written as far as there is memory from its offset on, nothing else is,
and the count of its bytes that were is answered. A byte is written where there is memory, and
elsewhere nothing changes. A word that is read is the byte at its address and the one behind it, the
first of them high. What is not in memory is a fault of its first address that is not. -/
theorem accesses_exact (history : List Access) :
    let m := after history
    (∀ b : Checked.Build, b.accessAll zero history = .ok (zero.accessAll history)) ∧
    (∀ access later, (zero.accessAll (history ++ access :: later)).2[history.length]? =
      some (m.access access).2) ∧
    (∀ access, after (history ++ [access]) = (m.access access).1) ∧
    (∀ a, m.access (.read a) = (m, .byte (m.read a)) ∧
      m.read a = if a < 4096 then .ok (lastGiven history a) else .error (.memoryFault a)) ∧
    (∀ offset image, ∃ m',
      let count := min image.length (4096 - min offset 4096)
      m.access (.load offset image) = (m', .loaded count) ∧
      (∀ i byte, image[i]? = some byte → i < count → m'.read (offset + i) = .ok byte) ∧
      ∀ a, (a < offset ∨ offset + count ≤ a) → m'.read a = m.read a) ∧
    (∀ a value, a < 4096 → ∃ m', m.access (.write a value) = (m', .written (.ok ())) ∧
      ∀ a', m'.read a' = if a' = a then .ok value else m.read a') ∧
    (∀ a value, 4096 ≤ a →
      m.access (.write a value) = (m, .written (.error (.memoryFault a)))) ∧
    (∀ a, a + 1 < 4096 → ∃ word : UInt16, m.access (.readWord a) = (m, .word (.ok word)) ∧
      word.toNat = 256 * (lastGiven history a).toNat + (lastGiven history (a + 1)).toNat) ∧
    ∀ a, 4096 ≤ a + 1 → m.access (.readWord a) =
      (m, .word (.error (.memoryFault (if a < 4096 then a + 1 else a)))) := by
  intro m
  refine ⟨fun b => b.accessAll_eq zero history, getElem?_accessAll history,
    after_append_singleton history, fun a => ⟨rfl, read_after history a⟩, ?_, ?_,
    fun a value h => m.access_write_of_le h value, ?_, ?_⟩
  · intro offset image
    exact ⟨_, rfl, m.read_load offset image⟩
  · intro a value h
    exact ⟨_, m.access_write_of_lt h value, m.read_set h value⟩
  · intro a h
    refine ⟨m.peekWord a, congrArg (fun result => (m, Reply.word result)) (m.readWord_of_lt h), ?_⟩
    rw [peekWord, toNat_word, peek_after history (Nat.lt_of_succ_lt h), peek_after history h]
  · intro a h
    have hfirst : max a 4096 = if a < 4096 then a + 1 else a := by split <;> omega
    exact congrArg (fun result => (m, Reply.word result)) (hfirst ▸ m.readWord_of_le h)

/-- At the largest address of 64 bits a word is missing with its first byte. The address of the
second one, which would leave the type, is not computed. -/
example :
    let b : Checked.Build := ⟨true, true⟩
    b.add b.sizeBits (2 ^ 64 - 1) 1 = .error .overflow ∧
      b.readWord zero (2 ^ 64 - 1) = .ok (.error (.memoryFault (2 ^ 64 - 1))) := ⟨rfl, rfl⟩

end Memory

end Chip8
