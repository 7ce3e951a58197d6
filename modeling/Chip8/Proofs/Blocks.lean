import Chip8.Proofs.Transfers

/-!
Blocks of registers in memory. Instructions that store registers, one after the other, lay out their
blocks without gaps, since each of them leaves the index where the next block belongs; loading the
same blocks from the start of the first one gives all of them back. Only memory, the index and the
settings have to be left alone in between.
-/

namespace Chip8

/-- A store or a load in a sequence of them: the last register that it transfers, its input, and the
machine that it comes upon, apart from memory, index and settings. -/
structure Block where
  last : Register
  input : Input
  around : Machine

namespace Block

def bytes (b : Block) : List UInt8 := b.around.registers.upTo b.last

def size (b : Block) : Nat := b.last.val + 1

def layout (blocks : List Block) : List UInt8 := blocks.flatMap bytes

/-- How much memory the blocks take. -/
def extent (blocks : List Block) : Nat := blocks.foldr (fun b rest => b.size + rest) 0

@[simp] theorem length_bytes (b : Block) : b.bytes.length = b.size :=
  b.around.registers.length_upTo b.last

@[simp] theorem extent_cons (b : Block) (rest : List Block) :
    extent (b :: rest) = b.size + extent rest := rfl

@[simp] theorem layout_cons (b : Block) (rest : List Block) :
    layout (b :: rest) = b.bytes ++ layout rest := rfl

theorem extent_eq_of_last {blocks blocks' : List Block}
    (h : blocks'.map last = blocks.map last) : extent blocks' = extent blocks := by
  have hextent (bs : List Block) :
      extent bs = (bs.map last).foldr (fun x rest => x.val + 1 + rest) 0 := by
    rw [List.foldr_map]
    rfl
  rw [hextent, hextent, h]

end Block

namespace Machine

def meet (m : Machine) (b : Block) : Machine :=
  { b.around with memory := m.memory, index := m.index, settings := m.settings }

@[simp] theorem meet_memory (m : Machine) (b : Block) : (m.meet b).memory = m.memory := rfl

@[simp] theorem meet_index (m : Machine) (b : Block) : (m.meet b).index = m.index := rfl

@[simp] theorem meet_settings (m : Machine) (b : Block) : (m.meet b).settings = m.settings := rfl

@[simp] theorem meet_registers (m : Machine) (b : Block) :
    (m.meet b).registers = b.around.registers := rfl

def transfer (op : Register → Instruction) (m : Machine) (b : Block) : Effect :=
  (m.meet b).execute b.input (op b.last)

def transfers (op : Register → Instruction) (m : Machine) : List Block → List Effect
  | [] => []
  | b :: rest =>
    let effect := m.transfer op b
    effect :: effect.machine.transfers op rest

def afterTransfers (op : Register → Instruction) (m : Machine) (blocks : List Block) : Machine :=
  blocks.foldl (fun machine b => (machine.transfer op b).machine) m

theorem afterTransfers_cons (op : Register → Instruction) (m : Machine) (b : Block)
    (rest : List Block) :
    m.afterTransfers op (b :: rest) = (m.transfer op b).machine.afterTransfers op rest := rfl

/-! ### One block -/

section One

variable {m : Machine} {b : Block} {op : Register → Instruction}

theorem transfer_settings (hop : op = .storeRegisters ∨ op = .loadRegisters) :
    (m.transfer op b).machine.settings = m.settings := by
  rcases hop with rfl | rfl
  · rw [transfer, execute, storeRegisters_frame, meet_settings]
  · rw [transfer, execute, loadRegisters_frame, meet_settings]

/-- Where a block fits, its transfer succeeds, and moves the index if the setting lets it. -/
theorem transfer_of_fits (hop : op = .storeRegisters ∨ op = .loadRegisters)
    (hfits : m.index.toNat + b.size ≤ Memory.size) :
    (m.transfer op b).fault? = none ∧
      (m.transfer op b).machine.index.toNat =
        if m.settings.loadStore = false then m.index.toNat + b.size else m.index.toNat := by
  have hbulk : op b.last = .storeRegisters b.last ∨ op b.last = .loadRegisters b.last := by
    rcases hop with rfl | rfl
    · exact .inl rfl
    · exact .inr rfl
  have hwhole : min (b.last.val + 1) (Memory.size - m.index.toNat) = b.last.val + 1 := by
    simp only [Block.size] at hfits
    omega
  rw [transfer, bulk_fault? hbulk, toNat_bulk_index hbulk]
  simp only [meet_index, meet_settings, hwhole, true_and, if_true]
  rfl

theorem store_memory :
    (m.transfer .storeRegisters b).machine.memory =
      (m.memory.writeRun m.index.toNat b.bytes).1 := by
  rw [transfer, execute, storeRegisters_memory, meet_memory, meet_index, meet_registers]
  rfl

theorem load_memory : (m.transfer .loadRegisters b).machine.memory = m.memory := by
  rw [transfer, execute, loadRegisters_frame, meet_memory]

/-- Loading gives the registers of the block that lies at the index. -/
theorem get_load {registers : Registers}
    (hholds : m.memory.Holds m.index.toNat (registers.upTo b.last))
    (hfits : m.index.toNat + b.size ≤ Memory.size) (r : Register) :
    (m.transfer .loadRegisters b).machine.registers.get r =
      if r ≤ b.last then registers.get r else b.around.registers.get r := by
  simp only [Block.size] at hfits
  rw [transfer, execute, get_loadRegisters, meet_memory, meet_index, meet_registers]
  by_cases hr : r ≤ b.last
  · have hlt : r.val < (registers.upTo b.last).length := by
      rw [Registers.length_upTo]
      exact Nat.lt_succ_of_le hr
    have hle : r.val ≤ b.last.val := hr
    rw [if_pos hr, if_pos (by omega), ← registers.getElem_upTo hr hlt]
    exact hholds r.val hlt
  · have hlt : b.last.val < r.val := Nat.lt_of_not_le hr
    rw [if_neg hr, if_neg (by omega)]

end One

/-! ### Many blocks -/

section Many

variable {m : Machine} {blocks : List Block} {op : Register → Instruction}

theorem transfers_succeed (hop : op = .storeRegisters ∨ op = .loadRegisters)
    (hoff : m.settings.loadStore = false)
    (hfits : m.index.toNat + Block.extent blocks ≤ Memory.size) :
    (∀ effect ∈ m.transfers op blocks, effect.fault? = none) ∧
      (m.afterTransfers op blocks).index.toNat = m.index.toNat + Block.extent blocks ∧
      (m.afterTransfers op blocks).settings = m.settings := by
  induction blocks generalizing m with
  | nil => exact ⟨fun effect h => absurd h List.not_mem_nil, rfl, rfl⟩
  | cons b rest ih =>
      rw [Block.extent_cons] at hfits
      have hfirst : m.index.toNat + b.size ≤ Memory.size := by omega
      obtain ⟨hok, hindex⟩ := transfer_of_fits hop hfirst
      have hsettings : (m.transfer op b).machine.settings = m.settings := transfer_settings hop
      rw [if_pos hoff] at hindex
      obtain ⟨hsucceed, hbehind, hkept⟩ := ih (m := (m.transfer op b).machine)
        (by rw [hsettings, hoff]) (by omega)
      refine ⟨List.forall_mem_cons.mpr ⟨hok, hsucceed⟩, ?_, ?_⟩
      · rw [afterTransfers_cons, hbehind, hindex, Block.extent_cons, Nat.add_assoc]
      · rw [afterTransfers_cons, hkept, hsettings]

/-- Stores leave alone what lies in front of the index. -/
theorem stores_keep (hoff : m.settings.loadStore = false)
    (hfits : m.index.toNat + Block.extent blocks ≤ Memory.size) {address : Nat}
    {bytes : List UInt8} (hholds : m.memory.Holds address bytes)
    (hfront : address + bytes.length ≤ m.index.toNat) :
    (m.afterTransfers .storeRegisters blocks).memory.Holds address bytes := by
  induction blocks generalizing m with
  | nil => exact hholds
  | cons b rest ih =>
      rw [Block.extent_cons] at hfits
      have hfirst : m.index.toNat + b.size ≤ Memory.size := by omega
      obtain ⟨-, hindex⟩ := transfer_of_fits (.inl rfl) hfirst
      rw [if_pos hoff] at hindex
      rw [afterTransfers_cons]
      apply ih
      · rw [transfer_settings (.inl rfl), hoff]
      · omega
      · rw [store_memory]
        exact hholds.writeRun hfront b.bytes
      · omega

/-- Stores lay out their blocks from the index on. -/
theorem stores_hold (hoff : m.settings.loadStore = false)
    (hfits : m.index.toNat + Block.extent blocks ≤ Memory.size) :
    (m.afterTransfers .storeRegisters blocks).memory.Holds m.index.toNat (Block.layout blocks) := by
  induction blocks generalizing m with
  | nil => exact fun i h => absurd h (Nat.not_lt_zero i)
  | cons b rest ih =>
      rw [Block.extent_cons] at hfits
      have hfirst : m.index.toNat + b.size ≤ Memory.size := by omega
      obtain ⟨-, hindex⟩ := transfer_of_fits (.inl rfl) hfirst
      have hsettings : (m.transfer .storeRegisters b).machine.settings.loadStore = false := by
        rw [transfer_settings (.inl rfl), hoff]
      rw [if_pos hoff] at hindex
      rw [afterTransfers_cons, Block.layout_cons, Memory.holds_append]
      constructor
      · -- the first block is written now, and the later stores begin behind it
        apply stores_keep hsettings (by omega)
        · rw [store_memory]
          exact m.memory.holds_writeRun (by rwa [Block.length_bytes])
        · have hlength := b.length_bytes
          omega
      · rw [Block.length_bytes, ← hindex]
        exact ih hsettings (by omega)

/-- Loads give back the blocks that lie from the index on. -/
theorem loads_get {stores loads : List Block}
    (hlast : loads.map Block.last = stores.map Block.last)
    (hoff : m.settings.loadStore = false)
    (hfits : m.index.toNat + Block.extent loads ≤ Memory.size)
    (hholds : m.memory.Holds m.index.toNat (Block.layout stores)) :
    List.Forall₂
      (fun (pair : Block × Block) effect => ∀ r : Register,
        effect.machine.registers.get r =
          if r ≤ pair.1.last then pair.1.around.registers.get r
          else pair.2.around.registers.get r)
      (stores.zip loads) (m.transfers .loadRegisters loads) := by
  induction loads generalizing m stores with
  | nil =>
      rw [List.zip_nil_right]
      exact .nil
  | cons load rest ih =>
      obtain ⟨store, stores, rfl, hfirst, hrest⟩ := List.map_eq_cons_iff.mp hlast.symm
      rw [Block.extent_cons] at hfits
      rw [Block.layout_cons, Memory.holds_append, Block.length_bytes] at hholds
      have hsize : load.size = store.size := by rw [Block.size, Block.size, hfirst]
      have hfits' : m.index.toNat + load.size ≤ Memory.size := by omega
      obtain ⟨-, hindex⟩ := transfer_of_fits (.inr rfl) hfits'
      rw [if_pos hoff] at hindex
      refine .cons (fun r => ?_) (ih hrest.symm ?_ (by omega) ?_)
      · have hfound : m.memory.Holds m.index.toNat (store.around.registers.upTo load.last) := by
          rw [← hfirst]
          exact hholds.1
        rw [get_load hfound hfits', hfirst]
      · rw [transfer_settings (.inr rfl), hoff]
      · rw [load_memory, hindex, hsize]
        exact hholds.2

end Many

/-- Loading undoes storing.

Blocks of registers are stored one after the other and, with the index set back, loaded in the same
sizes again. Whatever else the machines are that the instructions come upon, if the index moves and
the blocks fit into memory, every store and every load succeeds, each load gives the registers of
its block and leaves the higher ones, and both passes leave the index behind the last block. If the
setting keeps the index in place, this holds of a single block. -/
theorem loads_undo_stores (m : Machine) :
    (∀ stores loads : List Block, loads.map Block.last = stores.map Block.last →
      m.settings.loadStore = false → m.index.toNat + Block.extent stores ≤ 4096 →
      let n := m.afterTransfers .storeRegisters stores
      let back := { n with index := m.index }
      (∀ effect ∈ m.transfers .storeRegisters stores, effect.fault? = none) ∧
        (∀ effect ∈ back.transfers .loadRegisters loads, effect.fault? = none) ∧
        List.Forall₂
          (fun (pair : Block × Block) effect => ∀ r : Register,
            effect.machine.registers.get r =
              if r ≤ pair.1.last then pair.1.around.registers.get r
              else pair.2.around.registers.get r)
          (stores.zip loads) (back.transfers .loadRegisters loads) ∧
        n.index.toNat = m.index.toNat + Block.extent stores ∧
        (back.afterTransfers .loadRegisters loads).index.toNat =
          m.index.toNat + Block.extent stores) ∧
    ∀ store load : Block, load.last = store.last →
      m.settings.loadStore = true → m.index.toNat + store.size ≤ 4096 →
      let stored := m.transfer .storeRegisters store
      let loaded := stored.machine.transfer .loadRegisters load
      stored.fault? = none ∧ loaded.fault? = none ∧
        (∀ r : Register,
          loaded.machine.registers.get r =
            if r ≤ store.last then store.around.registers.get r
            else load.around.registers.get r) ∧
        stored.machine.index = m.index ∧ loaded.machine.index = m.index := by
  constructor
  · intro stores loads hlast hoff hfits n back
    have hextent : Block.extent loads = Block.extent stores := Block.extent_eq_of_last hlast
    have hback : back.index.toNat + Block.extent loads ≤ Memory.size := by
      rw [hextent]
      exact hfits
    obtain ⟨hstored, hindex, hsettings⟩ := transfers_succeed (.inl rfl) hoff hfits
    have hstill : back.settings.loadStore = false := by
      rw [← hoff]
      exact congrArg Settings.loadStore hsettings
    obtain ⟨hloaded, hbehind, -⟩ := transfers_succeed (.inr rfl) hstill hback
    refine ⟨hstored, hloaded, loads_get hlast hstill hback (stores_hold hoff hfits), hindex, ?_⟩
    rw [hbehind, hextent]
  · intro store load hlast hon hfits stored loaded
    have hsize : load.size = store.size := by rw [Block.size, Block.size, hlast]
    obtain ⟨hstored, hkept⟩ : stored.fault? = none ∧ stored.machine.index.toNat = _ :=
      transfer_of_fits (.inl rfl) hfits
    rw [if_neg (by rw [hon]; decide)] at hkept
    have hstill : stored.machine.settings.loadStore = true := by
      rw [transfer_settings (.inl rfl), hon]
    have hfits' : stored.machine.index.toNat + load.size ≤ Memory.size := by
      rw [hkept, hsize]
      exact hfits
    obtain ⟨hloaded, hkept'⟩ : loaded.fault? = none ∧ loaded.machine.index.toNat = _ :=
      transfer_of_fits (.inr rfl) hfits'
    rw [if_neg (by rw [hstill]; decide)] at hkept'
    have hfound :
        stored.machine.memory.Holds stored.machine.index.toNat
          (store.around.registers.upTo load.last) := by
      rw [store_memory, hkept, hlast]
      exact m.memory.holds_writeRun (by rwa [Block.length_bytes])
    refine ⟨hstored, hloaded, fun r => ?_, UInt16.toNat_inj.mp hkept,
      UInt16.toNat_inj.mp (hkept'.trans hkept)⟩
    rw [get_load hfound hfits', hlast]

/-- Two blocks that end with the last byte of memory, and a single one with an index that stays. -/
theorem loads_undo_stores_to_the_last_byte :
    let m : Machine := { empty 0 with index := 4077 }
    let block (last : Register) (value : UInt8) : Block :=
      ⟨last, ⟨.released, 0, 0⟩, { empty 0 with registers := ⟨Vector.replicate 16 value⟩ }⟩
    let n := m.afterTransfers .storeRegisters [block 2 7, block 15 8]
    let back := { n with index := m.index }
    let fixed := m.withSettings ⟨true, false⟩
    let stored := fixed.transfer .storeRegisters (block 15 7)
    n.index.toNat = 4096 ∧
      (∀ effect ∈ back.transfers .loadRegisters [block 2 9, block 15 9], effect.fault? = none) ∧
      ((stored.machine.transfer .loadRegisters (block 15 9)).machine.registers.get 15 = 7) ∧
      stored.machine.index = 4077 := by
  intro m block n back fixed stored
  obtain ⟨-, hloaded, -, hindex, -⟩ := (loads_undo_stores m).1 [block 2 7, block 15 8]
    [block 2 9, block 15 9] rfl rfl (by decide)
  obtain ⟨-, -, hregisters, hkept, -⟩ :=
    (loads_undo_stores fixed).2 (block 15 7) (block 15 9) rfl rfl (by decide)
  refine ⟨hindex, hloaded, ?_, hkept⟩
  rw [hregisters 15]
  decide

end Machine

end Chip8
