import Mathlib.Control.Monad.Basic
import WordMachine.Proofs.Cpu.Run
import WordMachine.Proofs.Machine.Board
import WordMachine.Proofs.Machine.Store

/-!
# The board behind its devices

From the end of the device addresses on, the board answers as plain memory does.
`Board.withMemory` puts the bytes of a memory into the store of a board, and
everything that keeps away from the devices commutes with it: a transaction
(`run_withMemory`), a step of the processor (`step_onBoard`), any number of steps
(`afterSteps_onBoard`).  The devices are left as they are, since nothing asks for them.
-/

namespace WordMachine

/-- The access goes to memory and not to a device. -/
def Access.AvoidsDevices (access : Access) : Prop :=
  RomImage.base ≤ access.address

instance (access : Access) : Decidable access.AvoidsDevices :=
  inferInstanceAs (Decidable (_ ≤ _))

namespace Board

def withMemory (board : Board) (memory : Memory) : Board :=
  { board with store := .ofMemory memory }

variable {addr : Address}

theorem read_withMemory
    (haddr : RomImage.base ≤ addr) (board : Board) (memory : Memory) :
    Bus.read addr (board.withMemory memory) =
      (.ok (memory.get addr), board.withMemory memory) := by
  have hget : (board.withMemory memory).store.get addr haddr = memory.get addr :=
    Store.get_ofMemory memory haddr
  rw [read_of_base_le haddr, hget]

theorem write_withMemory
    (haddr : RomImage.base ≤ addr) (byte : Byte) (board : Board) (memory : Memory) :
    Bus.write addr byte (board.withMemory memory) =
      (.ok (), board.withMemory (memory.set addr byte)) := by
  unfold withMemory
  rw [write_of_base_le haddr]
  simp only [Store.set_ofMemory]

theorem peek_withMemory
    (haddr : RomImage.base ≤ addr) (board : Board) (memory : Memory) :
    (board.withMemory memory).peek addr = memory.get addr := by
  rw [peek_of_base_le haddr]
  exact Store.get_ofMemory memory haddr

end Board

theorem Transaction.run_withMemory
    {α : Type} (t : Transaction α) (memory : Memory) (board : Board)
    (haway : ∀ access ∈ (t.run memory).accesses, access.AvoidsDevices) :
    t.run (board.withMemory memory) =
      ⟨(t.run memory).result, board.withMemory (t.run memory).bus,
        (t.run memory).accesses⟩ := by
  induction t, memory using run_induction with
  | done value memory => rfl
  | readOk addr next memory byte memory' outcome hread ih =>
      have haddr : RomImage.base ≤ addr := haway _ List.mem_cons_self
      have hnext := ih fun access hmem => haway access (List.mem_cons_of_mem _ hmem)
      obtain ⟨hbyte, hmemory⟩ := Prod.mk.inj hread
      rw [run, Board.read_withMemory haddr, Except.ok.inj hbyte, hmemory]
      exact congrArg (Outcome.after · (.read addr byte)) hnext
  | readFailed addr next memory error memory' hread =>
      have hanswer := congrArg Prod.fst hread
      contradiction
  | writeOk addr byte next memory memory' outcome hwrite ih =>
      have haddr : RomImage.base ≤ addr := haway _ List.mem_cons_self
      have hnext := ih fun access hmem => haway access (List.mem_cons_of_mem _ hmem)
      have hmemory : memory.set addr byte = memory' := congrArg Prod.snd hwrite
      rw [run, Board.write_withMemory haddr, hmemory]
      exact congrArg (Outcome.after · (.write addr byte)) hnext
  | writeFailed addr byte next memory error memory' hwrite =>
      have hanswer := congrArg Prod.fst hwrite
      contradiction

namespace Cpu

def onBoard (cpu : Cpu Memory) (board : Board) : Cpu Board :=
  ⟨cpu.regs, board.withMemory cpu.bus⟩

theorem step_onBoard
    (cpu : Cpu Memory) (board : Board)
    (haway : ∀ access ∈ cpu.step.accesses, access.AvoidsDevices) :
    (cpu.onBoard board).step.result = cpu.step.result ∧
      (cpu.onBoard board).step.cpu = cpu.step.cpu.onBoard board := by
  by_cases hpc : cpu.regs.pc = sentinel
  · have hpc' : (cpu.onBoard board).regs.pc = sentinel := hpc
    rw [step_of_sentinel hpc, step_of_sentinel hpc']
    exact ⟨rfl, rfl⟩
  · have hpc' : (cpu.onBoard board).regs.pc ≠ sentinel := hpc
    obtain ⟨hresult, hcpu, haccesses⟩ := step_eq_cycle hpc
    obtain ⟨hresult', hcpu', -⟩ := step_eq_cycle hpc'
    rw [haccesses] at haway
    have hrun :
        (Instruction.cycle (cpu.onBoard board).regs).run (cpu.onBoard board).bus = _ :=
      Transaction.run_withMemory (Instruction.cycle cpu.regs) cpu.bus board haway
    rw [hresult', hcpu', hrun, hresult, hcpu]
    exact ⟨rfl, rfl⟩

theorem afterSteps_onBoard
    (cpu : Cpu Memory) (board : Board) (count : Nat)
    (haway : ∀ i < count, ∀ access ∈ (cpu.afterSteps i).step.accesses,
      access.AvoidsDevices) :
    (cpu.onBoard board).afterSteps count = (cpu.afterSteps count).onBoard board := by
  induction count with
  | zero => rfl
  | succ count ih =>
      have hbefore := ih fun i hi => haway i (Nat.lt_succ_of_lt hi)
      have hlast := haway count (Nat.lt_succ_self count)
      rw [afterSteps_succ, afterSteps_succ, hbefore]
      exact (step_onBoard (cpu.afterSteps count) board hlast).2

/-- The processor on the board agrees with the one on plain memory, and nothing
has asked for the devices. -/
structure AgreesWith
    (mapped : Cpu Board) (plain : Cpu Memory) (input : List InputItem) (output : Sink) :
    Prop where
  regs : mapped.regs = plain.regs
  memory : ∀ addr, RomImage.base ≤ addr → mapped.bus.peek addr = plain.bus.get addr
  input : mapped.bus.input = input
  output : mapped.bus.output = output
  exitRequested : mapped.bus.exitRequested = false

theorem agreesWith_onBoard
    (cpu : Cpu Memory) {board : Board} (hexit : board.exitRequested = false) :
    AgreesWith (cpu.onBoard board) cpu board.input board.output := by
  cases board
  constructor
  · rfl
  · exact fun addr haddr => Board.peek_withMemory haddr _ cpu.bus
  · rfl
  · rfl
  · exact hexit

/-- A program that keeps away from the devices cannot tell the board from plain
memory with the same image in it: every step has the same result, failing steps
included, and the two processors agree after each. -/
theorem board_refines_memory
    (data : List Byte) (input : List InputItem) (output : Sink) (trace : Bool)
    (regs : Registers) (n : Nat) :
    let rom := RomImage.ofBytes data
    let plain : Cpu Memory := ⟨regs, Memory.zero.load RomImage.base rom.bytes⟩
    let mapped : Cpu Board := ⟨regs, .ofRom rom input output trace⟩
    (∀ i < n, ∀ access ∈ (plain.afterSteps i).step.accesses, access.AvoidsDevices) →
      (∀ i < n, (mapped.afterSteps i).step.result = (plain.afterSteps i).step.result) ∧
        ∀ i ≤ n, AgreesWith (mapped.afterSteps i) (plain.afterSteps i) input output := by
  intro rom plain mapped haway
  have hstart : mapped = plain.onBoard (.ofRom rom input output trace) := by
    have hstore := Store.ofRom_ofBytes data
    simp only [mapped, onBoard, Board.withMemory, Board.ofRom, rom, plain, hstore]
  have hafter : ∀ i ≤ n, mapped.afterSteps i =
      (plain.afterSteps i).onBoard (.ofRom rom input output trace) := by
    intro i hi
    rw [hstart]
    apply afterSteps_onBoard
    exact fun j hj => haway j (Nat.lt_of_lt_of_le hj hi)
  constructor
  · intro i hi
    rw [hafter i (Nat.le_of_lt hi)]
    exact (step_onBoard _ _ (haway i hi)).1
  · intro i hi
    rw [hafter i hi]
    exact agreesWith_onBoard _ rfl

/-- A push, a division by zero and one step more, beside a console that would
answer. -/
theorem board_refines_memory_push :
    let rom := RomImage.ofBytes [0x09, 0x00, 0x34, 0x12, 0xE1, 0x20]
    let regs := (Registers.startingAt 3).setSp 32
    let plain : Cpu Memory := ⟨regs, Memory.zero.load RomImage.base rom.bytes⟩
    let mapped : Cpu Board := ⟨regs, .ofRom rom [.byte 7] .accepting true⟩
    (∀ i < 3, ∀ access ∈ (plain.afterSteps i).step.accesses, access.AvoidsDevices) ∧
      (mapped.afterSteps 1).step.result = .error (.arithmeticFault .div) ∧
      AgreesWith (mapped.afterSteps 3) (plain.afterSteps 3) [.byte 7] .accepting ∧
      (mapped.afterSteps 3).bus.peek 33 = 0x12 := by
  intro rom regs plain mapped
  have haway : ∀ i < 3, ∀ access ∈ (plain.afterSteps i).step.accesses,
      access.AvoidsDevices := by decide +kernel
  obtain ⟨hresult, hafter⟩ :=
    board_refines_memory [0x09, 0x00, 0x34, 0x12, 0xE1, 0x20] [.byte 7] .accepting true regs
      3 haway
  have hagrees : AgreesWith (mapped.afterSteps 3) (plain.afterSteps 3) [.byte 7]
      .accepting := hafter 3 (Nat.le_refl 3)
  refine ⟨haway, ?_, hagrees, ?_⟩
  · exact (hresult 1 (by decide)).trans (by decide +kernel)
  · exact (hagrees.memory 33 (by decide)).trans (by decide +kernel)

end Cpu

end WordMachine
