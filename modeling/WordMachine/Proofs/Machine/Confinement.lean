import WordMachine.Proofs.Cpu.Failures
import WordMachine.Proofs.Instruction.Footprint
import WordMachine.Proofs.Machine.Rounds

/-!
# Code stays in the ROM

However a program changes itself and wherever it jumps, a machine that only runs
takes its instructions from below the RAM.  The guard behind each step keeps the
program counter there, `belowRam_of_driven`, and the devices refuse to be fetched
from, so that a step which succeeds starts in the ROM.  The last instruction may
begin in the last byte of the ROM and reaches at most three bytes further.
-/

namespace WordMachine

open Instruction

namespace Cpu

variable {σ : Type} [Bus σ]

/-- The accesses of a step to its instruction, the operand included. -/
def codeAccesses (cpu : Cpu σ) : List Access :=
  let made := cpu.step.accesses
  let bytes := answers made
  let instr := decode (bytes.headD 0) (bytes.tail.headD 0)
  made.take (2 + instr.operandLength.toNat)

theorem length_operandRequests (instr : Instruction) (p : Address) :
    (instr.operandRequests p).length = instr.operandLength.toNat := by
  have hlength : instr.operandLength = 0 ∨ instr.operandLength = 2 := by
    unfold operandLength
    repeat' split
    all_goals simp
  unfold operandRequests
  obtain hlength | hlength := hlength <;> simp [hlength, Request.readWord]

theorem isPrefix_code (instr : Instruction) (p : Address) :
    Request.readWord p ++ instr.operandRequests p <+:
      [.read p, .read (p + 1), .read (p + 2), .read (p + 3)] := by
  have hlast : p + 2 + 1 = p + 3 := UInt16.add_assoc p 2 1
  unfold operandRequests
  split <;> simp [Request.readWord, hlast]

theorem codeAccesses_isPrefix (cpu : Cpu σ) :
    let p := cpu.regs.pc
    cpu.codeAccesses.map Access.request <+:
      [.read p, .read (p + 1), .read (p + 2), .read (p + 3)] := by
  intro p
  by_cases hpc : cpu.regs.pc = sentinel
  · simp [codeAccesses, accesses_eq_nil_iff.mpr hpc]
  · have hplanned := step_requests_isPrefix hpc
    rw [requests_cycle, requests_effect (Registers.pc_advancePc _ _), ← List.append_assoc]
      at hplanned
    have hcode := List.prefix_of_prefix_length_le
      ((List.take_prefix _ _).trans hplanned) (List.prefix_append _ _)
      (by rw [List.length_append, length_operandRequests]; exact List.length_take_le _ _)
    rw [← List.map_take] at hcode
    exact hcode.trans (isPrefix_code _ p)

theorem address_of_codeAccess
    {cpu : Cpu σ} {access : Access} (hcode : access ∈ cpu.codeAccesses) :
    ∃ offset ≤ 3, access.address = cpu.regs.pc + UInt16.ofNat offset := by
  have hmem := (codeAccesses_isPrefix cpu).subset (List.mem_map_of_mem hcode)
  have haddress : ∀ {addr}, access.request = .read addr → access.address = addr := by
    intro addr hrequest
    cases access <;> simp_all [Access.request, Access.address]
  simp only [List.mem_cons, List.not_mem_nil, or_false] at hmem
  obtain hmem | hmem | hmem | hmem := hmem
  · exact ⟨0, by omega, by simpa using haddress hmem⟩
  · exact ⟨1, by omega, haddress hmem⟩
  · exact ⟨2, by omega, haddress hmem⟩
  · exact ⟨3, by omega, haddress hmem⟩

/-- A device that refuses to be read from refuses to be fetched from. -/
theorem step_at_refusing
    {cpu : Cpu Board}
    (hport : cpu.regs.pc = Board.exitStrobe ∨ cpu.regs.pc = Board.consoleOutput) :
    cpu.step.result = .error (.bus (.addressInvalid cpu.regs.pc)) := by
  apply step_of_fetch_error
  · intro hsentinel
    rw [hsentinel] at hport
    exact absurd hport (by decide)
  · change (Transaction.run (.read cpu.regs.pc _) cpu.bus).result = _
    rw [Transaction.run, Board.read_refused hport]

/-- What is fetched at the console input is a byte of the input and then nothing. -/
theorem step_at_consoleInput
    {cpu : Cpu Board} (hpc : cpu.regs.pc = Board.consoleInput) :
    cpu.step.result = .error (.bus
      (match (InputItem.receive cpu.bus.input).1 with
      | .ok _ => .addressInvalid 2
      | .error error => Board.consoleFailure error)) := by
  apply step_of_fetch_error
  · rw [hpc]
    decide
  · rw [hpc]
    have hread : Bus.read Board.consoleInput cpu.bus =
        ((InputItem.receive cpu.bus.input).1.mapError Board.consoleFailure,
          { cpu.bus with input := (InputItem.receive cpu.bus.input).2 }) := rfl
    change (Transaction.run (.read Board.consoleInput _) cpu.bus).result = _
    rw [Transaction.run, hread]
    cases (InputItem.receive cpu.bus.input).1 <;> rfl

end Cpu

namespace Machine

/-- A machine that calls of `run` have led to from `start`, none of which has
ended with an error. -/
inductive Driven (start : Machine) : Machine → Prop where
  | start : Driven start start
  | run {machine : Machine} {rounds : Nat} {summary : RunSummary}
      (driven : Driven start machine)
      (hended : (machine.run rounds).result = some (.ok summary)) :
      Driven start (machine.run rounds).machine

/-- A run of `machine` comes to a round in which `cpu` is stepped. -/
def Attempts (machine : Machine) (cpu : Cpu Board) : Prop :=
  ∃ rounds, (machine.run rounds).result = none ∧
    (machine.run rounds).machine.stopReason? = none ∧
    (machine.run rounds).machine.cpu = cpu

variable {start machine : Machine} {cpu : Cpu Board}

/-- The program counter is not in RAM. -/
def BelowRam (machine : Machine) : Prop :=
  ¬ RomImage.ramBase ≤ machine.cpu.regs.pc

theorem belowRam_turn (machine : Machine) (hopen : machine.turn.result = none) :
    machine.turn.machine.BelowRam := by
  have hround := machine.round_turn
  rw [hopen] at hround
  generalize machine.turn.machine = after at hround ⊢
  cases hround with
  | go hgo hstep hrom => exact hrom

theorem belowRam_run
    (hstart : machine.BelowRam) {rounds : Nat} (hopen : (machine.run rounds).result = none) :
    (machine.run rounds).machine.BelowRam :=
  run_invariant (fun machine _ => belowRam_turn machine) hstart hopen

theorem belowRam_of_driven (hstart : start.BelowRam) (hdriven : Driven start machine) :
    machine.BelowRam := by
  induction hdriven with
  | start => exact hstart
  | run driven hended ih =>
      obtain ⟨before, hopen, hturn, hafter⟩ := exists_last_turn hended
      rw [← hafter, turn_of_ok hturn]
      exact belowRam_run ih hopen

theorem belowRam_ofRom
    (rom : RomImage) (input : List InputItem) (output : Sink) (config : MachineConfig) :
    (ofRom rom input output config).BelowRam := by
  change ¬ RomImage.ramBase ≤ (Registers.startingAt RomImage.base).pc
  decide

theorem Attempts.belowRam (hstart : machine.BelowRam) (hattempts : machine.Attempts cpu) :
    ¬ RomImage.ramBase ≤ cpu.regs.pc := by
  obtain ⟨rounds, hopen, -, rfl⟩ := hattempts
  exact belowRam_run hstart hopen

theorem run_ne_instructionInvalid
    (hstart : machine.BelowRam) (rounds : Nat) (pc invalid : Address) :
    (machine.run rounds).result ≠
      some (.error (.step pc (.instructionInvalid invalid))) := by
  intro hended
  obtain ⟨before, hopen, hturn, -⟩ := exists_last_turn hended
  have hbelow := belowRam_run hstart hopen
  have hround := (machine.run before).machine.round_turn
  rw [hturn] at hround
  generalize (machine.run before).machine = last at hbelow hround
  generalize last.turn.machine = after at hround
  cases hround with
  | fail hgo hstep =>
      have hfails := Cpu.failsWith_of_step hstep
      generalize last.cpu.step.cpu.regs = regs at hfails
      cases hfails with
      | halted hpc =>
          apply hbelow
          rw [hpc]
          decide

theorem Attempts.leave
    {instr : Instruction} (hattempts : machine.Attempts cpu)
    (hstep : cpu.step.result = .ok instr)
    (hram : RomImage.ramBase ≤ cpu.step.cpu.regs.pc) :
    ∃ rounds, (machine.run rounds).result =
      some (.error (.executeFromRam cpu.step.cpu.regs.pc)) := by
  obtain ⟨rounds, hopen, hgo, rfl⟩ := hattempts
  refine ⟨rounds + 1, ?_⟩
  rw [run_succ_of_open hopen, (turn_of_step_ok hgo hstep).1]
  exact if_pos hram

theorem le_last_of_belowRam {pc : Address} (hbelow : ¬ RomImage.ramBase ≤ pc) :
    pc ≤ 0x8002 := by
  rw [UInt16.le_iff_toNat_le] at *
  have hbase : RomImage.ramBase.toNat = 0x8003 := rfl
  have hlast : (0x8002 : Address).toNat = 0x8002 := rfl
  omega

theorem base_le_of_step_ok
    {instr : Instruction} (hstep : cpu.step.result = .ok instr) :
    RomImage.base ≤ cpu.regs.pc := by
  apply Board.base_le_of_ne_device
  · intro hexit
    rw [Cpu.step_at_refusing (.inl hexit)] at hstep
    contradiction
  · intro hinput
    rw [Cpu.step_at_consoleInput hinput] at hstep
    contradiction
  · intro houtput
    rw [Cpu.step_at_refusing (.inr houtput)] at hstep
    contradiction

theorem address_le_of_codeAccess
    {access : Access} (hpc : cpu.regs.pc ≤ 0x8002) (hcode : access ∈ cpu.codeAccesses) :
    access.address ≤ 0x8005 := by
  obtain ⟨offset, hoffset, haddress⟩ := Cpu.address_of_codeAccess hcode
  have hpc : cpu.regs.pc.toNat ≤ 0x8002 := UInt16.le_iff_toNat_le.mp hpc
  have hlast : (0x8005 : Address).toNat = 0x8005 := rfl
  rw [haddress, UInt16.le_iff_toNat_le, UInt16.toNat_add, UInt16.toNat_ofNat', hlast]
  omega

/-- A machine that is only run, from its ROM and up to the first run that fails,
attempts no step in RAM and completes none outside the ROM.  It reads no byte of
its code beyond 0x8005, and it never comes to a step on the sentinel: a step that
leads there, as one that leads anywhere else in RAM, ends the run. -/
theorem run_confined
    (data : List Byte) (input : List InputItem) (output : Sink) (config : MachineConfig)
    {machine : Machine}
    (hdriven : Driven (ofRom (.ofBytes data) input output config) machine) :
    (∀ cpu, machine.Attempts cpu →
      cpu.regs.pc ≤ 0x8002 ∧
      (∀ instr, cpu.step.result = .ok instr →
        3 ≤ cpu.regs.pc ∧
        (RomImage.ramBase ≤ cpu.step.cpu.regs.pc →
          ∃ rounds, (machine.run rounds).result =
            some (.error (.executeFromRam cpu.step.cpu.regs.pc)))) ∧
      ∀ access ∈ cpu.codeAccesses, access.address ≤ 0x8005) ∧
    (∀ cpu : Cpu Board,
      (cpu.regs.pc = 0 → cpu.step.result = .error (.bus (.addressInvalid 0))) ∧
      (cpu.regs.pc = 2 → cpu.step.result = .error (.bus (.addressInvalid 2))) ∧
      (cpu.regs.pc = 1 → cpu.step.result = .error (.bus
        (match (InputItem.receive cpu.bus.input).1 with
        | .ok _ => .addressInvalid 2
        | .error error => Board.consoleFailure error)))) ∧
    ∀ rounds pc invalid,
      (machine.run rounds).result ≠
        some (.error (.step pc (.instructionInvalid invalid))) := by
  have hbelow := belowRam_of_driven (belowRam_ofRom (.ofBytes data) input output config) hdriven
  refine ⟨?_, ?_, run_ne_instructionInvalid hbelow⟩
  · intro cpu hattempts
    have hpc := le_last_of_belowRam (hattempts.belowRam hbelow)
    refine ⟨hpc, ?_, ?_⟩
    · intro instr hstep
      exact ⟨base_le_of_step_ok hstep, hattempts.leave hstep⟩
    · intro access hcode
      exact address_le_of_codeAccess hpc hcode
  · intro cpu
    refine ⟨?_, ?_, Cpu.step_at_consoleInput⟩
    · intro hexit
      rw [Cpu.step_at_refusing (.inl hexit), hexit]
    · intro houtput
      rw [Cpu.step_at_refusing (.inr houtput), houtput]

/-- A jump to the sentinel that reaches the instruction limit as well: the run
ends with the guard. -/
theorem run_confined_jump :
    let start := ofRom (.ofBytes [0x08, 0x00, 0xFF, 0xFF]) [] .accepting ⟨false, some 1⟩
    Driven start start ∧ start.Attempts start.cpu ∧
      start.cpu.step.cpu.regs.pc = Cpu.sentinel ∧
      (∀ access ∈ start.cpu.codeAccesses, access.address ≤ 0x8005) ∧
      ∃ rounds, (start.run rounds).result =
        some (.error (.executeFromRam start.cpu.step.cpu.regs.pc)) := by
  intro start
  have hattempts : start.Attempts start.cpu := ⟨0, rfl, by decide, rfl⟩
  obtain ⟨hsteps, -⟩ :=
    @run_confined [0x08, 0x00, 0xFF, 0xFF] [] .accepting ⟨false, some 1⟩ start .start
  obtain ⟨-, hstep, hcode⟩ := hsteps start.cpu hattempts
  have hjump : start.cpu.step.result = .ok (.decode 0x08 0x00) := by rfl
  exact ⟨.start, hattempts, by decide, hcode, (hstep _ hjump).2 (by decide)⟩

end Machine

end WordMachine
