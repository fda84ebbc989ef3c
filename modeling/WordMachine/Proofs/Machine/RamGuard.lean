import WordMachine.Proofs.Machine.Board
import WordMachine.Proofs.Machine.Runs
import WordMachine.Proofs.Machine.Store

/-!
# How far the guard of the RAM reaches

The guard looks at the program counter behind each step of a run.  It therefore ends the
run that leads into RAM, but it does not stand in the way of the next one: a machine that
is run again steps once from where it is, before the guard looks again.
`executesRam_iff` says exactly when that step executes an instruction in RAM, and
`ram_guard_lapses` is a machine on which it does.

The guard stays in force on a machine that has been asked to stop or has reached its
limit, and on one whose program counter rests on the sentinel.  Such a machine does not
change any more, however often it is run (`machine_runs_of_stuck`).
-/

namespace WordMachine

/-- A word of zeros does nothing. -/
theorem Cpu.step_of_zero_word
    {σ : Type} [Bus σ] {cpu : Cpu σ} (hpc : cpu.regs.pc ≠ sentinel)
    (hfirst : Bus.read cpu.regs.pc cpu.bus = (.ok 0, cpu.bus))
    (hsecond : Bus.read (cpu.regs.pc + 1) cpu.bus = (.ok 0, cpu.bus)) :
    cpu.step.result = .ok (.decode 0 0) ∧
      cpu.step.cpu = ⟨cpu.regs.advancePc 2, cpu.bus⟩ := by
  have hfetch : (Instruction.fetch cpu.regs.pc).run cpu.bus =
      ⟨.ok (.decode 0 0), cpu.bus,
        [.read cpu.regs.pc 0, .read (cpu.regs.pc + 1) 0]⟩ := by
    change (Transaction.read cpu.regs.pc _).run cpu.bus = _
    rw [Transaction.run, hfirst]
    simp only
    change ((Transaction.read (cpu.regs.pc + 1) _).run cpu.bus).after _ = _
    rw [Transaction.run, hsecond]
    rfl
  rcases cpu with ⟨regs, bus⟩
  simp only at hpc hfetch
  simp only [step]
  rw [if_neg hpc, hfetch]
  exact ⟨rfl, rfl⟩

/-- The RAM is blank at first, however long the file of the image. -/
theorem Board.read_ram_ofRom
    (data : List Byte) (input : List InputItem) (output : Sink) (trace : Bool)
    {addr : Address} (hram : RomImage.ramBase ≤ addr) :
    Bus.read addr (ofRom (.ofBytes data) input output trace) =
      (.ok 0, ofRom (.ofBytes data) input output trace) := by
  have hnat : 0x8003 ≤ addr.toNat := UInt16.le_iff_toNat_le.mp hram
  have haddr : RomImage.base ≤ addr := by
    have hbase : RomImage.base.toNat = 3 := rfl
    rw [UInt16.le_iff_toNat_le]
    omega
  have hbeyond : (data.take RomImage.size).length ≤ addr.toNat - 3 := by
    have hlength := List.length_take_le RomImage.size data
    have hsize : RomImage.size = 0x8000 := rfl
    omega
  have hzero : (Store.ofRom (.ofBytes data)).get addr haddr = 0 := by
    rw [Store.get_ofRom, List.getElem?_eq_none hbeyond, Option.getD_none]
  rw [read_of_base_le haddr]
  simp only [ofRom, hzero]

namespace Machine

variable {machine : Machine} {rounds : Nat}

/-- A run of so many rounds executes an instruction that starts in RAM. -/
def ExecutesRam (machine : Machine) (rounds : Nat) : Prop :=
  ∃ cpu ∈ machine.stepped rounds, RomImage.ramBase ≤ cpu.regs.pc ∧ cpu.succeeds = true

/-- A run executes an instruction in RAM exactly if it begins with one. -/
theorem executesRam_iff (hrounds : 0 < rounds) :
    machine.ExecutesRam rounds ↔
      machine.stopReason? = none ∧ RomImage.ramBase ≤ machine.cpu.regs.pc ∧
        machine.cpu.succeeds = true := by
  constructor
  · rintro ⟨cpu, hmem, hram, hsucceeds⟩
    rcases mem_stepped_iff.mp hmem with ⟨round, -, hstep⟩
    cases round with
    | zero =>
        rcases open_of_stepIn? hstep with ⟨-, hgo, rfl⟩
        exact ⟨hgo, hram, hsucceeds⟩
    | succ round => exact absurd hram (belowRam_of_stepIn?_succ hstep)
  · rintro ⟨hgo, hram, hsucceeds⟩
    have hfirst : machine.stepIn? 0 = some machine.cpu := stepIn?_of_go rfl hgo
    exact ⟨machine.cpu, mem_stepped_iff.mpr ⟨0, hrounds, hfirst⟩, hram, hsucceeds⟩

/-! ## Machines that do not change any more -/

/-- The machine has a reason to stop, or nothing can be fetched. -/
def Stuck (machine : Machine) : Prop :=
  machine.stopReason? ≠ none ∨ machine.cpu.regs.pc = Cpu.sentinel

theorem machine_run_of_stuck (hstuck : machine.Stuck) (rounds : Nat) :
    (machine.run rounds).machine = machine := by
  cases hstop : machine.stopReason? with
  | some reason => exact machine_run_of_stop hstop rounds
  | none =>
      rcases hstuck with hreason | hpc
      · exact absurd hstop hreason
      · have hstep := Cpu.step_of_sentinel hpc
        have hfails := congrArg Cpu.Step.result hstep
        rcases turn_of_step_error hstop hfails with ⟨hresult, hafter⟩
        cases rounds with
        | zero => rfl
        | succ rounds =>
            unfold run
            rw [runFrom_succ_of_some hresult, hafter, hstep]

theorem machine_runs_of_stuck (hstuck : machine.Stuck) (calls : List Nat) :
    (machine.runs calls).machine = machine := by
  induction calls with
  | nil => rfl
  | cons rounds later ih =>
      rw [runs_cons, machine_run_of_stuck hstuck]
      exact ih

theorem not_executesRam_of_stuck (hstuck : machine.Stuck) (rounds : Nat) :
    ¬ machine.ExecutesRam rounds := by
  intro hexecutes
  rcases Nat.eq_zero_or_pos rounds with rfl | hrounds
  · rcases hexecutes with ⟨cpu, hmem, -⟩
    contradiction
  · rcases (executesRam_iff hrounds).mp hexecutes with ⟨hgo, -, hsucceeds⟩
    rcases hstuck with hreason | hpc
    · exact hreason hgo
    · rcases Cpu.succeeds_iff.mp hsucceeds with ⟨instr, hstep⟩
      rw [Cpu.step_of_sentinel hpc] at hstep
      contradiction

theorem pc_of_executeFromRam
    {pc : Address} (hleft : (machine.run rounds).result = some (.error (.executeFromRam pc))) :
    (machine.run rounds).machine.cpu.regs.pc = pc ∧ RomImage.ramBase ≤ pc := by
  rcases exists_last_turn hleft with ⟨before, -, hturn, hlast⟩
  have hround := (machine.run before).machine.round_turn
  rw [hturn, hlast] at hround
  generalize (machine.run rounds).machine = after at hround ⊢
  cases hround with
  | leave hgo hstep hram => exact ⟨rfl, hram⟩

/-- The guard behind a run that has led into RAM.  However the machine is run from there
on, a run executes an instruction in RAM exactly if it finds no reason to stop, begins in
RAM, and its first step succeeds; no other step of it starts there.  If the machine has a
reason to stop or rests on the sentinel, no later run executes anything in RAM. -/
theorem ram_guard_reach
    (rom : RomImage) (input : List InputItem) (output : Sink) (config : MachineConfig)
    (calls : List Nat) {rounds : Nat} {pc : Address}
    (hleft : (((ofRom rom input output config).runs calls).machine.run rounds).result =
      some (.error (.executeFromRam pc))) :
    let left := (((ofRom rom input output config).runs calls).machine.run rounds).machine
    left.cpu.regs.pc = pc ∧ RomImage.ramBase ≤ pc ∧
    (∀ later next, 0 < next →
      let machine := (left.runs later).machine
      (machine.ExecutesRam next ↔
        machine.stopReason? = none ∧ RomImage.ramBase ≤ machine.cpu.regs.pc ∧
          machine.cpu.succeeds = true) ∧
      ∀ cpu ∈ (machine.stepped next).tail, ¬ RomImage.ramBase ≤ cpu.regs.pc) ∧
    (left.stopReason? ≠ none ∨ pc = Cpu.sentinel →
      ∀ later next, ¬ (left.runs later).machine.ExecutesRam next) := by
  intro left
  rcases pc_of_executeFromRam hleft with ⟨hpc, hram⟩
  refine ⟨hpc, hram, ?_, ?_⟩
  · intro later next hnext machine
    exact ⟨executesRam_iff hnext, fun cpu hmem => belowRam_of_mem_tail hmem⟩
  · intro hforce later next
    have hstuck : left.Stuck := by
      rw [← hpc] at hforce
      exact hforce
    rw [machine_runs_of_stuck hstuck]
    exact not_executesRam_of_stuck hstuck next

/-- A machine whose first instruction jumps to the first address of the RAM. -/
def jumpingToRam (limit : Option UInt64) : Machine :=
  ofRom (.ofBytes [0x08, 0x00, 0x03, 0x80]) [] .accepting
    (MachineConfig.initial.withInstructionLimit limit)

/-- A jump into RAM that reaches the limit as well: the guard ends this run, and the limit
keeps it in force. -/
theorem ram_guard_reach_limited :
    let start := jumpingToRam (some 1)
    let left := (start.run 1).machine
    (start.run 1).result = some (.error (.executeFromRam 0x8003)) ∧
      left.cpu.regs.pc = 0x8003 ∧
      left.stopReason? = some .instructionLimit ∧
      ¬ (left.runs [2, 1]).machine.ExecutesRam 3 := by
  intro start left
  have hleft : (start.run 1).result = some (.error (.executeFromRam 0x8003)) := by rfl
  have hstop : left.stopReason? = some .instructionLimit := by rfl
  rcases ram_guard_reach (.ofBytes [0x08, 0x00, 0x03, 0x80]) [] .accepting
    (MachineConfig.initial.withInstructionLimit (some 1)) [] hleft with ⟨hpc, -, -, hforce⟩
  have hreason : left.stopReason? ≠ none := by
    rw [hstop]
    exact Option.some_ne_none _
  exact ⟨hleft, hpc, hstop, hforce (.inl hreason) [2, 1] 3⟩

/-- The guard does not hold back the run after the one that it has ended: run again, the
machine executes the instruction in RAM that the guard has reported, and counts it. -/
theorem ram_guard_lapses :
    let left := ((jumpingToRam none).run 1).machine
    ((jumpingToRam none).run 1).result = some (.error (.executeFromRam 0x8003)) ∧
      left.ExecutesRam 1 ∧ (left.run 1).machine.executed = 2 := by
  intro left
  have hleft : ((jumpingToRam none).run 1).result =
      some (.error (.executeFromRam 0x8003)) := by rfl
  have hpc : left.cpu.regs.pc = 0x8003 := by rfl
  have hbus : left.cpu.bus =
      Board.ofRom (.ofBytes [0x08, 0x00, 0x03, 0x80]) [] .accepting false := by rfl
  have hgo : left.stopReason? = none := by rfl
  have hstep : left.cpu.step.result = .ok (.decode 0 0) := by
    apply (Cpu.step_of_zero_word _ _ _).1
    · rw [hpc]
      decide
    · rw [hpc, hbus]
      exact Board.read_ram_ofRom _ _ _ _ (by decide)
    · rw [hpc, hbus]
      exact Board.read_ram_ofRom _ _ _ _ (by decide)
  have hexecutes : left.ExecutesRam 1 := by
    apply (executesRam_iff Nat.one_pos).mpr
    rw [hpc]
    exact ⟨hgo, by decide, Cpu.succeeds_iff.mpr ⟨_, hstep⟩⟩
  have hcompleted : left.completed 1 = 1 := by
    have hfirst : left.stepIn? 0 = some left.cpu := stepIn?_of_go rfl hgo
    rw [completed_succ, hfirst]
    simp [completed, Cpu.succeeds_iff.mpr ⟨_, hstep⟩]
  refine ⟨hleft, hexecutes, ?_⟩
  rw [executed_run, hcompleted]
  rfl

end Machine

end WordMachine
