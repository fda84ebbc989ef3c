import WordMachine.Proofs.Machine.Configuration
import WordMachine.Proofs.Machine.Confinement

/-!
# The steps of a run

A run steps its processor once in each round that finds no reason to stop.
`Machine.stepped` lists the processors that a run steps, each as it was before its step,
so that there is one entry for every instruction that the run attempts.

The list tells what a run does.  The events of the run are those of its steps, one after
the other, and behind them one event at most, which says how the run has ended
(`events_run`).  The instructions that a run counts are the steps that succeed
(`executed_run`).  And since the guard of the RAM looks at the program counter behind
each step, the first step of a run is the only one that can start in RAM
(`belowRam_of_mem_tail`).
-/

namespace WordMachine

/-- The instruction at the program counter is executed without an error. -/
def Cpu.succeeds {σ : Type} [Bus σ] (cpu : Cpu σ) : Bool :=
  cpu.step.result.isOk

theorem Cpu.succeeds_iff {σ : Type} [Bus σ] {cpu : Cpu σ} :
    cpu.succeeds = true ↔ ∃ instr, cpu.step.result = .ok instr := by
  unfold succeeds
  cases cpu.step.result with
  | error error => simp [Except.isOk, Except.toBool]
  | ok instr => simp [Except.isOk, Except.toBool]

namespace Machine

/-- The processor that a run steps in one of its rounds, unless the run has ended before
that round or stops in it. -/
def stepIn? (machine : Machine) (round : Nat) : Option (Cpu Board) :=
  let before := machine.run round
  if before.result.isNone && before.machine.stopReason?.isNone then some before.machine.cpu
  else none

/-- The processors that a run of so many rounds steps. -/
def stepped (machine : Machine) (rounds : Nat) : List (Cpu Board) :=
  (List.range rounds).filterMap machine.stepIn?

/-- What the end of a run adds to its events. -/
def closing : Option (Except RunError RunSummary) → List MachineEvent
  | some (.ok summary) => [.stopped summary.instructions summary.stop]
  | some (.error (.step pc error)) => [.stepFailed pc error]
  | some (.error (.executeFromRam _)) => []
  | none => []

@[simp] theorem closing_none : closing none = [] := rfl

variable {machine : Machine} {rounds round : Nat} {cpu : Cpu Board}

theorem stepIn?_of_ended
    {result : Except RunError RunSummary} (hended : (machine.run round).result = some result) :
    machine.stepIn? round = none := by
  simp [stepIn?, hended]

theorem stepIn?_of_stop
    {reason : StopReason} (hstop : (machine.run round).machine.stopReason? = some reason) :
    machine.stepIn? round = none := by
  simp [stepIn?, hstop]

theorem stepIn?_of_go
    (hopen : (machine.run round).result = none)
    (hgo : (machine.run round).machine.stopReason? = none) :
    machine.stepIn? round = some (machine.run round).machine.cpu := by
  simp [stepIn?, hopen, hgo]

theorem open_of_stepIn? (hstep : machine.stepIn? round = some cpu) :
    (machine.run round).result = none ∧ (machine.run round).machine.stopReason? = none ∧
      (machine.run round).machine.cpu = cpu := by
  simp only [stepIn?, Bool.and_eq_true, Option.isNone_iff_eq_none] at hstep
  split at hstep
  next hgo => exact ⟨hgo.1, hgo.2, Option.some.inj hstep⟩
  next => contradiction

@[simp] theorem stepped_zero (machine : Machine) : machine.stepped 0 = [] := rfl

theorem stepped_succ (machine : Machine) (rounds : Nat) :
    machine.stepped (rounds + 1) =
      machine.stepped rounds ++ (machine.stepIn? rounds).toList := by
  unfold stepped
  rw [List.range_succ, List.filterMap_append]
  cases hstep : machine.stepIn? rounds <;> simp [hstep]

theorem mem_stepped_iff :
    cpu ∈ machine.stepped rounds ↔ ∃ round < rounds, machine.stepIn? round = some cpu := by
  simp [stepped]

/-! ## The events of a run -/

theorem events_turn_of_stop
    {reason : StopReason} (hstop : machine.stopReason? = some reason) :
    machine.turn.events = closing machine.turn.result := by
  unfold turn
  rw [hstop]
  rfl

theorem events_turn_of_go (hgo : machine.stopReason? = none) :
    machine.turn.events =
      machine.cpu.step.events.map (.ofCpu machine.cpu.bus.trace) ++
        closing machine.turn.result := by
  unfold turn
  rw [hgo]
  simp only [stepBoard_eq]
  rcases hstep : machine.cpu.step with ⟨error | instr, cpu, events⟩
  · rfl
  · simp only
    split <;> simp [closing]

theorem events_run (machine : Machine) (rounds : Nat) :
    (machine.run rounds).events.toList =
      (machine.stepped rounds).flatMap (fun cpu => cpu.step.events.map (.ofCpu cpu.bus.trace)) ++
        closing (machine.run rounds).result := by
  induction rounds with
  | zero => rfl
  | succ rounds ih =>
      rw [stepped_succ]
      cases hrun : (machine.run rounds).result with
      | some result =>
          rw [run_succ_of_ended hrun, stepIn?_of_ended hrun, ih]
          simp
      | none =>
          rw [hrun] at ih
          rw [run_succ_of_open hrun]
          simp only [Array.toList_appendList, ih, closing_none, List.append_nil]
          cases hstop : (machine.run rounds).machine.stopReason? with
          | some reason =>
              rw [stepIn?_of_stop hstop, events_turn_of_stop hstop]
              simp
          | none =>
              rw [stepIn?_of_go hrun hstop, events_turn_of_go hstop]
              simp

/-! ## The steps that succeed -/

/-- How many instructions a run of so many rounds completes. -/
def completed (machine : Machine) (rounds : Nat) : Nat :=
  (machine.stepped rounds).countP Cpu.succeeds

theorem completed_succ (machine : Machine) (rounds : Nat) :
    machine.completed (rounds + 1) =
      machine.completed rounds + (machine.stepIn? rounds).toList.countP Cpu.succeeds := by
  unfold completed
  rw [stepped_succ, List.countP_append]

theorem executed_turn_of_go (hgo : machine.stopReason? = none) :
    machine.turn.machine.executed =
      machine.executed + UInt64.ofNat ([machine.cpu].countP Cpu.succeeds) := by
  cases hstep : machine.cpu.step.result with
  | error error =>
      rw [(turn_of_step_error hgo hstep).2]
      simp [Cpu.succeeds, hstep, Except.isOk, Except.toBool]
  | ok instr =>
      rw [(turn_of_step_ok hgo hstep).2]
      simp [next, Cpu.succeeds, hstep, Except.isOk, Except.toBool]

theorem executed_run (machine : Machine) (rounds : Nat) :
    (machine.run rounds).machine.executed =
      machine.executed + UInt64.ofNat (machine.completed rounds) := by
  induction rounds with
  | zero => simp [completed, run, runFrom]
  | succ rounds ih =>
      rw [completed_succ]
      cases hrun : (machine.run rounds).result with
      | some result =>
          rw [run_succ_of_ended hrun, stepIn?_of_ended hrun, ih]
          simp
      | none =>
          rw [run_succ_of_open hrun]
          cases hstop : (machine.run rounds).machine.stopReason? with
          | some reason =>
              rw [(turn_of_stop hstop).2, stepIn?_of_stop hstop, ih]
              simp
          | none =>
              rw [executed_turn_of_go hstop, stepIn?_of_go hrun hstop, ih, UInt64.ofNat_add,
                UInt64.add_assoc]
              rfl

/-- A limit bounds what all runs together complete. -/
theorem completed_le_of_limit
    {limit : UInt64} (hlimit : machine.config.instructionLimit = some limit)
    (hstart : machine.executed ≤ limit) (rounds : Nat) :
    machine.executed.toNat + machine.completed rounds ≤ limit.toNat := by
  induction rounds with
  | zero => exact UInt64.le_iff_toNat_le.mp hstart
  | succ rounds ih =>
      rw [completed_succ]
      cases hstep : machine.stepIn? rounds with
      | none => simpa using ih
      | some cpu =>
          rcases open_of_stepIn? hstep with ⟨-, hgo, -⟩
          have hconfig : (machine.run rounds).machine.config.instructionLimit = some limit := by
            rw [config_run, hlimit]
          have hlt := (stopReason?_eq_none_iff.mp hgo).2 limit hconfig
          have hcount : machine.executed.toNat + machine.completed rounds < 2 ^ 64 :=
            Nat.lt_of_le_of_lt ih limit.toNat_lt
          rw [executed_run, UInt64.lt_iff_toNat_lt, UInt64.toNat_add, UInt64.toNat_ofNat',
            Nat.add_mod_mod, Nat.mod_eq_of_lt hcount] at hlt
          have hone : [cpu].countP Cpu.succeeds ≤ 1 := List.countP_le_length
          simp only [Option.toList_some]
          omega

/-! ## The guard of the RAM -/

/-- Behind its first step a run has passed the guard. -/
theorem belowRam_of_stepIn?_succ (hstep : machine.stepIn? (round + 1) = some cpu) :
    ¬ RomImage.ramBase ≤ cpu.regs.pc := by
  rcases open_of_stepIn? hstep with ⟨hopen, -, rfl⟩
  have hbefore := open_of_open_succ hopen
  rw [run_succ_of_open hbefore] at hopen ⊢
  exact belowRam_turn _ hopen

theorem belowRam_of_mem_tail (hmem : cpu ∈ (machine.stepped rounds).tail) :
    ¬ RomImage.ramBase ≤ cpu.regs.pc := by
  cases rounds with
  | zero => contradiction
  | succ rounds =>
      have hlater : cpu ∈ ((List.range rounds).map Nat.succ).filterMap machine.stepIn? := by
        unfold stepped at hmem
        rw [List.range_succ_eq_map, List.filterMap_cons] at hmem
        split at hmem
        next => exact List.mem_of_mem_tail hmem
        next => exact hmem
      simp only [List.mem_filterMap, List.mem_map] at hlater
      rcases hlater with ⟨_, ⟨round, -, rfl⟩, hstep⟩
      exact belowRam_of_stepIn?_succ hstep

end Machine

end WordMachine
