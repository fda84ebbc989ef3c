import WordMachine.Proofs.Machine.RunLoop

/-!
# Runs round by round

`Machine.Round` says once what a round can do: stop with a summary, fail in its
step, or complete a step, which leads out of the ROM or lets the run go on.  A
run is its rounds.  As long as it has not ended, one more round is a round of the
machine that it has led to (`run_succ_of_open`), and once it has ended nothing
changes any more (`run_succ_of_ended`, `run_eq_of_ended`).  So a run that has ended
did so in one last round (`exists_last_turn`), and what every round keeps, the run
keeps (`run_invariant`).
-/

namespace WordMachine.Machine

variable {machine : Machine}

/-- The result of a round of `machine` and the machine that it leaves. -/
inductive Round (machine : Machine) :
    Option (Except RunError RunSummary) → Machine → Prop where
  | stop {reason : StopReason} (hstop : machine.stopReason? = some reason) :
      machine.Round (some (.ok (machine.summary reason))) machine
  | fail {error : CpuError} (hgo : machine.stopReason? = none)
      (hstep : machine.cpu.step.result = .error error) :
      machine.Round (some (.error (.step machine.cpu.regs.pc error)))
        ⟨machine.cpu.step.cpu, machine.config, machine.executed⟩
  | leave {instr : Instruction} (hgo : machine.stopReason? = none)
      (hstep : machine.cpu.step.result = .ok instr)
      (hram : RomImage.ramBase ≤ machine.next.cpu.regs.pc) :
      machine.Round (some (.error (.executeFromRam machine.next.cpu.regs.pc))) machine.next
  | go {instr : Instruction} (hgo : machine.stopReason? = none)
      (hstep : machine.cpu.step.result = .ok instr)
      (hrom : ¬ RomImage.ramBase ≤ machine.next.cpu.regs.pc) :
      machine.Round none machine.next

theorem round_turn (machine : Machine) :
    machine.Round machine.turn.result machine.turn.machine := by
  cases hstop : machine.stopReason? with
  | some reason =>
      obtain ⟨hresult, hafter⟩ := turn_of_stop hstop
      rw [hresult, hafter]
      exact .stop hstop
  | none =>
      cases hstep : machine.cpu.step.result with
      | error error =>
          obtain ⟨hresult, hafter⟩ := turn_of_step_error hstop hstep
          rw [hresult, hafter]
          exact .fail hstop hstep
      | ok instr =>
          obtain ⟨hresult, hafter⟩ := turn_of_step_ok hstop hstep
          rw [hresult, hafter]
          split
          next hram => exact .leave hstop hstep hram
          next hrom => exact .go hstop hstep hrom

theorem stopReason?_of_turn_ok
    {summary : RunSummary} (hok : machine.turn.result = some (.ok summary)) :
    machine.stopReason? = some summary.stop ∧ summary = machine.summary summary.stop := by
  have hround := machine.round_turn
  rw [hok] at hround
  generalize machine.turn.machine = after at hround
  cases hround with
  | stop hstop => exact ⟨hstop, rfl⟩

/-- A run stops without a change to the machine. -/
theorem turn_of_ok {summary : RunSummary} (hok : machine.turn.result = some (.ok summary)) :
    machine.turn.machine = machine := by
  have hstop := (stopReason?_of_turn_ok hok).1
  exact (turn_of_stop hstop).2

theorem config_turn (machine : Machine) : machine.turn.machine.config = machine.config := by
  have hround := machine.round_turn
  generalize machine.turn.machine = after, machine.turn.result = result at hround ⊢
  cases hround with
  | _ => rfl

/-! ## One more round -/

theorem runFrom_succ_of_open
    {events : Array MachineEvent} {rounds : Nat}
    (hopen : (machine.runFrom events rounds).result = none) :
    machine.runFrom events (rounds + 1) =
      { result := (machine.runFrom events rounds).machine.turn.result
        machine := (machine.runFrom events rounds).machine.turn.machine
        events := (machine.runFrom events rounds).events ++
          (machine.runFrom events rounds).machine.turn.events } := by
  induction rounds generalizing machine events with
  | zero =>
      cases hturn : machine.turn.result with
      | some result =>
          rw [runFrom_succ_of_some hturn, ← hturn]
          rfl
      | none =>
          rw [runFrom_succ_of_none hturn]
          simp only [runFrom, hturn]
  | succ rounds ih =>
      cases hturn : machine.turn.result with
      | some result =>
          rw [runFrom_succ_of_some hturn] at hopen
          contradiction
      | none =>
          rw [runFrom_succ_of_none hturn] at hopen
          rw [runFrom_succ_of_none hturn, runFrom_succ_of_none hturn]
          exact ih hopen

theorem runFrom_succ_of_ended
    {events : Array MachineEvent} {rounds : Nat} {result : Except RunError RunSummary}
    (hended : (machine.runFrom events rounds).result = some result) :
    machine.runFrom events (rounds + 1) = machine.runFrom events rounds := by
  induction rounds generalizing machine events with
  | zero => contradiction
  | succ rounds ih =>
      cases hturn : machine.turn.result with
      | some last => rw [runFrom_succ_of_some hturn, runFrom_succ_of_some hturn]
      | none =>
          rw [runFrom_succ_of_none hturn] at hended
          rw [runFrom_succ_of_none hturn, runFrom_succ_of_none hturn]
          exact ih hended

theorem run_succ_of_open
    {rounds : Nat} (hopen : (machine.run rounds).result = none) :
    machine.run (rounds + 1) =
      { result := (machine.run rounds).machine.turn.result
        machine := (machine.run rounds).machine.turn.machine
        events := (machine.run rounds).events ++ (machine.run rounds).machine.turn.events } :=
  runFrom_succ_of_open hopen

theorem run_succ_of_ended
    {rounds : Nat} {result : Except RunError RunSummary}
    (hended : (machine.run rounds).result = some result) :
    machine.run (rounds + 1) = machine.run rounds :=
  runFrom_succ_of_ended hended

theorem open_of_open_succ
    {rounds : Nat} (hopen : (machine.run (rounds + 1)).result = none) :
    (machine.run rounds).result = none := by
  cases hrun : (machine.run rounds).result with
  | none => rfl
  | some result =>
      rw [run_succ_of_ended hrun, hrun] at hopen
      contradiction

/-- A run that goes on has made a successful step in its last round. -/
theorem step_of_open_succ
    {rounds : Nat} (hopen : (machine.run (rounds + 1)).result = none) :
    (machine.run rounds).result = none ∧
      (machine.run rounds).machine.stopReason? = none ∧
      (∃ instr, (machine.run rounds).machine.cpu.step.result = .ok instr) ∧
      (machine.run (rounds + 1)).machine = (machine.run rounds).machine.next := by
  have hbefore := open_of_open_succ hopen
  rw [run_succ_of_open hbefore] at hopen ⊢
  have hround := (machine.run rounds).machine.round_turn
  rw [show (machine.run rounds).machine.turn.result = none from hopen] at hround
  generalize (machine.run rounds).machine.turn.machine = after at hround ⊢
  cases hround with
  | go hgo hstep hrom => exact ⟨hbefore, hgo, ⟨_, hstep⟩, rfl⟩

theorem run_eq_of_ended
    {rounds more : Nat} {result : Except RunError RunSummary}
    (hended : (machine.run rounds).result = some result) (hle : rounds ≤ more) :
    machine.run more = machine.run rounds := by
  induction hle with
  | refl => rfl
  | @step more hle ih =>
      have hended' : (machine.run more).result = some result := by rw [ih, hended]
      rw [run_succ_of_ended hended', ih]

theorem lt_of_open_of_ended
    {rounds more : Nat} {result : Except RunError RunSummary}
    (hopen : (machine.run rounds).result = none)
    (hended : (machine.run more).result = some result) : rounds < more := by
  rcases Nat.lt_or_ge rounds more with hlt | hle
  · exact hlt
  · rw [run_eq_of_ended hended hle, hended] at hopen
    contradiction

/-- Whoever waits for the end of a run sees the same end. -/
theorem run_eq_of_both_ended
    {rounds rounds' : Nat} {result result' : Except RunError RunSummary}
    (hended : (machine.run rounds).result = some result)
    (hended' : (machine.run rounds').result = some result') :
    machine.run rounds = machine.run rounds' := by
  rcases Nat.le_total rounds rounds' with hle | hle
  · exact (run_eq_of_ended hended hle).symm
  · exact run_eq_of_ended hended' hle

/-! ## Whole runs -/

theorem exists_last_turn
    {rounds : Nat} {result : Except RunError RunSummary}
    (hended : (machine.run rounds).result = some result) :
    ∃ before, (machine.run before).result = none ∧
      (machine.run before).machine.turn.result = some result ∧
      (machine.run before).machine.turn.machine = (machine.run rounds).machine := by
  induction rounds with
  | zero => contradiction
  | succ rounds ih =>
      cases hrun : (machine.run rounds).result with
      | none =>
          rw [run_succ_of_open hrun] at hended ⊢
          exact ⟨rounds, hrun, hended, rfl⟩
      | some last =>
          rw [run_succ_of_ended hrun] at hended ⊢
          exact ih hended

theorem run_invariant
    {Keeps : Machine → Prop}
    (hturn : ∀ machine, Keeps machine → machine.turn.result = none →
      Keeps machine.turn.machine)
    (hstart : Keeps machine) {rounds : Nat}
    (hopen : (machine.run rounds).result = none) :
    Keeps (machine.run rounds).machine := by
  induction rounds with
  | zero => exact hstart
  | succ rounds ih =>
      have hbefore := open_of_open_succ hopen
      rw [run_succ_of_open hbefore] at hopen ⊢
      exact hturn _ (ih hbefore) hopen

theorem config_run (machine : Machine) (rounds : Nat) :
    (machine.run rounds).machine.config = machine.config := by
  induction rounds with
  | zero => rfl
  | succ rounds ih =>
      cases hrun : (machine.run rounds).result with
      | none => rw [run_succ_of_open hrun, config_turn, ih]
      | some result => rw [run_succ_of_ended hrun, ih]

/-- The rounds of a run that has not ended are successful steps. -/
theorem after?_of_open {rounds : Nat} (hopen : (machine.run rounds).result = none) :
    machine.cpu.after? rounds = some (machine.run rounds).machine.cpu := by
  induction rounds with
  | zero => rfl
  | succ rounds ih =>
      rcases step_of_open_succ hopen with ⟨hbefore, -, ⟨instr, hstep⟩, hnext⟩
      rw [hnext]
      exact Cpu.after?_succ_of_after? (ih hbefore) hstep

end WordMachine.Machine
