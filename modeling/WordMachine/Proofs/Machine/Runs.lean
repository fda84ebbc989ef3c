import WordMachine.Machine.Host
import WordMachine.Proofs.Machine.Sessions
import WordMachine.Proofs.Machine.Steps

/-!
# Run after run

A machine may be run again, whatever its last run has returned.  `Machine.runs` makes
several runs one after the other and nothing else, and `Machine.steppedBy` lists the
processors that they step.

The instruction limit is a limit on all runs of a machine together
(`completedBy_le_of_limit`).  A run that stops without an error leaves a machine with a
reason to stop.  Such a machine is at its end: another run finds the same reason before its
first step, so it returns the same summary and leaves everything as it was
(`runs_of_stop`).
-/

namespace WordMachine.Machine

/-- What runs of so many rounds leave behind, each made where the one before it ended. -/
def runs (calls : List Nat) (machine : Machine) : Session :=
  HostOperation.performAll (calls.map .run) machine

/-- The processors that runs of so many rounds step. -/
def steppedBy : List Nat → Machine → List (Cpu Board)
  | [], _ => []
  | rounds :: later, machine =>
    machine.stepped rounds ++ steppedBy later (machine.run rounds).machine

variable {machine : Machine} {calls later : List Nat} {rounds : Nat}

@[simp] theorem runs_nil (machine : Machine) : machine.runs [] = ⟨[], machine, []⟩ := rfl

theorem runs_cons (rounds : Nat) (later : List Nat) (machine : Machine) :
    machine.runs (rounds :: later) =
      { answers := .run (machine.run rounds).result ::
          ((machine.run rounds).machine.runs later).answers
        machine := ((machine.run rounds).machine.runs later).machine
        events := (machine.run rounds).events.toList ++
          ((machine.run rounds).machine.runs later).events } := rfl

/-! ## The instructions of all runs -/

/-- How many instructions runs of so many rounds complete. -/
def completedBy (machine : Machine) (calls : List Nat) : Nat :=
  (machine.steppedBy calls).countP Cpu.succeeds

theorem completedBy_cons (rounds : Nat) (later : List Nat) (machine : Machine) :
    machine.completedBy (rounds :: later) =
      machine.completed rounds + (machine.run rounds).machine.completedBy later := by
  unfold completedBy completed
  rw [steppedBy, List.countP_append]

theorem executed_runs (calls : List Nat) (machine : Machine) :
    (machine.runs calls).machine.executed =
      machine.executed + UInt64.ofNat (machine.completedBy calls) := by
  induction calls generalizing machine with
  | nil => simp [completedBy, steppedBy]
  | cons rounds later ih =>
      rw [runs_cons, completedBy_cons, ih, executed_run, UInt64.ofNat_add, UInt64.add_assoc]

theorem executed_run_of_limit
    {limit : UInt64} (hlimit : machine.config.instructionLimit = some limit)
    (hstart : machine.executed ≤ limit) (rounds : Nat) :
    (machine.run rounds).machine.executed.toNat =
        machine.executed.toNat + machine.completed rounds ∧
      (machine.run rounds).machine.executed ≤ limit := by
  have hle := completed_le_of_limit hlimit hstart rounds
  have hlt : machine.executed.toNat + machine.completed rounds < 2 ^ 64 :=
    Nat.lt_of_le_of_lt hle limit.toNat_lt
  have hexecuted : (machine.run rounds).machine.executed.toNat =
      machine.executed.toNat + machine.completed rounds := by
    rw [executed_run, UInt64.toNat_add, UInt64.toNat_ofNat', Nat.add_mod_mod,
      Nat.mod_eq_of_lt hlt]
  refine ⟨hexecuted, ?_⟩
  rw [UInt64.le_iff_toNat_le, hexecuted]
  exact hle

theorem completedBy_le_of_limit
    {limit : UInt64} (hlimit : machine.config.instructionLimit = some limit)
    (hstart : machine.executed ≤ limit) (calls : List Nat) :
    machine.executed.toNat + machine.completedBy calls ≤ limit.toNat := by
  induction calls generalizing machine with
  | nil => exact UInt64.le_iff_toNat_le.mp hstart
  | cons rounds later ih =>
      rcases executed_run_of_limit hlimit hstart rounds with ⟨hexecuted, hle⟩
      have hconfig : (machine.run rounds).machine.config.instructionLimit = some limit := by
        rw [config_run, hlimit]
      have hlater := ih hconfig hle
      rw [hexecuted] at hlater
      rw [completedBy_cons]
      omega

/-! ## Machines at their end -/

theorem run_of_stop
    {reason : StopReason} (hstop : machine.stopReason? = some reason) (hrounds : 0 < rounds) :
    machine.run rounds =
      { result := some (.ok (machine.summary reason))
        machine
        events := #[.stopped machine.executed reason] } := by
  cases rounds with
  | zero => contradiction
  | succ rounds =>
      rcases turn_of_stop hstop with ⟨hresult, hafter⟩
      unfold run
      rw [runFrom_succ_of_some hresult, events_turn_of_stop hstop, hresult, hafter]
      rfl

theorem stepped_of_stop
    {reason : StopReason} (hstop : machine.stopReason? = some reason) (rounds : Nat) :
    machine.stepped rounds = [] := by
  unfold stepped
  rw [List.filterMap_eq_nil_iff]
  intro round _
  cases round with
  | zero => exact stepIn?_of_stop hstop
  | succ round =>
      have hrun := run_of_stop hstop (Nat.succ_pos round)
      exact stepIn?_of_ended (congrArg RunResult.result hrun)

theorem runs_of_stop
    {reason : StopReason} (hstop : machine.stopReason? = some reason)
    (hlater : ∀ rounds ∈ later, 0 < rounds) :
    machine.runs later =
      { answers := later.map fun _ => .run (some (.ok (machine.summary reason)))
        machine
        events := later.map fun _ => .stopped machine.executed reason } := by
  induction later with
  | nil => rfl
  | cons rounds later ih =>
      have hrun := run_of_stop hstop (hlater rounds List.mem_cons_self)
      have hrest := ih fun rounds hmem => hlater rounds (List.mem_cons_of_mem _ hmem)
      rw [runs_cons, hrun]
      simp only [hrest, List.map_cons, List.singleton_append]

theorem machine_run_of_stop
    {reason : StopReason} (hstop : machine.stopReason? = some reason) (rounds : Nat) :
    (machine.run rounds).machine = machine := by
  cases rounds with
  | zero => rfl
  | succ rounds => rw [run_of_stop hstop (Nat.succ_pos rounds)]

theorem steppedBy_of_stop
    {reason : StopReason} (hstop : machine.stopReason? = some reason) (later : List Nat) :
    machine.steppedBy later = [] := by
  induction later with
  | nil => rfl
  | cons rounds later ih =>
      rw [steppedBy, stepped_of_stop hstop, machine_run_of_stop hstop, ih, List.append_nil]

/-- A run that stops without an error has found a reason that stays. -/
theorem stopReason?_of_run_ok
    {summary : RunSummary} (hok : (machine.run rounds).result = some (.ok summary)) :
    (machine.run rounds).machine.stopReason? = some summary.stop ∧
      summary = (machine.run rounds).machine.summary summary.stop := by
  rcases exists_last_turn hok with ⟨before, -, hturn, hlast⟩
  rw [turn_of_ok hturn] at hlast
  rw [← hlast]
  exact stopReason?_of_turn_ok hturn

/-- A clean stop is final, and the limit holds for all runs together.  After any runs of
a new machine, errors among them, the machine has counted exactly the steps that have
succeeded, and no more of them than its limit allows.  Once a run returns a summary, each
later run returns the same one.  It steps nothing, makes no access on the bus and leaves
the machine as it is. -/
theorem clean_stop_final
    (rom : RomImage) (input : List InputItem) (output : Sink) (config : MachineConfig)
    (calls : List Nat) :
    let start := ofRom rom input output config
    let machine := (start.runs calls).machine
    (∀ limit, config.instructionLimit = some limit →
      machine.executed ≤ limit ∧ start.completedBy calls ≤ limit.toNat) ∧
    ((config.instructionLimit = none → start.completedBy calls < 2 ^ 64) →
      machine.executed.toNat = start.completedBy calls) ∧
    ∀ rounds summary, (machine.run rounds).result = some (.ok summary) →
      let stopped := (machine.run rounds).machine
      summary = ⟨stopped.executed, summary.stop, stopped.cpu.regs⟩ ∧
      ∀ later : List Nat, (∀ rounds ∈ later, 0 < rounds) →
        let session := stopped.runs later
        session.answers = later.map (fun _ => .run (some (.ok summary))) ∧
        session.machine = stopped ∧
        stopped.steppedBy later = [] ∧
        MachineEvent.accesses session.events = [] ∧
        session.events = later.map fun _ => .stopped summary.instructions summary.stop := by
  intro start machine
  have hexecuted : machine.executed = UInt64.ofNat (start.completedBy calls) := by
    have hzero : start.executed = 0 := rfl
    rw [← UInt64.zero_add (UInt64.ofNat _), ← hzero]
    exact executed_runs calls start
  have hlimited : ∀ limit, config.instructionLimit = some limit →
      start.completedBy calls ≤ limit.toNat := by
    intro limit hlimit
    have hle : start.executed.toNat + start.completedBy calls ≤ limit.toNat :=
      completedBy_le_of_limit hlimit UInt64.zero_le calls
    exact Nat.le_trans (Nat.le_add_left _ _) hle
  refine ⟨?_, ?_, ?_⟩
  · intro limit hlimit
    have hle := hlimited limit hlimit
    refine ⟨?_, hle⟩
    rw [UInt64.le_iff_toNat_le, hexecuted, UInt64.toNat_ofNat']
    exact Nat.le_trans (Nat.mod_le _ _) hle
  · intro hunlimited
    have hlt : start.completedBy calls < 2 ^ 64 := by
      cases hlimit : config.instructionLimit with
      | none => exact hunlimited hlimit
      | some limit => exact Nat.lt_of_le_of_lt (hlimited limit hlimit) limit.toNat_lt
    rw [hexecuted, UInt64.toNat_ofNat', Nat.mod_eq_of_lt hlt]
  · intro rounds summary hok stopped
    rcases stopReason?_of_run_ok hok with ⟨hstop, hsummary⟩
    refine ⟨hsummary, ?_⟩
    intro later hlater session
    have hsession : session = _ := runs_of_stop hstop hlater
    have hevents : session.events =
        later.map fun _ => .stopped summary.instructions summary.stop := by
      rw [hsession, hsummary]
      rfl
    refine ⟨?_, ?_, steppedBy_of_stop hstop later, ?_, hevents⟩
    · rw [hsession, ← hsummary]
    · rw [hsession]
    · rw [hevents, MachineEvent.accesses, List.filterMap_eq_nil_iff]
      intro event hmem
      rcases List.mem_map.mp hmem with ⟨_, -, rfl⟩
      rfl

/-- The first run fails in a division, and the second one asks for the exit with the one
instruction that the limit allows.  So both reasons to stop hold, and each later run
reports the exit. -/
theorem clean_stop_final_exit :
    let start := ofRom (.ofBytes [0xE3, 0x40, 0x30, 0x00]) [] .accepting ⟨false, some 1⟩
    let failed := (start.runs [1]).machine
    let stopped := (failed.run 2).machine
    let summary : RunSummary := ⟨1, .exitStrobe, .startingAt 7⟩
    (start.run 1).result = some (.error (.step 3 (.arithmeticFault .div))) ∧
      failed.executed = 0 ∧
      (failed.run 2).result = some (.ok summary) ∧
      (stopped.runs [4, 1]).answers =
        [.run (some (.ok summary)), .run (some (.ok summary))] ∧
      (stopped.runs [4, 1]).machine = stopped := by
  intro start failed stopped summary
  have hfailed : (start.run 1).result = some (.error (.step 3 (.arithmeticFault .div))) := by
    rfl
  have hok : (failed.run 2).result = some (.ok summary) := by rfl
  rcases clean_stop_final (.ofBytes [0xE3, 0x40, 0x30, 0x00]) [] .accepting ⟨false, some 1⟩ [1]
    with ⟨-, -, hfinal⟩
  rcases (hfinal 2 summary hok).2 [4, 1] (by decide) with ⟨hanswers, hmachine, -⟩
  exact ⟨hfailed, by rfl, hok, hanswers, hmachine⟩

end WordMachine.Machine
