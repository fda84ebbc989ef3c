import Mathlib.Algebra.Group.Nat.Defs
import Mathlib.Tactic.SplitIfs
import WordMachine.Proofs.Cpu.Run
import WordMachine.Proofs.Machine.JournaledBoard

/-!
# How a run of the machine ends

`Machine.endingAt?` looks at the processor after some number of steps and says
whether the run ends there, and how.  It puts the four reasons in one order: the
program counter in RAM, the exit strobe, the instruction limit, a step that
fails.  The loop itself looks at them in different places, the first one at the
end of a round and the others at the beginning of the next.

A run ends at the first ending.  The proof goes through the rounds: if nothing
ends the run at once, then its other endings are those of the run that starts
after the first step, one step earlier.
-/

namespace WordMachine

structure Ending where
  result : Except RunError RunSummary
  cpu : Cpu Board

namespace Machine

/-- How a run of `machine` ends if `count` successful steps lead it to `cpu`. -/
def endingAt? (machine : Machine) (count : Nat) (cpu : Cpu Board) : Option Ending :=
  let instructions := machine.executed.toNat + count
  if 1 ≤ count ∧ RomImage.ramBase ≤ cpu.regs.pc then
    some ⟨.error (.executeFromRam cpu.regs.pc), cpu⟩
  else if cpu.bus.exitRequested then
    some ⟨.ok ⟨UInt64.ofNat instructions, .exitStrobe, cpu.regs⟩, cpu⟩
  else if machine.config.instructionLimit.any (·.toNat ≤ instructions) then
    some ⟨.ok ⟨UInt64.ofNat instructions, .instructionLimit, cpu.regs⟩, cpu⟩
  else
    match cpu.step.result with
    | .ok _ => none
    | .error error => some ⟨.error (.step cpu.regs.pc error), cpu.step.cpu⟩

/-- The first ending that a run of `machine` comes to is `ending`, after `count`
steps. -/
def EndsAfter (machine : Machine) (count : Nat) (ending : Ending) : Prop :=
  (∃ cpu, machine.cpu.after? count = some cpu ∧
      machine.endingAt? count cpu = some ending) ∧
    ∀ i < count, ∀ cpu, machine.cpu.after? i = some cpu → machine.endingAt? i cpu = none

def next (machine : Machine) : Machine :=
  ⟨machine.cpu.step.cpu, machine.config, machine.executed + 1⟩

variable {machine : Machine} {ending : Ending} {count : Nat}

/-! ## One round -/

theorem turn_of_stop {reason : StopReason} (hstop : machine.stopReason? = some reason) :
    machine.turn.result = some (.ok (machine.summary reason)) ∧
      machine.turn.machine = machine := by
  unfold turn
  rw [hstop]
  exact ⟨rfl, rfl⟩

theorem turn_of_step_error
    {error : CpuError} (hgo : machine.stopReason? = none)
    (hstep : machine.cpu.step.result = .error error) :
    machine.turn.result = some (.error (.step machine.cpu.regs.pc error)) ∧
      machine.turn.machine =
        ⟨machine.cpu.step.cpu, machine.config, machine.executed⟩ := by
  unfold turn
  rw [hgo]
  simp only [stepBoard_eq]
  rcases hcpu : machine.cpu.step with ⟨cause | instr, cpu, events⟩
  · rw [hcpu] at hstep
    have heq := Except.error.inj hstep
    subst heq
    exact ⟨rfl, rfl⟩
  · rw [hcpu] at hstep
    contradiction

theorem turn_of_step_ok
    {instr : Instruction} (hgo : machine.stopReason? = none)
    (hstep : machine.cpu.step.result = .ok instr) :
    machine.turn.result =
        (if RomImage.ramBase ≤ machine.next.cpu.regs.pc then
          some (.error (.executeFromRam machine.next.cpu.regs.pc))
        else none) ∧
      machine.turn.machine = machine.next := by
  unfold turn
  rw [hgo]
  simp only [stepBoard_eq]
  rcases hcpu : machine.cpu.step with ⟨error | instr, cpu, events⟩
  · rw [hcpu] at hstep
    contradiction
  · simp only [hcpu, next]
    exact ⟨trivial, trivial⟩

theorem endingAt?_zero (machine : Machine) :
    machine.endingAt? 0 machine.cpu =
      match machine.stopReason?, machine.cpu.step.result with
      | some reason, _ => some ⟨.ok (machine.summary reason), machine.cpu⟩
      | none, .ok _ => none
      | none, .error error =>
          some ⟨.error (.step machine.cpu.regs.pc error), machine.cpu.step.cpu⟩ := by
  unfold endingAt? stopReason?
  by_cases hexit : machine.cpu.bus.exitRequested
  · simp [hexit, summary]
  · cases hlimit : machine.config.instructionLimit with
    | none => cases machine.cpu.step.result <;> simp [hexit]
    | some limit =>
        by_cases hreached : limit ≤ machine.executed
        · simp [hexit, hreached, UInt64.le_iff_toNat_le.mp hreached, summary]
        · have hopen : ¬ limit.toNat ≤ machine.executed.toNat :=
            fun hle => hreached (UInt64.le_iff_toNat_le.mpr hle)
          cases machine.cpu.step.result <;> simp [hexit, hreached, hopen]

theorem turn_of_ending (hending : machine.endingAt? 0 machine.cpu = some ending) :
    machine.turn.result = some ending.result ∧
      machine.turn.machine = ⟨ending.cpu, machine.config, machine.executed⟩ := by
  rw [endingAt?_zero] at hending
  cases hstop : machine.stopReason? with
  | some reason =>
      rw [hstop] at hending
      have heq := Option.some.inj hending
      subst heq
      exact turn_of_stop hstop
  | none =>
      cases hstep : machine.cpu.step.result with
      | ok instr =>
          rw [hstop, hstep] at hending
          contradiction
      | error error =>
          rw [hstop, hstep] at hending
          have heq := Option.some.inj hending
          subst heq
          exact turn_of_step_error hstop hstep

theorem step_of_no_ending (hnone : machine.endingAt? 0 machine.cpu = none) :
    machine.stopReason? = none ∧ ∃ instr, machine.cpu.step.result = .ok instr := by
  rw [endingAt?_zero] at hnone
  cases hstop : machine.stopReason? with
  | some reason =>
      rw [hstop] at hnone
      contradiction
  | none =>
      cases hstep : machine.cpu.step.result with
      | ok instr => exact ⟨rfl, instr, rfl⟩
      | error error =>
          rw [hstop, hstep] at hnone
          contradiction

/-! ## From one round to the next -/

theorem executed_next (hbound : machine.executed.toNat + 1 < 2 ^ 64) :
    machine.next.executed.toNat = machine.executed.toNat + 1 := by
  have hsum : (machine.executed + 1).toNat = (machine.executed.toNat + 1) % 2 ^ 64 :=
    UInt64.toNat_add _ _
  rw [next, hsum, Nat.mod_eq_of_lt hbound]

/-- Endings look the same from the next round, the guard of the RAM excepted: a
run does not apply it before its first step. -/
theorem endingAt?_next
    (hbound : machine.executed.toNat + 1 < 2 ^ 64) {cpu : Cpu Board}
    (hguard : count = 0 → ¬ RomImage.ramBase ≤ cpu.regs.pc) :
    machine.next.endingAt? count cpu = machine.endingAt? (count + 1) cpu := by
  have hinstructions : machine.next.executed.toNat + count =
      machine.executed.toNat + (count + 1) := by
    rw [executed_next hbound]
    omega
  have hram : (1 ≤ count ∧ RomImage.ramBase ≤ cpu.regs.pc) ↔
      (1 ≤ count + 1 ∧ RomImage.ramBase ≤ cpu.regs.pc) := by
    constructor
    · exact fun h => ⟨Nat.le_add_left 1 count, h.2⟩
    · exact fun h => ⟨Nat.pos_of_ne_zero fun hzero => hguard hzero h.2, h.2⟩
  have hconfig : machine.next.config = machine.config := rfl
  simp only [endingAt?, hinstructions, hram, hconfig]

theorem EndsAfter.zero (hends : machine.EndsAfter 0 ending) :
    machine.endingAt? 0 machine.cpu = some ending := by
  rcases hends with ⟨⟨cpu, hcpu, hending⟩, -⟩
  have heq := Option.some.inj hcpu
  subst heq
  exact hending

theorem EndsAfter.step (hends : machine.EndsAfter (count + 1) ending) :
    machine.stopReason? = none ∧ ∃ instr, machine.cpu.step.result = .ok instr :=
  step_of_no_ending (hends.2 0 (Nat.succ_pos count) machine.cpu rfl)

theorem EndsAfter.next
    (hends : machine.EndsAfter (count + 1) ending)
    (hbound : machine.executed.toNat + 1 < 2 ^ 64)
    (hguard : ¬ RomImage.ramBase ≤ machine.next.cpu.regs.pc) :
    machine.next.EndsAfter count ending := by
  rcases hends.step with ⟨-, instr, hstep⟩
  rcases hends with ⟨⟨last, hlast, hending⟩, hbefore⟩
  have hguardAt : ∀ {i cpu}, machine.next.cpu.after? i = some cpu →
      i = 0 → ¬ RomImage.ramBase ≤ cpu.regs.pc := by
    rintro i cpu hcpu rfl
    have heq := Option.some.inj hcpu
    subst heq
    exact hguard
  rw [Cpu.after?_succ_of_ok hstep] at hlast
  refine ⟨⟨last, hlast, ?_⟩, ?_⟩
  · rw [endingAt?_next hbound (hguardAt hlast), hending]
  · intro i hi cpu hcpu
    rw [endingAt?_next hbound (hguardAt hcpu)]
    refine hbefore (i + 1) (Nat.succ_lt_succ hi) cpu ?_
    rw [Cpu.after?_succ_of_ok hstep]
    exact hcpu

theorem EndsAfter.eq_of_ram
    (hends : machine.EndsAfter (count + 1) ending)
    (hram : RomImage.ramBase ≤ machine.next.cpu.regs.pc) :
    count = 0 ∧
      ending = ⟨.error (.executeFromRam machine.next.cpu.regs.pc), machine.next.cpu⟩ := by
  rcases hends.step with ⟨-, instr, hstep⟩
  rcases hends with ⟨⟨last, hlast, hending⟩, hbefore⟩
  have hfirst : machine.endingAt? 1 machine.next.cpu =
      some ⟨.error (.executeFromRam machine.next.cpu.regs.pc), machine.next.cpu⟩ := by
    simp only [endingAt?, Nat.le_refl, true_and, if_pos hram]
  have hone : machine.cpu.after? 1 = some machine.next.cpu :=
    Cpu.after?_succ_of_ok hstep 0
  cases count with
  | zero =>
      have heq := Option.some.inj (hone.symm.trans hlast)
      subst heq
      exact ⟨rfl, Option.some.inj (hending.symm.trans hfirst)⟩
  | succ count =>
      rw [hbefore 1 (by omega) _ hone] at hfirst
      contradiction

/-! ## Runs -/

theorem runFrom_succ_of_some
    {result : Except RunError RunSummary} (hresult : machine.turn.result = some result)
    (events : Array MachineEvent) (rounds : Nat) :
    machine.runFrom events (rounds + 1) =
      ⟨some result, machine.turn.machine, events ++ machine.turn.events⟩ := by
  rw [runFrom]
  rcases hturn : machine.turn with ⟨_ | last, after, seen⟩
  · rw [hturn] at hresult
    contradiction
  · rw [hturn] at hresult
    have heq : last = result := Option.some.inj hresult
    subst heq
    rfl

theorem runFrom_succ_of_none
    (hresult : machine.turn.result = none)
    (events : Array MachineEvent) (rounds : Nat) :
    machine.runFrom events (rounds + 1) =
      machine.turn.machine.runFrom (events ++ machine.turn.events) rounds := by
  rw [runFrom]
  rcases hturn : machine.turn with ⟨_ | result, after, seen⟩
  · rfl
  · rw [hturn] at hresult
    contradiction

theorem runFrom_of_endsAfter
    (hends : machine.EndsAfter count ending)
    (hbound : machine.executed.toNat + count < 2 ^ 64)
    {rounds : Nat} (hrounds : count < rounds) (events : Array MachineEvent) :
    let after := machine.runFrom events rounds
    after.result = some ending.result ∧
      after.machine.cpu = ending.cpu ∧
      after.machine.config = machine.config ∧
      after.machine.executed.toNat = machine.executed.toNat + count := by
  induction count generalizing machine rounds events with
  | zero =>
      rcases Nat.exists_eq_add_of_lt hrounds with ⟨rounds, rfl⟩
      rcases turn_of_ending hends.zero with ⟨hresult, hmachine⟩
      rw [runFrom_succ_of_some hresult, hmachine]
      exact ⟨rfl, rfl, rfl, rfl⟩
  | succ count ih =>
      rcases Nat.exists_eq_add_of_lt hrounds with ⟨rounds, rfl⟩
      have hfirst : machine.executed.toNat + 1 < 2 ^ 64 := by omega
      rcases hends.step with ⟨hgo, instr, hstep⟩
      rcases turn_of_step_ok hgo hstep with ⟨hresult, hmachine⟩
      by_cases hram : RomImage.ramBase ≤ machine.next.cpu.regs.pc
      · rcases hends.eq_of_ram hram with ⟨rfl, rfl⟩
        rw [if_pos hram] at hresult
        rw [runFrom_succ_of_some hresult, hmachine]
        exact ⟨rfl, rfl, rfl, executed_next hfirst⟩
      · have hcount : machine.next.executed.toNat + count =
            machine.executed.toNat + (count + 1) := by
          rw [executed_next hfirst]
          omega
        rw [if_neg hram] at hresult
        rw [runFrom_succ_of_none hresult, hmachine, ← hcount]
        exact ih (hends.next hfirst hram) (by omega) (by omega) _

theorem of_no_ending
    {cpu : Cpu Board} (hnone : machine.endingAt? count cpu = none) :
    (∃ instr, cpu.step.result = .ok instr) ∧
      ∀ limit, machine.config.instructionLimit = some limit →
        machine.executed.toNat + count < limit.toNat := by
  simp only [endingAt?] at hnone
  split_ifs at hnone with hram hexit hlimit
  constructor
  · cases hstep : cpu.step.result with
    | ok instr => exact ⟨instr, rfl⟩
    | error error =>
        rw [hstep] at hnone
        contradiction
  · intro limit hsome
    rw [hsome, Option.any_some, decide_eq_true_eq] at hlimit
    exact Nat.lt_of_not_le hlimit

theorem exists_after_of_no_ending
    (hnone : ∀ i < count, ∀ cpu, machine.cpu.after? i = some cpu →
      machine.endingAt? i cpu = none) :
    ∃ cpu, machine.cpu.after? count = some cpu := by
  induction count with
  | zero => exact ⟨machine.cpu, rfl⟩
  | succ count ih =>
      rcases ih fun i hi => hnone i (Nat.lt_succ_of_lt hi) with ⟨cpu, hcpu⟩
      obtain ⟨instr, hstep⟩ := (of_no_ending (hnone count (Nat.lt_succ_self count) cpu hcpu)).1
      exact ⟨_, Cpu.after?_succ_of_after? hcpu hstep⟩

theorem exists_endsAfter_or (machine : Machine) (count : Nat) :
    (∃ k < count, ∃ ending, machine.EndsAfter k ending) ∨
      ∀ i < count, ∀ cpu, machine.cpu.after? i = some cpu →
        machine.endingAt? i cpu = none := by
  induction count with
  | zero => exact .inr fun i hi => absurd hi (Nat.not_lt_zero i)
  | succ count ih =>
      rcases ih with ⟨k, hk, hends⟩ | hnone
      · exact .inl ⟨k, Nat.lt_succ_of_lt hk, hends⟩
      · rcases exists_after_of_no_ending hnone with ⟨cpu, hcpu⟩
        cases hending : machine.endingAt? count cpu with
        | some ending =>
            exact .inl ⟨count, Nat.lt_succ_self count, ending, ⟨cpu, hcpu, hending⟩, hnone⟩
        | none =>
            refine .inr fun i hi other hother => ?_
            rcases Nat.lt_succ_iff_lt_or_eq.mp hi with hi | rfl
            · exact hnone i hi other hother
            · have heq := Option.some.inj (hcpu.symm.trans hother)
              subst heq
              exact hending

theorem exists_endsAfter_of_limit
    {limit : UInt64} (hlimit : machine.config.instructionLimit = some limit) :
    ∃ k ending, machine.EndsAfter k ending ∧
      k ≤ limit.toNat - machine.executed.toNat := by
  rcases machine.exists_endsAfter_or (limit.toNat - machine.executed.toNat + 1) with
    ⟨k, hk, ending, hends⟩ | hnone
  · exact ⟨k, ending, hends, Nat.le_of_lt_succ hk⟩
  · have hbefore := fun i hi => hnone i (Nat.lt_succ_of_lt hi)
    rcases exists_after_of_no_ending hbefore with ⟨cpu, hcpu⟩
    have hopen := (of_no_ending (hnone _ (Nat.lt_succ_self _) cpu hcpu)).2 limit hlimit
    omega

/-- The exact outcome of a run: it ends at its first ending, with everything the
ending says and the instructions before it counted, and under a limit it does
come to one. -/
theorem run_outcome (machine : Machine) :
    (∀ k ending, machine.EndsAfter k ending → machine.executed.toNat + k < 2 ^ 64 →
      ∀ rounds, k < rounds →
        let after := machine.run rounds
        after.result = some ending.result ∧
          after.machine.cpu = ending.cpu ∧
          after.machine.config = machine.config ∧
          after.machine.executed.toNat = machine.executed.toNat + k) ∧
      ∀ limit, machine.config.instructionLimit = some limit →
        ∃ k ending, machine.EndsAfter k ending ∧
          k ≤ limit.toNat - machine.executed.toNat ∧
          machine.executed.toNat + k < 2 ^ 64 := by
  constructor
  · intro k ending hends hbound rounds hrounds
    exact runFrom_of_endsAfter hends hbound hrounds #[]
  · intro limit hlimit
    rcases exists_endsAfter_of_limit hlimit with ⟨k, ending, hends, hk⟩
    have hlimit := limit.toNat_lt
    have hexecuted := machine.executed.toNat_lt
    exact ⟨k, ending, hends, hk, by omega⟩

/-- The instruction that reaches the limit asks for the exit, and the exit goes
first. -/
theorem run_outcome_exit :
    let machine := Machine.ofRom (.ofBytes [0x30, 0x00]) [] .accepting ⟨false, some 1⟩
    let regs := (Registers.startingAt 3).setPc 5
    (machine.run 2).result = some (.ok ⟨1, .exitStrobe, regs⟩) ∧
      (machine.run 2).machine.executed.toNat = 1 := by
  intro machine regs
  have hstep : machine.cpu.step.result = .ok (.decode 0x30 0x00) := by rfl
  have hends : machine.EndsAfter 1
      ⟨.ok ⟨1, .exitStrobe, regs⟩, machine.cpu.step.cpu⟩ := by
    refine ⟨⟨machine.cpu.step.cpu, Cpu.after?_succ_of_ok hstep 0, by rfl⟩, ?_⟩
    intro i hi cpu hcpu
    have heq := Nat.lt_one_iff.mp hi
    subst heq
    have heq := Option.some.inj hcpu
    subst heq
    rfl
  obtain ⟨hresult, -, -, hexecuted⟩ :=
    (run_outcome machine).1 1 _ hends (by decide) 2 (by decide)
  exact ⟨hresult, hexecuted⟩

end Machine

end WordMachine
