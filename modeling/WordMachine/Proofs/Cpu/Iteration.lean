import WordMachine.Bus.Memory
import WordMachine.Proofs.Cpu.Run

/-!
# Runs as iterated steps

A run repeats steps until its budget is used up or a step fails.  A budget may be spent in two
parts: `run_add` says that a run is resumed where it has stopped, unless it has failed.  A run
without a failure and a run cut short by one are then put together from single steps
(`run_of_succeeds`, `run_of_fails`).

Runs count their steps in a natural number.  `runCounted` is the same loop with a counter of 64
bits, and `runCounted_eq` says that the counter never leaves its range, whatever
the budget.
-/

namespace WordMachine.Cpu

variable {σ : Type} [Bus σ] {cpu : Cpu σ} {n : Nat}

/-! ## Runs in two parts -/

/-- Goes on for `more` steps, unless the run has failed. -/
def Run.resume (first : Run σ) (more : Nat) : Run σ :=
  match first.result with
  | .ok count =>
      let second := first.cpu.run more
      { result := second.result.map (count + ·)
        cpu := second.cpu
        events := first.events ++ second.events }
  | .error _ => first

theorem Run.resume_of_ok {first : Run σ} {count : Nat} (h : first.result = .ok count)
    (more : Nat) :
    first.resume more =
      { result := (first.cpu.run more).result.map (count + ·)
        cpu := (first.cpu.run more).cpu
        events := first.events ++ (first.cpu.run more).events } := by
  rw [Run.resume, h]

theorem Run.resume_of_error {first : Run σ} {error : CpuError}
    (h : first.result = .error error) (more : Nat) : first.resume more = first := by
  rw [Run.resume, h]

/-- A run of `m + n` steps is one of `m` steps, resumed for `n` steps. -/
theorem run_add (m n : Nat) (cpu : Cpu σ) : cpu.run (m + n) = (cpu.run m).resume n := by
  induction m generalizing cpu with
  | zero =>
      have hnone : cpu.run 0 = ⟨.ok 0, cpu, #[]⟩ := rfl
      rw [Nat.zero_add, hnone, Run.resume_of_ok rfl]
      cases hrun : cpu.run n with
      | mk result last events => cases result <;> simp [Except.map]
  | succ m ih =>
      rw [Nat.succ_add]
      cases hstep : cpu.step.result with
      | ok instr =>
          rw [run_succ_of_ok hstep, run_succ_of_ok hstep, ih]
          cases hfirst : (cpu.step.cpu.run m).result with
          | ok count =>
              rw [Run.resume_of_ok hfirst, Run.resume_of_ok rfl]
              cases ((cpu.step.cpu.run m).cpu.run n).result <;>
                simp [Except.map, Nat.add_assoc, Array.append_assoc]
          | error error =>
              rw [Run.resume_of_error hfirst, Run.resume_of_error rfl, hfirst]
      | error error =>
          rw [run_succ_of_error hstep, run_succ_of_error hstep, Run.resume_of_error rfl]

/-! ## Runs step by step -/

/-- None of the first `count` steps fails. -/
def Succeeds (cpu : Cpu σ) (count : Nat) : Prop :=
  ∀ i < count, ∃ instr, (cpu.afterSteps i).step.result = .ok instr

def eventsOfSteps (cpu : Cpu σ) (count : Nat) : List CpuEvent :=
  (List.range count).flatMap fun i => (cpu.afterSteps i).step.events

theorem eventsOfSteps_succ (cpu : Cpu σ) (count : Nat) :
    cpu.eventsOfSteps (count + 1) =
      cpu.eventsOfSteps count ++ (cpu.afterSteps count).step.events := by
  simp [eventsOfSteps, List.range_succ]

theorem run_of_succeeds (h : cpu.Succeeds n) :
    cpu.run n = ⟨.ok n, cpu.afterSteps n, (cpu.eventsOfSteps n).toArray⟩ := by
  induction n with
  | zero => rfl
  | succ n ih =>
      have hbefore : cpu.Succeeds n := fun i hi => h i (Nat.lt_succ_of_lt hi)
      obtain ⟨instr, hstep⟩ := h n (Nat.lt_succ_self n)
      rw [run_add, ih hbefore, Run.resume_of_ok rfl, run_succ_of_ok hstep 0, afterSteps_succ,
        eventsOfSteps_succ]
      simp [run, runFrom, Except.map]

/-- The first step to fail, the one with number `k`, is the last step of a run. -/
theorem run_of_fails {k : Nat} {error : CpuError} (hk : k < n) (hbefore : cpu.Succeeds k)
    (hstep : (cpu.afterSteps k).step.result = .error error) :
    cpu.run n =
      ⟨.error error, cpu.afterSteps (k + 1), (cpu.eventsOfSteps (k + 1)).toArray⟩ := by
  obtain ⟨rest, rfl⟩ := Nat.exists_eq_add_of_lt hk
  rw [Nat.add_assoc, run_add, run_of_succeeds hbefore, Run.resume_of_ok rfl,
    run_succ_of_error hstep rest, afterSteps_succ, eventsOfSteps_succ]
  simp [Except.map]

theorem exists_first_failure (h : ¬ cpu.Succeeds n) :
    ∃ k < n, ∃ error,
      cpu.Succeeds k ∧ (cpu.afterSteps k).step.result = .error error := by
  induction n with
  | zero => exact absurd (fun i hi => absurd hi (Nat.not_lt_zero i)) h
  | succ n ih =>
      by_cases hbefore : cpu.Succeeds n
      · cases hstep : (cpu.afterSteps n).step.result with
        | error error => exact ⟨n, Nat.lt_succ_self n, error, hbefore, hstep⟩
        | ok instr =>
            refine absurd (fun i hi => ?_) h
            obtain hi | rfl := Nat.lt_succ_iff_lt_or_eq.mp hi
            · exact hbefore i hi
            · exact ⟨instr, hstep⟩
      · obtain ⟨k, hk, hfails⟩ := ih hbefore
        exact ⟨k, Nat.lt_succ_of_lt hk, hfails⟩

theorem result_run_eq_ok_iff : (cpu.run n).result = .ok n ↔ cpu.Succeeds n := by
  constructor
  · intro hresult
    refine Classical.byContradiction fun h => ?_
    obtain ⟨k, hk, error, hbefore, hstep⟩ := exists_first_failure h
    rw [run_of_fails hk hbefore hstep] at hresult
    contradiction
  · intro h
    rw [run_of_succeeds h]

/-! ## The counter -/

theorem counter_succ_lt_size {counter budget : UInt64} (h : counter < budget) :
    counter.toNat + 1 < UInt64.size :=
  Nat.lt_of_le_of_lt (UInt64.lt_iff_toNat_lt.mp h) budget.toNat_lt

theorem toNat_counter_succ {counter : UInt64} (h : counter.toNat + 1 < UInt64.size) :
    (counter + 1).toNat = counter.toNat + 1 := by
  rw [UInt64.toNat_add, UInt64.toNat_one, Nat.mod_eq_of_lt h]

/-- The loop of a run with budget and counter in 64 bits.  A step that the counter could not
count any more would leave the loop without a result. -/
def runCounted (budget counter : UInt64) (events : Array CpuEvent) (cpu : Cpu σ) :
    Option (Run σ) :=
  if counter < budget then
    match cpu.step with
    | ⟨.ok _, next, seen⟩ =>
        if counter.toNat + 1 < UInt64.size then
          runCounted budget (counter + 1) (events ++ seen) next
        else none
    | ⟨.error error, next, seen⟩ =>
        some { result := .error error, cpu := next, events := events ++ seen }
  else some { result := .ok counter.toNat, cpu, events }
termination_by budget.toNat - counter.toNat
decreasing_by
  have hlt : counter.toNat < budget.toNat := UInt64.lt_iff_toNat_lt.mp ‹counter < budget›
  have hsucc := toNat_counter_succ ‹counter.toNat + 1 < UInt64.size›
  omega

theorem runCounted_eq (budget counter : UInt64) (events : Array CpuEvent) (cpu : Cpu σ) :
    runCounted budget counter events cpu =
      some (runFrom counter.toNat events (budget.toNat - counter.toNat) cpu) := by
  -- The measure that the loop terminates by is the budget that `runFrom` still has.
  induction hleft : budget.toNat - counter.toNat generalizing counter events cpu with
  | zero =>
      have hdone : ¬ counter < budget := by
        rw [UInt64.lt_iff_toNat_lt]
        omega
      rw [runCounted, if_neg hdone]
      rfl
  | succ left ih =>
      have hlt : counter < budget := by
        rw [UInt64.lt_iff_toNat_lt]
        omega
      have hsize := counter_succ_lt_size hlt
      have hsucc := toNat_counter_succ hsize
      rw [runCounted, if_pos hlt, runFrom]
      rcases cpu.step with ⟨error | instr, next, seen⟩
      · rfl
      · simp only
        rw [if_pos hsize, ih (counter + 1) _ next (by omega), hsucc]

/-! ## Iteration -/

theorem run_succ_of_sentinel (hpc : cpu.regs.pc = sentinel) (budget : Nat) :
    cpu.run (budget + 1) = ⟨.error (.instructionInvalid sentinel), cpu, #[]⟩ := by
  have hstep := step_of_sentinel hpc
  have hresult : cpu.step.result = .error (.instructionInvalid sentinel) := by
    rw [hstep, hpc]
  rw [run_succ_of_error hresult, hstep]

/-- A run is its steps, one after the other, and may be made in two parts.  It either makes
all of its steps, and counts them, or stops with the error of the first step to fail, in the
state behind that step.  A counter of 64 bits counts every run with a budget of 64 bits.  On
the sentinel nothing is done. -/
theorem run_iterates (cpu : Cpu σ) :
    (∀ m n, cpu.run (m + n) = (cpu.run m).resume n) ∧
      (∀ n, ((cpu.run n).result = .ok n ↔ cpu.Succeeds n) ∧
        (cpu.Succeeds n →
          cpu.run n = ⟨.ok n, cpu.afterSteps n, (cpu.eventsOfSteps n).toArray⟩) ∧
        (¬ cpu.Succeeds n →
          ∃ k < n, ∃ error, cpu.Succeeds k ∧
            (cpu.afterSteps k).step.result = .error error ∧
            cpu.run n =
              ⟨.error error, cpu.afterSteps (k + 1),
                (cpu.eventsOfSteps (k + 1)).toArray⟩)) ∧
      (∀ budget : UInt64, cpu.runCounted budget 0 #[] = some (cpu.run budget.toNat)) ∧
      (cpu.regs.pc = sentinel →
        cpu.run 0 = ⟨.ok 0, cpu, #[]⟩ ∧
          ∀ n, cpu.run (n + 1) = ⟨.error (.instructionInvalid sentinel), cpu, #[]⟩) := by
  refine ⟨fun m n => run_add m n cpu, fun n => ⟨result_run_eq_ok_iff, run_of_succeeds, ?_⟩,
    fun budget => runCounted_eq budget 0 #[] cpu, fun hpc => ⟨rfl, run_succ_of_sentinel hpc⟩⟩
  intro hfails
  obtain ⟨k, hk, error, hbefore, hstep⟩ := exists_first_failure hfails
  exact ⟨k, hk, error, hbefore, hstep, run_of_fails hk hbefore hstep⟩

/-- A NOP and a division by zero, with budget for a third step. -/
theorem run_iterates_division :
    let cpu : Cpu Memory :=
      ⟨Registers.startingAt 3, Memory.zero.load 3 [0x00, 0x00, 0xE0, 0x10]⟩
    cpu.Succeeds 1 ∧ ¬ cpu.Succeeds 3 ∧
      (cpu.run 3).result = .error (.arithmeticFault .div) ∧
      cpu.run 3 = (cpu.run 1).resume 2 ∧
      cpu.runCounted 3 0 #[] = some (cpu.run 3) := by
  intro cpu
  have hone : (cpu.run 1).result = .ok 1 := rfl
  have hthree : (cpu.run 3).result = .error (.arithmeticFault .div) := rfl
  obtain ⟨hparts, hruns, hcounted, -⟩ := run_iterates cpu
  refine ⟨(hruns 1).1.mp hone, ?_, hthree, hparts 1 2, hcounted 3⟩
  intro h
  have hok := (hruns 3).1.mpr h
  rw [hthree] at hok
  contradiction

end WordMachine.Cpu
