import WordMachine.Proofs.Cpu.Cycle

/-!
# Runs of the processor

A run with budget `n + 1` is one step and, if it succeeds, a run with budget
`n` from where the step has led.  These are the equations by which facts about
steps become facts about runs.  `Cpu.after?` gives the processor that a number
of successful steps leads to, `Cpu.afterSteps` the one that steps lead to which
are repeated even if they fail.
-/

namespace WordMachine.Cpu

variable {σ : Type} [Bus σ]

/-- The processor after `count` steps, if all of them succeed. -/
def after? : (count : Nat) → Cpu σ → Option (Cpu σ)
  | 0, cpu => some cpu
  | count + 1, cpu =>
      match cpu.step.result with
      | .ok _ => after? count cpu.step.cpu
      | .error _ => none

theorem after?_succ_of_ok
    {cpu : Cpu σ} {instr : Instruction} (hstep : cpu.step.result = .ok instr)
    (count : Nat) : after? (count + 1) cpu = after? count cpu.step.cpu := by
  rw [after?, hstep]

theorem after?_add (count count' : Nat) (cpu : Cpu σ) :
    cpu.after? (count + count') = (cpu.after? count).bind (after? count') := by
  induction count generalizing cpu with
  | zero => rw [Nat.zero_add]; rfl
  | succ count ih =>
      rw [Nat.succ_add]
      cases hstep : cpu.step.result with
      | ok instr => rw [after?_succ_of_ok hstep, after?_succ_of_ok hstep, ih]
      | error error => simp only [after?, hstep, Option.bind_none]

theorem after?_succ_of_after?
    {cpu last : Cpu σ} {instr : Instruction} {count : Nat}
    (hlast : cpu.after? count = some last) (hstep : last.step.result = .ok instr) :
    cpu.after? (count + 1) = some last.step.cpu := by
  rw [after?_add, hlast]
  exact after?_succ_of_ok hstep 0

/-- The processor after `count` steps, whatever their results. -/
def afterSteps : (count : Nat) → Cpu σ → Cpu σ
  | 0, cpu => cpu
  | count + 1, cpu => afterSteps count cpu.step.cpu

theorem afterSteps_succ (count : Nat) (cpu : Cpu σ) :
    cpu.afterSteps (count + 1) = (cpu.afterSteps count).step.cpu := by
  induction count generalizing cpu with
  | zero => rfl
  | succ count ih => exact ih cpu.step.cpu

/-- A run that has already made steps differs from a new one by these alone. -/
theorem runFrom_eq (count : Nat) (events : Array CpuEvent) (budget : Nat) (cpu : Cpu σ) :
    runFrom count events budget cpu =
      { result := (cpu.run budget).result.map (count + ·)
        cpu := (cpu.run budget).cpu
        events := events ++ (cpu.run budget).events } := by
  induction budget generalizing count events cpu with
  | zero => simp [run, runFrom, Except.map]
  | succ budget ih =>
      simp only [run, runFrom]
      rcases cpu.step with ⟨error | instr, next, seen⟩
      · have hseen : events ++ seen = events ++ seen.toArray := Array.ext' (by simp)
        simp [Except.map, hseen]
      · have hseen : events ++ seen = events ++ seen.toArray := Array.ext' (by simp)
        simp only
        rw [ih (count + 1), ih (0 + 1)]
        cases (next.run budget).result <;>
          simp [Except.map, Nat.add_assoc, Array.append_assoc, hseen]

theorem run_succ_of_ok
    {cpu : Cpu σ} {instr : Instruction} (hstep : cpu.step.result = .ok instr)
    (budget : Nat) :
    cpu.run (budget + 1) =
      { result := (cpu.step.cpu.run budget).result.map (1 + ·)
        cpu := (cpu.step.cpu.run budget).cpu
        events := cpu.step.events.toArray ++ (cpu.step.cpu.run budget).events } := by
  simp only [run, runFrom]
  rcases hcpu : cpu.step with ⟨error | instr, next, seen⟩
  · rw [hcpu] at hstep
    contradiction
  · simp only
    rw [runFrom_eq]
    simp [run]

theorem run_succ_of_error
    {cpu : Cpu σ} {error : CpuError} (hstep : cpu.step.result = .error error)
    (budget : Nat) :
    cpu.run (budget + 1) =
      { result := .error error
        cpu := cpu.step.cpu
        events := cpu.step.events.toArray } := by
  simp only [run, runFrom]
  rcases hcpu : cpu.step with ⟨cause | instr, next, seen⟩
  · rw [hcpu] at hstep
    have hcause : cause = error := Except.error.inj hstep
    simp [hcause]
  · rw [hcpu] at hstep
    contradiction

@[simp] theorem accesses_run_zero (cpu : Cpu σ) : (cpu.run 0).accesses = [] := rfl

theorem accesses_run_succ_of_ok
    {cpu : Cpu σ} {instr : Instruction} (hstep : cpu.step.result = .ok instr)
    (budget : Nat) :
    (cpu.run (budget + 1)).accesses =
      cpu.step.accesses ++ (cpu.step.cpu.run budget).accesses := by
  rw [run_succ_of_ok hstep]
  simp [Run.accesses, Step.accesses]

theorem accesses_run_succ_of_error
    {cpu : Cpu σ} {error : CpuError} (hstep : cpu.step.result = .error error)
    (budget : Nat) :
    (cpu.run (budget + 1)).accesses = cpu.step.accesses := by
  rw [run_succ_of_error hstep]
  simp [Run.accesses, Step.accesses]

theorem performAll_run (budget : Nat) (cpu : Cpu σ) :
    Request.performAll ((cpu.run budget).accesses.map Access.request) cpu.bus =
      ((cpu.run budget).accesses, (cpu.run budget).cpu.bus) := by
  induction budget generalizing cpu with
  | zero => rfl
  | succ budget ih =>
      cases hstep : cpu.step.result with
      | ok instr =>
          rw [accesses_run_succ_of_ok hstep, run_succ_of_ok hstep, List.map_append,
            Request.performAll_append, performAll_step, ih]
      | error error =>
          rw [accesses_run_succ_of_error hstep, run_succ_of_error hstep,
            performAll_step]

theorem exists_accesses_run_succ (cpu : Cpu σ) (budget : Nat) :
    ∃ rest, (cpu.run (budget + 1)).accesses = cpu.step.accesses ++ rest := by
  cases hstep : cpu.step.result with
  | ok instr => exact ⟨_, accesses_run_succ_of_ok hstep budget⟩
  | error error =>
      exact ⟨[], by rw [accesses_run_succ_of_error hstep, List.append_nil]⟩

end WordMachine.Cpu
