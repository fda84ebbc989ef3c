import WordMachine.Cpu
import WordMachine.Proofs.Bus.Requests

/-!
# The cycle of an instruction

A step away from the sentinel is one transaction, `Instruction.cycle`: the
fetch followed by what the fetched instruction does.  `Cpu.resultOf` and
`Cpu.registersOf` read result and registers of the step off the outcome of that
transaction, and `Cpu.step_eq_cycle` says that nothing else happens in a step.
The facts about single steps below are facts about transactions carried over.
-/

namespace WordMachine

namespace CpuEvent

def access? : CpuEvent → Option Access
  | access made => some made
  | decoded _ _ => none

def accesses (events : List CpuEvent) : List Access :=
  events.filterMap access?

@[simp] theorem accesses_nil : accesses [] = [] := rfl

@[simp] theorem accesses_append (events events' : List CpuEvent) :
    accesses (events ++ events') = accesses events ++ accesses events' := by
  simp [accesses]

@[simp] theorem accesses_decoded_cons
    (pc : Address) (instr : Instruction) (events : List CpuEvent) :
    accesses (.decoded pc instr :: events) = accesses events := rfl

@[simp] theorem accesses_map_access (made : List Access) :
    accesses (made.map .access) = made := by
  induction made with
  | nil => rfl
  | cons access rest ih => simpa [accesses, access?] using ih

end CpuEvent

namespace Instruction

open Transaction

/-- What a fetched instruction makes of the registers: nothing if it divides by
zero. -/
def outcome (instr : Instruction) (regs : Registers) :
    Transaction (Option Registers) :=
  if instr.dividesByZero regs then return none
  else do
    let after ← instr.effect regs
    return some after

def cycle (regs : Registers) : Transaction (Instruction × Option Registers) := do
  let instr ← fetch regs.pc
  let after ← instr.outcome (regs.advancePc 2)
  return (instr, after)

@[simp] theorem requests_fetch (pc : Address) (answers : List Byte) :
    (fetch pc).requests answers = Request.readWord pc := rfl

@[simp] theorem value_fetch (pc : Address) (answers : List Byte) :
    (fetch pc).value answers =
      decode (answers.headD 0) (answers.tail.headD 0) := rfl

@[simp] theorem unread_fetch (pc : Address) (answers : List Byte) :
    (fetch pc).unread answers = answers.tail.tail := rfl

theorem fetch_accesses_length {σ : Type} [Bus σ] (pc : Address) (bus : σ) :
    (∀ instr, ((fetch pc).run bus).result = .ok instr →
        ((fetch pc).run bus).accesses.length = 2) ∧
      ((fetch pc).run bus).accesses.length ≤ 2 := by
  have hbound : ((fetch pc).run bus).accesses.length ≤ 2 := by
    have hprefix := (isPrefix_requests (fetch pc) bus).length_le
    simpa [Request.readWord] using hprefix
  refine ⟨?_, hbound⟩
  intro instr hok
  have hrequests := congrArg List.length (requests_of_ok hok).1
  simpa [Request.readWord] using hrequests

theorem outcome_run {σ : Type} [Bus σ]
    (instr : Instruction) (regs : Registers) (bus : σ) :
    (instr.outcome regs).run bus =
      if instr.dividesByZero regs then ⟨.ok none, bus, []⟩
      else
        match (instr.effect regs).run bus with
        | ⟨.ok after, bus, accesses⟩ => ⟨.ok (some after), bus, accesses⟩
        | ⟨.error error, bus, accesses⟩ => ⟨.error error, bus, accesses⟩ := by
  unfold outcome
  split
  · rfl
  · rw [run_bind]
    rcases (instr.effect regs).run bus with ⟨error | after, bus', accesses⟩
    · rfl
    · simp [run_pure, Outcome.afterAll]

theorem dividesByZero_iff {instr : Instruction} {regs : Registers} :
    instr.dividesByZero regs ↔
      (instr.opcode = .div ∨ instr.opcode = .mod) ∧ regs.get instr.b = 0 := by
  simp [dividesByZero]

theorem requests_effect_of_division
    {instr : Instruction} (hop : instr.opcode = .div ∨ instr.opcode = .mod)
    (regs : Registers) (bytes : List Byte) :
    (instr.effect regs).requests bytes = [] := by
  rcases hop with hop | hop <;> simp [effect, hop]

@[simp] theorem requests_outcome
    (instr : Instruction) (regs : Registers) (bytes : List Byte) :
    (instr.outcome regs).requests bytes = (instr.effect regs).requests bytes := by
  unfold outcome
  split
  next hzero =>
      rw [requests_effect_of_division (dividesByZero_iff.mp hzero).1, requests_pure]
  next hzero => simp

@[simp] theorem value_outcome
    (instr : Instruction) (regs : Registers) (bytes : List Byte) :
    (instr.outcome regs).value bytes =
      if instr.dividesByZero regs then none
      else some ((instr.effect regs).value bytes) := by
  unfold outcome
  split <;> simp

theorem requests_cycle (regs : Registers) (bytes : List Byte) :
    (cycle regs).requests bytes =
      Request.readWord regs.pc ++
        ((decode (bytes.headD 0) (bytes.tail.headD 0)).effect
          (regs.advancePc 2)).requests bytes.tail.tail := by
  simp [cycle]

end Instruction

namespace Cpu

open Transaction

variable {σ : Type}

def Step.accesses (step : Step σ) : List Access :=
  CpuEvent.accesses step.events

def Run.accesses (run : Run σ) : List Access :=
  CpuEvent.accesses run.events.toList

def resultOf :
    Except BusError (Instruction × Option Registers) → Except CpuError Instruction
  | .ok (instr, some _) => .ok instr
  | .ok (instr, none) => .error (.arithmeticFault instr.opcode)
  | .error error => .error (.bus error)

/-- The registers that a step leaves, from the result of its cycle.  Two accesses
are the fetch; after more of them the program counter has moved. -/
def registersOf (regs : Registers) (accesses : List Access) :
    Except BusError (Instruction × Option Registers) → Registers
  | .ok (_, some after) => after
  | .ok (_, none) => regs.advancePc 2
  | .error _ => if accesses.length ≤ 2 then regs else regs.advancePc 2

theorem resultOf_eq_bus_error_iff
    (result : Except BusError (Instruction × Option Registers)) (error : BusError) :
    resultOf result = .error (.bus error) ↔ result = .error error := by
  rcases result with cause | ⟨instr, _ | after⟩ <;> simp [resultOf]

variable [Bus σ]

theorem step_of_sentinel {cpu : Cpu σ} (hpc : cpu.regs.pc = sentinel) :
    cpu.step = ⟨.error (.instructionInvalid cpu.regs.pc), cpu, []⟩ := by
  rcases cpu with ⟨regs, bus⟩
  simp only [step]
  rw [if_pos hpc]

/-- A step is its cycle and nothing else. -/
theorem step_eq_cycle {cpu : Cpu σ} (hpc : cpu.regs.pc ≠ sentinel) :
    let outcome := (Instruction.cycle cpu.regs).run cpu.bus
    cpu.step.result = resultOf outcome.result ∧
      cpu.step.cpu =
        ⟨registersOf cpu.regs outcome.accesses outcome.result, outcome.bus⟩ ∧
      cpu.step.accesses = outcome.accesses := by
  rcases cpu with ⟨regs, bus⟩
  have hlength := Instruction.fetch_accesses_length regs.pc bus
  simp only [step, Instruction.cycle, run_bind]
  rw [if_neg hpc]
  rcases hfetch : (Instruction.fetch regs.pc).run bus with ⟨error | instr, bus₁, fetched⟩
  · rw [hfetch] at hlength
    simp [resultOf, registersOf, Step.accesses, if_pos hlength.2]
  · rw [hfetch] at hlength
    have hfetched : fetched.length = 2 := hlength.1 instr rfl
    simp only [execute, Instruction.outcome_run]
    by_cases hzero : instr.dividesByZero (regs.advancePc 2)
    · simp [hzero, resultOf, registersOf, Step.accesses, Outcome.afterAll, run_pure]
    · simp only [hzero]
      rcases heffect : (instr.effect (regs.advancePc 2)).run bus₁ with
        ⟨error | after, bus₂, made⟩
      · have hmade : made ≠ [] := by
          have hfailed :
              ((instr.effect (regs.advancePc 2)).run bus₁).result = .error error := by
            rw [heffect]
          rcases exists_failed_last hfailed with ⟨before, last, haccesses, -⟩
          rw [heffect] at haccesses
          have hsplit : made = before ++ [last] := haccesses
          simp [hsplit]
        have hmany : ¬ fetched.length + made.length ≤ 2 := by
          have hpos := List.length_pos_iff.mpr hmade
          omega
        simp [resultOf, registersOf, Step.accesses, Outcome.afterAll, hmany]
      · simp [resultOf, registersOf, Step.accesses, Outcome.afterAll, run_pure]

theorem performAll_step (cpu : Cpu σ) :
    Request.performAll (cpu.step.accesses.map Access.request) cpu.bus =
      (cpu.step.accesses, cpu.step.cpu.bus) := by
  by_cases hpc : cpu.regs.pc = sentinel
  · rw [step_of_sentinel hpc]
    rfl
  · rcases step_eq_cycle hpc with ⟨-, hcpu, haccesses⟩
    rw [haccesses, hcpu]
    exact performAll_run _ _

theorem exists_failed_last_of_step
    {cpu : Cpu σ} {error : BusError}
    (herror : cpu.step.result = .error (.bus error)) :
    ∃ made last, cpu.step.accesses = made ++ [last] ∧
      last.error? = some error ∧ ∀ access ∈ made, access.error? = none := by
  by_cases hpc : cpu.regs.pc = sentinel
  · rw [step_of_sentinel hpc] at herror
    simp at herror
  · rcases step_eq_cycle hpc with ⟨hresult, -, haccesses⟩
    rw [hresult, resultOf_eq_bus_error_iff] at herror
    rw [haccesses]
    exact exists_failed_last herror

theorem step_requests_isPrefix {cpu : Cpu σ} (hpc : cpu.regs.pc ≠ sentinel) :
    cpu.step.accesses.map Access.request <+:
      (Instruction.cycle cpu.regs).requests (answers cpu.step.accesses) := by
  rw [(step_eq_cycle hpc).2.2]
  exact isPrefix_requests _ _

theorem step_requests_of_no_bus_error
    {cpu : Cpu σ} (hpc : cpu.regs.pc ≠ sentinel)
    (hresult : ∀ error, cpu.step.result ≠ .error (.bus error)) :
    cpu.step.accesses.map Access.request =
        (Instruction.cycle cpu.regs).requests (answers cpu.step.accesses) ∧
      ∀ access ∈ cpu.step.accesses, access.error? = none := by
  rcases step_eq_cycle hpc with ⟨hstep, -, haccesses⟩
  cases hrun : ((Instruction.cycle cpu.regs).run cpu.bus).result with
  | error error =>
      rw [hrun] at hstep
      exact absurd hstep (hresult error)
  | ok done =>
      rw [haccesses]
      rcases requests_of_ok hrun with ⟨hrequests, -, hsucceeded⟩
      exact ⟨hrequests, hsucceeded⟩

/-- What a step does if the bus refuses nothing: the word read first is its
instruction, and unless it divides by zero, effect and requests of that
instruction are those of the step. -/
theorem step_of_no_bus_error
    {cpu : Cpu σ} (hpc : cpu.regs.pc ≠ sentinel)
    (hresult : ∀ error, cpu.step.result ≠ .error (.bus error)) :
    let bytes := answers cpu.step.accesses
    let source := cpu.regs.advancePc 2
    let instr := Instruction.decode (bytes.headD 0) (bytes.tail.headD 0)
    cpu.step.accesses.map Access.request =
        Request.readWord cpu.regs.pc ++
          (instr.effect source).requests bytes.tail.tail ∧
      cpu.step.result =
        (if instr.dividesByZero source then .error (.arithmeticFault instr.opcode)
        else .ok instr) ∧
      cpu.step.cpu.regs =
        if instr.dividesByZero source then source
        else (instr.effect source).value bytes.tail.tail := by
  intro bytes source instr
  have hrequests := (step_requests_of_no_bus_error hpc hresult).1
  rw [Instruction.requests_cycle] at hrequests
  obtain ⟨hstep, hcpu, haccesses⟩ := step_eq_cycle hpc
  cases hrun : ((Instruction.cycle cpu.regs).run cpu.bus).result with
  | error error =>
      rw [hrun] at hstep
      exact absurd hstep (hresult error)
  | ok done =>
      have hvalue := (requests_of_ok hrun).2.1
      rw [← haccesses] at hvalue
      simp only [Instruction.cycle, value_bind, Instruction.value_fetch,
        Instruction.unread_fetch, Instruction.value_outcome, value_pure] at hvalue
      have hdone : done = (instr, if instr.dividesByZero source then none
          else some ((instr.effect source).value bytes.tail.tail)) := hvalue.symm
      rw [hstep, hcpu, hrun, hdone]
      refine ⟨hrequests, ?_, ?_⟩ <;> split <;> rfl

/-- What a step that succeeds has done: the word read first is its instruction,
and effect and requests of that instruction are those of the step. -/
theorem step_of_ok
    {cpu : Cpu σ} {instr : Instruction} (hok : cpu.step.result = .ok instr) :
    let bytes := answers cpu.step.accesses
    let source := cpu.regs.advancePc 2
    instr = Instruction.decode (bytes.headD 0) (bytes.tail.headD 0) ∧
      cpu.step.accesses.map Access.request =
        Request.readWord cpu.regs.pc ++
          (instr.effect source).requests bytes.tail.tail ∧
      cpu.step.cpu.regs = (instr.effect source).value bytes.tail.tail := by
  intro bytes source
  have hpc : cpu.regs.pc ≠ sentinel := by
    intro hsentinel
    rw [step_of_sentinel hsentinel] at hok
    contradiction
  obtain ⟨hrequests, hresult, hregs⟩ := step_of_no_bus_error hpc (by simp [hok])
  rw [hok] at hresult
  split at hresult
  next hzero => contradiction
  next hzero =>
      have hinstr := Except.ok.inj hresult
      rw [if_neg hzero] at hregs
      rw [← hinstr] at hrequests hregs
      exact ⟨hinstr, hrequests, hregs⟩

end Cpu

end WordMachine
