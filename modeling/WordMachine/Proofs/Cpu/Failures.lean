import Mathlib.Tactic.ByContra
import WordMachine.Bus.FaultPlan
import WordMachine.Proofs.Cpu.Memory
import WordMachine.Proofs.Cpu.Run

/-!
# How a step fails

`Cpu.FailsWith` lists the causes for which a step can fail: the program counter
on the sentinel, a refused access, a zero divisor.  Each comes with its error and
with the registers that it leaves.  These are the old ones, with nothing but the
program counter moved once the instruction word has been fetched; no instruction
commits a register before its last access.

Memory refuses nothing, so two of the causes are left there.  A processor counts
as halted exactly if it is stuck: its steps fail without asking the bus.
-/

namespace WordMachine

theorem Access.exists_eq_read
    {access : Access} {addr : Address} (hrequest : access.request = .read addr)
    (hanswered : access.error? = none) : ∃ byte, access = .read addr byte := by
  cases access with
  | read other byte =>
      have heq := Request.read.inj hrequest
      subst heq
      exact ⟨byte, rfl⟩
  | readFailed other error => contradiction
  | write other byte => contradiction
  | writeFailed other byte error => contradiction

namespace Cpu

open Instruction

variable {σ : Type} [Bus σ]

/-- The causes for which a step of `cpu` fails.  Its accesses 0 and 1 are those
of the fetch. -/
inductive FailsWith (cpu : Cpu σ) : CpuError → Registers → Prop where
  | halted (hpc : cpu.regs.pc = sentinel) :
      cpu.FailsWith (.instructionInvalid 0xFFFF) cpu.regs
  | fetch {i : Nat} {failed : Access} {error : BusError}
      (hpc : cpu.regs.pc ≠ sentinel) (hi : i < 2)
      (hfailed : cpu.step.accesses[i]? = some failed)
      (herror : failed.error? = some error) :
      cpu.FailsWith (.bus error) cpu.regs
  | access {i : Nat} {failed : Access} {error : BusError}
      (hpc : cpu.regs.pc ≠ sentinel) (hi : 2 ≤ i)
      (hfailed : cpu.step.accesses[i]? = some failed)
      (herror : failed.error? = some error) :
      cpu.FailsWith (.bus error) (cpu.regs.setPc (cpu.regs.pc + 2))
  | division {first second : Byte} {rest : List Access}
      (hpc : cpu.regs.pc ≠ sentinel)
      (hfetched : cpu.step.accesses =
        .read cpu.regs.pc first :: .read (cpu.regs.pc + 1) second :: rest)
      (hop : (decode first second).opcode = .div ∨ (decode first second).opcode = .mod)
      (hzero : (cpu.regs.setPc (cpu.regs.pc + 2)).get (decode first second).b = 0) :
      cpu.FailsWith (.arithmeticFault (decode first second).opcode)
        (cpu.regs.setPc (cpu.regs.pc + 2))

variable {cpu : Cpu σ}

/-! ## Refused accesses -/

theorem ne_sentinel_of_access
    {i : Nat} {access : Access} (haccess : cpu.step.accesses[i]? = some access) :
    cpu.regs.pc ≠ sentinel := by
  intro hpc
  rw [step_of_sentinel hpc] at haccess
  contradiction

theorem eq_last_of_failed
    {before : List Access} {last failed : Access} {i : Nat} {error : BusError}
    (hbefore : ∀ access ∈ before, access.error? = none)
    (hfailed : (before ++ [last])[i]? = some failed)
    (herror : failed.error? = some error) :
    i = before.length ∧ failed = last := by
  have hlt := (List.getElem?_eq_some_iff.mp hfailed).1
  rw [List.length_append, List.length_singleton] at hlt
  have hlast : i = before.length := by
    by_contra hne
    rw [List.getElem?_append_left (by omega)] at hfailed
    rw [hbefore failed (List.mem_of_getElem? hfailed)] at herror
    contradiction
  refine ⟨hlast, ?_⟩
  rw [hlast, List.getElem?_concat_length] at hfailed
  exact (Option.some.inj hfailed).symm

theorem step_of_failed_access
    {i : Nat} {failed : Access} {error : BusError}
    (hfailed : cpu.step.accesses[i]? = some failed)
    (herror : failed.error? = some error) :
    cpu.step.result = .error (.bus error) ∧ cpu.step.accesses.length = i + 1 := by
  have hpc := ne_sentinel_of_access hfailed
  obtain ⟨cause, hcause⟩ : ∃ cause, cpu.step.result = .error (.bus cause) := by
    by_contra hnone
    have hsucceeded := (step_requests_of_no_bus_error hpc (not_exists.mp hnone)).2
    rw [hsucceeded failed (List.mem_of_getElem? hfailed)] at herror
    contradiction
  obtain ⟨before, last, hmade, hlast, hbefore⟩ := exists_failed_last_of_step hcause
  rw [hmade] at hfailed
  obtain ⟨hi, heq⟩ := eq_last_of_failed hbefore hfailed herror
  subst heq
  have hcause' : cause = error := Option.some.inj (hlast.symm.trans herror)
  rw [hcause, hcause', hmade, hi, List.length_append, List.length_singleton]
  exact ⟨rfl, rfl⟩

theorem regs_of_bus_error
    {error : BusError} (herror : cpu.step.result = .error (.bus error)) :
    cpu.step.cpu.regs =
      if cpu.step.accesses.length ≤ 2 then cpu.regs
      else cpu.regs.setPc (cpu.regs.pc + 2) := by
  have hpc : cpu.regs.pc ≠ sentinel := by
    intro hpc
    rw [step_of_sentinel hpc] at herror
    simp at herror
  obtain ⟨hresult, hcpu, haccesses⟩ := step_eq_cycle hpc
  rw [hresult, resultOf_eq_bus_error_iff] at herror
  rw [hcpu, haccesses, herror]
  rfl

/-! ## Fetched words -/

theorem accesses_eq_nil_iff : cpu.step.accesses = [] ↔ cpu.regs.pc = sentinel := by
  constructor
  · intro hnil
    by_contra hpc
    have hanswered : ∀ error, cpu.step.result ≠ .error (.bus error) := by
      intro error herror
      obtain ⟨before, last, hmade, -⟩ := exists_failed_last_of_step herror
      simp [hnil] at hmade
    have hrequests := (step_of_no_bus_error hpc hanswered).1
    simp [hnil, Request.readWord] at hrequests
  · intro hpc
    rw [step_of_sentinel hpc]
    rfl

theorem fetch_accesses_isPrefix (cpu : Cpu σ) :
    (cpu.step.accesses.map Access.request).take 2 <+: Request.readWord cpu.regs.pc := by
  by_cases hpc : cpu.regs.pc = sentinel
  · rw [accesses_eq_nil_iff.mpr hpc]
    exact List.nil_prefix
  · have hplanned := step_requests_isPrefix hpc
    rw [requests_cycle] at hplanned
    apply List.prefix_of_prefix_length_le ((List.take_prefix 2 _).trans hplanned)
      (List.prefix_append _ _)
    exact List.length_take_le 2 _

theorem step_of_fetch_error
    {error : BusError} (hpc : cpu.regs.pc ≠ sentinel)
    (hfetch : ((fetch cpu.regs.pc).run cpu.bus).result = .error error) :
    cpu.step.result = .error (.bus error) := by
  rw [(step_eq_cycle hpc).1, resultOf_eq_bus_error_iff, cycle, Transaction.run_bind]
  cases hrun : (fetch cpu.regs.pc).run cpu.bus with
  | mk result bus accesses =>
      rw [hrun] at hfetch
      simp only at hfetch
      rw [hfetch]

/-- Without a bus error the two bytes of the word have been read. -/
theorem exists_fetched
    (hpc : cpu.regs.pc ≠ sentinel)
    (hanswered : ∀ error, cpu.step.result ≠ .error (.bus error)) :
    ∃ first second rest,
      cpu.step.accesses =
        .read cpu.regs.pc first :: .read (cpu.regs.pc + 1) second :: rest := by
  have hrequests := (step_of_no_bus_error hpc hanswered).1
  have hsucceeded := (step_requests_of_no_bus_error hpc hanswered).2
  match hmade : cpu.step.accesses with
  | [] | [_] => simp [hmade, Request.readWord] at hrequests
  | one :: two :: rest =>
      simp only [hmade, Request.readWord, List.map_cons, List.cons_append,
        List.nil_append, List.cons.injEq] at hrequests
      obtain ⟨hone, htwo, -⟩ := hrequests
      obtain ⟨first, rfl⟩ := Access.exists_eq_read hone (hsucceeded one (by simp [hmade]))
      obtain ⟨second, rfl⟩ := Access.exists_eq_read htwo (hsucceeded two (by simp [hmade]))
      exact ⟨first, second, rest, rfl⟩

/-- An instruction that asks the bus for nothing makes no access behind its fetch, so none
can be refused there. -/
theorem step_of_silent
    {first second : Byte} {rest : List Access} (hpc : cpu.regs.pc ≠ sentinel)
    (hfetched : cpu.step.accesses =
      .read cpu.regs.pc first :: .read (cpu.regs.pc + 1) second :: rest)
    (hsilent : ∀ source bytes, ((decode first second).effect source).requests bytes = []) :
    rest = [] ∧ ∀ error, cpu.step.result ≠ .error (.bus error) := by
  have hplanned := step_requests_isPrefix hpc
  rw [requests_cycle, hfetched] at hplanned
  have hlength := hplanned.length_le
  simp only [answers_cons, Access.answer?, Option.toList_some, List.cons_append,
    List.nil_append, List.headD_cons, List.tail_cons, hsilent, List.append_nil,
    List.map_cons, List.length_cons, List.length_map] at hlength
  have hnone : rest = [] := by
    apply List.eq_nil_of_length_eq_zero
    simp only [Request.readWord, List.length_cons, List.length_nil] at hlength
    omega
  refine ⟨hnone, ?_⟩
  intro error herror
  obtain ⟨before, last, hmade, hlast, -⟩ := exists_failed_last_of_step herror
  have hread : last = .read (cpu.regs.pc + 1) second := by
    have hends := congrArg List.getLast? hmade
    rw [hfetched, hnone, List.getLast?_concat] at hends
    exact (Option.some.inj hends).symm
  rw [hread] at hlast
  contradiction

theorem step_of_division
    {first second : Byte} {rest : List Access} (hpc : cpu.regs.pc ≠ sentinel)
    (hfetched : cpu.step.accesses =
      .read cpu.regs.pc first :: .read (cpu.regs.pc + 1) second :: rest)
    (hop : (decode first second).opcode = .div ∨ (decode first second).opcode = .mod) :
    rest = [] ∧ ∀ error, cpu.step.result ≠ .error (.bus error) :=
  step_of_silent hpc hfetched (requests_effect_of_division hop)

theorem step_of_fetched
    {first second : Byte} {rest : List Access} (hpc : cpu.regs.pc ≠ sentinel)
    (hfetched : cpu.step.accesses =
      .read cpu.regs.pc first :: .read (cpu.regs.pc + 1) second :: rest)
    (hanswered : ∀ error, cpu.step.result ≠ .error (.bus error)) :
    let instr := decode first second
    let moved := cpu.regs.setPc (cpu.regs.pc + 2)
    cpu.step.result =
        (if instr.dividesByZero moved then .error (.arithmeticFault instr.opcode)
        else .ok instr) ∧
      cpu.step.cpu.regs =
        if instr.dividesByZero moved then moved
        else (instr.effect moved).value (answers rest) := by
  intro instr moved
  obtain ⟨-, hresult, hregs⟩ := step_of_no_bus_error hpc hanswered
  rw [hfetched] at hresult hregs
  exact ⟨hresult, hregs⟩

/-! ## Causes -/

theorem FailsWith.step
    {error : CpuError} {regs : Registers} (hfails : cpu.FailsWith error regs) :
    cpu.step.result = .error error ∧ cpu.step.cpu.regs = regs := by
  cases hfails with
  | halted hpc =>
      rw [step_of_sentinel hpc, hpc]
      exact ⟨rfl, rfl⟩
  | @fetch i failed error hpc hi hfailed herror =>
      obtain ⟨hresult, hlength⟩ := step_of_failed_access hfailed herror
      refine ⟨hresult, ?_⟩
      rw [regs_of_bus_error hresult, if_pos (by omega)]
  | @access i failed error hpc hi hfailed herror =>
      obtain ⟨hresult, hlength⟩ := step_of_failed_access hfailed herror
      refine ⟨hresult, ?_⟩
      rw [regs_of_bus_error hresult, if_neg (by omega)]
  | @division first second rest hpc hfetched hop hzero =>
      obtain ⟨-, hanswered⟩ := step_of_division hpc hfetched hop
      obtain ⟨hresult, hregs⟩ := step_of_fetched hpc hfetched hanswered
      have hdivides := dividesByZero_iff.mpr ⟨hop, hzero⟩
      rw [if_pos hdivides] at hresult
      exact ⟨hresult, hregs.trans (if_pos hdivides)⟩

theorem failsWith_of_bus_error
    {error : BusError} (hpc : cpu.regs.pc ≠ sentinel)
    (hresult : cpu.step.result = .error (.bus error)) :
    cpu.FailsWith (.bus error) cpu.step.cpu.regs := by
  obtain ⟨before, last, hmade, hlast, -⟩ := exists_failed_last_of_step hresult
  have hfailed : cpu.step.accesses[before.length]? = some last := by
    rw [hmade, List.getElem?_concat_length]
  have hlength : cpu.step.accesses.length = before.length + 1 := by simp [hmade]
  rw [regs_of_bus_error hresult]
  by_cases hfetch : before.length < 2
  · rw [if_pos (by omega)]
    exact .fetch hpc hfetch hfailed hlast
  · rw [if_neg (by omega)]
    exact .access hpc (Nat.le_of_not_lt hfetch) hfailed hlast

theorem failsWith_of_step
    {error : CpuError} (hresult : cpu.step.result = .error error) :
    cpu.FailsWith error cpu.step.cpu.regs := by
  by_cases hpc : cpu.regs.pc = sentinel
  · rw [step_of_sentinel hpc, hpc] at hresult
    have heq := Except.error.inj hresult
    subst heq
    rw [step_of_sentinel hpc]
    exact .halted hpc
  · by_cases hbus : ∃ cause, cpu.step.result = .error (.bus cause)
    · obtain ⟨cause, hcause⟩ := hbus
      have heq := Except.error.inj (hresult.symm.trans hcause)
      subst heq
      exact failsWith_of_bus_error hpc hcause
    · have hanswered := not_exists.mp hbus
      obtain ⟨first, second, rest, hfetched⟩ := exists_fetched hpc hanswered
      obtain ⟨hstep, hregs⟩ := step_of_fetched hpc hfetched hanswered
      rw [hresult] at hstep
      split at hstep
      next hdivides =>
          have heq := Except.error.inj hstep
          subst heq
          obtain ⟨hop, hzero⟩ := dividesByZero_iff.mp hdivides
          rw [hregs, if_pos hdivides]
          exact .division hpc hfetched hop hzero
      next => contradiction

/-! ## Halted processors -/

theorem afterSteps_of_sentinel (hpc : cpu.regs.pc = sentinel) (count : Nat) :
    cpu.afterSteps count = cpu := by
  induction count with
  | zero => rfl
  | succ count ih => rw [afterSteps_succ, ih, step_of_sentinel hpc]

theorem halted_iff_stuck :
    cpu.state = .haltedInvalid ↔
      ∀ count,
        (∃ error, (cpu.afterSteps count).step.result = .error error) ∧
          (cpu.afterSteps count).step.accesses = [] := by
  have hstate : cpu.state = .haltedInvalid ↔ cpu.regs.pc = sentinel := by simp [state]
  rw [hstate]
  constructor
  · intro hpc count
    rw [afterSteps_of_sentinel hpc]
    exact ⟨⟨_, congrArg Step.result (step_of_sentinel hpc)⟩, accesses_eq_nil_iff.mpr hpc⟩
  · intro hstuck
    exact accesses_eq_nil_iff.mp (hstuck 0).2

theorem step_memory_fails_iff (cpu : Cpu Memory) :
    (∃ error, cpu.step.result = .error error) ↔
      cpu.regs.pc = sentinel ∨
        (cpu.bus.instructionAt cpu.regs.pc).dividesByZero (cpu.regs.advancePc 2) := by
  by_cases hpc : cpu.regs.pc = sentinel
  · simp [hpc, step_of_sentinel hpc]
  · obtain ⟨hresult, -⟩ := step_memory hpc
    rw [hresult]
    split <;> simp [*]

/-- A step fails for one of the listed causes, with the error and the registers
that belong to it, and for no other: bytes refused to the fetch leave all
registers alone, and every later failure has moved the program counter and
nothing else.  A halted processor and a division by zero ask the bus for nothing
more.  On memory these two causes are the only ones. -/
theorem step_failures (cpu : Cpu σ) :
    (∀ error regs, cpu.FailsWith error regs ↔
        cpu.step.result = .error error ∧ cpu.step.cpu.regs = regs) ∧
      (cpu.step.accesses.map Access.request).take 2 <+: Request.readWord cpu.regs.pc ∧
      (cpu.step.accesses = [] ↔ cpu.regs.pc = sentinel) ∧
      (∀ op, cpu.step.result = .error (.arithmeticFault op) →
        cpu.step.accesses.length = 2) ∧
      (cpu.state = .haltedInvalid ↔
        ∀ count,
          (∃ error, (cpu.afterSteps count).step.result = .error error) ∧
            (cpu.afterSteps count).step.accesses = []) ∧
      ∀ plain : Cpu Memory,
        let p := plain.regs.pc
        let instr := decode (plain.bus.get p) (plain.bus.get (p + 1))
        (∃ error, plain.step.result = .error error) ↔
          p = sentinel ∨
            (instr.opcode = .div ∨ instr.opcode = .mod) ∧
              (plain.regs.setPc (p + 2)).get instr.b = 0 := by
  refine ⟨?_, fetch_accesses_isPrefix cpu, accesses_eq_nil_iff, ?_, halted_iff_stuck, ?_⟩
  · intro error regs
    constructor
    · exact FailsWith.step
    · rintro ⟨hresult, rfl⟩
      exact failsWith_of_step hresult
  · intro op hresult
    have hfails := failsWith_of_step hresult
    generalize cpu.step.cpu.regs = regs at hfails
    cases hfails with
    | division hpc hfetched hop hzero =>
        obtain ⟨hnone, -⟩ := step_of_division hpc hfetched hop
        rw [hfetched, hnone]
        rfl
  · intro plain p instr
    rw [step_memory_fails_iff]
    exact or_congr_right dividesByZero_iff

/-- A push whose second byte is refused: of its registers only the program counter
has moved, the stack pointer has not. -/
theorem step_failures_pushed_byte :
    let cpu : Cpu (WithFaults Memory) :=
      ⟨(Registers.startingAt 3).setSp 16,
        ⟨Memory.zero.load 3 [0x09, 0x00, 0x34, 0x12],
          { writes := [(17, .unknown "lost")] }, 0⟩⟩
    cpu.FailsWith (.bus (.unknown "lost")) (cpu.regs.setPc 5) ∧
      cpu.step.result = .error (.bus (.unknown "lost")) ∧
      cpu.step.cpu.regs = cpu.regs.setPc 5 := by
  intro cpu
  have hfailed : cpu.step.accesses[5]? =
      some (.writeFailed 17 0x12 (.unknown "lost")) := by decide
  have hfails : cpu.FailsWith (.bus (.unknown "lost")) (cpu.regs.setPc 5) :=
    .access (by decide) (by decide) hfailed rfl
  obtain ⟨hiff, -⟩ := step_failures cpu
  exact ⟨hfails, (hiff _ _).mp hfails⟩

end Cpu

end WordMachine
