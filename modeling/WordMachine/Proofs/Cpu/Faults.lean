import WordMachine.Bus.Memory
import WordMachine.Proofs.Bus.Refusal
import WordMachine.Proofs.Cpu.Run

/-!
# A run cut by a bus fault

When a bus refuses access number `n`, a run ends exactly there.  The step lemmas
compare a step on the refusing bus with the same step on the bus behind it:
before the refused access nothing differs, and at it the step fails with the
registers that a failed step keeps.  Induction on the budget carries this over to
runs, `run_refusing`.
-/

namespace WordMachine.Cpu

open Transaction WithFaults

variable {σ : Type}

/-- The processor on a bus that refuses access `n`, after `count` accesses. -/
def refusing (cpu : Cpu σ) (n : Nat) (error : BusError) (count : Nat) :
    Cpu (WithFaults σ) :=
  ⟨cpu.regs, WithFaults.refusing cpu.bus n error count⟩

variable [Bus σ] {n count : Nat}

theorem step_refusing_of_le
    (cpu : Cpu σ) (error : BusError)
    (hbefore : count + cpu.step.accesses.length ≤ n) :
    (cpu.refusing n error count).step.result = cpu.step.result ∧
      (cpu.refusing n error count).step.cpu =
        cpu.step.cpu.refusing n error (count + cpu.step.accesses.length) ∧
      (cpu.refusing n error count).step.accesses = cpu.step.accesses := by
  by_cases hpc : cpu.regs.pc = sentinel
  · have hpc' : (cpu.refusing n error count).regs.pc = sentinel := hpc
    rw [step_of_sentinel hpc, step_of_sentinel hpc']
    exact ⟨rfl, rfl, rfl⟩
  · have hpc' : (cpu.refusing n error count).regs.pc ≠ sentinel := hpc
    rcases step_eq_cycle hpc with ⟨hresult, hcpu, haccesses⟩
    rcases step_eq_cycle hpc' with ⟨hresult', hcpu', haccesses'⟩
    rw [haccesses] at hbefore
    have hrun := run_refusing_of_le (Instruction.cycle cpu.regs) cpu.bus error hbefore
    rw [hresult', hcpu', haccesses', hresult, hcpu, haccesses]
    simp only [refusing, hrun]
    exact ⟨trivial, trivial, trivial⟩

theorem step_refusing_of_lt
    (cpu : Cpu σ) (error : BusError) (hcount : count ≤ n)
    (hreached : n < count + cpu.step.accesses.length) :
    ∃ missed, cpu.step.accesses[n - count]? = some missed ∧
      (cpu.refusing n error count).step.result = .error (.bus error) ∧
      (cpu.refusing n error count).step.cpu =
        ⟨if n < count + 2 then cpu.regs else cpu.regs.advancePc 2,
          WithFaults.refusing
            (Request.performAll
              ((cpu.step.accesses.take (n - count)).map Access.request) cpu.bus).2
            n error (n + 1)⟩ ∧
      (cpu.refusing n error count).step.accesses =
        cpu.step.accesses.take (n - count) ++ [missed.request.refused error] := by
  have hpc : cpu.regs.pc ≠ sentinel := by
    intro hpc
    rw [step_of_sentinel hpc] at hreached
    simp [Step.accesses] at hreached
    omega
  have hpc' : (cpu.refusing n error count).regs.pc ≠ sentinel := hpc
  rcases step_eq_cycle hpc with ⟨-, -, haccesses⟩
  rcases step_eq_cycle hpc' with ⟨hresult', hcpu', haccesses'⟩
  rw [haccesses] at hreached
  obtain ⟨missed, hmissed, hrun⟩ :=
    run_refusing_of_lt (Instruction.cycle cpu.regs) cpu.bus error hcount hreached
  rw [← haccesses] at hmissed hrun hreached
  refine ⟨missed, hmissed, ?_, ?_, ?_⟩
  · rw [hresult']
    simp only [refusing, hrun]
    rfl
  · have hlength :
        (cpu.step.accesses.take (n - count) ++ [missed.request.refused error]).length ≤ 2 ↔
          n < count + 2 := by
      simp only [List.length_append, List.length_take, List.length_singleton]
      omega
    rw [hcpu']
    simp only [refusing, hrun, registersOf, hlength]
  · rw [haccesses']
    simp only [refusing, hrun]

/-- How a run ends at the refused access, compared with the run on the bus
itself: `missed` is the access that the refused one stands for, and `done` counts
the instructions completed before. -/
structure Cut (cpu : Cpu σ) (budget n : Nat) (error : BusError) (count : Nat)
    (missed : Access) (done : Nat) : Prop where
  missed_eq : (cpu.run budget).accesses[n - count]? = some missed
  result : ((cpu.refusing n error count).run budget).result = .error (.bus error)
  accesses :
    ((cpu.refusing n error count).run budget).accesses =
      (cpu.run budget).accesses.take (n - count) ++ [missed.request.refused error]
  bus :
    ((cpu.refusing n error count).run budget).cpu.bus.bus =
      (Request.performAll
        (((cpu.run budget).accesses.take (n - count)).map Access.request) cpu.bus).2
  done_lt : done < budget
  done_ok : (cpu.run done).result = .ok done
  done_le : count + (cpu.run done).accesses.length ≤ n
  lt_next : n < count + (cpu.run (done + 1)).accesses.length
  regs :
    ((cpu.refusing n error count).run budget).cpu.regs =
      if n < count + (cpu.run done).accesses.length + 2 then (cpu.run done).cpu.regs
      else (cpu.run done).cpu.regs.advancePc 2

theorem cut_of_step
    (cpu : Cpu σ) (error : BusError) (budget : Nat) (hcount : count ≤ n)
    (hhere : n < count + cpu.step.accesses.length) :
    ∃ missed, Cut cpu (budget + 1) n error count missed 0 := by
  obtain ⟨missed, hmissed, hresult, hcpu, haccesses⟩ :=
    step_refusing_of_lt cpu error hcount hhere
  rcases exists_accesses_run_succ cpu budget with ⟨rest, hrest⟩
  rcases exists_accesses_run_succ cpu 0 with ⟨rest', hrest'⟩
  have hcut := run_succ_of_error hresult budget
  have htake : (cpu.run (budget + 1)).accesses.take (n - count) =
      cpu.step.accesses.take (n - count) := by
    rw [hrest]
    exact List.take_append_of_le_length (by omega)
  refine ⟨missed, ?_, ?_, ?_, ?_, by omega, rfl, by simpa using hcount, ?_, ?_⟩
  · rw [hrest, List.getElem?_append_left (by omega)]
    exact hmissed
  · rw [hcut]
  · rw [htake, ← haccesses]
    exact accesses_run_succ_of_error hresult budget
  · rw [hcut, htake]
    simp only [hcpu]
    rfl
  · rw [hrest', List.length_append]
    omega
  · rw [hcut]
    simp only [hcpu]
    rfl

theorem Cut.of_next
    {cpu : Cpu σ} {budget done : Nat} {error : BusError} {missed : Access}
    {instr : Instruction} (hstep : cpu.step.result = .ok instr)
    (hbefore : count + cpu.step.accesses.length ≤ n)
    (hnext : Cut cpu.step.cpu budget n error (count + cpu.step.accesses.length)
      missed done) :
    Cut cpu (budget + 1) n error count missed (done + 1) := by
  rcases step_refusing_of_le cpu error hbefore with ⟨hresult, hcpu, haccesses⟩
  have hsplit := accesses_run_succ_of_ok hstep budget
  have hstep' := hresult.trans hstep
  have hcut := run_succ_of_ok hstep' budget
  have hcutAccesses := accesses_run_succ_of_ok hstep' budget
  rw [hcpu] at hcut hcutAccesses
  have hindex : n - count - cpu.step.accesses.length =
      n - (count + cpu.step.accesses.length) := by omega
  have htake : (cpu.run (budget + 1)).accesses.take (n - count) =
      cpu.step.accesses ++
        (cpu.step.cpu.run budget).accesses.take
          (n - (count + cpu.step.accesses.length)) := by
    rw [hsplit, List.take_append, hindex, List.take_of_length_le (by omega)]
  have hlength := congrArg List.length (accesses_run_succ_of_ok hstep done)
  have hlength' := congrArg List.length (accesses_run_succ_of_ok hstep (done + 1))
  rw [List.length_append] at hlength hlength'
  have hlow := hnext.done_le
  have hhigh := hnext.lt_next
  refine ⟨?_, ?_, ?_, ?_, ?_, ?_, by omega, by omega, ?_⟩
  · rw [hsplit, List.getElem?_append_right (by omega), hindex]
    exact hnext.missed_eq
  · rw [hcut]
    simp only [hnext.result]
    rfl
  · rw [hcutAccesses, haccesses, hnext.accesses, htake, List.append_assoc]
  · rw [hcut, htake, List.map_append, Request.performAll_append, performAll_step]
    exact hnext.bus
  · have hlt := hnext.done_lt
    omega
  · rw [run_succ_of_ok hstep, hnext.done_ok]
    simp [Except.map, Nat.add_comm]
  · rw [hcut, hlength, run_succ_of_ok hstep, ← Nat.add_assoc]
    exact hnext.regs

theorem exists_cut
    (cpu : Cpu σ) (error : BusError) (budget : Nat) (hcount : count ≤ n)
    (hreached : n < count + (cpu.run budget).accesses.length) :
    ∃ missed done, Cut cpu budget n error count missed done := by
  induction budget generalizing cpu count with
  | zero =>
      simp at hreached
      omega
  | succ budget ih =>
      by_cases hhere : n < count + cpu.step.accesses.length
      · rcases cut_of_step cpu error budget hcount hhere with ⟨missed, hcut⟩
        exact ⟨missed, 0, hcut⟩
      · cases hstep : cpu.step.result with
        | error cause =>
            rw [accesses_run_succ_of_error hstep] at hreached
            contradiction
        | ok instr =>
            rw [accesses_run_succ_of_ok hstep, List.length_append] at hreached
            have hbefore : count + cpu.step.accesses.length ≤ n := by omega
            rcases ih cpu.step.cpu hbefore (by omega) with ⟨missed, done, hnext⟩
            exact ⟨missed, done + 1, hnext.of_next hstep hbefore⟩

/-- A run that makes access `n` is cut exactly there by a bus that refuses it:
the accesses before are the same, none follows, what they have done to the bus
stays, and the registers are those before the instruction that makes it, with
the program counter behind its word unless that was still being fetched. -/
theorem run_refusing
    (cpu : Cpu σ) (budget n : Nat) (error : BusError)
    (hreached : n < (cpu.run budget).accesses.length) :
    let made := (cpu.run budget).accesses
    let faulty : Cpu (WithFaults σ) :=
      ⟨cpu.regs, ⟨cpu.bus, { numbered := some (n, error) }, 0⟩⟩
    let cut := faulty.run budget
    cut.result = .error (.bus error) ∧
      cut.accesses = made.take n ++ [(made[n]).request.refused error] ∧
      Request.performAll ((made.take n).map Access.request) cpu.bus =
        (made.take n, cut.cpu.bus.bus) ∧
      ∃ done < budget, (cpu.run done).result = .ok done ∧
        (cpu.run done).accesses.length ≤ n ∧
        n < (cpu.run (done + 1)).accesses.length ∧
        cut.cpu.regs =
          if n < (cpu.run done).accesses.length + 2 then (cpu.run done).cpu.regs
          else (cpu.run done).cpu.regs.advancePc 2 := by
  intro made faulty cut
  obtain ⟨missed, done, hcut⟩ :=
    exists_cut cpu error budget (Nat.zero_le n) (by rw [Nat.zero_add]; exact hreached)
  have hmissed : made[n] = missed :=
    Option.some.inj ((List.getElem?_eq_getElem hreached).symm.trans hcut.missed_eq)
  have haccesses :
      (Request.performAll ((made.take n).map Access.request) cpu.bus).1 = made.take n := by
    rw [List.map_take, Request.fst_performAll_take, performAll_run]
  have hlow := hcut.done_le
  have hhigh := hcut.lt_next
  have hregs := hcut.regs
  rw [Nat.zero_add] at hlow hhigh hregs
  refine ⟨hcut.result, ?_, ?_, done, hcut.done_lt, hcut.done_ok, hlow, hhigh, hregs⟩
  · rw [hmissed]
    exact hcut.accesses
  · exact Prod.ext haccesses hcut.bus.symm

/-- The second byte of a push is refused after a NOP: the first byte stays, and
only the program counter has moved. -/
theorem run_refusing_pushed_byte :
    let cpu : Cpu Memory :=
      ⟨(Registers.startingAt 3).setSp 16,
        Memory.zero.load 3 [0x00, 0x00, 0x09, 0x00, 0x34, 0x12]⟩
    let faulty : Cpu (WithFaults Memory) :=
      ⟨cpu.regs, ⟨cpu.bus, { numbered := some (7, .unknown "lost") }, 0⟩⟩
    let cut := faulty.run 2
    7 < (cpu.run 2).accesses.length ∧
      cut.result = .error (.bus (.unknown "lost")) ∧
      cut.accesses =
        [.read 3 0x00, .read 4 0x00, .read 5 0x09, .read 6 0x00, .read 7 0x34,
          .read 8 0x12, .write 16 0x34, .writeFailed 17 0x12 (.unknown "lost")] ∧
      cut.cpu.bus.bus.get 16 = 0x34 ∧ cut.cpu.bus.bus.get 17 = 0x00 ∧
      cut.cpu.regs = cpu.regs.setPc 7 := by
  intro cpu faulty cut
  obtain ⟨hresult, haccesses, hbus, -⟩ :=
    run_refusing cpu 2 7 (.unknown "lost") (by decide)
  have hcontents : cut.cpu.bus.bus = _ := congrArg Prod.snd hbus.symm
  refine ⟨by decide, hresult, haccesses.trans (by decide), ?_, ?_, by decide⟩
  · rw [hcontents]
    decide
  · rw [hcontents]
    decide

end WordMachine.Cpu
