import WordMachine.Proofs.Cpu.Cycle

/-!
# A bus that keeps a record

`Recording` is a bus that passes every access on and writes down what became of it.  It
looks at the processor from outside: its record holds the calls that have reached the
bus, whatever the processor says of them.  `Cpu.attempted` is the record of one step.
The events of a step have the same accesses, in the same order
(`Cpu.attempted_eq_accesses`).
-/

namespace WordMachine

structure Recording (σ : Type) where
  bus : σ
  /-- The accesses made so far, the refused ones among them. -/
  record : List Access

variable {α σ : Type} [Bus σ]

instance : Bus (Recording σ) where
  read addr := fun ⟨bus, record⟩ =>
    match Bus.read addr bus with
    | (.ok byte, bus) => (.ok byte, ⟨bus, record ++ [.read addr byte]⟩)
    | (.error error, bus) => (.error error, ⟨bus, record ++ [.readFailed addr error]⟩)
  write addr byte := fun ⟨bus, record⟩ =>
    match Bus.write addr byte bus with
    | (.ok (), bus) => (.ok (), ⟨bus, record ++ [.write addr byte]⟩)
    | (.error error, bus) => (.error error, ⟨bus, record ++ [.writeFailed addr byte error]⟩)

theorem Transaction.run_recording (t : Transaction α) (bus : σ) (record : List Access) :
    t.run (⟨bus, record⟩ : Recording σ) =
      ⟨(t.run bus).result, ⟨(t.run bus).bus, record ++ (t.run bus).accesses⟩,
        (t.run bus).accesses⟩ := by
  induction t, bus using run_induction generalizing record with
  | done value bus => simp [run]
  | readOk addr next bus byte bus' outcome hread ih =>
      simp [run, Bus.read, hread, ih, Outcome.after]
  | readFailed addr next bus error bus' hread => simp [run, Bus.read, hread]
  | writeOk addr byte next bus bus' outcome hwrite ih =>
      simp [run, Bus.write, hwrite, ih, Outcome.after]
  | writeFailed addr byte next bus error bus' hwrite => simp [run, Bus.write, hwrite]

namespace Cpu

/-- What a bus with an empty record writes down of the step of `cpu`. -/
def attempted (cpu : Cpu σ) : List Access :=
  (step (⟨cpu.regs, ⟨cpu.bus, []⟩⟩ : Cpu (Recording σ))).cpu.bus.record

theorem attempted_eq_accesses (cpu : Cpu σ) : cpu.attempted = cpu.step.accesses := by
  let watched : Cpu (Recording σ) := ⟨cpu.regs, ⟨cpu.bus, []⟩⟩
  change watched.step.cpu.bus.record = cpu.step.accesses
  by_cases hpc : cpu.regs.pc = sentinel
  · have hwatched : watched.regs.pc = sentinel := hpc
    rw [step_of_sentinel hpc, step_of_sentinel hwatched]
    rfl
  · have hwatched : watched.regs.pc ≠ sentinel := hpc
    rw [(step_eq_cycle hpc).2.2, (step_eq_cycle hwatched).2.1, Transaction.run_recording,
      List.nil_append]

end Cpu

end WordMachine
