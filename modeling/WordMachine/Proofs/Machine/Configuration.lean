import WordMachine.Proofs.Machine.Rounds

/-!
# One machine under two configurations

A round asks its configuration for one thing only, the reason to stop.  Two machines
that differ in their configuration therefore make the same rounds as long as both find
the same reason, or none (`turn_withConfig`), and the same run if this is so at every
machine that the run leads through (`run_withConfig`).
-/

namespace WordMachine.Machine

variable {machine : Machine} {config : MachineConfig}

/-! ## The reason to stop -/

theorem stopReason?_eq_exitStrobe_iff :
    machine.stopReason? = some .exitStrobe ↔ machine.cpu.bus.exitRequested = true := by
  unfold stopReason?
  cases hexit : machine.cpu.bus.exitRequested with
  | true => simp
  | false => cases machine.config.instructionLimit <;> simp

theorem stopReason?_eq_instructionLimit_iff :
    machine.stopReason? = some .instructionLimit ↔
      machine.cpu.bus.exitRequested = false ∧
        ∃ limit, machine.config.instructionLimit = some limit ∧ limit ≤ machine.executed := by
  unfold stopReason?
  cases hexit : machine.cpu.bus.exitRequested with
  | true => simp
  | false => cases machine.config.instructionLimit <;> simp

theorem stopReason?_eq_none_iff :
    machine.stopReason? = none ↔
      machine.cpu.bus.exitRequested = false ∧
        ∀ limit, machine.config.instructionLimit = some limit → machine.executed < limit := by
  unfold stopReason?
  cases hexit : machine.cpu.bus.exitRequested with
  | true => simp
  | false => cases machine.config.instructionLimit <;> simp

/-! ## The same rounds -/

/-- The same machine under another configuration. -/
def withConfig (config : MachineConfig) (machine : Machine) : Machine :=
  ⟨machine.cpu, config, machine.executed⟩

@[simp] theorem cpu_withConfig : (machine.withConfig config).cpu = machine.cpu := rfl

@[simp] theorem executed_withConfig :
    (machine.withConfig config).executed = machine.executed := rfl

theorem turn_withConfig
    (hstop : (machine.withConfig config).stopReason? = machine.stopReason?) :
    (machine.withConfig config).turn =
      { machine.turn with machine := machine.turn.machine.withConfig config } := by
  unfold turn
  rw [hstop]
  cases machine.stopReason? with
  | some reason => rfl
  | none =>
      simp only [withConfig, stepBoard_eq]
      rcases machine.cpu.step with ⟨error | instr, cpu, events⟩
      · rfl
      · rfl

theorem run_withConfig {rounds : Nat}
    (hstop : ∀ i < rounds, (machine.run i).result = none →
      ((machine.run i).machine.withConfig config).stopReason? =
        (machine.run i).machine.stopReason?) :
    (machine.withConfig config).run rounds =
      { machine.run rounds with machine := (machine.run rounds).machine.withConfig config } := by
  induction rounds with
  | zero => rfl
  | succ rounds ih =>
      have hsame := ih fun i hi => hstop i (Nat.lt_succ_of_lt hi)
      have hresult : ((machine.withConfig config).run rounds).result =
          (machine.run rounds).result := by
        rw [hsame]
      cases hrun : (machine.run rounds).result with
      | some result =>
          rw [run_succ_of_ended hrun, run_succ_of_ended (hresult.trans hrun), hsame]
      | none =>
          have hturn := turn_withConfig (hstop rounds (Nat.lt_succ_self rounds) hrun)
          rw [run_succ_of_open hrun, run_succ_of_open (hresult.trans hrun), hsame, hturn]

end WordMachine.Machine
