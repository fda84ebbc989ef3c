import WordMachine.Proofs.Machine.Configuration
import WordMachine.Proofs.Machine.Streams

/-!
# The instruction limit only truncates

Two machines that differ in their instruction limit find the same reason to stop, as
long as the tighter limit does not stop the first of them.  Their runs are therefore the
same until it does (`run_withConfig_of_not_cutOff`).  A run that is cut off has executed
as many instructions as its limit says (`executed_of_open`, `of_cutOff`), so what it
leaves behind is what the other run passes through after that many.
-/

namespace WordMachine.Machine

variable {machine : Machine} {config : MachineConfig} {limit : UInt64} {rounds : Nat}

/-- The run has been ended by its instruction limit. -/
def CutOff : Except RunError RunSummary → Prop
  | .ok summary => summary.stop = .instructionLimit
  | .error _ => False

/-- A looser limit does not stop a machine that the tighter one lets go on, and both
know of the exit strobe. -/
theorem stopReason?_withConfig_of_looser
    (hlimit : machine.config.instructionLimit = some limit)
    (hloose : ∀ other, config.instructionLimit = some other → limit ≤ other)
    (hnot : machine.stopReason? ≠ some .instructionLimit) :
    (machine.withConfig config).stopReason? = machine.stopReason? := by
  cases hstop : machine.stopReason? with
  | none =>
      rcases stopReason?_eq_none_iff.mp hstop with ⟨hexit, hexecuted⟩
      apply stopReason?_eq_none_iff.mpr
      refine ⟨hexit, fun other hother => ?_⟩
      exact UInt64.lt_of_lt_of_le (hexecuted limit hlimit) (hloose other hother)
  | some reason =>
      cases reason with
      | exitStrobe =>
          have hexit := stopReason?_eq_exitStrobe_iff.mp hstop
          exact stopReason?_eq_exitStrobe_iff.mpr hexit
      | instructionLimit => contradiction

/-! ## Runs under a limit -/

theorem result_of_stop
    (hopen : (machine.run rounds).result = none) {reason : StopReason}
    (hstop : (machine.run rounds).machine.stopReason? = some reason) :
    (machine.run (rounds + 1)).result =
      some (.ok ((machine.run rounds).machine.summary reason)) := by
  rw [run_succ_of_open hopen]
  exact (turn_of_stop hstop).1

theorem executed_of_open
    (hlimit : machine.config.instructionLimit = some limit)
    (hstart : machine.executed ≤ limit) (hopen : (machine.run rounds).result = none) :
    (machine.run rounds).machine.executed.toNat = machine.executed.toNat + rounds ∧
      (machine.run rounds).machine.executed ≤ limit := by
  induction rounds with
  | zero => exact ⟨rfl, hstart⟩
  | succ rounds ih =>
      rcases step_of_open_succ hopen with ⟨hbefore, hgo, -, hnext⟩
      rcases ih hbefore with ⟨hcount, -⟩
      have hconfig : (machine.run rounds).machine.config.instructionLimit = some limit := by
        rw [config_run, hlimit]
      have hlt := UInt64.lt_iff_toNat_lt.mp
        ((stopReason?_eq_none_iff.mp hgo).2 limit hconfig)
      have hbound := limit.toNat_lt
      have hexecuted : (machine.run rounds).machine.next.executed.toNat =
          (machine.run rounds).machine.executed.toNat + 1 := executed_next (by omega)
      rw [hnext, UInt64.le_iff_toNat_le, hexecuted, hcount]
      omega

theorem ended_of_limit
    (hlimit : machine.config.instructionLimit = some limit)
    (hstart : machine.executed ≤ limit) :
    ∃ result, (machine.run (limit.toNat + 1)).result = some result := by
  cases hrun : (machine.run (limit.toNat + 1)).result with
  | some result => exact ⟨result, rfl⟩
  | none =>
      rcases executed_of_open hlimit hstart hrun with ⟨hcount, hle⟩
      rw [UInt64.le_iff_toNat_le, hcount] at hle
      omega

theorem of_cutOff
    (hlimit : machine.config.instructionLimit = some limit) (hstart : machine.executed = 0)
    {summary : RunSummary} (hended : (machine.run rounds).result = some (.ok summary))
    (hcut : summary.stop = .instructionLimit) :
    (machine.run limit.toNat).result = none ∧
      (machine.run limit.toNat).machine = (machine.run rounds).machine ∧
      (machine.run rounds).machine.executed = limit ∧
      summary = (machine.run rounds).machine.summary .instructionLimit := by
  rcases exists_last_turn hended with ⟨before, hopen, hturn, hlast⟩
  rw [turn_of_ok hturn] at hlast
  rcases stopReason?_of_turn_ok hturn with ⟨hstop, hsummary⟩
  rw [hcut, hlast] at hstop hsummary
  rcases (stopReason?_eq_instructionLimit_iff.mp hstop).2 with ⟨limit', hlimit', hreached⟩
  rw [config_run, hlimit] at hlimit'
  rw [← Option.some.inj hlimit'] at hreached
  have hstart' : machine.executed ≤ limit := by
    rw [hstart]
    exact UInt64.zero_le
  rcases executed_of_open hlimit hstart' hopen with ⟨hcount, hle⟩
  rw [hlast] at hcount hle
  have hexecuted : (machine.run rounds).machine.executed = limit :=
    UInt64.le_antisymm hle hreached
  -- each round before the last one has counted, so there are as many as the limit says
  have hbefore : before = limit.toNat := by
    rw [hexecuted, hstart] at hcount
    simpa using hcount.symm
  subst hbefore
  exact ⟨hopen, hlast, hexecuted, hsummary⟩

/-! ## Two limits -/

/-- The run has led to `cpu` after `count` successful instructions and goes on. -/
structure PassesThrough (machine : Machine) (count : Nat) (cpu : Cpu Board) : Prop where
  goesOn : (machine.run count).result = none
  reached : (machine.run count).machine.cpu = cpu
  steps : machine.cpu.after? count = some cpu
  counted : (machine.run count).machine.executed = machine.executed + UInt64.ofNat count

theorem run_withConfig_of_not_cutOff
    (hlimit : machine.config.instructionLimit = some limit)
    (hloose : ∀ other, config.instructionLimit = some other → limit ≤ other)
    (hnot : ∀ result, (machine.run rounds).result = some result → ¬ CutOff result) :
    (machine.withConfig config).run rounds =
      { machine.run rounds with machine := (machine.run rounds).machine.withConfig config } := by
  apply run_withConfig
  intro i hi hopen
  apply stopReason?_withConfig_of_looser
  · rw [config_run]
    exact hlimit
  · exact hloose
  · intro hstop
    have hcut := result_of_stop hopen hstop
    have hrun := run_eq_of_ended hcut (Nat.succ_le_of_lt hi)
    rw [← hrun] at hcut
    exact hnot _ hcut rfl

theorem passesThrough_of_cutOff
    (hlimit : machine.config.instructionLimit = some limit) (hstart : machine.executed = 0)
    (hloose : ∀ other, config.instructionLimit = some other → limit ≤ other)
    {summary : RunSummary} (hended : (machine.run rounds).result = some (.ok summary))
    (hcut : summary.stop = .instructionLimit) :
    (machine.withConfig config).PassesThrough limit.toNat (machine.run rounds).machine.cpu := by
  rcases of_cutOff hlimit hstart hended hcut with ⟨hopen, hlast, hexecuted, -⟩
  have hnot : ∀ result, (machine.run limit.toNat).result = some result → ¬ CutOff result := by
    intro result hresult
    rw [hopen] at hresult
    contradiction
  have hsame := run_withConfig_of_not_cutOff hlimit hloose hnot
  have hsteps := after?_of_open hopen
  rw [hlast] at hsame hsteps
  constructor
  · rw [hsame]
    exact hopen
  · rw [hsame, cpu_withConfig]
  · exact hsteps
  · rw [hsame, executed_withConfig, executed_withConfig, hexecuted, hstart, UInt64.zero_add,
      UInt64.ofNat_toNat]

/-- A tighter instruction limit only truncates a run.  It makes the run end, and if it
is not the limit that ends it, then the run under the looser limit ends in the same
round, with the same result and the same machine.  Otherwise the run has counted exactly
`limit` instructions, and what it leaves behind is what the longer run passes through
after so many successful instructions.  So its output is a prefix of the output of the
longer run. -/
theorem limit_truncates
    (rom : RomImage) (input : List InputItem) (output : Sink) (config : MachineConfig)
    {limit : UInt64} {looser : Option UInt64}
    (hloose : ∀ other, looser = some other → limit ≤ other) :
    let short := ofRom rom input output (config.withInstructionLimit (some limit))
    let long := ofRom rom input output (config.withInstructionLimit looser)
    (∃ result, (short.run (limit.toNat + 1)).result = some result) ∧
    ∀ rounds result, (short.run rounds).result = some result →
      let cut := (short.run rounds).machine
      (¬ CutOff result → (long.run rounds).result = some result) ∧
      ∀ rounds' result', (long.run rounds').result = some result' →
        let whole := (long.run rounds').machine
        (¬ CutOff result →
          result' = result ∧ whole.cpu = cut.cpu ∧ whole.executed = cut.executed) ∧
        ∀ summary, result = .ok summary → summary.stop = .instructionLimit →
          summary = ⟨limit, .instructionLimit, cut.cpu.regs⟩ ∧ cut.executed = limit ∧
          long.PassesThrough limit.toNat cut.cpu ∧
          cut.cpu.bus.output.emitted.toList <+: whole.cpu.bus.output.emitted.toList := by
  intro short long
  have hlimit : short.config.instructionLimit = some limit := rfl
  constructor
  · exact ended_of_limit hlimit UInt64.zero_le
  intro rounds result hended cut
  -- the longer run makes the same rounds as long as the shorter one is not cut off
  have hsame : ¬ CutOff result → long.run rounds = { short.run rounds with
      machine := cut.withConfig (config.withInstructionLimit looser) } := by
    intro hnot
    apply run_withConfig_of_not_cutOff hlimit hloose
    intro other hother
    rw [hended] at hother
    rw [← Option.some.inj hother]
    exact hnot
  constructor
  · intro hnot
    rw [hsame hnot]
    exact hended
  intro rounds' result' hended' whole
  constructor
  · intro hnot
    have hrun : long.run rounds' = long.run rounds := by
      apply run_eq_of_both_ended hended'
      rw [hsame hnot]
      exact hended
    rw [hrun, hsame hnot] at hended'
    simp only [whole]
    rw [hrun, hsame hnot]
    exact ⟨Option.some.inj (hended'.symm.trans hended), rfl, rfl⟩
  · rintro summary rfl hcut
    rcases of_cutOff hlimit rfl hended hcut with ⟨-, -, hexecuted, hsummary⟩
    have hpasses : long.PassesThrough limit.toNat cut.cpu :=
      passesThrough_of_cutOff hlimit rfl hloose hended hcut
    have hle := Nat.le_of_lt (lt_of_open_of_ended hpasses.goesOn hended')
    have hprefix := long.emitted_run_isPrefix hle
    rw [hpasses.reached] at hprefix
    refine ⟨?_, hexecuted, hpasses, hprefix⟩
    rw [hsummary, Machine.summary, hexecuted]

/-- A machine whose program sends two bytes and asks for the exit with its fifth
instruction. -/
def sendingTwice (limit : Option UInt64) : Machine :=
  ofRom (.ofBytes [0x41, 0x02, 0x31, 0x00, 0x31, 0x00, 0x71, 0x10, 0x31, 0x00]) [] .accepting
    (MachineConfig.initial.withInstructionLimit limit)

/-- A limit of two cuts off three of the five instructions, and with them the second
byte.  A limit of five changes nothing, since the exit goes first. -/
theorem limit_truncates_exit :
    (sendingTwice (some 5)).PassesThrough 2 ((sendingTwice (some 2)).run 3).machine.cpu ∧
      ((sendingTwice (some 2)).run 3).machine.cpu.bus.output.emitted.toList = [2] ∧
      ((sendingTwice (some 5)).run 6).machine.cpu.bus.output.emitted.toList = [2, 2] ∧
      ((sendingTwice none).run 6).result = ((sendingTwice (some 5)).run 6).result ∧
      ((sendingTwice none).run 6).machine.cpu =
        ((sendingTwice (some 5)).run 6).machine.cpu := by
  have hle : ∀ other, some (5 : UInt64) = some other → 2 ≤ other := by
    rintro other ⟨⟩
    decide
  have hnone : ∀ other, none = some other → (5 : UInt64) ≤ other := by
    rintro other ⟨⟩
  have htwo : ((sendingTwice (some 2)).run 3).result =
      some (.ok ⟨2, .instructionLimit, (Registers.startingAt 7).set .index 2⟩) := by rfl
  have hfive : ((sendingTwice (some 5)).run 6).result =
      some (.ok ⟨5, .exitStrobe, .startingAt 13⟩) := by rfl
  have hwhole : ((sendingTwice none).run 6).result =
      some (.ok ⟨5, .exitStrobe, .startingAt 13⟩) := by rfl
  rcases limit_truncates _ [] .accepting .initial hle with ⟨-, hcut⟩
  rcases limit_truncates _ [] .accepting .initial hnone with ⟨-, hsame⟩
  rcases ((hcut 3 _ htwo).2 6 _ hfive).2 _ rfl rfl with ⟨-, -, hpasses, -⟩
  rcases ((hsame 6 _ hfive).2 6 _ hwhole).1 StopReason.noConfusion with ⟨-, hcpu, -⟩
  exact ⟨hpasses, by rfl, by rfl, hwhole.trans hfive.symm, hcpu⟩

end WordMachine.Machine
