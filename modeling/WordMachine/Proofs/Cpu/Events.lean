import WordMachine.Proofs.Cpu.Cycle

/-!
# The events of a step

A step has an event for each of its accesses, and one more for the instruction as soon
as both bytes of its word have been read.  The accesses alone therefore determine the
events of the step: `Cpu.eventsOf` puts the instruction behind the two accesses of the
fetch, and `Cpu.events_step` says that this is where it stands.

So a step on another bus is the same step as long as the two buses answer the same
(`Cpu.step_of_same_answers`).
-/

namespace WordMachine.Cpu

open Instruction

/-- The event of the instruction, if its word has been read. -/
def announced (pc : Address) : List Access → List CpuEvent
  | .read _ first :: .read _ second :: _ => [.decoded pc (decode first second)]
  | _ => []

/-- The events of a step at `pc` that makes these accesses. -/
def eventsOf (pc : Address) (made : List Access) : List CpuEvent :=
  (made.take 2).map .access ++ announced pc made ++ (made.drop 2).map .access

variable {σ : Type} [Bus σ]

/-- A fetch reads the two bytes of the word and decodes them, or a read of it fails. -/
theorem run_fetch (pc : Address) (bus : σ) :
    (∃ error bus' made, (fetch pc).run bus = ⟨.error error, bus', made⟩ ∧
        made.length ≤ 2 ∧ announced pc made = []) ∨
      ∃ first second bus', (fetch pc).run bus =
        ⟨.ok (decode first second), bus', [.read pc first, .read (pc + 1) second]⟩ := by
  have hreads : fetch pc = .read pc fun first => .read (pc + 1) fun second =>
      .done (decode first second) := rfl
  rw [hreads, Transaction.run]
  rcases Bus.read pc bus with ⟨error | first, bus₁⟩
  · exact .inl ⟨error, bus₁, [.readFailed pc error], rfl, by simp, rfl⟩
  · simp only [Transaction.run]
    rcases Bus.read (pc + 1) bus₁ with ⟨error | second, bus₂⟩
    · exact .inl ⟨error, bus₂, [.read pc first, .readFailed (pc + 1) error], rfl, by simp, rfl⟩
    · exact .inr ⟨first, second, bus₂, rfl⟩

theorem accesses_announced (pc : Address) (made : List Access) :
    CpuEvent.accesses (announced pc made) = [] := by
  unfold announced
  split <;> rfl

theorem accesses_eventsOf (pc : Address) (made : List Access) :
    CpuEvent.accesses (eventsOf pc made) = made := by
  unfold eventsOf
  rw [CpuEvent.accesses_append, CpuEvent.accesses_append, accesses_announced,
    CpuEvent.accesses_map_access, CpuEvent.accesses_map_access, List.append_nil,
    List.take_append_drop]

theorem events_execute (instr : Instruction) (cpu : Cpu σ) :
    ∃ made : List Access, (execute instr cpu).events = made.map .access := by
  rcases cpu with ⟨regs, bus⟩
  simp only [execute]
  split
  · exact ⟨[], rfl⟩
  · rcases (instr.effect regs).run bus with ⟨error | after, bus', made⟩
    · exact ⟨made, rfl⟩
    · exact ⟨made, rfl⟩

theorem exists_events_step (cpu : Cpu σ) :
    ∃ made, cpu.step.events = eventsOf cpu.regs.pc made := by
  by_cases hpc : cpu.regs.pc = sentinel
  · rw [step_of_sentinel hpc]
    exact ⟨[], rfl⟩
  · rcases cpu with ⟨regs, bus⟩
    simp only at hpc
    simp only [step]
    rw [if_neg hpc]
    rcases run_fetch regs.pc bus with
      ⟨error, bus', made, hfetch, hlength, hnone⟩ | ⟨first, second, bus', hfetch⟩
    · rw [hfetch]
      refine ⟨made, ?_⟩
      simp [eventsOf, hnone, List.take_of_length_le hlength, List.drop_eq_nil_of_le hlength]
    · rw [hfetch]
      rcases events_execute (decode first second) ⟨regs.advancePc 2, bus'⟩ with ⟨made, hmade⟩
      refine ⟨.read regs.pc first :: .read (regs.pc + 1) second :: made, ?_⟩
      simp [eventsOf, announced, hmade]

theorem events_step (cpu : Cpu σ) :
    cpu.step.events = eventsOf cpu.regs.pc cpu.step.accesses := by
  rcases exists_events_step cpu with ⟨made, hevents⟩
  have hmade : cpu.step.accesses = made := by
    unfold Step.accesses
    rw [hevents, accesses_eventsOf]
  rw [hmade, hevents]

/-- Nothing but the answers of its bus decides what a step does. -/
theorem step_of_same_answers
    {τ : Type} [Bus τ] {cpu : Cpu σ} {cpu' : Cpu τ} {after : τ} (hregs : cpu'.regs = cpu.regs)
    (hsame : Request.performAll (cpu.step.accesses.map Access.request) cpu'.bus =
      (cpu.step.accesses, after)) :
    cpu'.step = ⟨cpu.step.result, ⟨cpu.step.cpu.regs, after⟩, cpu.step.events⟩ := by
  by_cases hpc : cpu.regs.pc = sentinel
  · have hpc' : cpu'.regs.pc = sentinel := by rw [hregs, hpc]
    rw [step_of_sentinel hpc] at hsame ⊢
    have hafter : cpu'.bus = after := congrArg Prod.snd hsame
    rw [step_of_sentinel hpc', hregs, ← hafter, ← hregs]
  · have hpc' : cpu'.regs.pc ≠ sentinel := by rwa [hregs]
    rcases step_eq_cycle hpc with ⟨hresult, hcpu, haccesses⟩
    rcases step_eq_cycle hpc' with ⟨hresult', hcpu', haccesses'⟩
    rw [haccesses] at hsame
    have hrun := Transaction.run_of_same_answers _ _ hsame
    rw [hregs, hrun] at hresult' hcpu' haccesses'
    have hevents : cpu'.step.events = cpu.step.events := by
      rw [events_step, events_step, haccesses, haccesses', hregs]
    calc cpu'.step
        = ⟨cpu'.step.result, cpu'.step.cpu, cpu'.step.events⟩ := rfl
      _ = ⟨cpu.step.result, ⟨cpu.step.cpu.regs, after⟩, cpu.step.events⟩ := by
          rw [hresult', hcpu', hevents, hresult, hcpu]

end WordMachine.Cpu
