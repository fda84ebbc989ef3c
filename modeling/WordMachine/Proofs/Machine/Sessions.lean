import WordMachine.Machine.Host
import WordMachine.Proofs.Machine.Rounds

/-!
# What a session does on the bus

Everything that happens to the board of a machine is an access that its events
record, whoever asked for it.  The accesses of a round, of a run and of a whole
session are the answers of the board to their own requests, one after the other, and
what is left of the board is what these requests leave.  A fact about sequences of
requests is thereby one about runs and sessions.
-/

namespace WordMachine

namespace MachineEvent

def access? : MachineEvent → Option Access
  | cpu event _ => event.access?
  | stepFailed _ _ => none
  | stopped _ _ => none

def accesses (events : List MachineEvent) : List Access :=
  events.filterMap access?

@[simp] theorem accesses_nil : accesses [] = [] := rfl

@[simp] theorem accesses_append (events events' : List MachineEvent) :
    accesses (events ++ events') = accesses events ++ accesses events' := by
  simp only [accesses, List.filterMap_append]

@[simp] theorem accesses_map_ofCpu (trace : Bool) (events : List CpuEvent) :
    accesses (events.map (ofCpu trace)) = CpuEvent.accesses events := by
  simp only [accesses, List.filterMap_map]
  rfl

@[simp] theorem accesses_stepFailed (pc : Address) (error : CpuError) :
    accesses [.stepFailed pc error] = [] := rfl

@[simp] theorem accesses_stopped (instructions : UInt64) (reason : StopReason) :
    accesses [.stopped instructions reason] = [] := rfl

end MachineEvent

theorem BusOperation.performAll_requests
    {σ : Type} [Bus σ] (operations : List BusOperation) (bus : σ) :
    Request.performAll ((performAll operations bus).1.map Access.request) bus =
      performAll operations bus := by
  induction operations generalizing bus with
  | nil => rfl
  | cons operation rest ih =>
      simp only [performAll, List.map_append, Request.performAll_append]
      rw [Transaction.performAll_run, ih]

namespace Machine

open MachineEvent

variable {machine : Machine}

theorem accesses_turn_of_stop
    {reason : StopReason} (hstop : machine.stopReason? = some reason) :
    accesses machine.turn.events = [] := by
  unfold turn
  rw [hstop]
  exact accesses_stopped machine.executed reason

theorem turn_of_go (hgo : machine.stopReason? = none) :
    accesses machine.turn.events = machine.cpu.step.accesses ∧
      machine.turn.machine.cpu = machine.cpu.step.cpu := by
  unfold turn
  rw [hgo]
  simp only [stepBoard_eq]
  rcases hstep : machine.cpu.step with ⟨error | instr, cpu, events⟩ <;>
    simp [Cpu.Step.accesses]

theorem performAll_turn (machine : Machine) :
    Request.performAll ((accesses machine.turn.events).map Access.request) machine.cpu.bus =
      (accesses machine.turn.events, machine.turn.machine.cpu.bus) := by
  cases hstop : machine.stopReason? with
  | some reason =>
      rw [accesses_turn_of_stop hstop, (turn_of_stop hstop).2]
      rfl
  | none =>
      rcases turn_of_go hstop with ⟨haccesses, hcpu⟩
      rw [haccesses, hcpu]
      exact machine.cpu.performAll_step

theorem performAll_run (machine : Machine) (rounds : Nat) :
    let made := accesses (machine.run rounds).events.toList
    Request.performAll (made.map Access.request) machine.cpu.bus =
      (made, (machine.run rounds).machine.cpu.bus) := by
  intro made
  induction rounds with
  | zero => rfl
  | succ rounds ih =>
      simp only [made] at ih ⊢
      cases hrun : (machine.run rounds).result with
      | some result =>
          rw [run_succ_of_ended hrun]
          exact ih
      | none =>
          rw [run_succ_of_open hrun]
          simp only [Array.toList_appendList, accesses_append, List.map_append,
            Request.performAll_append]
          rw [ih, performAll_turn]

end Machine

namespace HostOperation

open MachineEvent

theorem performAll_perform (operation : HostOperation) (machine : Machine) :
    let made := accesses (operation.perform machine).2.2
    Request.performAll (made.map Access.request) machine.cpu.bus =
      (made, (operation.perform machine).2.1.cpu.bus) := by
  intro made
  cases operation with
  | run rounds => exact machine.performAll_run rounds
  | step =>
      simp only [made, perform, Machine.stepCpu, Machine.stepBoard_eq, accesses_map_ofCpu]
      exact machine.cpu.performAll_step
  | setRegister r value => rfl
  | bus operation =>
      simp only [made, perform, Machine.transact_eq, accesses_map_ofCpu,
        CpuEvent.accesses_map_access]
      exact operation.transaction.performAll_run machine.cpu.bus
  | peek addr => rfl

theorem performAll_session (operations : List HostOperation) (machine : Machine) :
    let session := performAll operations machine
    Request.performAll ((accesses session.events).map Access.request) machine.cpu.bus =
      (accesses session.events, session.machine.cpu.bus) := by
  intro session
  induction operations generalizing machine with
  | nil => rfl
  | cons operation rest ih =>
      simp only [session, performAll, accesses_append, List.map_append,
        Request.performAll_append]
      rw [performAll_perform, ih]

end HostOperation

end WordMachine
