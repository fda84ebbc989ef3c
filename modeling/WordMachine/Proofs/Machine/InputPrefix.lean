import WordMachine.Proofs.Cpu.Events
import WordMachine.Proofs.Machine.Streams

/-!
# Input that a run does not take

A machine reads its input one item at a time, so what a run does can only depend on the
items that it has taken.  `Board.withInput` puts another input in front of a board.  As
long as no read finds the input at its end, requests take the same items off any input
that begins with them, and are answered the same (`Board.exists_performAll_withInput`).
By `Cpu.step_of_same_answers` this carries over to steps, and from there to rounds and
runs: a run leaves whatever stands behind the items that it takes
(`Machine.exists_run_withInput`).
-/

namespace WordMachine

namespace Board

/-- The same board in front of another input. -/
def withInput (input : List InputItem) (board : Board) : Board :=
  { board with input }

variable {board : Board} {request : Request} {requests requests' : List Request}

@[simp] theorem withInput_input (board : Board) : board.withInput board.input = board := rfl

/-- One of the requests reads the console input and finds no item left in it. -/
def FindsEnd : List Request → Board → Prop
  | [], _ => False
  | request :: rest, board =>
      (request = .read consoleInput ∧ ∀ item ∈ board.input, item = .interrupted) ∨
        FindsEnd rest (request.perform board).2

instance decidableFindsEnd :
    (requests : List Request) → (board : Board) → Decidable (board.FindsEnd requests)
  | [], _ => inferInstanceAs (Decidable False)
  | request :: rest, board =>
      have := decidableFindsEnd rest (request.perform board).2
      inferInstanceAs (Decidable (_ ∨ _))

theorem findsEnd_append :
    board.FindsEnd (requests ++ requests') ↔
      board.FindsEnd requests ∨ (Request.performAll requests board).2.FindsEnd requests' := by
  induction requests generalizing board with
  | nil => simp [FindsEnd, Request.performAll]
  | cons request rest ih => simp only [List.cons_append, FindsEnd, Request.performAll, ih, or_assoc]

/-! ## Requests -/

theorem Serves.withInput
    {access : Access} {after : Board} (h : board.Serves request access after)
    (hother : request ≠ .read consoleInput) (input : List InputItem) :
    (board.withInput input).Serves request access (after.withInput input) := by
  cases h with
  | received hreceive => exact absurd rfl hother
  | notReceived hreceive => exact absurd rfl hother
  | _ => constructor <;> assumption

theorem perform_withInput_of_ne
    (hother : request ≠ .read consoleInput) (input : List InputItem) (board : Board) :
    request.perform (board.withInput input) =
      ((request.perform board).1, (request.perform board).2.withInput input) :=
  ((serves_perform request board).withInput hother input).perform_eq

theorem Serves.drawn_of_ne
    {access : Access} {after : Board} (h : board.Serves request access after)
    (hother : request ≠ .read consoleInput) :
    Drawn board.input after.input access.received?.toList [] 0 := by
  have hnone : access.received? = none := by
    cases h with
    | @readRefused addr hport =>
        have hinput : addr ≠ consoleInput := fun heq => hother (congrArg Request.read heq)
        exact if_neg hinput
    | received hreceive => contradiction
    | notReceived hreceive => contradiction
    | loaded haddr => exact if_neg (ne_device_of_base_le haddr).2.1
    | _ => rfl
  rw [h.input_eq hother, hnone]
  exact drawn_nil board.input

theorem exists_read_withInput
    (hitem : ¬ ∀ item ∈ board.input, item = .interrupted) :
    ∃ taken answer rest, Drawn board.input rest [answer] taken 0 ∧
      ∀ later, Bus.read consoleInput (board.withInput (taken ++ later)) =
        (answer, board.withInput later) := by
  rcases InputItem.exists_skipped board.input with
    ⟨skipped, items, hinput, rfl | ⟨item, answer, rest, rfl, hanswer⟩⟩
  · rw [List.append_nil] at hinput
    rw [hinput] at hitem
    exact absurd (fun item hmem => List.eq_of_mem_replicate hmem) hitem
  · refine ⟨List.replicate skipped .interrupted ++ [item], answer, rest, ?_, ?_⟩
    · rw [hinput]
      exact drawn_item hanswer skipped rest
    · intro later
      have hlater : (board.withInput
          (List.replicate skipped .interrupted ++ [item] ++ later)).input =
            List.replicate skipped .interrupted ++ item :: later :=
        List.append_assoc _ _ _
      exact read_item hanswer hlater

/-- A request that does not find the input at its end takes the same items off any input
that begins with them, and gets the same answer. -/
theorem exists_perform_withInput (hfound : ¬ board.FindsEnd [request]) :
    ∃ taken, Drawn board.input (request.perform board).2.input
        (request.perform board).1.received?.toList taken 0 ∧
      ∀ later, request.perform (board.withInput (taken ++ later)) =
        ((request.perform board).1, (request.perform board).2.withInput later) := by
  by_cases hconsole : request = .read consoleInput
  · subst hconsole
    have hitem : ¬ ∀ item ∈ board.input, item = .interrupted :=
      fun hend => hfound (.inl ⟨rfl, hend⟩)
    rcases exists_read_withInput hitem with ⟨taken, answer, rest, hdrawn, hread⟩
    have hhere := hread rest
    rw [← hdrawn.split, withInput_input] at hhere
    refine ⟨taken, ?_⟩
    cases answer with
    | ok byte =>
        simp only [Request.perform, hhere, hread]
        exact ⟨hdrawn, fun later => rfl⟩
    | error error =>
        simp only [Request.perform, hhere, hread]
        exact ⟨hdrawn, fun later => rfl⟩
  · refine ⟨[], ?_, fun later => perform_withInput_of_ne hconsole later board⟩
    exact (serves_perform request board).drawn_of_ne hconsole

theorem exists_performAll_withInput (hfound : ¬ board.FindsEnd requests) :
    ∃ taken, Drawn board.input (Request.performAll requests board).2.input
        (received (Request.performAll requests board).1) taken 0 ∧
      ∀ later, Request.performAll requests (board.withInput (taken ++ later)) =
        ((Request.performAll requests board).1,
          (Request.performAll requests board).2.withInput later) := by
  induction requests generalizing board with
  | nil => exact ⟨[], drawn_nil board.input, fun later => rfl⟩
  | cons request rest ih =>
      have hfirst : ¬ board.FindsEnd [request] :=
        fun hend => hfound (findsEnd_append.mpr (.inl hend))
      have hrest : ¬ (request.perform board).2.FindsEnd rest := fun hend => hfound (.inr hend)
      rcases exists_perform_withInput hfirst with ⟨taken, hdrawn, hperform⟩
      rcases ih hrest with ⟨taken', hdrawn', hperformAll⟩
      refine ⟨taken ++ taken', ?_, ?_⟩
      · rw [Request.performAll, received_cons]
        exact hdrawn.append hdrawn'
      · intro later
        rw [List.append_assoc, Request.performAll, hperform]
        exact congrArg (fun done => (_ :: done.1, done.2)) (hperformAll later)

end Board

/-! ## Rounds and runs -/

namespace Machine

open MachineEvent

def withInput (input : List InputItem) (machine : Machine) : Machine :=
  ⟨⟨machine.cpu.regs, machine.cpu.bus.withInput input⟩, machine.config, machine.executed⟩

variable {machine : Machine} {rounds : Nat}

/-- A read of the run finds no item left in the input. -/
def FindsEnd (machine : Machine) (rounds : Nat) : Prop :=
  machine.cpu.bus.FindsEnd ((accesses (machine.run rounds).events.toList).map Access.request)

instance (machine : Machine) (rounds : Nat) : Decidable (machine.FindsEnd rounds) :=
  inferInstanceAs (Decidable (Board.FindsEnd _ _))

theorem findsEnd_succ_of_open (hopen : (machine.run rounds).result = none) :
    machine.FindsEnd (rounds + 1) ↔
      machine.FindsEnd rounds ∨ (machine.run rounds).machine.cpu.bus.FindsEnd
        ((accesses (machine.run rounds).machine.turn.events).map Access.request) := by
  unfold FindsEnd
  rw [run_succ_of_open hopen]
  simp only [Array.toList_appendList, accesses_append, List.map_append]
  rw [Board.findsEnd_append, performAll_run]

theorem turn_withInput_of_stop
    {reason : StopReason} (hstop : machine.stopReason? = some reason) (input : List InputItem) :
    (machine.withInput input).turn =
      { machine.turn with machine := machine.turn.machine.withInput input } := by
  have hstop' : (machine.withInput input).stopReason? = some reason := hstop
  unfold turn
  rw [hstop, hstop']
  rfl

theorem turn_withInput_of_go
    {input later : List InputItem} (hgo : machine.stopReason? = none)
    (hstep : (machine.withInput input).cpu.step =
      ⟨machine.cpu.step.result, ⟨machine.cpu.step.cpu.regs,
        machine.cpu.step.cpu.bus.withInput later⟩, machine.cpu.step.events⟩) :
    (machine.withInput input).turn =
      { machine.turn with machine := machine.turn.machine.withInput later } := by
  have hgo' : (machine.withInput input).stopReason? = none := hgo
  unfold turn
  rw [hgo, hgo']
  simp only [withInput, stepBoard_eq] at hstep ⊢
  simp only [hstep]
  rcases machine.cpu.step with ⟨error | instr, cpu, events⟩
  · rfl
  · rfl

theorem exists_turn_withInput
    (hfound : ¬ machine.cpu.bus.FindsEnd ((accesses machine.turn.events).map Access.request)) :
    ∃ taken, Drawn machine.cpu.bus.input machine.turn.machine.cpu.bus.input
        (received (accesses machine.turn.events)) taken 0 ∧
      ∀ later, (machine.withInput (taken ++ later)).turn =
        { machine.turn with machine := machine.turn.machine.withInput later } := by
  cases hstop : machine.stopReason? with
  | some reason =>
      rw [accesses_turn_of_stop hstop, (turn_of_stop hstop).2]
      refine ⟨[], drawn_nil machine.cpu.bus.input, ?_⟩
      intro later
      rw [List.nil_append, turn_withInput_of_stop hstop, (turn_of_stop hstop).2]
  | none =>
      rcases turn_of_go hstop with ⟨haccesses, hcpu⟩
      rw [haccesses] at hfound
      rcases Board.exists_performAll_withInput hfound with ⟨taken, hdrawn, hperformAll⟩
      rw [Cpu.performAll_step] at hdrawn
      rw [haccesses, hcpu]
      refine ⟨taken, hdrawn, ?_⟩
      intro later
      have hsame := hperformAll later
      rw [Cpu.performAll_step] at hsame
      exact turn_withInput_of_go hstop (Cpu.step_of_same_answers rfl hsame)

/-- A run that never finds the input at its end takes the same items off any input that
begins with them, and is the same run on it. -/
theorem exists_run_withInput (hfound : ¬ machine.FindsEnd rounds) :
    ∃ taken, Drawn machine.cpu.bus.input (machine.run rounds).machine.cpu.bus.input
        (received (accesses (machine.run rounds).events.toList)) taken 0 ∧
      ∀ later, (machine.withInput (taken ++ later)).run rounds =
        { machine.run rounds with
          machine := (machine.run rounds).machine.withInput later } := by
  induction rounds with
  | zero => exact ⟨[], drawn_nil machine.cpu.bus.input, fun later => rfl⟩
  | succ rounds ih =>
      cases hrun : (machine.run rounds).result with
      | some result =>
          have hsame : machine.run (rounds + 1) = machine.run rounds := run_succ_of_ended hrun
          unfold FindsEnd at hfound
          rw [hsame] at hfound ⊢
          rcases ih hfound with ⟨taken, hdrawn, hruns⟩
          refine ⟨taken, hdrawn, ?_⟩
          intro later
          have hended : ((machine.withInput (taken ++ later)).run rounds).result =
              some result := by
            rw [hruns]
            exact hrun
          rw [run_succ_of_ended hended, hruns]
      | none =>
          have hsplit := mt (findsEnd_succ_of_open hrun).mpr hfound
          rcases not_or.mp hsplit with ⟨hbefore, hlast⟩
          rcases ih hbefore with ⟨taken, hdrawn, hruns⟩
          rcases exists_turn_withInput hlast with ⟨taken', hdrawn', hturns⟩
          rw [run_succ_of_open hrun]
          refine ⟨taken ++ taken', ?_, ?_⟩
          · have hreceived := hdrawn.append hdrawn'
            simp only [Array.toList_appendList, accesses_append]
            rw [received, List.filterMap_append]
            exact hreceived
          · intro later
            have hopen : ((machine.withInput (taken ++ taken' ++ later)).run rounds).result =
                none := by
              rw [List.append_assoc, hruns]
              exact hrun
            rw [run_succ_of_open hopen, List.append_assoc, hruns]
            simp only [hturns]

/-- What a run does not take from its input it does not depend on, and nothing is read
ahead.  Let the run of a new machine on the input `front ++ behind` take items of `front`
only, and leave the others, without ever finding the input at its end.  Then the run on
`front ++ behind'` has the same result, the same events and the same journal, and leaves
the same machine in front of `behind'`, with the same items of `front` before it.  The
items that the run has taken are those that its reads have been answered with, and the
interruptions in front of them. -/
theorem untaken_input_inert
    (rom : RomImage) (output : Sink) (config : MachineConfig) {rounds : Nat}
    {front behind taken left : List InputItem}
    (hfront : front = taken ++ left)
    (hleft : ((ofRom rom (front ++ behind) output config).run rounds).machine.cpu.bus.input =
      left ++ behind)
    (hfound : ¬ (ofRom rom (front ++ behind) output config).FindsEnd rounds)
    (behind' : List InputItem) :
    let after := (ofRom rom (front ++ behind) output config).run rounds
    let after' := (ofRom rom (front ++ behind') output config).run rounds
    after'.result = after.result ∧
      after'.machine = after.machine.withInput (left ++ behind') ∧
      after'.events = after.events ∧
      journal after'.events.toList = journal after.events.toList ∧
      Drawn (front ++ behind) (left ++ behind) (received (accesses after.events.toList))
        taken 0 := by
  intro after after'
  rcases exists_run_withInput hfound with ⟨taken', hdrawn, hruns⟩
  rw [hleft] at hdrawn
  have htaken : taken' = taken := by
    have hsplit : front ++ behind = taken' ++ (left ++ behind) := hdrawn.split
    rw [hfront, List.append_assoc] at hsplit
    exact (List.append_cancel_right hsplit).symm
  subst htaken
  have hafter' : after' = { after with machine := after.machine.withInput (left ++ behind') } := by
    have hrun := hruns (left ++ behind')
    rw [← List.append_assoc, ← hfront] at hrun
    exact hrun
  rw [hafter']
  exact ⟨rfl, rfl, rfl, rfl, hdrawn⟩

/-- A machine that jumps to the console input, so that its next fetch takes an item. -/
def jumpingToConsole (input : List InputItem) : Machine :=
  ofRom (.ofBytes [0x08, 0x00, 0x01, 0x00]) input .accepting .initial

/-- The fetch of the second instruction takes an interruption and a byte, before it fails
at the next address.  The byte behind them stays in front of whatever follows. -/
theorem untaken_input_inert_fetched :
    let front : List InputItem := [.interrupted, .byte 0x41, .byte 0x42]
    let behind' : List InputItem := [.endOfFile, .byte 0x43]
    let after := (jumpingToConsole (front ++ [])).run 3
    let after' := (jumpingToConsole (front ++ behind')).run 3
    front = [.interrupted, .byte 0x41] ++ [.byte 0x42] ∧
      after.machine.cpu.bus.input = [.byte 0x42] ∧
      ¬ (jumpingToConsole (front ++ [])).FindsEnd 3 ∧
      after'.result = some (.error (.step 1 (.bus (.addressInvalid 2)))) ∧
      after'.machine.cpu.bus.input = [.byte 0x42, .endOfFile, .byte 0x43] := by
  intro front behind' after after'
  have hfront : front = [.interrupted, .byte 0x41] ++ [.byte 0x42] := rfl
  have hleft : after.machine.cpu.bus.input = [.byte 0x42] := by rfl
  have hfound : ¬ (jumpingToConsole (front ++ [])).FindsEnd 3 := by decide
  have hresult : after.result = some (.error (.step 1 (.bus (.addressInvalid 2)))) := by rfl
  rcases untaken_input_inert (.ofBytes [0x08, 0x00, 0x01, 0x00]) .accepting .initial hfront
    hleft hfound behind' with ⟨hsame, hmachine, -⟩
  have hinput : after'.machine.cpu.bus.input = [.byte 0x42] ++ behind' :=
    congrArg (fun machine => machine.cpu.bus.input) hmachine
  exact ⟨hfront, hleft, hfound, hsame.trans hresult, hinput⟩

end Machine

end WordMachine
