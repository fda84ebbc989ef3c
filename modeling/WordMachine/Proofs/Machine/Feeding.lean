import WordMachine.Proofs.Machine.InputPrefix

/-!
# Input that comes while the machine runs

`Machine.runFed` gives a machine its input byte by byte.  A round that has found no byte
for a read is made again with one byte more, so a round counts only if it has lacked
nothing, or if there is nothing left to give it.  Such a round does not depend on the
input behind what it has taken (`turn_feed`), and so it is the round that the machine would
have made with all of the input from the beginning (`turn_feed_waiting`).  Round by round
this makes the two runs the same (`run_feed_waiting`), and what the machine has not been
given is what it would have left.
-/

namespace WordMachine

theorem Board.FindsEnd.exists_readFailed
    {requests : List Request} {board : Board} (hfound : board.FindsEnd requests) :
    ∃ error, .readFailed consoleInput error ∈ (Request.performAll requests board).1 := by
  induction requests generalizing board with
  | nil => contradiction
  | cons request rest ih =>
      rw [Request.performAll]
      rcases hfound with ⟨rfl, hinterrupted⟩ | hlater
      · have hread := read_of_no_item (List.eq_replicate_of_mem hinterrupted)
        simp only [Request.perform, hread]
        exact ⟨_, List.mem_cons_self⟩
      · rcases ih hlater with ⟨error, hmem⟩
        exact ⟨error, List.mem_cons_of_mem _ hmem⟩

namespace Machine

open MachineEvent

variable {machine : Machine}

theorem Turn.lacksInput_of_readFailed
    {turn : Turn} {error : BusError}
    (hmem : .readFailed Board.consoleInput error ∈ accesses turn.events) :
    turn.lacksInput = true := by
  rcases List.mem_filterMap.mp hmem with ⟨event, hevent, haccess⟩
  apply List.any_eq_true.mpr
  refine ⟨event, hevent, ?_⟩
  cases event with
  | cpu event lines =>
      cases event with
      | access made =>
          obtain rfl := Option.some.inj haccess
          rfl
      | decoded pc instr => contradiction
  | stepFailed pc error => contradiction
  | stopped instructions reason => contradiction

/-! ## Feeding -/

theorem feed_nil (machine : Machine) : machine.feed [] = machine := by
  simp only [feed, List.append_nil]

theorem feed_feed (machine : Machine) (items later : List InputItem) :
    (machine.feed items).feed later = machine.feed (items ++ later) := by
  simp only [feed, List.append_assoc]

theorem feed_eq_withInput (machine : Machine) (items : List InputItem) :
    machine.feed items = machine.withInput (machine.cpu.bus.input ++ items) := rfl

/-- A round that lacks no input goes the same way with more behind it. -/
theorem turn_feed (hserved : machine.turn.lacksInput = false) (items : List InputItem) :
    (machine.feed items).turn =
      { machine.turn with machine := machine.turn.machine.feed items } := by
  have hfound : ¬ machine.cpu.bus.FindsEnd
      ((accesses machine.turn.events).map Access.request) := by
    intro hfound
    rcases hfound.exists_readFailed with ⟨error, hmem⟩
    rw [performAll_turn] at hmem
    rw [Turn.lacksInput_of_readFailed hmem] at hserved
    contradiction
  rcases exists_turn_withInput hfound with ⟨taken, hdrawn, hturn⟩
  rw [feed_eq_withInput, feed_eq_withInput, hdrawn.split, List.append_assoc, hturn]

/-- The round that `turnFed` settles on is the round with all of the input. -/
theorem turn_feed_waiting (machine : Machine) (waiting : List Byte) :
    let (turn, left) := machine.turnFed waiting
    (machine.feed (waiting.map .byte)).turn =
      { turn with machine := turn.machine.feed (left.map .byte) } := by
  induction waiting generalizing machine with
  | nil =>
      simp only [turnFed, List.map_nil, feed_nil]
  | cons byte rest ih =>
      cases hlacks : machine.turn.lacksInput with
      | true =>
          have hsplit : (byte :: rest).map InputItem.byte = [.byte byte] ++ rest.map .byte := rfl
          simp only [turnFed, hlacks, if_true]
          rw [hsplit, ← feed_feed]
          exact ih (machine.feed [.byte byte])
      | false =>
          simp only [turnFed, hlacks, Bool.false_eq_true, if_false]
          exact turn_feed hlacks _

theorem runFrom_feed_waiting
    (machine : Machine) (events : Array MachineEvent) (rounds : Nat) (waiting : List Byte) :
    let (fed, left) := machine.runFedFrom events rounds waiting
    (machine.feed (waiting.map .byte)).runFrom events rounds =
      { fed with machine := fed.machine.feed (left.map .byte) } := by
  induction rounds generalizing machine events waiting with
  | zero => rfl
  | succ rounds ih =>
      have hturn := machine.turn_feed_waiting waiting
      simp only [runFedFrom, runFrom]
      rcases hfed : machine.turnFed waiting with ⟨⟨_ | result, after, seen⟩, left⟩
      · rw [hfed] at hturn
        rw [hturn]
        exact ih after (events ++ seen) left
      · rw [hfed] at hturn
        rw [hturn]

/-- A run that is given its input byte by byte is the run with all of it: it has the same
result and the same events, and the machine and the input that are left are the same. -/
theorem run_feed_waiting (machine : Machine) (rounds : Nat) (waiting : List Byte) :
    let (fed, left) := machine.runFed rounds waiting
    (machine.feed (waiting.map .byte)).run rounds =
      { fed with machine := fed.machine.feed (left.map .byte) } :=
  machine.runFrom_feed_waiting #[] rounds waiting

end Machine

end WordMachine
