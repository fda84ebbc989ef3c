import WordMachine.Proofs.Machine.Board
import WordMachine.Proofs.Machine.Sessions

/-!
# The two streams of the console

Every item of the input is answered to one read of the console input, in order, an
interruption to none.  `Drawn` says so for any number of reads: they take a prefix off
the input, and are told of the end when there is nothing left.  They never take an item
that they do not answer, so nothing is read ahead.

Every byte sent to the console output is one attempt at the sink, which emits it or
not.  `Emitted` says that the sink emits the bytes of the attempts that its replies take,
each one once and in order.  A failing flush does not take the byte back.

No other access touches either stream.  The two laws of a single access, `Serves.drawn`
and `Serves.emitted`, therefore add up to laws of all accesses of a session.
-/

namespace WordMachine

namespace InputItem

/-- What a read of the console input is told of an item. -/
def answer? : InputItem → Option (Except BusError Byte)
  | byte value => some (.ok value)
  | interrupted => none
  | endOfFile => some (.error (.unknown "end of input"))
  | failed text => some (.error (.unknown ("input: " ++ text)))

def data? : InputItem → Option Byte
  | byte value => some value
  | interrupted => none
  | endOfFile => none
  | failed _ => none

theorem receive_skip (skipped : Nat) (items : List InputItem) :
    receive (List.replicate skipped interrupted ++ items) = receive items := by
  induction skipped with
  | zero => rfl
  | succ skipped ih =>
      rw [List.replicate_succ, List.cons_append, receive]
      exact ih

theorem exists_receive_cons
    {item : InputItem} {answer : Except BusError Byte} (hanswer : item.answer? = some answer)
    (rest : List InputItem) :
    ∃ told, receive (item :: rest) = (told, rest) ∧
      told.mapError Board.consoleFailure = answer := by
  cases item with
  | interrupted => contradiction
  | byte value => exact ⟨_, rfl, Option.some.inj hanswer⟩
  | endOfFile => exact ⟨_, rfl, Option.some.inj hanswer⟩
  | failed text => exact ⟨_, rfl, Option.some.inj hanswer⟩

theorem exists_skipped (input : List InputItem) :
    ∃ skipped items, input = List.replicate skipped interrupted ++ items ∧
      (items = [] ∨ ∃ item answer rest, items = item :: rest ∧ item.answer? = some answer) := by
  induction input with
  | nil => exact ⟨0, [], rfl, .inl rfl⟩
  | cons item rest ih =>
      cases hanswer : item.answer? with
      | some answer => exact ⟨0, item :: rest, rfl, .inr ⟨item, answer, rest, rfl, hanswer⟩⟩
      | none =>
          have hitem : item = interrupted := by
            cases item <;> simp [answer?] at hanswer ⊢
          rcases ih with ⟨skipped, items, hsplit, hitems⟩
          refine ⟨skipped + 1, items, ?_, hitems⟩
          rw [hitem, hsplit, List.replicate_succ, List.cons_append]

end InputItem

namespace SinkReply

/-- The byte of an attempt with this reply is emitted. -/
def takes : SinkReply → Bool
  | accepted => true
  | refused => false
  | failed _ => false
  | interrupted next => next.takes
  | flushFailed _ => true

/-- What a write to the console output is told of the reply. -/
def answer : SinkReply → Except BusError Unit
  | accepted => .ok ()
  | refused => .error (.unknown "output: failed to write whole buffer")
  | failed text => .error (.unknown ("output: " ++ text))
  | interrupted next => next.answer
  | flushFailed text => .error (.unknown ("output: " ++ text))

end SinkReply

namespace Access

/-- The answer of a read of the console input. -/
def received? : Access → Option (Except BusError Byte)
  | read addr byte => if addr = Board.consoleInput then some (.ok byte) else none
  | readFailed addr error => if addr = Board.consoleInput then some (.error error) else none
  | write _ _ => none
  | writeFailed _ _ _ => none

/-- The byte of a write to the console output, with the answer. -/
def sent? : Access → Option (Byte × Except BusError Unit)
  | read _ _ => none
  | readFailed _ _ => none
  | write addr byte => if addr = Board.consoleOutput then some (byte, .ok ()) else none
  | writeFailed addr byte error =>
      if addr = Board.consoleOutput then some (byte, .error error) else none

end Access

def received (made : List Access) : List (Except BusError Byte) :=
  made.filterMap Access.received?

def sent (made : List Access) : List (Byte × Except BusError Unit) :=
  made.filterMap Access.sent?

theorem received_cons (access : Access) (made : List Access) :
    received (access :: made) = access.received?.toList ++ received made := by
  cases h : access.received? <;> simp [received, h]

theorem sent_cons (access : Access) (made : List Access) :
    sent (access :: made) = access.sent?.toList ++ sent made := by
  cases h : access.sent? <;> simp [sent, h]

/-! ## The input -/

/-- Reads with these answers have taken `consumed` off the input and left `rest`.
The last `beyond` of them have found no item any more. -/
structure Drawn (input rest : List InputItem) (answers : List (Except BusError Byte))
    (consumed : List InputItem) (beyond : Nat) : Prop where
  split : input = consumed ++ rest
  answered : answers = consumed.filterMap InputItem.answer? ++
    List.replicate beyond (.error (.unknown "end of input"))
  exhausted : 0 < beyond → rest = []
  noneAhead : beyond = 0 → consumed.getLast? ≠ some .interrupted

section Input

variable {input middle rest consumed consumed' : List InputItem}
  {answers answers' : List (Except BusError Byte)} {beyond beyond' : Nat}

theorem drawn_nil (input : List InputItem) : Drawn input input [] [] 0 where
  split := rfl
  answered := rfl
  exhausted := fun hpos => absurd hpos (Nat.lt_irrefl 0)
  noneAhead := fun _ => by simp

theorem Drawn.append
    (first : Drawn input middle answers consumed beyond)
    (second : Drawn middle rest answers' consumed' beyond') :
    Drawn input rest (answers ++ answers') (consumed ++ consumed') (beyond + beyond') := by
  have hafter : 0 < beyond → consumed' = [] ∧ rest = [] := by
    intro hpos
    have hmiddle := second.split
    rw [first.exhausted hpos] at hmiddle
    exact List.append_eq_nil_iff.mp hmiddle.symm
  constructor
  · rw [first.split, second.split, List.append_assoc]
  · rw [first.answered, second.answered]
    cases beyond with
    | zero => simp
    | succ beyond =>
        rw [(hafter (Nat.succ_pos beyond)).1, List.append_nil, List.filterMap_nil,
          List.nil_append, List.append_assoc, List.replicate_append_replicate]
  · intro hpos
    rcases Nat.eq_zero_or_pos beyond with hzero | hpos'
    · exact second.exhausted (by omega)
    · exact (hafter hpos').2
  · intro hzero
    have hfirst := first.noneAhead (by omega)
    have hsecond := second.noneAhead (by omega)
    rw [List.getLast?_append]
    cases hlast : consumed'.getLast? with
    | none => exact hfirst
    | some item =>
        rw [hlast] at hsecond
        exact hsecond

/-- The bytes that reads have been given are the data bytes of what they have
consumed. -/
theorem Drawn.data (h : Drawn input rest answers consumed beyond) :
    answers.filterMap Except.toOption = consumed.filterMap InputItem.data? := by
  have hitem : ∀ item : InputItem, item.answer?.bind Except.toOption = item.data? := by
    intro item
    cases item <;> rfl
  rw [h.answered, List.filterMap_append, List.filterMap_filterMap, funext hitem]
  simp [Except.toOption]

theorem filterMap_answer?_replicate (skipped : Nat) :
    (List.replicate skipped .interrupted).filterMap InputItem.answer? = [] :=
  List.filterMap_replicate_of_none rfl

/-- The interruptions in front of an item are taken with it. -/
theorem drawn_item
    {item : InputItem} {answer : Except BusError Byte} (hanswer : item.answer? = some answer)
    (skipped : Nat) (rest : List InputItem) :
    Drawn (List.replicate skipped .interrupted ++ item :: rest) rest [answer]
      (List.replicate skipped .interrupted ++ [item]) 0 := by
  constructor
  · rw [List.append_assoc]
    rfl
  · rw [List.filterMap_append, filterMap_answer?_replicate]
    simp [hanswer]
  · intro hpos
    contradiction
  · intro _
    rw [List.getLast?_concat]
    rintro ⟨⟩
    contradiction

/-- One read of the input. -/
theorem exists_drawn_receive (input : List InputItem) :
    ∃ consumed beyond, Drawn input (InputItem.receive input).2
      [(InputItem.receive input).1.mapError Board.consoleFailure] consumed beyond := by
  rcases InputItem.exists_skipped input with
    ⟨skipped, items, rfl, rfl | ⟨item, answer, rest, rfl, hanswer⟩⟩
  · rw [InputItem.receive_skip]
    refine ⟨List.replicate skipped .interrupted, 1, rfl, ?_, fun _ => rfl, ?_⟩
    · rw [filterMap_answer?_replicate]
      rfl
    · intro hzero
      contradiction
  · rcases InputItem.exists_receive_cons hanswer rest with ⟨told, hreceive, htold⟩
    rw [InputItem.receive_skip, hreceive, htold]
    exact ⟨_, 0, drawn_item hanswer skipped rest⟩

theorem Board.Serves.drawn
    {board after : Board} {request : Request} {access : Access}
    (h : board.Serves request access after) :
    ∃ consumed beyond,
      Drawn board.input after.input access.received?.toList consumed beyond := by
  cases h with
  | received hreceive =>
      have hdrawn := exists_drawn_receive board.input
      rw [hreceive] at hdrawn
      exact hdrawn
  | notReceived hreceive =>
      have hdrawn := exists_drawn_receive board.input
      rw [hreceive] at hdrawn
      exact hdrawn
  | @readRefused addr hport =>
      have hother : addr ≠ Board.consoleInput := by
        rcases hport with rfl | rfl <;> decide
      simp only [Access.received?, if_neg hother]
      exact ⟨[], 0, drawn_nil board.input⟩
  | @loaded addr haddr =>
      have hother := (Board.ne_device_of_base_le haddr).2.1
      simp only [Access.received?, if_neg hother]
      exact ⟨[], 0, drawn_nil board.input⟩
  -- no write touches the input
  | _ => exact ⟨[], 0, drawn_nil board.input⟩

theorem exists_drawn_performAll (requests : List Request) (board : Board) :
    ∃ consumed beyond, Drawn board.input (Request.performAll requests board).2.input
      (received (Request.performAll requests board).1) consumed beyond := by
  induction requests generalizing board with
  | nil => exact ⟨[], 0, drawn_nil board.input⟩
  | cons request rest ih =>
      rcases (Board.serves_perform request board).drawn with ⟨consumed, beyond, hfirst⟩
      rcases ih (request.perform board).2 with ⟨consumed', beyond', hrest⟩
      refine ⟨consumed ++ consumed', beyond + beyond', ?_⟩
      rw [Request.performAll, received_cons]
      exact hfirst.append hrest

end Input

/-! ## The output -/

namespace Sink

/-- The replies to the next `count` attempts. -/
def repliesTo (sink : Sink) (count : Nat) : List SinkReply :=
  (List.range' sink.attempts count).map sink.replies

/-- Which of the bytes the replies to them let be emitted. -/
def taken (bytes : List Byte) (replies : List SinkReply) : List Byte :=
  ((bytes.zip replies).filter fun attempt => attempt.2.takes).map Prod.fst

theorem settle_eq (byte : Byte) (reply : SinkReply) (emitted : Array Byte) :
    (settle byte reply emitted).1.mapError Board.consoleFailure = reply.answer ∧
      (settle byte reply emitted).2 = if reply.takes then emitted.push byte else emitted := by
  induction reply with
  | interrupted next ih => exact ih
  | _ => exact ⟨rfl, rfl⟩

theorem send_eq (sink : Sink) (byte : Byte) :
    let reply := sink.replies sink.attempts
    (sink.send byte).1.mapError Board.consoleFailure = reply.answer ∧
      (sink.send byte).2 =
        { emitted := if reply.takes then sink.emitted.push byte else sink.emitted
          attempts := sink.attempts + 1
          replies := sink.replies } := by
  intro reply
  rcases settle_eq byte reply sink.emitted with ⟨hanswer, hemitted⟩
  constructor
  · exact hanswer
  · rw [← hemitted]
    rfl

theorem length_repliesTo (sink : Sink) (count : Nat) :
    (sink.repliesTo count).length = count := by
  rw [repliesTo, List.length_map, List.length_range']

theorem repliesTo_add
    {sink after : Sink} {count : Nat} (hreplies : after.replies = sink.replies)
    (hattempts : after.attempts = sink.attempts + count) (more : Nat) :
    sink.repliesTo (count + more) = sink.repliesTo count ++ after.repliesTo more := by
  unfold repliesTo
  rw [hreplies, hattempts, ← List.map_append, List.range'_append_1]

theorem taken_append
    {bytes : List Byte} {replies : List SinkReply} (hlength : bytes.length = replies.length)
    (bytes' : List Byte) (replies' : List SinkReply) :
    taken (bytes ++ bytes') (replies ++ replies') =
      taken bytes replies ++ taken bytes' replies' := by
  unfold taken
  rw [List.zip_append hlength, List.filter_append, List.map_append]

end Sink

/-- These bytes, with the answers to them, have been sent to a sink one by one. -/
structure Emitted (before after : Sink) (sends : List (Byte × Except BusError Unit)) :
    Prop where
  replies : after.replies = before.replies
  attempts : after.attempts = before.attempts + sends.length
  answers : sends.map Prod.snd = (before.repliesTo sends.length).map SinkReply.answer
  emitted : after.emitted.toList = before.emitted.toList ++
    Sink.taken (sends.map Prod.fst) (before.repliesTo sends.length)

section Output

variable {before middle after : Sink} {sends sends' : List (Byte × Except BusError Unit)}

theorem emitted_nil (sink : Sink) : Emitted sink sink [] where
  replies := rfl
  attempts := rfl
  answers := rfl
  emitted := (List.append_nil _).symm

theorem Emitted.append
    (first : Emitted before middle sends) (second : Emitted middle after sends') :
    Emitted before after (sends ++ sends') := by
  have hreplies : before.repliesTo (sends ++ sends').length =
      before.repliesTo sends.length ++ middle.repliesTo sends'.length := by
    rw [List.length_append]
    exact Sink.repliesTo_add first.replies first.attempts sends'.length
  constructor
  · rw [second.replies, first.replies]
  · rw [second.attempts, first.attempts, List.length_append, Nat.add_assoc]
  · rw [hreplies, List.map_append, List.map_append, first.answers, second.answers]
  · have hlength : (sends.map Prod.fst).length =
        (before.repliesTo sends.length).length := by
      rw [List.length_map, Sink.length_repliesTo]
    rw [hreplies, List.map_append, Sink.taken_append hlength, second.emitted, first.emitted,
      List.append_assoc]

/-- One byte sent to a sink. -/
theorem emitted_send (sink : Sink) (byte : Byte) :
    Emitted sink (sink.send byte).2
      [(byte, (sink.send byte).1.mapError Board.consoleFailure)] := by
  rcases sink.send_eq byte with ⟨hanswer, hafter⟩
  rw [hanswer, hafter]
  constructor
  · rfl
  · rfl
  · rfl
  · change _ = sink.emitted.toList ++ Sink.taken [byte] [sink.replies sink.attempts]
    cases htakes : (sink.replies sink.attempts).takes <;> simp [Sink.taken, htakes]

theorem Board.Serves.emitted
    {board after : Board} {request : Request} {access : Access}
    (h : board.Serves request access after) :
    Emitted board.output after.output access.sent?.toList := by
  cases h with
  | @sent byte output hsend =>
      have hemitted := emitted_send board.output byte
      rw [hsend] at hemitted
      exact hemitted
  | @notSent byte error output hsend =>
      have hemitted := emitted_send board.output byte
      rw [hsend] at hemitted
      exact hemitted
  | @stored addr haddr byte =>
      have hother := (Board.ne_device_of_base_le haddr).2.2
      simp only [Access.sent?, if_neg hother]
      exact emitted_nil board.output
  -- neither a read nor a write to another device touches the output
  | _ => exact emitted_nil board.output

theorem emitted_performAll (requests : List Request) (board : Board) :
    Emitted board.output (Request.performAll requests board).2.output
      (sent (Request.performAll requests board).1) := by
  induction requests generalizing board with
  | nil => exact emitted_nil board.output
  | cons request rest ih =>
      have hfirst := (Board.serves_perform request board).emitted
      rw [Request.performAll, sent_cons]
      exact hfirst.append (ih (request.perform board).2)

theorem Machine.emitted_turn_isPrefix (machine : Machine) :
    machine.cpu.bus.output.emitted.toList <+:
      machine.turn.machine.cpu.bus.output.emitted.toList := by
  have houtput := emitted_performAll
    ((MachineEvent.accesses machine.turn.events).map Access.request) machine.cpu.bus
  rw [Machine.performAll_turn] at houtput
  rw [houtput.emitted]
  exact List.prefix_append _ _

/-- What a run has emitted it never takes back. -/
theorem Machine.emitted_run_isPrefix
    (machine : Machine) {rounds more : Nat} (hle : rounds ≤ more) :
    (machine.run rounds).machine.cpu.bus.output.emitted.toList <+:
      (machine.run more).machine.cpu.bus.output.emitted.toList := by
  induction hle with
  | refl => exact List.prefix_rfl
  | @step more hle ih =>
      cases hrun : (machine.run more).result with
      | some result =>
          rw [Machine.run_succ_of_ended hrun]
          exact ih
      | none =>
          rw [Machine.run_succ_of_open hrun]
          exact ih.trans (Machine.emitted_turn_isPrefix _)

/-- The bytes that the program has sent to the console, in order. -/
def Machine.RunResult.sentBytes (run : Machine.RunResult) : List Byte :=
  (sent (MachineEvent.accesses run.events.toList)).map Prod.fst

theorem Sink.taken_accepting (bytes : List Byte) :
    taken bytes (accepting.repliesTo bytes.length) = bytes := by
  have hlength := accepting.length_repliesTo bytes.length
  have htakes : ∀ attempt ∈ bytes.zip (accepting.repliesTo bytes.length),
      attempt.2.takes = true := by
    rintro ⟨byte, reply⟩ hmem
    obtain ⟨attempt, -, rfl⟩ := List.mem_map.mp (List.of_mem_zip hmem).2
    rfl
  rw [taken, List.filter_eq_self.mpr htakes, List.map_fst_zip (Nat.le_of_eq hlength.symm)]

/-- An output that refuses nothing holds whatever has been sent. -/
theorem Machine.emitted_run_accepting
    {machine : Machine} (haccepting : machine.cpu.bus.output = .accepting) (rounds : Nat) :
    (machine.run rounds).machine.cpu.bus.output.emitted.toList =
      (machine.run rounds).sentBytes := by
  have houtput := emitted_performAll
    ((MachineEvent.accesses (machine.run rounds).events.toList).map Access.request)
    machine.cpu.bus
  rw [Machine.performAll_run, haccepting] at houtput
  have htaken := Sink.taken_accepting (machine.run rounds).sentBytes
  rw [RunResult.sentBytes, List.length_map] at htaken
  rw [houtput.emitted, htaken]
  rfl

end Output

/-! ## Both streams -/

/-- Accesses that led from one board to another have neither lost nor doubled a byte
of the streams. -/
structure Streamed (before after : Board) (made : List Access) : Prop where
  input : ∃ consumed beyond,
    Drawn before.input after.input (received made) consumed beyond ∧
      (received made).filterMap Except.toOption = consumed.filterMap InputItem.data?
  output : Emitted before.output after.output (sent made)

theorem streamed_performAll (requests : List Request) (board : Board) :
    Streamed board (Request.performAll requests board).2
      (Request.performAll requests board).1 where
  input := by
    rcases exists_drawn_performAll requests board with ⟨consumed, beyond, hdrawn⟩
    exact ⟨consumed, beyond, hdrawn, hdrawn.data⟩
  output := emitted_performAll requests board

namespace Board

variable {board : Board}

theorem read_item
    {item : InputItem} {answer : Except BusError Byte} (hanswer : item.answer? = some answer)
    {skipped : Nat} {rest : List InputItem}
    (hinput : board.input = List.replicate skipped .interrupted ++ item :: rest) :
    Bus.read consoleInput board = (answer, { board with input := rest }) := by
  rcases InputItem.exists_receive_cons hanswer rest with ⟨told, hreceive, htold⟩
  rw [read_consoleInput, hinput, InputItem.receive_skip, hreceive, htold]

theorem read_of_no_item
    {skipped : Nat} (hinput : board.input = List.replicate skipped .interrupted) :
    Bus.read consoleInput board =
      (.error (.unknown "end of input"), { board with input := [] }) := by
  have hskip := InputItem.receive_skip skipped []
  rw [List.append_nil] at hskip
  rw [read_consoleInput, hinput, hskip]
  rfl

theorem write_byte (board : Board) (byte : Byte) :
    let reply := board.output.replies board.output.attempts
    Bus.write consoleOutput byte board =
      (reply.answer, { board with output := {
        emitted := if reply.takes then board.output.emitted.push byte else board.output.emitted
        attempts := board.output.attempts + 1
        replies := board.output.replies } }) := by
  intro reply
  rcases board.output.send_eq byte with ⟨hanswer, hafter⟩
  rw [write_consoleOutput, hanswer, hafter]

theorem Serves.input_eq
    {request : Request} {access : Access} {after : Board}
    (h : board.Serves request access after) (hother : request ≠ .read consoleInput) :
    after.input = board.input := by
  cases h with
  | received hreceive => contradiction
  | notReceived hreceive => contradiction
  | _ => rfl

theorem Serves.output_eq
    {request : Request} {access : Access} {after : Board}
    (h : board.Serves request access after)
    (hother : ∀ byte, request ≠ .write consoleOutput byte) :
    after.output = board.output := by
  cases h with
  | @sent byte output hsend => exact absurd rfl (hother byte)
  | @notSent byte error output hsend => exact absurd rfl (hother byte)
  | _ => rfl

end Board

/-- The streams of the console lose nothing and double nothing.  A read of the input
skips the interruptions, takes one item and says what it was, or that there is none.  A
byte written to the output is emitted once or not at all, as the sink replies.  Nothing
else touches the streams.  So after any operations on the bus, and after any session of
a host with the machine, the answers of all reads are the items consumed, in order, and
the bytes emitted are those of the writes that the sink took. -/
theorem console_conserves (machine : Machine) :
    let board := machine.cpu.bus
    (∀ skipped item answer rest, item.answer? = some answer →
      board.input = List.replicate skipped .interrupted ++ item :: rest →
        Bus.read Board.consoleInput board = (answer, { board with input := rest })) ∧
    (∀ skipped, board.input = List.replicate skipped .interrupted →
      Bus.read Board.consoleInput board =
        (.error (.unknown "end of input"), { board with input := [] })) ∧
    (∀ byte, let reply := board.output.replies board.output.attempts
      Bus.write Board.consoleOutput byte board =
        (reply.answer, { board with output := {
          emitted :=
            if reply.takes then board.output.emitted.push byte else board.output.emitted
          attempts := board.output.attempts + 1
          replies := board.output.replies } })) ∧
    (∀ request : Request,
      (request ≠ .read Board.consoleInput →
        (request.perform board).2.input = board.input) ∧
      ((∀ byte, request ≠ .write Board.consoleOutput byte) →
        (request.perform board).2.output = board.output)) ∧
    (∀ operations : List BusOperation,
      let (made, after) := BusOperation.performAll operations board
      Streamed board after made) ∧
    ∀ operations : List HostOperation,
      let session := HostOperation.performAll operations machine
      Streamed board session.machine.cpu.bus (MachineEvent.accesses session.events) := by
  intro board
  refine ⟨?_, ?_, ?_, ?_, ?_, ?_⟩
  · exact fun skipped item answer rest hanswer hinput => Board.read_item hanswer hinput
  · exact fun skipped hinput => Board.read_of_no_item hinput
  · exact board.write_byte
  · intro request
    have hserves := Board.serves_perform request board
    exact ⟨hserves.input_eq, hserves.output_eq⟩
  · intro operations
    have hstreamed := streamed_performAll
      ((BusOperation.performAll operations board).1.map Access.request) board
    rw [BusOperation.performAll_requests] at hstreamed
    exact hstreamed
  · intro operations session
    have hstreamed := streamed_performAll
      ((MachineEvent.accesses session.events).map Access.request) board
    rw [HostOperation.performAll_session] at hstreamed
    exact hstreamed

/-- An interruption on either side, a read and a write of a word that fail half way, a
flush that fails behind an emitted byte, a refused byte, and a read past the last item. -/
theorem console_conserves_interrupted :
    let input : List InputItem := [.interrupted, .byte 7, .endOfFile, .interrupted, .byte 9]
    let replies : Nat → SinkReply := fun attempt =>
      if attempt = 0 then .interrupted .accepted
      else if attempt = 1 then .flushFailed "full"
      else .refused
    let machine := Machine.ofRom (.ofBytes []) input (.withReplies replies) .initial
    let operations : List BusOperation := [.readWord 1, .write 2 0x41, .writeWord 2 0x4342,
      .read 1, .write 2 0x44, .read 1, .read 1]
    let (made, after) := BusOperation.performAll operations machine.cpu.bus
    Bus.read Board.consoleInput machine.cpu.bus =
        (.ok 7, { machine.cpu.bus with input := [.endOfFile, .interrupted, .byte 9] }) ∧
      Streamed machine.cpu.bus after made ∧
      received made = [.ok 7, .error (.unknown "end of input"), .ok 9,
        .error (.unknown "end of input")] ∧
      after.input = [] ∧
      after.output.emitted.toList = [0x41, 0x42] := by
  intro input replies machine operations
  obtain ⟨hread, -, -, -, hoperations, -⟩ := console_conserves machine
  refine ⟨?_, hoperations operations, rfl, rfl, rfl⟩
  exact hread 1 (.byte 7) (.ok 7) [.endOfFile, .interrupted, .byte 9] rfl rfl

end WordMachine
