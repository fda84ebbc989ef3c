import WordMachine.Proofs.Machine.Board
import WordMachine.Proofs.Machine.Sessions
import WordMachine.Proofs.Machine.Store

/-!
# The memory map over time

What the board holds after any number of accesses is told by the accesses themselves:
an address of the store has the byte that was last put there, and before the first one
what it had at the beginning.  The exit flag tells whether a byte has ever been written
to the exit strobe.

A word is written as two bytes, each of which is an access of its own.  So a word
written to the last address raises the flag with its high byte, and one written to the
console output reaches the store only if the console took the low byte.
-/

namespace WordMachine

/-- The byte that an access has put at an address. -/
def Access.stored? (addr : Address) : Access → Option Byte
  | read _ _ => none
  | readFailed _ _ => none
  | write other byte => if other = addr then some byte else none
  | writeFailed _ _ _ => none

/-- The byte that was put at an address last. -/
def lastStored? (addr : Address) (made : List Access) : Option Byte :=
  (made.filterMap (Access.stored? addr)).getLast?

theorem lastStored?_cons (addr : Address) (access : Access) (made : List Access) :
    lastStored? addr (access :: made) =
      (lastStored? addr made).or (access.stored? addr) := by
  unfold lastStored?
  cases hstored : access.stored? addr with
  | none => rw [List.filterMap_cons_none hstored, Option.or_none]
  | some byte =>
      rw [List.filterMap_cons_some hstored, List.getLast?_cons]
      cases (made.filterMap (Access.stored? addr)).getLast? <;> rfl

namespace Board

variable {board after : Board} {request : Request} {access : Access} {addr : Address}

/-! ## One access -/

theorem Serves.get_store
    (h : board.Serves request access after) (haddr : RomImage.base ≤ addr) :
    after.store.get addr haddr =
      (access.stored? addr).getD (board.store.get addr haddr) := by
  rcases ne_device_of_base_le haddr with ⟨hexit, -, houtput⟩
  cases h with
  | exit byte => rw [Access.stored?, if_neg hexit.symm, Option.getD_none]
  | sent hsend => rw [Access.stored?, if_neg houtput.symm, Option.getD_none]
  | @stored other hother byte =>
      rw [Access.stored?, Store.get_set]
      split <;> rfl
  -- the others put no byte anywhere
  | _ => rfl

theorem Serves.exitRequested_iff (h : board.Serves request access after) :
    after.exitRequested = true ↔
      board.exitRequested = true ∨ ∃ byte, request = .write exitStrobe byte := by
  have hinput : consoleInput ≠ exitStrobe := by decide
  have houtput : consoleOutput ≠ exitStrobe := by decide
  cases h with
  | exit byte => simp
  | stored haddr byte => simp [(ne_device_of_base_le haddr).1]
  | readRefused hport => simp
  | received hreceive => simp
  | notReceived hreceive => simp
  | loaded haddr => simp
  | writeRefused byte => simp [hinput]
  | sent hsend => simp [houtput]
  | notSent hsend => simp [houtput]

/-! ## Any number of accesses -/

theorem get_store_performAll
    (requests : List Request) (board : Board) (haddr : RomImage.base ≤ addr) :
    (Request.performAll requests board).2.store.get addr haddr =
      (lastStored? addr (Request.performAll requests board).1).getD
        (board.store.get addr haddr) := by
  induction requests generalizing board with
  | nil => rfl
  | cons request rest ih =>
      have hfirst := (serves_perform request board).get_store haddr
      rw [Request.performAll, lastStored?_cons, Option.getD_or, ← hfirst]
      exact ih (request.perform board).2

theorem exitRequested_performAll (requests : List Request) (board : Board) :
    (Request.performAll requests board).2.exitRequested = true ↔
      board.exitRequested = true ∨ ∃ byte, .write exitStrobe byte ∈ requests := by
  induction requests generalizing board with
  | nil => simp [Request.performAll]
  | cons request rest ih =>
      have hfirst := (serves_perform request board).exitRequested_iff
      have hrest := ih (request.perform board).2
      rw [hfirst] at hrest
      rw [Request.performAll, hrest, or_assoc, ← exists_or]
      simp only [List.mem_cons, eq_comm]

end Board

/-! ## Operations -/

namespace BusOperation

/-- The operation writes to the exit strobe, as one of its two bytes if it writes a
word. -/
def Strobes : BusOperation → Prop
  | read _ => False
  | write addr _ => addr = Board.exitStrobe
  | readWord _ => False
  | writeWord addr _ => addr = Board.exitStrobe ∨ addr = 0xFFFF

theorem strobes_of_request
    {operation : BusOperation} {board : Board} {byte : Byte}
    (hmem : .write Board.exitStrobe byte ∈
      (operation.transaction.run board).accesses.map Access.request) :
    operation.Strobes := by
  have hplanned := (operation.transaction.isPrefix_requests board).subset hmem
  cases operation with
  | read addr => simp [transaction] at hplanned
  | write addr value =>
      simp only [transaction, Transaction.requests_bind, Transaction.requests_writeByte,
        Transaction.requests_pure, List.append_nil, List.mem_singleton,
        Request.write.injEq] at hplanned
      exact hplanned.1.symm
  | readWord addr => simp [transaction, Request.readWord] at hplanned
  | writeWord addr word =>
      simp only [transaction, Transaction.requests_bind, Transaction.requests_writeWord,
        Transaction.requests_pure, List.append_nil, Request.writeWord, List.mem_cons,
        List.not_mem_nil, or_false, Request.write.injEq] at hplanned
      rcases hplanned with ⟨hlow, -⟩ | ⟨hhigh, -⟩
      · exact .inl hlow.symm
      · refine .inr (UInt16.toNat_inj.mp ?_)
        have hnat : (addr + 1).toNat = 0 := congrArg UInt16.toNat hhigh.symm
        have hlt := addr.toNat_lt
        rw [UInt16.toNat_add, UInt16.toNat_one] at hnat
        change addr.toNat = 65535
        omega

theorem exists_request_of_strobes
    {operation : BusOperation} (hstrobes : operation.Strobes) (board : Board) :
    ∃ byte, .write Board.exitStrobe byte ∈
      (operation.transaction.run board).accesses.map Access.request := by
  cases operation with
  | read addr => contradiction
  | write addr byte =>
      rw [show addr = Board.exitStrobe from hstrobes]
      exact ⟨byte, List.mem_cons_self⟩
  | readWord addr => contradiction
  | writeWord addr word =>
      rcases hstrobes with rfl | rfl
      · exact ⟨word.lowByte, List.mem_cons_self⟩
      · -- the low byte goes to the last address of the store, which never refuses
        exact ⟨word.highByte, List.mem_cons_of_mem _ List.mem_cons_self⟩

theorem exitRequested_performAll (operations : List BusOperation) (board : Board) :
    (performAll operations board).2.exitRequested = true ↔
      board.exitRequested = true ∨ ∃ operation ∈ operations, operation.Strobes := by
  induction operations generalizing board with
  | nil => simp [performAll]
  | cons operation rest ih =>
      have hfirst : (operation.transaction.run board).bus.exitRequested = true ↔
          board.exitRequested = true ∨ operation.Strobes := by
        have hboard := Board.exitRequested_performAll
          ((operation.transaction.run board).accesses.map Access.request) board
        rw [Transaction.performAll_run] at hboard
        rw [hboard]
        constructor
        · rintro (hexit | ⟨byte, hmem⟩)
          · exact .inl hexit
          · exact .inr (strobes_of_request hmem)
        · rintro (hexit | hstrobes)
          · exact .inl hexit
          · exact .inr (exists_request_of_strobes hstrobes board)
      rw [performAll, ih, hfirst, or_assoc]
      simp only [List.mem_cons, exists_eq_or_imp]

end BusOperation

/-- After any operations on the bus, whatever they have answered, the board holds at
each address of the store what was put there last, or else the image with zeros behind
it, and both ways of looking at it agree.  The devices show nothing and refuse the wrong
direction.  The exit is requested exactly if the exit strobe has been written to, and
stays so. -/
theorem memory_map_coherent
    (data : List Byte) (input : List InputItem) (output : Sink) (trace : Bool)
    (operations : List BusOperation) :
    let start := Board.ofRom (.ofBytes data) input output trace
    let (made, board) := BusOperation.performAll operations start
    (∀ addr, RomImage.base ≤ addr →
      let byte := (lastStored? addr made).getD
        ((data.take RomImage.size)[addr.toNat - 3]?.getD 0)
      Bus.read addr board = (.ok byte, board) ∧ board.peek addr = byte) ∧
    (∀ addr, addr < RomImage.base → board.peek addr = 0) ∧
    (∀ addr, addr = Board.exitStrobe ∨ addr = Board.consoleOutput →
      Bus.read addr board = (.error (.addressInvalid addr), board)) ∧
    (∀ byte, Bus.write Board.consoleInput byte board =
      (.error (.addressInvalid Board.consoleInput), board)) ∧
    (board.exitRequested = true ↔
      ∃ byte, .write Board.exitStrobe byte ∈ made.map Access.request) ∧
    (board.exitRequested = true ↔ ∃ operation ∈ operations, operation.Strobes) ∧
    ∀ more, board.exitRequested = true →
      (BusOperation.performAll (operations ++ more) start).2.exitRequested = true := by
  intro start
  have hmade := BusOperation.performAll_requests operations start
  have hstrobes := BusOperation.exitRequested_performAll operations start
  generalize BusOperation.performAll operations start = after at hmade hstrobes
  rcases after with ⟨made, board⟩
  have hstart : start.exitRequested ≠ true := by simp [start, Board.ofRom]
  have hrequests := Board.exitRequested_performAll (made.map Access.request) start
  rw [hmade] at hrequests
  rw [or_iff_right hstart] at hrequests hstrobes
  refine ⟨?_, ?_, ?_, ?_, hrequests, hstrobes, ?_⟩
  · intro addr haddr byte
    have hbyte := Board.get_store_performAll (made.map Access.request) start haddr
    rw [hmade] at hbyte
    have hrom : start.store.get addr haddr = _ := Store.get_ofRom data haddr
    rw [hrom] at hbyte
    exact ⟨by rw [Board.read_of_base_le haddr, hbyte], by rw [Board.peek_of_base_le haddr, hbyte]⟩
  · exact fun addr haddr => Board.peek_of_lt_base haddr board
  · exact fun addr hport => Board.read_refused hport board
  · exact fun byte => rfl
  · intro more hexit
    rcases hstrobes.mp hexit with ⟨operation, hmem, hoperation⟩
    apply (BusOperation.exitRequested_performAll (operations ++ more) start).mpr
    exact .inr ⟨operation, List.mem_append_left more hmem, hoperation⟩

/-- A word across the end of the address space, a word whose low byte the console
refuses, and a byte over the image. -/
theorem memory_map_coherent_wrapping :
    let start := Board.ofRom (.ofBytes [1, 2, 3]) [] (.withReplies fun _ => .refused) true
    let operations : List BusOperation :=
      [.readWord 0, .writeWord 0xFFFF 0xAB12, .writeWord 2 0x5544, .write 4 0x99]
    let (_, board) := BusOperation.performAll operations start
    Bus.read 3 board = (.ok 1, board) ∧
      Bus.read 4 board = (.ok 0x99, board) ∧
      Bus.read 6 board = (.ok 0, board) ∧
      Bus.read 0xFFFF board = (.ok 0x12, board) ∧
      board.peek 0xFFFF = 0x12 ∧
      board.exitRequested = true := by
  intro start operations
  obtain ⟨hmemory, -, -, -, -, hexit, -⟩ :=
    memory_map_coherent [1, 2, 3] [] (.withReplies fun _ => .refused) true operations
  have hstrobes : BusOperation.Strobes (.writeWord 0xFFFF 0xAB12) := .inr rfl
  have hmem : .writeWord 0xFFFF 0xAB12 ∈ operations := by decide
  exact ⟨(hmemory 3 (by decide)).1, (hmemory 4 (by decide)).1, (hmemory 6 (by decide)).1,
    (hmemory 0xFFFF (by decide)).1, (hmemory 0xFFFF (by decide)).2,
    hexit.mpr ⟨_, hmem, hstrobes⟩⟩

end WordMachine
