import WordMachine.Bus.Transaction

/-!
# Requests and answers

An access consists of a request and its answer.  The bytes that answer the
reads of a transaction determine which requests it makes and which value it
yields; the bus has no other influence on it.  `isPrefix_requests` says that an
attempted transaction never leaves this sequence of requests, and
`requests_of_ok` and `exists_failed_last` say how far it gets.

In the other direction `performAll` gives the answers of a bus to a sequence of
requests.  The accesses of a run are the answers to their own requests, so the
bus is known after every prefix of them, and another bus that answers the same lets the
transaction do the same (`run_of_same_answers`).
-/

namespace WordMachine

/-- A byte access without its answer. -/
inductive Request where
  | read (addr : Address)
  | write (addr : Address) (byte : Byte)
deriving DecidableEq, Repr

namespace Access

def request : Access → Request
  | read addr _ => .read addr
  | readFailed addr _ => .read addr
  | write addr byte => .write addr byte
  | writeFailed addr byte _ => .write addr byte

def answer? : Access → Option Byte
  | read _ byte => some byte
  | _ => none

end Access

def answers (accesses : List Access) : List Byte :=
  accesses.filterMap Access.answer?

@[simp] theorem answers_cons (access : Access) (accesses : List Access) :
    answers (access :: accesses) = access.answer?.toList ++ answers accesses := by
  cases access <;> rfl

namespace Request

def readWord (addr : Address) : List Request :=
  [.read addr, .read (addr + 1)]

def writeWord (addr : Address) (word : Word) : List Request :=
  [.write addr word.lowByte, .write (addr + 1) word.highByte]

variable {σ : Type} [Bus σ]

def perform : Request → σ → Access × σ
  | .read addr, bus =>
      match Bus.read addr bus with
      | (.ok byte, bus) => (.read addr byte, bus)
      | (.error error, bus) => (.readFailed addr error, bus)
  | .write addr byte, bus =>
      match Bus.write addr byte bus with
      | (.ok (), bus) => (.write addr byte, bus)
      | (.error error, bus) => (.writeFailed addr byte error, bus)

def performAll : List Request → σ → List Access × σ
  | [], bus => ([], bus)
  | request :: rest, bus =>
      let (access, bus) := request.perform bus
      let (accesses, bus) := performAll rest bus
      (access :: accesses, bus)

theorem performAll_append (requests requests' : List Request) (bus : σ) :
    performAll (requests ++ requests') bus =
      ((performAll requests bus).1 ++
          (performAll requests' (performAll requests bus).2).1,
        (performAll requests' (performAll requests bus).2).2) := by
  induction requests generalizing bus with
  | nil => rfl
  | cons request rest ih => simp [performAll, ih]

theorem fst_performAll_take (n : Nat) (requests : List Request) (bus : σ) :
    (performAll (requests.take n) bus).1 = (performAll requests bus).1.take n := by
  induction requests generalizing n bus with
  | nil => simp [performAll]
  | cons request rest ih =>
      cases n with
      | zero => rfl
      | succ n => simp [performAll, ih]

end Request

namespace Transaction

variable {α β σ : Type}

/-- The requests of a transaction whose reads are answered by `answers`; where
these run out, by zero. -/
def requests : Transaction α → List Byte → List Request
  | done _, _ => []
  | read addr next, answers =>
      .read addr :: (next (answers.headD 0)).requests answers.tail
  | write addr byte next, answers => .write addr byte :: next.requests answers

def value : Transaction α → List Byte → α
  | done value, _ => value
  | read _ next, answers => (next (answers.headD 0)).value answers.tail
  | write _ _ next, answers => next.value answers

/-- The answers that a transaction leaves for what comes after it. -/
def unread : Transaction α → List Byte → List Byte
  | done _, answers => answers
  | read _ next, answers => (next (answers.headD 0)).unread answers.tail
  | write _ _ next, answers => next.unread answers

@[simp] theorem requests_pure (value : α) (answers : List Byte) :
    (pure value : Transaction α).requests answers = [] := rfl

@[simp] theorem value_pure (value : α) (answers : List Byte) :
    (pure value : Transaction α).value answers = value := rfl

@[simp] theorem requests_readByte (addr : Address) (answers : List Byte) :
    (readByte addr).requests answers = [.read addr] := rfl

@[simp] theorem requests_writeByte
    (addr : Address) (byte : Byte) (answers : List Byte) :
    (writeByte addr byte).requests answers = [.write addr byte] := rfl

@[simp] theorem requests_bind
    (t : Transaction α) (f : α → Transaction β) (answers : List Byte) :
    (t >>= f).requests answers =
      t.requests answers ++ (f (t.value answers)).requests (t.unread answers) := by
  change (t.bind f).requests answers = _
  induction t generalizing answers with
  | done value => rfl
  | read addr next ih =>
      simp only [bind, requests, value, unread, ih, List.cons_append]
  | write addr byte next ih =>
      simp only [bind, requests, value, unread, ih, List.cons_append]

@[simp] theorem value_bind
    (t : Transaction α) (f : α → Transaction β) (answers : List Byte) :
    (t >>= f).value answers = (f (t.value answers)).value (t.unread answers) := by
  change (t.bind f).value answers = _
  induction t generalizing answers with
  | done value => rfl
  | read addr next ih => simp only [bind, value, unread, ih]
  | write addr byte next ih => simp only [bind, value, unread, ih]

@[simp] theorem requests_readWord (addr : Address) (answers : List Byte) :
    (readWord addr).requests answers = Request.readWord addr := rfl

@[simp] theorem value_readWord (addr : Address) (answers : List Byte) :
    (readWord addr).value answers =
      Word.ofBytes (answers.headD 0) (answers.tail.headD 0) := rfl

@[simp] theorem requests_writeWord
    (addr : Address) (word : Word) (answers : List Byte) :
    (writeWord addr word).requests answers = Request.writeWord addr word := rfl

@[simp] theorem value_readByte (addr : Address) (answers : List Byte) :
    (readByte addr).value answers = answers.headD 0 := rfl

@[simp] theorem unread_readWord (addr : Address) (answers : List Byte) :
    (readWord addr).unread answers = answers.tail.tail := rfl

@[simp] theorem unread_writeWord
    (addr : Address) (word : Word) (answers : List Byte) :
    (writeWord addr word).unread answers = answers := rfl

/-! ## Runs -/

variable [Bus σ]

/-- What holds of every run follows from what one access adds to it. -/
@[elab_as_elim]
theorem run_induction
    {motive : Transaction α → σ → Outcome σ α → Prop}
    (done : ∀ value bus, motive (done value) bus ⟨.ok value, bus, []⟩)
    (readOk : ∀ addr next bus byte bus' outcome,
      Bus.read addr bus = (.ok byte, bus') → motive (next byte) bus' outcome →
        motive (read addr next) bus (outcome.after (.read addr byte)))
    (readFailed : ∀ addr next bus error bus',
      Bus.read addr bus = (.error error, bus') →
        motive (read addr next) bus ⟨.error error, bus', [.readFailed addr error]⟩)
    (writeOk : ∀ addr byte next bus bus' outcome,
      Bus.write addr byte bus = (.ok (), bus') → motive next bus' outcome →
        motive (write addr byte next) bus (outcome.after (.write addr byte)))
    (writeFailed : ∀ addr byte next bus error bus',
      Bus.write addr byte bus = (.error error, bus') →
        motive (write addr byte next) bus
          ⟨.error error, bus', [.writeFailed addr byte error]⟩)
    (t : Transaction α) (bus : σ) : motive t bus (t.run bus) := by
  induction t generalizing bus with
  | done value => exact done value bus
  | read addr next ih =>
      rw [run]
      cases hread : Bus.read addr bus with
      | mk answer bus' =>
          cases answer with
          | ok byte => exact readOk _ _ _ _ _ _ hread (ih byte bus')
          | error error => exact readFailed _ _ _ _ _ hread
  | write addr byte next ih =>
      rw [run]
      cases hwrite : Bus.write addr byte bus with
      | mk answer bus' =>
          cases answer with
          | ok _ => exact writeOk _ _ _ _ _ _ hwrite (ih bus')
          | error error => exact writeFailed _ _ _ _ _ _ hwrite

theorem isPrefix_requests (t : Transaction α) (bus : σ) :
    (t.run bus).accesses.map Access.request <+:
      t.requests (answers (t.run bus).accesses) := by
  induction t, bus using run_induction with
  | done value bus => exact List.nil_prefix
  | readOk addr next bus byte bus' outcome hread ih =>
      simpa [requests, Outcome.after, Access.request, Access.answer?] using ih
  | readFailed addr next bus error bus' hread =>
      simp [requests, Access.request]
  | writeOk addr byte next bus bus' outcome hwrite ih =>
      simpa [requests, Outcome.after, Access.request, Access.answer?] using ih
  | writeFailed addr byte next bus error bus' hwrite =>
      simp [requests, Access.request]

theorem requests_of_ok
    {t : Transaction α} {bus : σ} {value : α}
    (hok : (t.run bus).result = .ok value) :
    (t.run bus).accesses.map Access.request =
        t.requests (answers (t.run bus).accesses) ∧
      t.value (answers (t.run bus).accesses) = value ∧
      ∀ access ∈ (t.run bus).accesses, access.error? = none := by
  induction t, bus using run_induction with
  | done result bus =>
      simp only [Except.ok.injEq] at hok
      simp [requests, Transaction.value, hok]
  | readOk addr next bus byte bus' outcome hread ih =>
      rcases ih hok with ⟨hrequests, hvalue, herror⟩
      refine ⟨?_, ?_, ?_⟩
      · simpa [requests, Outcome.after, Access.request, Access.answer?] using hrequests
      · simpa [Transaction.value, Outcome.after, Access.answer?] using hvalue
      · simpa [Outcome.after, Access.error?] using herror
  | readFailed addr next bus error bus' hread => simp at hok
  | writeOk addr byte next bus bus' outcome hwrite ih =>
      rcases ih hok with ⟨hrequests, hvalue, herror⟩
      refine ⟨?_, ?_, ?_⟩
      · simpa [requests, Outcome.after, Access.request, Access.answer?] using hrequests
      · simpa [Transaction.value, Outcome.after, Access.answer?] using hvalue
      · simpa [Outcome.after, Access.error?] using herror
  | writeFailed addr byte next bus error bus' hwrite => simp at hok

theorem exists_failed_last
    {t : Transaction α} {bus : σ} {error : BusError}
    (herror : (t.run bus).result = .error error) :
    ∃ made last, (t.run bus).accesses = made ++ [last] ∧
      last.error? = some error ∧ ∀ access ∈ made, access.error? = none := by
  induction t, bus using run_induction with
  | done value bus => simp at herror
  | readOk addr next bus byte bus' outcome hread ih =>
      rcases ih herror with ⟨made, last, haccesses, hlast, hmade⟩
      refine ⟨.read addr byte :: made, last, ?_, hlast, ?_⟩
      · simp [Outcome.after, haccesses]
      · simpa [Access.error?] using hmade
  | readFailed addr next bus cause bus' hread =>
      simp only [Except.error.injEq] at herror
      exact ⟨[], .readFailed addr cause, rfl, congrArg some herror, by simp⟩
  | writeOk addr byte next bus bus' outcome hwrite ih =>
      rcases ih herror with ⟨made, last, haccesses, hlast, hmade⟩
      refine ⟨.write addr byte :: made, last, ?_, hlast, ?_⟩
      · simp [Outcome.after, haccesses]
      · simpa [Access.error?] using hmade
  | writeFailed addr byte next bus cause bus' hwrite =>
      simp only [Except.error.injEq] at herror
      exact ⟨[], .writeFailed addr byte cause, rfl, congrArg some herror, by simp⟩

theorem performAll_run (t : Transaction α) (bus : σ) :
    Request.performAll ((t.run bus).accesses.map Access.request) bus =
      ((t.run bus).accesses, (t.run bus).bus) := by
  induction t, bus using run_induction with
  | done value bus => rfl
  | readOk addr next bus byte bus' outcome hread ih =>
      simp [Request.performAll, Request.perform, Access.request, Outcome.after, hread, ih]
  | readFailed addr next bus error bus' hread =>
      simp [Request.performAll, Request.perform, Access.request, hread]
  | writeOk addr byte next bus bus' outcome hwrite ih =>
      simp [Request.performAll, Request.perform, Access.request, Outcome.after, hwrite, ih]
  | writeFailed addr byte next bus error bus' hwrite =>
      simp [Request.performAll, Request.perform, Access.request, hwrite]

/-- A bus that gives the answers of another one gets the same run. -/
theorem run_of_same_answers
    {τ : Type} [Bus τ] (t : Transaction α) (bus : σ) {other after : τ}
    (hsame : Request.performAll ((t.run bus).accesses.map Access.request) other =
      ((t.run bus).accesses, after)) :
    t.run other = ⟨(t.run bus).result, after, (t.run bus).accesses⟩ := by
  induction t, bus using run_induction generalizing other with
  | done value bus =>
      have hafter : other = after := congrArg Prod.snd hsame
      rw [run, hafter]
  | readOk addr next bus byte bus' outcome hread ih =>
      simp only [Outcome.after, List.map_cons, Access.request, Request.performAll,
        Request.perform] at hsame
      rcases hother : Bus.read addr other with ⟨error | told, other'⟩
      · simp [hother] at hsame
      · simp only [hother, Prod.mk.injEq, List.cons.injEq, Access.read.injEq, true_and] at hsame
        rcases hsame with ⟨⟨rfl, hlater⟩, hafter⟩
        rw [run, hother]
        simp only [ih (Prod.ext hlater hafter), Outcome.after]
  | readFailed addr next bus error bus' hread =>
      simp only [List.map_cons, List.map_nil, Access.request, Request.performAll,
        Request.perform] at hsame
      rcases hother : Bus.read addr other with ⟨cause | told, other'⟩
      · simp only [hother, Prod.mk.injEq, List.cons.injEq, Access.readFailed.injEq, true_and,
          and_true] at hsame
        rcases hsame with ⟨rfl, rfl⟩
        rw [run, hother]
      · simp [hother] at hsame
  | writeOk addr byte next bus bus' outcome hwrite ih =>
      simp only [Outcome.after, List.map_cons, Access.request, Request.performAll,
        Request.perform] at hsame
      rcases hother : Bus.write addr byte other with ⟨error | done, other'⟩
      · simp [hother] at hsame
      · simp only [hother, Prod.mk.injEq, List.cons.injEq, true_and] at hsame
        rw [run, hother]
        simp only [ih (Prod.ext hsame.1 hsame.2), Outcome.after]
  | writeFailed addr byte next bus error bus' hwrite =>
      simp only [List.map_cons, List.map_nil, Access.request, Request.performAll,
        Request.perform] at hsame
      rcases hother : Bus.write addr byte other with ⟨cause | done, other'⟩
      · simp only [hother, Prod.mk.injEq, List.cons.injEq, Access.writeFailed.injEq, true_and,
          and_true] at hsame
        rcases hsame with ⟨rfl, rfl⟩
        rw [run, hother]
      · simp [hother] at hsame

end Transaction

end WordMachine
