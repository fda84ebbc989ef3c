import WordMachine.Bus.FaultPlan
import WordMachine.Proofs.Bus.Requests

/-!
# One refused access

`WithFaults.refusing` is a bus that refuses one access, chosen by its number,
and passes on all others.  A transaction that does not get as far as that access
behaves as on the bus itself (`run_refusing_of_le`).  A transaction that would
make it ends there: what it has done before stays done, and nothing follows
(`run_refusing_of_lt`).
-/

namespace WordMachine

def Request.refused (error : BusError) : Request → Access
  | .read addr => .readFailed addr error
  | .write addr byte => .writeFailed addr byte error

theorem FaultPlan.refusal?_numbered
    (n count : Nat) (error : BusError) (addr : Address) :
    ({ numbered := some (n, error) } : FaultPlan).refusal? [] count addr =
      if n = count then some error else none := by
  by_cases h : n = count <;> simp [refusal?, Option.filter, h]

namespace WithFaults

variable {σ : Type}

/-- `bus`, on which `count` accesses have been made and access `n` is refused. -/
def refusing (bus : σ) (n : Nat) (error : BusError) (count : Nat) : WithFaults σ :=
  ⟨bus, { numbered := some (n, error) }, count⟩

variable [Bus σ] {bus : σ} {n count : Nat} {error : BusError}

theorem read_refusing (addr : Address) :
    Bus.read addr (refusing bus n error count) =
      if n = count then (.error error, refusing bus n error (count + 1))
      else
        ((Bus.read addr bus).1,
          refusing (Bus.read addr bus).2 n error (count + 1)) := by
  simp only [Bus.read, refusing, FaultPlan.refusal?_numbered]
  by_cases h : n = count
  · simp [h]
  · simp [h]

theorem write_refusing (addr : Address) (byte : Byte) :
    Bus.write addr byte (refusing bus n error count) =
      if n = count then (.error error, refusing bus n error (count + 1))
      else
        ((Bus.write addr byte bus).1,
          refusing (Bus.write addr byte bus).2 n error (count + 1)) := by
  simp only [Bus.write, refusing, FaultPlan.refusal?_numbered]
  by_cases h : n = count
  · simp [h]
  · simp [h]

end WithFaults

namespace Transaction

open WithFaults

variable {α σ : Type} [Bus σ] {n count : Nat}

theorem run_refusing_of_le
    (t : Transaction α) (bus : σ) (error : BusError)
    (hbefore : count + (t.run bus).accesses.length ≤ n) :
    t.run (refusing bus n error count) =
      ⟨(t.run bus).result,
        refusing (t.run bus).bus n error (count + (t.run bus).accesses.length),
        (t.run bus).accesses⟩ := by
  induction t, bus using run_induction generalizing count with
  | done value bus => rfl
  | readOk addr next bus byte bus' outcome hread ih =>
      simp only [Outcome.after, List.length_cons] at hbefore ⊢
      have hne : n ≠ count := by omega
      simp only [run, read_refusing, if_neg hne, hread]
      rw [ih (by omega)]
      simp [Outcome.after, Nat.add_assoc, Nat.add_comm 1]
  | readFailed addr next bus cause bus' hread =>
      have hne : n ≠ count := by
        simp at hbefore
        omega
      simp [run, read_refusing, if_neg hne, hread]
  | writeOk addr byte next bus bus' outcome hwrite ih =>
      simp only [Outcome.after, List.length_cons] at hbefore ⊢
      have hne : n ≠ count := by omega
      simp only [run, write_refusing, if_neg hne, hwrite]
      rw [ih (by omega)]
      simp [Outcome.after, Nat.add_assoc, Nat.add_comm 1]
  | writeFailed addr byte next bus cause bus' hwrite =>
      have hne : n ≠ count := by
        simp at hbefore
        omega
      simp [run, write_refusing, if_neg hne, hwrite]

theorem run_refusing_of_lt
    (t : Transaction α) (bus : σ) (error : BusError) (hcount : count ≤ n)
    (hreached : n < count + (t.run bus).accesses.length) :
    ∃ missed, (t.run bus).accesses[n - count]? = some missed ∧
      t.run (refusing bus n error count) =
        ⟨.error error,
          refusing
            (Request.performAll
              (((t.run bus).accesses.take (n - count)).map Access.request) bus).2
            n error (n + 1),
          (t.run bus).accesses.take (n - count) ++
            [missed.request.refused error]⟩ := by
  induction t, bus using run_induction generalizing count with
  | done value bus =>
      simp at hreached
      omega
  | readOk addr next bus byte bus' outcome hread ih =>
      by_cases hhere : n = count
      · subst hhere
        exact ⟨.read addr byte, by simp [Outcome.after],
          by simp [run, read_refusing, Outcome.after, Request.performAll,
            Request.refused, Access.request]⟩
      · have hindex : n - count = n - (count + 1) + 1 := by omega
        simp only [Outcome.after, List.length_cons] at hreached
        obtain ⟨missed, hmissed, hrun⟩ := @ih (count + 1) (by omega) (by omega)
        refine ⟨missed, ?_, ?_⟩
        · simpa [Outcome.after, hindex] using hmissed
        · simp [run, read_refusing, hhere, hread, hrun, Outcome.after, hindex,
            Request.performAll, Request.perform, Access.request]
  | readFailed addr next bus cause bus' hread =>
      have hhere : n = count := by
        simp at hreached
        omega
      subst hhere
      exact ⟨.readFailed addr cause, by simp,
        by simp [run, read_refusing, Request.performAll, Request.refused, Access.request]⟩
  | writeOk addr byte next bus bus' outcome hwrite ih =>
      by_cases hhere : n = count
      · subst hhere
        exact ⟨.write addr byte, by simp [Outcome.after],
          by simp [run, write_refusing, Outcome.after, Request.performAll,
            Request.refused, Access.request]⟩
      · have hindex : n - count = n - (count + 1) + 1 := by omega
        simp only [Outcome.after, List.length_cons] at hreached
        obtain ⟨missed, hmissed, hrun⟩ := @ih (count + 1) (by omega) (by omega)
        refine ⟨missed, ?_, ?_⟩
        · simpa [Outcome.after, hindex] using hmissed
        · simp [run, write_refusing, hhere, hwrite, hrun, Outcome.after, hindex,
            Request.performAll, Request.perform, Access.request]
  | writeFailed addr byte next bus cause bus' hwrite =>
      have hhere : n = count := by
        simp at hreached
        omega
      subst hhere
      exact ⟨.writeFailed addr byte cause, by simp,
        by simp [run, write_refusing, Request.performAll, Request.refused, Access.request]⟩

end Transaction

end WordMachine
