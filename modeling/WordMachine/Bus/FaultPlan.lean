import WordMachine.Bus

/-!
# Planned faults

`WithFaults` wraps a bus and refuses chosen accesses without letting them reach
it: an access of one kind at a listed address, or the access with a given
number, counted from zero over reads and writes together.  A refusal by number
goes before a refusal by address.  Refused accesses count like all others.
-/

namespace WordMachine

structure FaultPlan where
  reads : List (Address × BusError) := []
  writes : List (Address × BusError) := []
  numbered : Option (Nat × BusError) := none
deriving DecidableEq, Repr, Inhabited

namespace FaultPlan

/-- The planned answer to access `number`, given the faults of its kind. -/
def refusal? (plan : FaultPlan) (byAddress : List (Address × BusError)) (number : Nat)
    (addr : Address) : Option BusError :=
  match plan.numbered.filter (·.1 == number) with
  | some (_, error) => some error
  | none => byAddress.lookup addr

end FaultPlan

structure WithFaults (σ : Type) where
  bus : σ
  plan : FaultPlan
  count : Nat

instance {σ : Type} [Bus σ] : Bus (WithFaults σ) where
  read addr := fun ⟨bus, plan, count⟩ =>
    match plan.refusal? plan.reads count addr with
    | some error => (.error error, ⟨bus, plan, count + 1⟩)
    | none =>
      let (answer, bus) := Bus.read addr bus
      (answer, ⟨bus, plan, count + 1⟩)
  write addr byte := fun ⟨bus, plan, count⟩ =>
    match plan.refusal? plan.writes count addr with
    | some error => (.error error, ⟨bus, plan, count + 1⟩)
    | none =>
      let (answer, bus) := Bus.write addr byte bus
      (answer, ⟨bus, plan, count + 1⟩)

end WordMachine
