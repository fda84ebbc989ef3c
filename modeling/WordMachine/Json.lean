/-!
# JSON values

Numbers are kept apart by their form: a number written as an integer is an
`int`, and one with a fraction, an exponent or a minus sign before zero is a
`real`, kept as it was written.  The members of an object keep their order.
-/

namespace WordMachine

inductive Json where
  | null
  | bool (value : Bool)
  | int (value : Int)
  | real (literal : String)
  | str (text : String)
  | arr (items : List Json)
  | obj (members : List (String × Json))
deriving BEq, Repr, Inhabited

namespace Json

def nat (value : Nat) : Json := .int value

/-- The value of a member; of members with one key the last one counts. -/
def member? (members : List (String × Json)) (key : String) : Option Json :=
  members.reverse.lookup key

/-- Adds a member in place of one with the same key, or else at the end. -/
def insertMember (members : List (String × Json)) (key : String) (value : Json) :
    List (String × Json) :=
  if members.any (·.1 == key) then
    members.map fun entry => if entry.1 == key then (key, value) else entry
  else members ++ [(key, value)]

end Json

end WordMachine
