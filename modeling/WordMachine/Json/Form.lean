import WordMachine.Json

/-!
# JSON forms

A `JsonForm` writes the values of a type as JSON values and reads them back.
Writing chooses one form; reading accepts a few more:

* a constant of an enumeration is its name, or an object with the name as its
  only key and `null` as its value;
* a structure is an object with the fields as members, in any order and among
  any others, or an array of all fields in their order;
* an optional value is `null` or the value, and a structure that has it as a
  field may leave it out of an object;
* an unsigned number is an integer in range, never a fraction.
-/

namespace WordMachine

class JsonForm (α : Type) where
  toJson : α → Json
  ofJson? : Json → Option α

export JsonForm (toJson ofJson?)

namespace Json

/-- An integer from zero up to `bound`, exclusively. -/
def natBelow? (bound : Nat) : Json → Option Nat
  | int value => if 0 ≤ value ∧ value < bound then some value.toNat else none
  | _ => none

def constant? : Json → Option String
  | str name => some name
  | obj [(name, null)] => some name
  | _ => none

def enumeration? {α : Type} (all : List α) (name : α → String) (value : Json) : Option α :=
  value.constant?.bind fun text => all.find? fun constant => name constant == text

/-- The fields of a structure in the order of `names`; an object may lack some. -/
def fields? (names : List String) : Json → Option (List (Option Json))
  | obj members => some (names.map (member? members))
  | arr items => if items.length = names.length then some (items.map some) else none
  | _ => none

def required? {α : Type} [JsonForm α] (field : Option Json) : Option α :=
  field.bind ofJson?

/-- The value of a field that counts as `none` when it is not there. -/
def optional? {α : Type} [JsonForm α] : Option Json → Option (Option α)
  | none => some none
  | some null => some none
  | some value => (ofJson? value).map some

end Json

instance : JsonForm Bool where
  toJson := .bool
  ofJson?
    | .bool value => some value
    | _ => none

instance : JsonForm UInt8 where
  toJson value := .nat value.toNat
  ofJson? value := (value.natBelow? 256).map UInt8.ofNat

instance : JsonForm UInt16 where
  toJson value := .nat value.toNat
  ofJson? value := (value.natBelow? 65536).map UInt16.ofNat

instance : JsonForm UInt64 where
  toJson value := .nat value.toNat
  ofJson? value := (value.natBelow? 18446744073709551616).map UInt64.ofNat

instance {α : Type} [JsonForm α] : JsonForm (Option α) where
  toJson
    | none => .null
    | some value => toJson value
  ofJson? value := Json.optional? (some value)

instance {α : Type} [JsonForm α] : JsonForm (List α) where
  toJson values := .arr (values.map toJson)
  ofJson?
    | .arr items => items.mapM ofJson?
    | _ => none

end WordMachine
