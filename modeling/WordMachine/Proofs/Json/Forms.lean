import WordMachine.Json.Instances
import WordMachine.Proofs.Json.Text
import WordMachine.Proofs.Registers

/-!
# Forms that read back

A form is lawful if it reads what it has written, and writes plain values only, whose text reads
back too.  The form of a list is lawful if that of its items is, the form of a constant if no
other constant has its name, and the form of a structure if those of its fields are.  So all
forms of the machine are lawful, and the text of a value determines it.
-/

namespace WordMachine

open Json

class LawfulJsonForm (α : Type) [JsonForm α] : Prop where
  ofJson?_toJson : ∀ value : α, ofJson? (toJson value) = some value
  plain_toJson : ∀ value : α, (toJson value).Plain

export LawfulJsonForm (ofJson?_toJson plain_toJson)

variable {α : Type} [JsonForm α] [LawfulJsonForm α]

attribute [simp] ofJson?_toJson plain_toJson

theorem Json.plainItems_map_toJson (values : List α) : PlainItems (values.map toJson) := by
  induction values with
  | nil => exact trivial
  | cons value rest ih => exact ⟨plain_toJson value, ih⟩

/-- The text of a value determines the value. -/
theorem Json.parse?_pretty_toJson (value : α) :
    (parse? (toJson value).pretty).bind ofJson? = some value := by
  rw [parse?_pretty (plain_toJson value), Option.bind_some, ofJson?_toJson]

theorem Json.natBelow?_nat {bound value : Nat} (hvalue : value < bound) :
    (nat value).natBelow? bound = some value := by
  have hrange : (0 : Int) ≤ value ∧ (value : Int) < bound := by omega
  rw [nat, natBelow?, if_pos hrange, Int.toNat_natCast]

instance : LawfulJsonForm Bool where
  ofJson?_toJson _ := rfl
  plain_toJson _ := trivial

instance : LawfulJsonForm UInt8 where
  ofJson?_toJson value := by
    simp [toJson, ofJson?, natBelow?_nat value.toNat_lt]
  plain_toJson value := trivial

instance : LawfulJsonForm UInt16 where
  ofJson?_toJson value := by
    simp [toJson, ofJson?, natBelow?_nat value.toNat_lt]
  plain_toJson value := trivial

instance : LawfulJsonForm UInt64 where
  ofJson?_toJson value := by
    simp [toJson, ofJson?, natBelow?_nat value.toNat_lt]
  plain_toJson value := trivial

theorem Json.optional?_of_ne_null
    {β : Type} [JsonForm β] {value : Json} (hvalue : value ≠ null) :
    (optional? (some value) : Option (Option β)) = (ofJson? value).map some := by
  rw [optional?]
  exact hvalue

/-- A limit is written as a number and its absence as `null`, which is no number. -/
instance : LawfulJsonForm (Option UInt64) where
  ofJson?_toJson limit := by
    cases limit with
    | none => rfl
    | some value =>
        have hnumber : toJson value ≠ null := Json.noConfusion
        have hread : (ofJson? (toJson (some value)) : Option (Option UInt64)) =
            (ofJson? (toJson value)).map some := optional?_of_ne_null hnumber
        rw [hread, ofJson?_toJson, Option.map_some]
  plain_toJson limit := by
    cases limit with
    | none => trivial
    | some value => exact plain_toJson value

theorem mapM_ofJson?_toJson (values : List α) :
    (values.map toJson).mapM ofJson? = some values := by
  induction values with
  | nil => rfl
  | cons value rest ih => simp [ih]

instance : LawfulJsonForm (List α) where
  ofJson?_toJson values := mapM_ofJson?_toJson values
  plain_toJson values := plainItems_map_toJson values

/-! ## Enumerations -/

/-- The name of a constant is read as the constant, if no other one has it. -/
theorem Json.enumeration?_str
    {β : Type} {all : List β} {name : β → String} {constant : β}
    (hnames : (all.map name).Nodup) (hmem : constant ∈ all) :
    enumeration? all name (.str (name constant)) = some constant := by
  obtain ⟨before, behind, rfl⟩ := List.append_of_mem hmem
  rw [List.map_append, List.map_cons, List.nodup_append] at hnames
  have hfind : enumeration? (before ++ constant :: behind) name (.str (name constant)) =
      (before ++ constant :: behind).find? fun other => name other == name constant := rfl
  rw [hfind, List.find?_eq_some_iff_append]
  refine ⟨beq_self_eq_true _, before, behind, rfl, ?_⟩
  intro other hother
  have hne := hnames.2.2 (name other) (List.mem_map_of_mem hother) (name constant)
    List.mem_cons_self
  simpa using hne

instance : LawfulJsonForm Opcode where
  ofJson?_toJson op := enumeration?_str (by decide) (by cases op <;> decide)
  plain_toJson op := trivial

instance : LawfulJsonForm CpuState where
  ofJson?_toJson state := enumeration?_str (by decide) (by cases state <;> decide)
  plain_toJson state := trivial

instance : LawfulJsonForm ErrorCode where
  ofJson?_toJson code := enumeration?_str (by decide) (by cases code <;> decide)
  plain_toJson code := trivial

instance : LawfulJsonForm StopReason where
  ofJson?_toJson reason := enumeration?_str (by decide) (by cases reason <;> decide)
  plain_toJson reason := trivial

namespace Numbering

/-- Every constant is an assigned one, with a name of its own, or one of a number. -/
structure Lawful {α : Type} (numbering : Numbering α) : Prop where
  covers : ∀ constant,
    constant ∈ numbering.assigned ∨ ∃ number, constant = numbering.reserved number
  names : (numbering.assigned.map numbering.name).Nodup
  assigned : ∀ constant ∈ numbering.assigned, numbering.number? constant = none
  reserved : ∀ number, numbering.number? (numbering.reserved number) = some number

variable {α : Type} {numbering : Numbering α}

theorem Lawful.read?_write (hlawful : numbering.Lawful) (constant : α) :
    numbering.read? (numbering.write constant) = some constant := by
  rcases hlawful.covers constant with hmem | ⟨number, rfl⟩
  · rw [write, hlawful.assigned constant hmem]
    exact enumeration?_str hlawful.names hmem
  · have hread : numbering.read? (obj [("Reserved", toJson number)]) =
        (ofJson? (toJson number)).map numbering.reserved := rfl
    rw [write, hlawful.reserved number]
    simp only [hread, ofJson?_toJson, Option.map_some]

theorem plain_write (numbering : Numbering α) (constant : α) :
    (numbering.write constant).Plain := by
  unfold write
  cases numbering.number? constant with
  | none => trivial
  | some number =>
      have hkeys : ["Reserved"].Nodup := by decide
      exact ⟨hkeys, plain_toJson number, trivial⟩

end Numbering

theorem ExtendedOp.numbering_lawful : ExtendedOp.numbering.Lawful where
  covers op := by
    cases op with
    | reserved number => exact .inr ⟨number, rfl⟩
    | _ => exact .inl (by decide)
  names := by decide
  assigned := by decide
  reserved _ := rfl

instance : LawfulJsonForm ExtendedOp where
  ofJson?_toJson := ExtendedOp.numbering_lawful.read?_write
  plain_toJson := ExtendedOp.numbering.plain_write

theorem StackOp.numbering_lawful : StackOp.numbering.Lawful where
  covers op := by
    cases op with
    | reserved number => exact .inr ⟨number, rfl⟩
    | _ => exact .inl (by decide)
  names := by decide
  assigned := by decide
  reserved _ := rfl

instance : LawfulJsonForm StackOp where
  ofJson?_toJson := StackOp.numbering_lawful.read?_write
  plain_toJson := StackOp.numbering.plain_write

/-! ## Structures -/

theorem Json.member?_of_mem
    {members : List (String × Json)} {key : String} {value : Json}
    (hkeys : (members.map Prod.fst).Nodup) (hmem : (key, value) ∈ members) :
    member? members key = some value := by
  obtain ⟨before, behind, rfl⟩ := List.append_of_mem hmem
  rw [List.map_append, List.map_cons, List.nodup_append, List.nodup_cons] at hkeys
  have hbehind : key ∉ behind.map Prod.fst := hkeys.2.1.1
  rw [member?, List.lookup_eq_some_iff]
  refine ⟨behind.reverse, before.reverse, by simp, ?_⟩
  intro entry hentry
  have hentry : entry ∈ behind := List.mem_reverse.mp hentry
  rw [bne_iff_ne]
  rintro rfl
  exact hbehind (List.mem_map_of_mem hentry)

/-- The fields of an object that holds just these, in their order. -/
theorem Json.fields?_obj
    {members : List (String × Json)} (hkeys : (members.map Prod.fst).Nodup) :
    (obj members).fields? (members.map Prod.fst) =
      some (members.map fun entry => some entry.2) := by
  have hfound : ∀ entry ∈ members, member? members entry.1 = some entry.2 := fun _ hentry =>
    member?_of_mem hkeys hentry
  rw [fields?, List.map_map]
  exact congrArg some (List.map_congr_left hfound)

@[simp] theorem Json.required?_toJson (value : α) :
    required? (some (toJson value)) = some value := by
  rw [required?, Option.bind_some, ofJson?_toJson]

instance : LawfulJsonForm Registers where
  ofJson?_toJson regs := by
    have hform : (ofJson? (toJson regs) : Option Registers) =
        (ofJson? (toJson regs.toList)).bind Registers.ofList? := rfl
    rw [hform, ofJson?_toJson, Option.bind_some, Registers.ofList?_toList]
  plain_toJson regs := by
    have hkeys : ["regs"].Nodup := by decide
    exact ⟨hkeys, plain_toJson regs.toList, trivial⟩

theorem Instruction.ofJson?_eq
    {value : Json} {opcode regA regB imm secondByte : Option Json}
    (hfields : value.fields? ["opcode", "reg_a", "reg_b", "imm", "second_byte"] =
      some [opcode, regA, regB, imm, secondByte]) :
    (ofJson? value : Option Instruction) = do
      let opcode ← required? opcode
      let regA ← required? regA
      let regB ← required? regB
      let imm ← required? imm
      let secondByte ← required? secondByte
      return { opcode, regA, regB, imm, secondByte } := by
  simp only [ofJson?, hfields]
  rfl

instance : LawfulJsonForm Instruction where
  ofJson?_toJson instr := by
    have hkeys : ["opcode", "reg_a", "reg_b", "imm", "second_byte"].Nodup := by decide
    have hfields : (toJson instr).fields? ["opcode", "reg_a", "reg_b", "imm", "second_byte"] =
        some [some (toJson instr.opcode), some (toJson instr.regA), some (toJson instr.regB),
          some (toJson instr.imm), some (toJson instr.secondByte)] := fields?_obj hkeys
    rw [Instruction.ofJson?_eq hfields]
    simp only [required?_toJson]
    rfl
  plain_toJson instr := by
    have hkeys : ["opcode", "reg_a", "reg_b", "imm", "second_byte"].Nodup := by decide
    exact ⟨hkeys, plain_toJson instr.opcode, plain_toJson instr.regA, plain_toJson instr.regB,
      plain_toJson instr.imm, plain_toJson instr.secondByte, trivial⟩

theorem MachineConfig.ofJson?_eq
    {value : Json} {trace instructionLimit : Option Json}
    (hfields : value.fields? ["trace", "instruction_limit"] = some [trace, instructionLimit]) :
    (ofJson? value : Option MachineConfig) = do
      let trace ← required? trace
      let instructionLimit ← optional? instructionLimit
      return { trace, instructionLimit } := by
  simp only [ofJson?, hfields]
  rfl

instance : LawfulJsonForm MachineConfig where
  ofJson?_toJson config := by
    have hkeys : ["trace", "instruction_limit"].Nodup := by decide
    have hfields : (toJson config).fields? ["trace", "instruction_limit"] =
        some [some (toJson config.trace), some (toJson config.instructionLimit)] :=
      fields?_obj hkeys
    have hlimit : optional? (some (toJson config.instructionLimit)) =
        some config.instructionLimit := ofJson?_toJson config.instructionLimit
    rw [MachineConfig.ofJson?_eq hfields, required?_toJson, hlimit]
    rfl
  plain_toJson config := by
    have hkeys : ["trace", "instruction_limit"].Nodup := by decide
    exact ⟨hkeys, plain_toJson config.trace, plain_toJson config.instructionLimit, trivial⟩

theorem RunSummary.ofJson?_eq
    {value : Json} {instructions stop registers : Option Json}
    (hfields : value.fields? ["instructions", "stop", "registers"] =
      some [instructions, stop, registers]) :
    (ofJson? value : Option RunSummary) = do
      let instructions ← required? instructions
      let stop ← required? stop
      let registers ← required? registers
      return { instructions, stop, registers } := by
  simp only [ofJson?, hfields]
  rfl

instance : LawfulJsonForm RunSummary where
  ofJson?_toJson summary := by
    have hkeys : ["instructions", "stop", "registers"].Nodup := by decide
    have hfields : (toJson summary).fields? ["instructions", "stop", "registers"] =
        some [some (toJson summary.instructions), some (toJson summary.stop),
          some (toJson summary.registers)] := fields?_obj hkeys
    rw [RunSummary.ofJson?_eq hfields, required?_toJson, required?_toJson, required?_toJson]
    rfl
  plain_toJson summary := by
    have hkeys : ["instructions", "stop", "registers"].Nodup := by decide
    exact ⟨hkeys, plain_toJson summary.instructions, plain_toJson summary.stop,
      plain_toJson summary.registers, trivial⟩

end WordMachine
