import WordMachine.Proofs.Json.Forms

/-!
# Variants of a written structure

A structure can be written in several ways: its members in any order and among others, or its
fields as an array.  The same goes for the structures in its fields.  `Shape` is what a reader
takes for a structure on each level, with the fields in their order, and `Variant` relates two
ways to write a value of a shape.

Reading goes by the fields (`fields?`).  Reordering, further members and the array do not change
them, and a variant within a field changes this field only, whose own reader does not tell the
difference (`readAlike_of_fields`).
-/

namespace WordMachine

namespace Json

/-- Where a value holds structures. -/
inductive Shape where
  /-- No structures: the value is read as it stands. -/
  | leaf
  | record (fields : List (String × Shape))

/-- Two ways to write the same structures, on every level. -/
inductive Variant : Shape → Json → Json → Prop where
  | refl {shape : Shape} (value : Json) : Variant shape value value
  | symm {shape : Shape} {value value' : Json} (h : Variant shape value value') :
      Variant shape value' value
  | trans {shape : Shape} {value value' value'' : Json} (h : Variant shape value value')
      (h' : Variant shape value' value'') : Variant shape value value''
  /-- The members in another order. -/
  | reordered {fields : List (String × Shape)} {members members' : List (String × Json)}
      (hkeys : (members.map Prod.fst).Nodup) (hperm : members.Perm members') :
      Variant (.record fields) (.obj members) (.obj members')
  /-- A member more, which is no field. -/
  | extended {fields : List (String × Shape)} {members : List (String × Json)} {key : String}
      {value : Json} (hunknown : key ∉ fields.map Prod.fst) :
      Variant (.record fields) (.obj members) (.obj ((key, value) :: members))
  /-- All fields as an array, in their order. -/
  | listed {fields : List (String × Shape)} {items : List Json}
      (hlength : items.length = fields.length) :
      Variant (.record fields) (.obj ((fields.map Prod.fst).zip items)) (.arr items)
  /-- A variant within a field. -/
  | within {fields : List (String × Shape)} {before behind : List (String × Json)}
      {name : String} {shape : Shape} {value value' : Json} (hfield : (name, shape) ∈ fields)
      (h : Variant shape value value') :
      Variant (.record fields) (.obj (before ++ (name, value) :: behind))
        (.obj (before ++ (name, value') :: behind))

variable {members members' before behind : List (String × Json)} {key name : String}
variable {value value' : Json} {shape : Shape} {fields : List (String × Shape)}

/-! ## Members -/

theorem member?_append :
    member? (members ++ members') key = (member? members' key).or (member? members key) := by
  rw [member?, List.reverse_append, List.lookup_append]
  rfl

theorem member?_singleton_self : member? [(key, value)] key = some value := List.lookup_cons_self

theorem member?_singleton_of_ne (hkey : key ≠ name) : member? [(name, value)] key = none := by
  have hbeq : (key == name) = false := beq_eq_false_iff_ne.mpr hkey
  rw [member?, List.reverse_singleton, List.lookup_cons, hbeq]
  rfl

theorem mem_of_member?_eq_some (hfound : member? members key = some value) :
    (key, value) ∈ members := by
  rw [member?, List.lookup_eq_some_iff] at hfound
  obtain ⟨behind, before, hmembers, -⟩ := hfound
  have hmem : (key, value) ∈ members.reverse := by
    rw [hmembers]
    exact List.mem_append_right _ List.mem_cons_self
  exact List.mem_reverse.mp hmem

theorem member?_perm (hkeys : (members.map Prod.fst).Nodup) (hperm : members.Perm members') :
    member? members key = member? members' key := by
  have hkeys' : (members'.map Prod.fst).Nodup := (hperm.map Prod.fst).nodup_iff.mp hkeys
  have hsame (value : Json) : member? members key = some value ↔
      member? members' key = some value := by
    constructor
    · intro hfound
      exact member?_of_mem hkeys' (hperm.mem_iff.mp (mem_of_member?_eq_some hfound))
    · intro hfound
      exact member?_of_mem hkeys (hperm.mem_iff.mpr (mem_of_member?_eq_some hfound))
  exact Option.ext hsame

/-- A member of another key does not count. -/
theorem member?_append_cons_of_ne (hkey : key ≠ name) :
    member? (before ++ (name, value) :: behind) key = member? (before ++ behind) key := by
  have hsplit : before ++ (name, value) :: behind = before ++ ([(name, value)] ++ behind) := rfl
  rw [hsplit, member?_append, member?_append, member?_append, member?_singleton_of_ne hkey,
    Option.or_none]

/-- A member counts, unless one of its key stands behind it. -/
theorem member?_append_cons_self :
    member? (before ++ (key, value) :: behind) key = (member? behind key).or (some value) := by
  have hsplit : before ++ (key, value) :: behind = before ++ ([(key, value)] ++ behind) := rfl
  rw [hsplit, member?_append, member?_append, member?_singleton_self, Option.or_assoc,
    Option.some_or]

/-! ## Fields -/

theorem fields?_perm {names : List String} (hkeys : (members.map Prod.fst).Nodup)
    (hperm : members.Perm members') :
    (obj members).fields? names = (obj members').fields? names := by
  have hsame (name : String) : member? members name = member? members' name :=
    member?_perm hkeys hperm
  simp only [fields?, funext hsame]

theorem fields?_cons_of_unknown {names : List String} (hunknown : key ∉ names) :
    (obj members).fields? names = (obj ((key, value) :: members)).fields? names := by
  have hsame (name : String) (hname : name ∈ names) :
      member? members name = member? ((key, value) :: members) name := by
    have hne : name ≠ key := ne_of_mem_of_not_mem hname hunknown
    have hsplit : (key, value) :: members = [] ++ (key, value) :: members := rfl
    rw [hsplit, member?_append_cons_of_ne hne, List.nil_append]
  exact congrArg some (List.map_congr_left hsame)

theorem fields?_arr {names : List String} {items : List Json} (hnames : names.Nodup)
    (hlength : items.length = names.length) :
    (obj (names.zip items)).fields? names = (arr items).fields? names := by
  have hkeys : (names.zip items).map Prod.fst = names := List.map_fst_zip hlength.ge
  have hvalues : (names.zip items).map Prod.snd = items := List.map_snd_zip hlength.le
  have hobj : (obj (names.zip items)).fields? names =
      some (((names.zip items).map Prod.snd).map some) := by
    have hfields := fields?_obj (hkeys.symm ▸ hnames)
    rw [hkeys] at hfields
    rw [hfields, List.map_map]
    rfl
  rw [hobj, hvalues, fields?, if_pos hlength]

/-! ## Readers -/

theorem eq_of_variant_leaf (h : Variant .leaf value value') : value = value' := by
  generalize hshape : Shape.leaf = shape at h
  induction h with
  | refl => rfl
  | symm _ ih => exact (ih hshape).symm
  | trans _ _ ih ih' => exact (ih hshape).trans (ih' hshape)
  | reordered | extended | listed | within => cases hshape

/-- However a value of the shape is written, it is read as the same. -/
def ReadAlike (α : Type) [JsonForm α] (shape : Shape) : Prop :=
  ∀ ⦃value value' : Json⦄, Variant shape value value' →
    (ofJson? value : Option α) = ofJson? value'

section ReadAlike

variable {α : Type} [JsonForm α]

/-- It is enough that the reader looks at the fields only, and does not tell apart how the
structures within them are written. -/
theorem readAlike_of_fields (hnames : (fields.map Prod.fst).Nodup)
    (hfields : ∀ value value' : Json, value.fields? (fields.map Prod.fst) =
      value'.fields? (fields.map Prod.fst) → (ofJson? value : Option α) = ofJson? value')
    (hwithin : ∀ before behind name shape value value', (name, shape) ∈ fields →
      Variant shape value value' →
        (ofJson? (obj (before ++ (name, value) :: behind)) : Option α) =
          ofJson? (obj (before ++ (name, value') :: behind))) :
    ReadAlike α (.record fields) := by
  intro value value' h
  generalize hshape : Shape.record fields = shape at h
  induction h with
  | refl => rfl
  | symm _ ih => exact (ih hshape).symm
  | trans _ _ ih ih' => exact (ih hshape).trans (ih' hshape)
  | reordered hkeys hperm => exact hfields _ _ (fields?_perm hkeys hperm)
  | extended hunknown =>
      cases hshape
      exact hfields _ _ (fields?_cons_of_unknown hunknown)
  | listed hlength =>
      cases hshape
      have hlength := hlength.trans (List.length_map Prod.fst).symm
      exact hfields _ _ (fields?_arr hnames hlength)
  | within hfield h =>
      cases hshape
      exact hwithin _ _ _ _ _ _ hfield h

/-- A structure that holds no others is read by its fields. -/
theorem readAlike_of_leaves {names : List String} (hnames : names.Nodup)
    (hfields : ∀ value value' : Json, value.fields? names = value'.fields? names →
      (ofJson? value : Option α) = ofJson? value') :
    ReadAlike α (.record (names.map fun name => (name, .leaf))) := by
  have hfst : (names.map fun name => (name, Shape.leaf)).map Prod.fst = names := by
    rw [List.map_map]
    exact List.map_id names
  refine readAlike_of_fields (hfst.symm ▸ hnames) (hfst.symm ▸ hfields) ?_
  intro before behind name shape value value' hfield hvalue
  obtain ⟨_, _, hleaf⟩ := List.mem_map.mp hfield
  cases hleaf
  rw [eq_of_variant_leaf hvalue]

/-- A structure within a field counts as far as its own reader can tell. -/
theorem required?_within (hread : ReadAlike α shape) (h : Variant shape value value') :
    (required? (member? (before ++ (key, value) :: behind) key) : Option α) =
      required? (member? (before ++ (key, value') :: behind) key) := by
  rw [member?_append_cons_self, member?_append_cons_self]
  cases member? behind key with
  | none => exact hread h
  | some last => rfl

end ReadAlike

/-- Every value is read from its form, which thus no other value has. -/
def Faithful (α : Type) [JsonForm α] : Prop :=
  (∀ value : α, ofJson? (toJson value) = some value) ∧ Function.Injective (toJson : α → Json)

end Json

open Json

theorem faithful (α : Type) [JsonForm α] [LawfulJsonForm α] : Faithful α := by
  refine ⟨ofJson?_toJson, ?_⟩
  intro value value' hform
  have hread : some value = some value' := by
    rw [← ofJson?_toJson value, hform, ofJson?_toJson]
  exact Option.some.inj hread

/-! ## The structures of the machine -/

def Instruction.shape : Shape :=
  .record (["opcode", "reg_a", "reg_b", "imm", "second_byte"].map fun name => (name, .leaf))

def Registers.shape : Shape := .record (["regs"].map fun name => (name, .leaf))

def MachineConfig.shape : Shape :=
  .record (["trace", "instruction_limit"].map fun name => (name, .leaf))

def RunSummary.shape : Shape :=
  .record [("instructions", .leaf), ("stop", .leaf), ("registers", Registers.shape)]

theorem Instruction.readAlike : ReadAlike Instruction Instruction.shape := by
  apply readAlike_of_leaves (by decide)
  intro value value' hfields
  simp only [ofJson?, hfields]

theorem Registers.readAlike : ReadAlike Registers Registers.shape := by
  apply readAlike_of_leaves (by decide)
  intro value value' hfields
  simp only [ofJson?, hfields]

theorem MachineConfig.readAlike : ReadAlike MachineConfig MachineConfig.shape := by
  apply readAlike_of_leaves (by decide)
  intro value value' hfields
  simp only [ofJson?, hfields]

theorem RunSummary.readAlike : ReadAlike RunSummary RunSummary.shape := by
  refine readAlike_of_fields (by decide) ?_ ?_
  · intro value value' hfields
    have hfields : value.fields? ["instructions", "stop", "registers"] =
      value'.fields? ["instructions", "stop", "registers"] := hfields
    simp only [ofJson?, hfields]
  · intro before behind name shape value value' hfield hvalue
    simp only [List.mem_cons, Prod.mk.injEq, List.not_mem_nil, or_false] at hfield
    obtain ⟨rfl, rfl⟩ | ⟨rfl, rfl⟩ | ⟨rfl, rfl⟩ := hfield
    · rw [eq_of_variant_leaf hvalue]
    · rw [eq_of_variant_leaf hvalue]
    · have hinstructions : "instructions" ≠ "registers" := by decide
      have hstop : "stop" ≠ "registers" := by decide
      have hregisters :
          (required? (member? (before ++ ("registers", value) :: behind) "registers") :
            Option Registers) =
          required? (member? (before ++ ("registers", value') :: behind) "registers") :=
        required?_within Registers.readAlike hvalue
      rw [RunSummary.ofJson?_eq rfl, RunSummary.ofJson?_eq rfl, hregisters,
        member?_append_cons_of_ne hinstructions, member?_append_cons_of_ne hinstructions,
        member?_append_cons_of_ne hstop, member?_append_cons_of_ne hstop]

/-- A limit that is not there is read as `null`. -/
theorem MachineConfig.ofJson?_without_limit {members : List (String × Json)}
    (hlimit : "instruction_limit" ∉ members.map Prod.fst) :
    (ofJson? (obj members) : Option MachineConfig) =
        ofJson? (obj (("instruction_limit", null) :: members)) ∧
      (ofJson? (obj members) : Option MachineConfig) =
        (required? (member? members "trace")).map fun trace => ⟨trace, none⟩ := by
  have htrace : "trace" ≠ "instruction_limit" := by decide
  have hnone : member? members "instruction_limit" = none := by
    rw [Option.eq_none_iff_forall_not_mem]
    intro value hfound
    exact hlimit (List.mem_map_of_mem (mem_of_member?_eq_some hfound))
  have hwithout : (ofJson? (obj members) : Option MachineConfig) =
      (required? (member? members "trace")).map fun trace => ⟨trace, none⟩ := by
    rw [MachineConfig.ofJson?_eq rfl, hnone]
    exact (Option.map_eq_bind).symm
  have hnull : (ofJson? (obj (("instruction_limit", null) :: members)) : Option MachineConfig) =
      (required? (member? members "trace")).map fun trace => ⟨trace, none⟩ := by
    have hsplit : ("instruction_limit", null) :: members =
        [] ++ ("instruction_limit", null) :: members := rfl
    rw [hsplit, MachineConfig.ofJson?_eq rfl, member?_append_cons_of_ne htrace,
      member?_append_cons_self, hnone]
    exact (Option.map_eq_bind).symm
  exact ⟨hwithout.trans hnull.symm, hwithout⟩

/-- Forms are faithful, those of structures do not depend on how they are written, on any level,
and a configuration can leave its limit out. -/
theorem json_forms_faithful :
    (Faithful Opcode ∧ Faithful ExtendedOp ∧ Faithful StackOp ∧ Faithful Instruction ∧
      Faithful Registers ∧ Faithful CpuState ∧ Faithful ErrorCode ∧ Faithful MachineConfig ∧
      Faithful StopReason ∧ Faithful RunSummary) ∧
    (ReadAlike Instruction Instruction.shape ∧ ReadAlike Registers Registers.shape ∧
      ReadAlike MachineConfig MachineConfig.shape ∧ ReadAlike RunSummary RunSummary.shape) ∧
    ∀ members : List (String × Json), "instruction_limit" ∉ members.map Prod.fst →
      (ofJson? (obj members) : Option MachineConfig) =
          ofJson? (obj (("instruction_limit", null) :: members)) ∧
        (ofJson? (obj members) : Option MachineConfig) =
          (required? (member? members "trace")).map fun trace => ⟨trace, none⟩ := by
  refine ⟨?_, ?_, ?_⟩
  · exact ⟨faithful _, faithful _, faithful _, faithful _, faithful _, faithful _, faithful _,
      faithful _, faithful _, faithful _⟩
  · exact ⟨Instruction.readAlike, Registers.readAlike, MachineConfig.readAlike,
      RunSummary.readAlike⟩
  · intro members hlimit
    exact MachineConfig.ofJson?_without_limit hlimit

/-- The fields of a summary as an array and its registers beside another member; a configuration
without a limit. -/
theorem json_forms_faithful_otherwise_written :
    (ofJson? (arr [.nat 18446744073709551615, .str "ExitStrobe",
        obj [("note", null), ("regs", toJson Registers.zero.toList)]]) : Option RunSummary) =
      some ⟨18446744073709551615, .exitStrobe, Registers.zero⟩ ∧
    (ofJson? (obj [("trace", .bool true)]) : Option MachineConfig) = some ⟨true, none⟩ := by
  obtain ⟨⟨-, -, -, -, -, -, -, -, -, hfaithful⟩, ⟨-, -, -, hread⟩, hlimit⟩ :=
    json_forms_faithful
  have hregisters : Variant Registers.shape (toJson Registers.zero)
      (obj [("note", null), ("regs", toJson Registers.zero.toList)]) :=
    .extended (by decide)
  have hfield : ("registers", Registers.shape) ∈
      [("instructions", .leaf), ("stop", .leaf), ("registers", Registers.shape)] :=
    .tail _ (.tail _ (.head _))
  have hwithin : Variant RunSummary.shape
      (obj ([("instructions", .nat 18446744073709551615), ("stop", .str "ExitStrobe")] ++
        ("registers", toJson Registers.zero) :: []))
      (obj ([("instructions", .nat 18446744073709551615), ("stop", .str "ExitStrobe")] ++
        ("registers", obj [("note", null), ("regs", toJson Registers.zero.toList)]) :: [])) :=
    .within hfield hregisters
  have hlisted : Variant RunSummary.shape
      (obj (["instructions", "stop", "registers"].zip [.nat 18446744073709551615,
        .str "ExitStrobe", obj [("note", null), ("regs", toJson Registers.zero.toList)]]))
      (arr [.nat 18446744073709551615, .str "ExitStrobe",
        obj [("note", null), ("regs", toJson Registers.zero.toList)]]) :=
    .listed rfl
  have hsummary := hfaithful.1 ⟨18446744073709551615, .exitStrobe, Registers.zero⟩
  exact ⟨(hread (hwithin.trans hlisted)).symm.trans hsummary, (hlimit _ (by decide)).2⟩

end WordMachine
