import WordMachine.Instruction.Encoding
import WordMachine.Proofs.Word

/-!
# Words and instructions

Taking a word apart loses nothing: the fields of the decoded instruction, put together
again, are the two bytes of the word.

The other way round, putting an instruction together loses what a word has no room for.  The
fields of an instruction overlap in its word, and `decode_bytes` says what comes back of them.
The instructions that come back as they were are the consistent ones, whose fields agree with
each other.  The encoders take the low nibbles of their arguments, so an unassigned operation
whose number ends in the nibble of an assigned one is written as that operation.
-/

namespace WordMachine

/-! ## Nibbles -/

namespace Byte

theorem lowNibble_eq_ofNat (byte : Byte) :
    ∃ value : Fin 16, byte.lowNibble = UInt8.ofNat value := by
  refine ⟨⟨byte.toNat % 16, Nat.mod_lt _ (by decide)⟩, ?_⟩
  apply UInt8.toNat_inj.1
  simp [lowNibble]
  omega

theorem toNat_lowNibble (byte : Byte) : byte.lowNibble.toNat = byte.toNat % 16 :=
  UInt8.toNat_mod byte 16

theorem toNat_highNibble (byte : Byte) : byte.highNibble.toNat = byte.toNat / 16 :=
  UInt8.toNat_div byte 16

theorem lowNibble_highNibble (byte : Byte) : byte.highNibble.lowNibble = byte.highNibble := by
  apply UInt8.toNat_inj.1
  have hbyte := byte.toNat_lt
  simp [highNibble, lowNibble]
  omega

@[simp] theorem lowNibble_lowNibble (byte : Byte) :
    byte.lowNibble.lowNibble = byte.lowNibble := by
  apply UInt8.toNat_inj.1
  rw [toNat_lowNibble, toNat_lowNibble, Nat.mod_mod]

@[simp] theorem highNibble_lowNibble (byte : Byte) : byte.lowNibble.highNibble = 0 := by
  apply UInt8.toNat_inj.1
  rw [toNat_highNibble, toNat_lowNibble, Nat.div_eq_of_lt (Nat.mod_lt _ (by decide))]
  rfl

theorem lowNibble_eq_self_iff {byte : Byte} : byte.lowNibble = byte ↔ byte.toNat < 16 := by
  rw [← UInt8.toNat_inj, toNat_lowNibble]
  omega

end Byte

namespace Opcode

theorem nibble_ofNibble (field : Byte) : (ofNibble field).nibble = field.lowNibble := by
  rcases field.lowNibble_eq_ofNat with ⟨value, hvalue⟩
  unfold ofNibble
  rw [hvalue]
  clear hvalue
  revert value
  decide

@[simp] theorem ofNibble_nibble (op : Opcode) : ofNibble op.nibble = op := by
  cases op <;> rfl

@[simp] theorem ofNibble_lowNibble (field : Byte) : ofNibble field.lowNibble = ofNibble field := by
  rw [ofNibble, Byte.lowNibble_lowNibble, ofNibble]

end Opcode

namespace ExtendedOp

/-- The operation has a meaning. -/
def Assigned (op : ExtendedOp) : Prop := ∀ number, op ≠ reserved number

@[simp] theorem ofNibble_lowNibble (field : Byte) : ofNibble field.lowNibble = ofNibble field := by
  rw [ofNibble, Byte.lowNibble_lowNibble, ofNibble]

theorem ofNibble_nibble {op : ExtendedOp} (hassigned : op.Assigned) : ofNibble op.nibble = op := by
  cases op with
  | reserved number => exact absurd rfl (hassigned number)
  | _ => rfl

@[simp] theorem highNibble_nibble (op : ExtendedOp) : op.nibble.highNibble = 0 := by
  cases op with
  | reserved number => exact number.highNibble_lowNibble
  | _ => rfl

end ExtendedOp

namespace StackOp

/-- The operation has a meaning. -/
def Assigned (op : StackOp) : Prop := ∀ number, op ≠ reserved number

@[simp] theorem ofNibble_lowNibble (field : Byte) : ofNibble field.lowNibble = ofNibble field := by
  rw [ofNibble, Byte.lowNibble_lowNibble, ofNibble]

theorem ofNibble_nibble {op : StackOp} (hassigned : op.Assigned) : ofNibble op.nibble = op := by
  cases op with
  | reserved number => exact absurd rfl (hassigned number)
  | _ => rfl

end StackOp

/-! ## Instructions -/

def InstructionWord.decoded (word : InstructionWord) : Instruction :=
  .decode word.1 word.2

namespace Instruction

/-- The fields agree with each other, as those of a word do. -/
structure Consistent (instr : Instruction) : Prop where
  regA_lt : instr.regA.toNat < 16
  regB_eq : instr.regB.toNat = instr.secondByte.toNat / 16
  imm_eq : instr.imm.toNat = 256 * instr.regA.toNat + instr.secondByte.toNat

theorem bytes_decode (first second : Byte) :
    (decode first second).bytes = (first, second) := by
  simp only [bytes, decode, Opcode.nibble_ofNibble, Byte.lowNibble_highNibble,
    Byte.ofNibbles_highNibble_lowNibble]

/-- The word keeps the opcode, the low nibble of the first register field and the second
byte. -/
theorem decode_bytes (instr : Instruction) :
    instr.bytes.decoded =
      { instr with
        regA := instr.regA.lowNibble
        regB := instr.secondByte.highNibble
        imm := Word.ofBytes instr.secondByte instr.regA.lowNibble } := by
  simp [InstructionWord.decoded, bytes, decode, Byte.highNibble_ofNibbles,
    Byte.lowNibble_ofNibbles]

theorem decode_bytes_eq_self_iff {instr : Instruction} :
    instr.bytes.decoded = instr ↔ instr.Consistent := by
  rw [decode_bytes]
  constructor
  · intro hsame
    have hregA : instr.regA.lowNibble = instr.regA := congrArg regA hsame
    have hregB : instr.secondByte.highNibble = instr.regB := congrArg regB hsame
    have himm : Word.ofBytes instr.secondByte instr.regA.lowNibble = instr.imm :=
      congrArg imm hsame
    constructor
    · exact Byte.lowNibble_eq_self_iff.mp hregA
    · rw [← hregB, Byte.toNat_highNibble]
    · rw [← himm, hregA, Word.toNat_ofBytes]
  · rintro ⟨hlt, hregB, himm⟩
    have hregA : instr.regA.lowNibble = instr.regA := Byte.lowNibble_eq_self_iff.mpr hlt
    have hregB : instr.secondByte.highNibble = instr.regB := by
      rw [← UInt8.toNat_inj, Byte.toNat_highNibble, hregB]
    have himm : Word.ofBytes instr.secondByte instr.regA = instr.imm := by
      rw [← UInt16.toNat_inj, Word.toNat_ofBytes, himm]
    rw [hregA, hregB, himm]

theorem extendedOp_decode_bytes (instr : Instruction) :
    instr.bytes.decoded.extendedOp = instr.extendedOp := by
  rw [decode_bytes, extendedOp, ExtendedOp.ofNibble_lowNibble, extendedOp]

end Instruction

/-! ## Encoders -/

namespace InstructionWord

theorem decoded_primary (op : Opcode) (a b : Byte) :
    (primary op a b).decoded =
      { opcode := op
        regA := a.lowNibble
        regB := b.lowNibble
        imm := Word.ofBytes (Byte.ofNibbles b 0) a.lowNibble
        secondByte := Byte.ofNibbles b 0 } := by
  simp [primary, decoded, Instruction.decode, Byte.highNibble_ofNibbles,
    Byte.lowNibble_ofNibbles]

theorem decoded_orImmediate (r imm : Byte) :
    (orImmediate r imm).decoded =
      { opcode := .orImmediate
        regA := r.lowNibble
        regB := imm.highNibble
        imm := Word.ofBytes imm r.lowNibble
        secondByte := imm } := by
  simp [orImmediate, decoded, Instruction.decode, Byte.highNibble_ofNibbles,
    Byte.lowNibble_ofNibbles]

theorem decoded_extended (op : ExtendedOp) (b low : Byte) :
    (extended op b low).decoded =
      { opcode := .extended
        regA := op.nibble.lowNibble
        regB := b.lowNibble
        imm := Word.ofBytes (Byte.ofNibbles b low) op.nibble.lowNibble
        secondByte := Byte.ofNibbles b low } := by
  have hgroup : Opcode.ofNibble 0 = .extended := rfl
  simp [extended, decoded, Instruction.decode, Byte.highNibble_ofNibbles, hgroup]

theorem extendedOp_decoded_extended (op : ExtendedOp) (b low : Byte) :
    (extended op b low).decoded.extendedOp = .ofNibble op.nibble := by
  rw [decoded_extended, Instruction.extendedOp, ExtendedOp.ofNibble_lowNibble]

theorem stackOp_decoded_stack (op : StackOp) (r : Byte) :
    (stack op r).decoded.stackOp = .ofNibble op.nibble := by
  rw [stack, decoded_extended, Instruction.stackOp, StackOp.ofNibble_lowNibble]

end InstructionWord

open InstructionWord

/-- Decoder and encoders over the whole format.  A decoded word is put together again as it
was.  An instruction comes back from its word as it was exactly if it is consistent, and keeps
its opcode, its second byte and what is read from them in any case.  A word that an encoder has
built is read as the operation that was meant, with the low nibbles of the registers in their
fields; an unassigned operation is read by the low nibble of its number, which may be that of
an assigned one. -/
theorem words_decode_encode :
    (∀ first second, (Instruction.decode first second).bytes = (first, second)) ∧
    (∀ instr : Instruction,
      let back := instr.bytes.decoded
      (back = instr ↔ instr.Consistent) ∧
        back.opcode = instr.opcode ∧ back.secondByte = instr.secondByte ∧
        back.lowField = instr.lowField ∧ back.extendedOp = instr.extendedOp) ∧
    (∀ op a b,
      let back := (primary op a b).decoded
      back.opcode = op ∧ back.regA.toNat = a.toNat % 16 ∧ back.regB.toNat = b.toNat % 16 ∧
        back.lowField = 0) ∧
    (∀ r imm,
      let back := (orImmediate r imm).decoded
      back.opcode = .orImmediate ∧ back.regA.toNat = r.toNat % 16 ∧ back.secondByte = imm ∧
        (back.imm % 256).toNat = imm.toNat) ∧
    (∀ op b low,
      let back := (extended op b low).decoded
      back.opcode = .extended ∧ back.regB.toNat = b.toNat % 16 ∧
        back.lowField.toNat = low.toNat % 16 ∧
        (∀ number, op = .reserved number → back.extendedOp = .ofNibble (number % 16)) ∧
        (op.Assigned → back.extendedOp = op ∧
          ∀ number, number % 16 = op.nibble →
            (extended (.reserved number) b low).decoded.extendedOp = op)) ∧
    (∀ op r,
      let back := (stack op r).decoded
      back.opcode = .extended ∧ back.extendedOp = .stack ∧
        back.lowField.toNat = r.toNat % 16 ∧
        (∀ number, op = .reserved number → back.stackOp = .ofNibble (number % 16)) ∧
        (op.Assigned → back.stackOp = op ∧
          ∀ number, number % 16 = op.nibble →
            (stack (.reserved number) r).decoded.stackOp = op)) := by
  refine ⟨Instruction.bytes_decode, ?_, ?_, ?_, ?_, ?_⟩
  · intro instr back
    have hback : back = _ := instr.decode_bytes
    have hop : back.extendedOp = instr.extendedOp := instr.extendedOp_decode_bytes
    refine ⟨Instruction.decode_bytes_eq_self_iff, ?_, ?_, ?_, hop⟩
    · rw [hback]
    · rw [hback]
    · rw [hback]
      rfl
  · intro op a b back
    have hback : back = _ := decoded_primary op a b
    rw [hback]
    refine ⟨rfl, a.toNat_lowNibble, b.toNat_lowNibble, ?_⟩
    exact Byte.lowNibble_ofNibbles b 0
  · intro r imm back
    have hback : back = _ := decoded_orImmediate r imm
    rw [hback]
    exact ⟨rfl, r.toNat_lowNibble, rfl, Word.toNat_ofBytes_mod imm r.lowNibble⟩
  · intro op b low back
    have hback : back = _ := decoded_extended op b low
    have hop : back.extendedOp = .ofNibble op.nibble := extendedOp_decoded_extended op b low
    refine ⟨?_, ?_, ?_, ?_, ?_⟩
    · rw [hback]
    · rw [hback]
      exact b.toNat_lowNibble
    · rw [hback, ← Byte.toNat_lowNibble]
      exact congrArg UInt8.toNat (Byte.lowNibble_ofNibbles b low)
    · rintro number rfl
      exact hop
    · intro hassigned
      refine ⟨hop.trans (ExtendedOp.ofNibble_nibble hassigned), ?_⟩
      intro number hnumber
      have hnibble : (ExtendedOp.reserved number).nibble = op.nibble := hnumber
      rw [extendedOp_decoded_extended, hnibble, ExtendedOp.ofNibble_nibble hassigned]
  · intro op r back
    have hback : back = _ := decoded_extended .stack op.nibble r
    have hop : back.stackOp = .ofNibble op.nibble := stackOp_decoded_stack op r
    refine ⟨?_, extendedOp_decoded_extended .stack op.nibble r, ?_, ?_, ?_⟩
    · rw [hback]
    · rw [hback, ← Byte.toNat_lowNibble]
      exact congrArg UInt8.toNat (Byte.lowNibble_ofNibbles op.nibble r)
    · rintro number rfl
      exact hop
    · intro hassigned
      refine ⟨hop.trans (StackOp.ofNibble_nibble hassigned), ?_⟩
      intro number hnumber
      have hnibble : (StackOp.reserved number).nibble = op.nibble := hnumber
      rw [stackOp_decoded_stack, hnibble, StackOp.ofNibble_nibble hassigned]

/-- Numbers that end in the nibble of a load and of a pop, and one that ends in no operation's
nibble. -/
theorem words_decode_encode_reserved :
    (ExtendedOp.loadImmediate.Assigned ∧ 0x14 % 16 = ExtendedOp.loadImmediate.nibble ∧
      (extended (.reserved 0x14) 3 4).decoded.extendedOp = .loadImmediate) ∧
    (StackOp.popRegister.Assigned ∧ 0x92 % 16 = StackOp.popRegister.nibble ∧
      (stack (.reserved 0x92) 7).decoded.stackOp = .popRegister) ∧
    (extended (.reserved 0x2C) 3 4).decoded.extendedOp = .reserved 12 := by
  obtain ⟨-, -, -, -, hextended, hstack⟩ := words_decode_encode
  have hload : ExtendedOp.loadImmediate.Assigned := by
    intro number
    simp
  have hpop : StackOp.popRegister.Assigned := by
    intro number
    simp
  obtain ⟨-, -, -, -, hloaded⟩ := hextended .loadImmediate 3 4
  obtain ⟨-, -, -, -, hpopped⟩ := hstack .popRegister 7
  obtain ⟨-, -, -, hreserved, -⟩ := hextended (.reserved 0x2C) 3 4
  exact ⟨⟨hload, rfl, (hloaded hload).2 0x14 rfl⟩, ⟨hpop, rfl, (hpopped hpop).2 0x92 rfl⟩,
    hreserved 0x2C rfl⟩

end WordMachine
