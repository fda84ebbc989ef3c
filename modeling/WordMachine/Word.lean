/-!
# Bytes, words and addresses

The machine moves bytes and computes on 16-bit words.  A word occupies two
consecutive addresses, low byte first, and every address calculation is taken
modulo 65536.  Shift counts are full words: a count of sixteen or more leaves
no bit of the value.
-/

namespace WordMachine

abbrev Byte := UInt8

abbrev Word := UInt16

/-- Addresses are words, so the address space has 65536 bytes. -/
abbrev Address := Word

namespace Byte

def lowNibble (byte : Byte) : Byte := byte % 16

def highNibble (byte : Byte) : Byte := byte / 16

def ofNibbles (high low : Byte) : Byte := 16 * high + lowNibble low

theorem ofNibbles_highNibble_lowNibble (byte : Byte) :
    ofNibbles byte.highNibble byte.lowNibble = byte := by
  apply UInt8.toNat_inj.1
  have hbyte := byte.toNat_lt
  simp [ofNibbles, highNibble, lowNibble]
  omega

theorem highNibble_ofNibbles (high low : Byte) :
    (ofNibbles high low).highNibble = high.lowNibble := by
  apply UInt8.toNat_inj.1
  simp [ofNibbles, highNibble, lowNibble]
  omega

theorem lowNibble_ofNibbles (high low : Byte) :
    (ofNibbles high low).lowNibble = low.lowNibble := by
  apply UInt8.toNat_inj.1
  simp [ofNibbles, lowNibble]

end Byte

namespace Word

def lowByte (word : Word) : Byte := word.toUInt8

def highByte (word : Word) : Byte := (word / 256).toUInt8

def ofBytes (low high : Byte) : Word := 256 * high.toUInt16 + low.toUInt16

theorem ofBytes_lowByte_highByte (word : Word) :
    ofBytes word.lowByte word.highByte = word := by
  apply UInt16.toNat_inj.1
  have hword := word.toNat_lt
  simp [ofBytes, lowByte, highByte]
  omega

theorem lowByte_ofBytes (low high : Byte) : (ofBytes low high).lowByte = low := by
  apply UInt8.toNat_inj.1
  simp [ofBytes, lowByte]

theorem highByte_ofBytes (low high : Byte) : (ofBytes low high).highByte = high := by
  apply UInt8.toNat_inj.1
  have hlow := low.toNat_lt
  have hhigh := high.toNat_lt
  simp [ofBytes, highByte]
  omega

def shiftLeft (value count : Word) : Word :=
  if count < 16 then value <<< count else 0

def shiftRight (value count : Word) : Word :=
  if count < 16 then value >>> count else 0

end Word

end WordMachine
