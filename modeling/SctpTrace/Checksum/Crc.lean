import SctpTrace.Bytes

/-!
CRC-32C: the remainder modulo the Castagnoli polynomial, least significant bit first, of the data
after a register of ones, and complemented at the end.
-/
namespace SctpTrace.Checksum.Crc

def polynomial : UInt32 := 0x82F63B78

def shift (register : UInt32) : UInt32 :=
  if register &&& 1 = 1 then (register >>> 1) ^^^ polynomial else register >>> 1

def absorb (register : UInt32) (octet : UInt8) : UInt32 :=
  Nat.repeat shift 8 (register ^^^ octet.toUInt32)

def crc32c (bytes : Bytes) : UInt32 := bytes.foldl absorb 0xFFFFFFFF ^^^ 0xFFFFFFFF

example : crc32c [0x31, 0x32, 0x33, 0x34, 0x35, 0x36, 0x37, 0x38, 0x39] = 0xE3069283 := by
  decide +kernel

theorem foldl_absorb_append (register : UInt32) (front back : Bytes) :
    (front ++ back).foldl absorb register = back.foldl absorb (front.foldl absorb register) :=
  List.foldl_append
end SctpTrace.Checksum.Crc
