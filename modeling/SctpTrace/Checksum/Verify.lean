import SctpTrace.Checksum.Crc
import SctpTrace.Checksum.Adler

/-!
Checksum verification of a datagram. The field at octets 8 to 11 of the common header counts as zero
in the computation. CRC-32C stands in the field with its least significant octet first, Adler-32
with its most significant octet first.
-/
namespace SctpTrace.Checksum

inductive Method where
  | none
  | adler32
  | crc32c
  /-- Accept whichever of CRC-32C and Adler-32 matches. -/
  | automatic
  deriving DecidableEq, Repr

def Method.all : List Method := [.none, .adler32, .crc32c, .automatic]

def Method.name : Method → String
  | .none => "none"
  | .adler32 => "adler32"
  | .crc32c => "crc32c"
  | .automatic => "automatic"

inductive Status where
  | verified
  | mismatched
  /-- Not verified: switched off, or not all of the datagram was captured. -/
  | unknown
  deriving DecidableEq, Repr

structure Verdict where
  method : Method
  declared : UInt32
  calculated : Option UInt32
  status : Status
  deriving DecidableEq, Repr

def fieldOffset : Nat := 8

def fieldEnd : Nat := 12

def zeroed (datagram : Bytes) : Bytes :=
  if datagram.length < fieldEnd then datagram
  else datagram.take fieldOffset ++ [0, 0, 0, 0] ++ datagram.drop fieldEnd

def crc32c (datagram : Bytes) : UInt32 := Crc.crc32c (zeroed datagram)

def adler32 (datagram : Bytes) : UInt32 := Adler.adler32 (zeroed datagram)

def declared (datagram : Bytes) : UInt32 :=
  match Bytes.word32? (datagram.drop fieldOffset) with
  | some (word, _) => word
  | none => 0

def reverseOctets (w : UInt32) : UInt32 :=
  let n := w.toNat
  UInt32.ofNat (((n % 256 * 256 + n / 256 % 256) * 256 + n / 65536 % 256) * 256 + n / 16777216)

def compare (method : Method) (declared calculated : UInt32) : Verdict :=
  ⟨method, declared, some calculated, if declared = calculated then .verified else .mismatched⟩

def crcVerdict (datagram : Bytes) : Verdict :=
  compare .crc32c (declared datagram) (reverseOctets (crc32c datagram))

def adlerVerdict (datagram : Bytes) : Verdict :=
  compare .adler32 (declared datagram) (adler32 datagram)

/-- CRC-32C unless only Adler-32 matches. -/
def automaticVerdict (datagram : Bytes) : Verdict :=
  let crc := crcVerdict datagram
  let adler := adlerVerdict datagram
  if crc.status ≠ .verified ∧ adler.status = .verified then adler else crc

/-- A datagram is checkable if the field is there and nothing reported is missing. -/
def checkable (datagram : Bytes) (reported : Nat) : Bool :=
  fieldEnd ≤ datagram.length ∧ reported ≤ datagram.length

def noVerdict (method : Method) (datagram : Bytes) : Verdict :=
  ⟨method, declared datagram, none, .unknown⟩

def verify (datagram : Bytes) (reported : Nat) (method : Method) : Verdict :=
  if checkable datagram reported then
    match method with
    | .none => noVerdict .none datagram
    | .adler32 => adlerVerdict datagram
    | .crc32c => crcVerdict datagram
    | .automatic => automaticVerdict datagram
  else noVerdict method datagram

end SctpTrace.Checksum
