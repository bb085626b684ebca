/-!
The chunk types that have a name, and the flag bits of a chunk header.
-/
namespace SctpTrace.Wire

inductive ChunkType where
  | data
  | init
  | initAck
  | sack
  | heartbeat
  | heartbeatAck
  | abort
  | shutdown
  | shutdownAck
  | error
  | cookieEcho
  | cookieAck
  | ecnEcho
  | cwr
  | shutdownComplete
  | auth
  | nrSack
  | iData
  | asconfAck
  | reConfig
  | pad
  | forwardTsn
  | asconf
  | iForwardTsn
  deriving DecidableEq, Repr

namespace ChunkType

def all : List ChunkType :=
  [data, init, initAck, sack, heartbeat, heartbeatAck, abort, shutdown, shutdownAck, error,
    cookieEcho, cookieAck, ecnEcho, cwr, shutdownComplete, auth, nrSack, iData, asconfAck,
    reConfig, pad, forwardTsn, asconf, iForwardTsn]

def code : ChunkType → UInt8
  | data => 0
  | init => 1
  | initAck => 2
  | sack => 3
  | heartbeat => 4
  | heartbeatAck => 5
  | abort => 6
  | shutdown => 7
  | shutdownAck => 8
  | error => 9
  | cookieEcho => 10
  | cookieAck => 11
  | ecnEcho => 12
  | cwr => 13
  | shutdownComplete => 14
  | auth => 15
  | nrSack => 16
  | iData => 64
  | asconfAck => 128
  | reConfig => 130
  | pad => 132
  | forwardTsn => 192
  | asconf => 193
  | iForwardTsn => 194

def name : ChunkType → String
  | data => "Data"
  | init => "Init"
  | initAck => "InitAck"
  | sack => "Sack"
  | heartbeat => "Heartbeat"
  | heartbeatAck => "HeartbeatAck"
  | abort => "Abort"
  | shutdown => "Shutdown"
  | shutdownAck => "ShutdownAck"
  | error => "Error"
  | cookieEcho => "CookieEcho"
  | cookieAck => "CookieAck"
  | ecnEcho => "EcnEcho"
  | cwr => "Cwr"
  | shutdownComplete => "ShutdownComplete"
  | auth => "Auth"
  | nrSack => "NrSack"
  | iData => "IData"
  | asconfAck => "AsconfAck"
  | reConfig => "ReConfig"
  | pad => "Pad"
  | forwardTsn => "ForwardTsn"
  | asconf => "Asconf"
  | iForwardTsn => "IForwardTsn"

def ofCode? (code : UInt8) : Option ChunkType := all.find? fun t => t.code == code

@[simp] theorem ofCode?_code (t : ChunkType) : ofCode? t.code = some t := by cases t <;> decide

end ChunkType

namespace Flag

def ending : UInt8 := 0x01
def beginning : UInt8 := 0x02
def unordered : UInt8 := 0x04
def immediate : UInt8 := 0x08
/-- On ABORT and SHUTDOWN-COMPLETE: the verification tag is the sender's own. -/
def reflected : UInt8 := 0x01

def isSet (mask flags : UInt8) : Bool := flags &&& mask != 0

def bit (mask : UInt8) (on : Bool) : UInt8 := if on then mask else 0

def placement (isUnordered isBeginning isEnding : Bool) : UInt8 :=
  bit unordered isUnordered ||| bit beginning isBeginning ||| bit ending isEnding

theorem isSet_placement : ∀ u b e : Bool,
    isSet unordered (placement u b e) = u ∧ isSet beginning (placement u b e) = b ∧
      isSet ending (placement u b e) = e := by decide

theorem isSet_immediate_placement : ∀ i u b e : Bool,
    isSet unordered (bit immediate i ||| placement u b e) = u ∧
      isSet beginning (bit immediate i ||| placement u b e) = b ∧
        isSet ending (bit immediate i ||| placement u b e) = e ∧
          isSet immediate (bit immediate i ||| placement u b e) = i := by decide

end Flag

end SctpTrace.Wire
