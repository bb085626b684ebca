import SctpTrace.Config.Basic
import SctpTrace.Json.Document

/-!
A configuration written as one JSON document. Sections and the whole may be records, or lists of
values in the order of the fields. A field that is missing has its default, a member that is not
known is ignored, a known one must not repeat. Numbers are whole and in range, never converted.
-/
namespace SctpTrace.Config

open Json

abbrev FieldValues := List (Option Document)

def noValues (names : List String) : FieldValues := names.map fun _ => none

def setField? (name : String) (value : Document) : List String → FieldValues → Option FieldValues
  | n :: names, v :: values =>
    if n = name then
      match v with
      | none => some (some value :: values)
      | some _ => none
    else (setField? name value names values).map (v :: ·)
  | _, values => some values

def membersFields? (names : List String) (members : List (Key × Document)) :
    Option FieldValues :=
  members.foldlM
    (fun values (key, value) => key.bind fun name => setField? name value names values)
    (noValues names)

def itemsFields? (names : List String) (items : List Document) : Option FieldValues :=
  if names.length < items.length then none
  else some (items.map some ++ (noValues names).drop items.length)

def fields? (names : List String) : Document → Option FieldValues
  | .record members => membersFields? names members
  | .list items => itemsFields? names items
  | _ => none

def readOr {α : Type} (default : α) (read? : Document → Option α) : Option Document → Option α
  | none => some default
  | some d => read? d

def readBool? : Document → Option Bool
  | .bool b => some b
  | _ => none

/-- A whole number below a limit, written without sign, point and exponent. -/
def readNat? (limit : Nat) : Document → Option Nat
  | .number n =>
    let value := digitsValue n.whole
    if n.negative ∨ n.fraction.isSome ∨ n.exponent.isSome ∨ limit ≤ value then none
    else some value
  | _ => none

def readText? : Document → Option String
  | .text t => t
  | _ => none

def methodNamed? (name : String) : Option Checksum.Method :=
  Checksum.Method.all.find? fun m => m.name == name

/-- The name of a method, or a record with null under that name alone. -/
def readMethod? : Document → Option Checksum.Method
  | .text (some name) => methodNamed? name
  | .record [(some name, .null)] => methodNamed? name
  | _ => none

def word32Limit : Nat := 4294967296

def word64Limit : Nat := 18446744073709551616

def readAssociation? (d : Document) : Option Config.Association :=
  match fields? ["enable_indexing"] d with
  | some [indexing] => do
    let enableIndexing ← readOr true readBool? indexing
    return { enableIndexing }
  | _ => none

def tsnNames : List String :=
  ["enabled", "max_retransmissions_tracked", "ack_span_limit", "gap_ack_warning_threshold"]

def readTsn? (d : Document) : Option Config.Tsn :=
  match fields? tsnNames d with
  | some [enabled, tracked, span, warning] => do
    let default : Config.Tsn := {}
    let enabled ← readOr default.enabled readBool? enabled
    let maxRetransmissionsTracked ←
      readOr default.maxRetransmissionsTracked (readNat? word64Limit) tracked
    let ackSpanLimit ← readOr default.ackSpanLimit (readNat? word32Limit) span
    let gapAckWarningThreshold ←
      readOr default.gapAckWarningThreshold (readNat? word32Limit) warning
    return { enabled, maxRetransmissionsTracked, ackSpanLimit, gapAckWarningThreshold }
  | _ => none

def readReassembly? (d : Document) : Option Config.Reassembly :=
  match fields? ["enabled"] d with
  | some [enabled] => do
    let enabled ← readOr true readBool? enabled
    return { enabled }
  | _ => none

def readTelemetry? (d : Document) : Option Config.Telemetry :=
  match fields? ["log_level", "json_logs"] d with
  | some [level, logs] => do
    let default : Config.Telemetry := {}
    let logLevel ← readOr default.logLevel readText? level
    let jsonLogs ← readOr default.jsonLogs readBool? logs
    return { logLevel, jsonLogs }
  | _ => none

def sectionNames : List String := ["checksum", "association", "tsn", "reassembly", "telemetry"]

def ofDocument? (d : Document) : Option Config :=
  match fields? sectionNames d with
  | some [checksum, association, tsn, reassembly, telemetry] => do
    let checksum ← readOr .none readMethod? checksum
    let association ← readOr {} readAssociation? association
    let tsn ← readOr {} readTsn? tsn
    let reassembly ← readOr {} readReassembly? reassembly
    let telemetry ← readOr {} readTelemetry? telemetry
    return { checksum, association, tsn, reassembly, telemetry }
  | _ => none

/-- The configuration that a text writes, whether or not it can be honoured. -/
def ofText? (text : String) : Option Config := (Document.ofText? text).bind ofDocument?

def parse (text : String) : Except ConfigError Config :=
  match ofText? text with
  | none => .error .unreadable
  | some c => c.checked

end SctpTrace.Config
