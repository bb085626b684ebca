import SctpTrace.Config.Basic
import SctpTrace.Config.Path

/-!
A configuration from layered settings: a file, and variables that override it. Letter case in
names does not count. A variable belongs to the configuration if its name, in lower case, starts
with `sctp_analyzer__`; two underscores separate the parts of the path that follows.
-/
namespace SctpTrace.Config

open Json

def settingFields? (names : List String) : Setting → Option (List (Option Setting))
  | .table entries => some (names.map fun name => Keyed.get? name entries)
  | .list items => some (names.mapIdx fun place _ => items[place]?)
  | _ => none

def settingOr {α : Type} (default : α) (read? : Setting → Option α) : Option Setting → Option α
  | none => some default
  | some s => read? s

def methodOfName? (name : String) : Option Checksum.Method :=
  Checksum.Method.all.find? fun m => m.name == Setting.lowerCase name

def settingMethod? : Setting → Option Checksum.Method
  | .text name => methodOfName? name
  | .table [(name, _)] => methodOfName? name
  | _ => none

def settingAssociation? (s : Setting) : Option Config.Association :=
  match settingFields? ["enable_indexing"] s with
  | some [indexing] => do
    let enableIndexing ← settingOr true Setting.toBool? indexing
    return { enableIndexing }
  | _ => none

def settingTsn? (s : Setting) : Option Config.Tsn :=
  match settingFields? ["enabled", "max_retransmissions_tracked", "ack_span_limit",
      "gap_ack_warning_threshold"] s with
  | some [enabled, tracked, span, warning] => do
    let default : Config.Tsn := {}
    let enabled ← settingOr default.enabled Setting.toBool? enabled
    let maxRetransmissionsTracked ←
      settingOr default.maxRetransmissionsTracked Setting.toNat64? tracked
    let ackSpanLimit ← settingOr default.ackSpanLimit Setting.toNat32? span
    let gapAckWarningThreshold ←
      settingOr default.gapAckWarningThreshold Setting.toNat32? warning
    return { enabled, maxRetransmissionsTracked, ackSpanLimit, gapAckWarningThreshold }
  | _ => none

def settingReassembly? (s : Setting) : Option Config.Reassembly :=
  match settingFields? ["enabled"] s with
  | some [enabled] => do
    let enabled ← settingOr true Setting.toBool? enabled
    return { enabled }
  | _ => none

def settingTelemetry? (s : Setting) : Option Config.Telemetry :=
  match settingFields? ["log_level", "json_logs"] s with
  | some [level, logs] => do
    let default : Config.Telemetry := {}
    let logLevel ← settingOr default.logLevel Setting.toText? level
    let jsonLogs ← settingOr default.jsonLogs Setting.toBool? logs
    return { logLevel, jsonLogs }
  | _ => none

def ofSetting? (s : Setting) : Option Config :=
  match settingFields? ["checksum", "association", "tsn", "reassembly", "telemetry"] s with
  | some [checksum, association, tsn, reassembly, telemetry] => do
    let checksum ← settingOr .none settingMethod? checksum
    let association ← settingOr {} settingAssociation? association
    let tsn ← settingOr {} settingTsn? tsn
    let reassembly ← settingOr {} settingReassembly? reassembly
    let telemetry ← settingOr {} settingTelemetry? telemetry
    return { checksum, association, tsn, reassembly, telemetry }
  | _ => none

/-- A layer of settings: names, which may be paths, with their values. -/
abbrev Layer := Keyed String Setting

def applyLayer (root : Setting) (layer : Layer) : Setting :=
  layer.foldl (fun root (name, value) => root.set value (.ofName (Setting.lowerName name))) root

def variableMark : List Char := "sctp_analyzer__".toList

def pointed : List Char → List Char
  | '_' :: '_' :: rest => '.' :: pointed rest
  | c :: rest => c :: pointed rest
  | [] => []

def settingName? (name : String) : Option String :=
  let name := (Setting.lowerName name).toList
  if name.take variableMark.length = variableMark then
    some (String.ofList (pointed (name.drop variableMark.length)))
  else none

def insertByName (entry : String × Setting) : Layer → Layer
  | [] => [entry]
  | other :: rest =>
    if entry.1 = other.1 then entry :: rest
    else if entry.1 < other.1 then entry :: other :: rest
    else other :: insertByName entry rest

/-- The settings of the variables, by name; of two with one name the later one counts. -/
def variableLayer (environment : List (String × String)) : Layer :=
  environment.foldl
    (fun layer (name, value) =>
      match settingName? name with
      | some setting => insertByName (setting, .text value) layer
      | none => layer) []

def fileNestingLimit : Nat := 127

def fileLayer? (text : String) : Option Layer := do
  let tokens ← tokens? text.toList
  if fileNestingLimit < nesting tokens then none
  else
    let document ← Document.ofTokens? tokens
    match (← Setting.ofDocument? document) with
    | .table entries => some entries
    | _ => none

def ofLayers (layers : List Layer) : Except ConfigError Config :=
  match ofSetting? (layers.foldl applyLayer (.table [])) with
  | none => .error .unreadable
  | some c => c.checked

def ofVariables (environment : List (String × String)) : Except ConfigError Config :=
  ofLayers [variableLayer environment]

/-- The configuration of a file; variables override it. -/
def ofFile (text : String) (environment : List (String × String)) : Except ConfigError Config :=
  match fileLayer? text with
  | none => .error .unreadable
  | some layer => ofLayers [layer, variableLayer environment]

end SctpTrace.Config
