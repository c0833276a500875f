import AdmissionGuard.Json.Record
import AdmissionGuard.Settings.Error
/-!
Settings from a JSON document.
-/

namespace AdmissionGuard

open Json

def ServerOptions.fields : List (RecordField ServerOptions) := [
  ⟨"bind_addr", Reader.string.map fun v o => { o with bindAddress := v }⟩,
  ⟨"log_level", Reader.string.map fun v o => { o with logLevel := v }⟩,
  ⟨"trust_forwarded_headers", Reader.bool.map fun v o => { o with trustForwarded := v }⟩]

def GuardOptions.fields : List (RecordField GuardOptions) := [
  ⟨"enabled", Reader.bool.map fun v o => { o with enabled := v }⟩,
  ⟨"per_ip_per_minute", Reader.int64.map fun v o => { o with perClientPerMinute := v }⟩,
  ⟨"per_ip_burst", Reader.int64.map fun v o => { o with perClientBurst := v }⟩,
  ⟨"global_per_minute", Reader.int64.map fun v o => { o with globalPerMinute := v }⟩,
  ⟨"global_burst", Reader.int64.map fun v o => { o with globalBurst := v }⟩,
  ⟨"strike_threshold", Reader.int64.map fun v o => { o with strikeThreshold := v }⟩,
  ⟨"block_seconds", Reader.int64.map fun v o => { o with blockSeconds := v }⟩,
  ⟨"whitelist", Reader.string.list.map fun v o => { o with allowlist := v }⟩]

namespace Settings

def fields : List (RecordField Settings) := [
  ⟨"server", (Reader.record ServerOptions.fields {} "struct ServerConfig").map
    fun v s => { s with server := v }⟩,
  ⟨"guard", (Reader.record GuardOptions.fields {} "struct GuardOptions").map
    fun v s => { s with guard := v }⟩]

def reader : Reader Settings := Reader.record fields {} "struct Config"

def ofDocument (text : List Char) : Except SettingsError Settings :=
  match reader.document text with
  | .error fault => .error (.badDocument text fault)
  | .ok settings => settings.validated

def ofFile (path : String) (content : Except ReadFailure ByteArray) :
    Except SettingsError Settings :=
  match content with
  | .error cause => .error (.unreadable path cause)
  | .ok bytes =>
    match String.fromUTF8? bytes with
    | none => .error (.unreadable path .notText)
    | some text => ofDocument text.toList

end Settings

end AdmissionGuard
