import EventHub.ErrorCode
import EventHub.FileSystem
set_option autoImplicit false

namespace EventHub

/-- A text with what its cause says behind it, if that says anything. -/
def withDetail (text detail : String) : String :=
  if detail.isEmpty then text else text ++ ": " ++ detail

inductive RecordingError where
  | openFailed (file : FileName) (cause : OsError)
  | writeFailed (file : FileName) (cause : OsError)
  | encodeFailed (file : FileName) (detail : String)
  | renameFailed (source target : FileName) (cause : OsError)
  | removeFailed (file : FileName) (cause : OsError)
  | readFailed (file : FileName) (cause : OsError)
  | decodeFailed (file : FileName) (line : Nat) (detail : String)
  deriving DecidableEq, Repr

/-- Only reading and writing are worth another try. -/
instance : ErrorCode RecordingError where
  code
    | .openFailed _ _ => "RECORDING_OPEN_FAILED"
    | .writeFailed _ _ => "RECORDING_WRITE_FAILED"
    | .encodeFailed _ _ => "RECORDING_ENCODE_FAILED"
    | .renameFailed _ _ _ => "RECORDING_RENAME_FAILED"
    | .removeFailed _ _ => "RECORDING_REMOVE_FAILED"
    | .readFailed _ _ => "RECORDING_READ_FAILED"
    | .decodeFailed _ _ _ => "RECORDING_DECODE_FAILED"
  recoverable
    | .writeFailed _ _ => true
    | .readFailed _ _ => true
    | _ => false
  message
    | .openFailed file cause => s!"failed to open recording '{file}': {cause.message}"
    | .writeFailed file cause => s!"failed to write recording '{file}': {cause.message}"
    | .encodeFailed file detail => withDetail s!"failed to encode record for '{file}'" detail
    | .renameFailed source target cause =>
      s!"failed to rename recording '{source}' to '{target}': {cause.message}"
    | .removeFailed file cause => s!"failed to remove recording '{file}': {cause.message}"
    | .readFailed file cause => s!"failed to read recording '{file}': {cause.message}"
    | .decodeFailed file line detail => withDetail s!"invalid record at '{file}' line {line}" detail

end EventHub
