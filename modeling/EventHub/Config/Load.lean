import EventHub.Config.Toml
import EventHub.ErrorCode
import EventHub.FileSystem
import EventHub.Text.Utf8
set_option autoImplicit false

namespace EventHub

inductive ConfigError where
  | readFailed (file : FileName) (cause : OsError)
  | parseFailed (file : FileName)
  | invalidVariable (name reason : String)
  deriving DecidableEq, Repr

instance : ErrorCode ConfigError where
  code
    | .readFailed _ _ => "CONFIG_READ_FAILED"
    | .parseFailed _ => "CONFIG_PARSE_FAILED"
    | .invalidVariable _ _ => "CONFIG_INVALID_ENV_VAR"
  recoverable _ := false
  message
    | .readFailed file cause => s!"failed to read config file '{file}': {cause.message}"
    | .parseFailed file => s!"failed to parse config file '{file}'"
    | .invalidVariable name reason => s!"invalid value for environment variable '{name}': {reason}"

abbrev Environment := List (String × String)

namespace Config

def homeDirectory (home : FileName) : FileName := home.join ⟨".evmux"⟩

def homeFile (home : FileName) : FileName := (homeDirectory home).join ⟨"config.toml"⟩

def readFile (fs : FileSystem) (f : FileName) : Except ConfigError Config :=
  match fs.read f with
  | .error e => .error (.readFailed f e)
  | .ok bytes =>
    match Text.ofUtf8? bytes with
    | none => .error (.readFailed f .notText)
    | some text =>
      match ofToml? text with
      | none => .error (.parseFailed f)
      | some c => .ok c

def boolOfText? (s : String) : Option Bool :=
  let low := String.ofList (s.toList.map Char.toLower)
  if ["true", "1", "yes", "on"].contains low then some true
  else if ["false", "0", "no", "off"].contains low then some false
  else none

def boolVariable (environment : Environment) (name : String) (unset : Bool) : Except ConfigError Bool :=
  match environment.lookup name with
  | none => .ok unset
  | some text =>
    match boolOfText? text with
    | none => .error (.invalidVariable name "expected bool")
    | some b => .ok b

def fileVariable (environment : Environment) (name : String) (unset : FileName) : FileName :=
  match environment.lookup name with
  | none => unset
  | some text => ⟨text⟩

/-- Variables that are set count whatever their value, also if it is the standard one. -/
def overlayEnvironment (c : Config) (environment : Environment) : Except ConfigError Config := do
  let debug ← boolVariable environment "EVMUX_DEBUG" c.debug
  let delete ← boolVariable environment "EVMUX_DELETE_RECORDINGS_ON_ABORT" c.channel.deleteOnAbort
  .ok
    { c with
      debug := debug
      channel :=
        { inputLog := fileVariable environment "EVMUX_RECORD_INPUT_FILE" c.channel.inputLog
          outputLog := fileVariable environment "EVMUX_RECORD_OUTPUT_FILE" c.channel.outputLog
          deleteOnAbort := delete } }

/-- What to load. Without a global file of its own the one in the home directory is meant. -/
structure Sources where
  home : FileName
  environment : Environment
  global : Option FileName
  file : Option FileName
  skipGlobal : Bool
  skipEnvironment : Bool

def Sources.globalFile (s : Sources) : FileName := s.global.getD (homeFile s.home)

/-- A global file that is not there is no layer. -/
def loadGlobal (fs : FileSystem) (s : Sources) : Except ConfigError Config :=
  if s.skipGlobal || !fs.isThere s.globalFile then .ok standard
  else (readFile fs s.globalFile).map standard.overlay

def load (fs : FileSystem) (s : Sources) : Except ConfigError Config := do
  let c ← loadGlobal fs s
  let c ← match s.file with
    | none => .ok c
    | some f => (readFile fs f).map c.overlay
  if s.skipEnvironment then .ok c else c.overlayEnvironment s.environment

end Config
end EventHub
