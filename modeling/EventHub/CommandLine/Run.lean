import EventHub.CommandLine.Arguments
import EventHub.Config.Load
import EventHub.Demo
import EventHub.Recording.Log
set_option autoImplicit false

namespace EventHub.CommandLine

structure Outcome where
  code : Nat
  output : String
  error : Option String
  deriving DecidableEq, Repr

def Outcome.printed (text : String) : Outcome := ⟨0, text, none⟩

def Outcome.failed (message : String) : Outcome := ⟨1, "", some ("Error: " ++ message)⟩

def versionText : String := "evmux 0.1.0\n"

def usageText : String := "Usage: evmux [OPTIONS] <dump LOG | demo | config>\n"

def Stop.outcome : Stop → Outcome
  | .usage => ⟨2, "", none⟩
  | .help => .printed usageText
  | .version => .printed versionText

/-- A record as `id <- address [category] payload`, without the parts that it does not have. -/
def recordText (r : Record) : String :=
  let address := match r.address with
    | none => ""
    | some a => " <- " ++ a.text
  let payload := match r.payload with
    | none => ""
    | some p => " " ++ p.print
  r.id.text ++ address ++ " [" ++ r.category.name ++ "]" ++ payload

def dump (files : FileSystem) (log : FileName) (json : Bool) : Outcome :=
  match Log.read files log with
  | .error _ => .failed ("cannot dump " ++ log.text)
  | .ok records =>
    .printed (String.join (records.map fun r => (if json then r.line else recordText r) ++ "\n"))

def sources (environment : Environment) (home : FileName) (r : Request) : Config.Sources where
  home := home
  environment := environment
  global := none
  file := r.config
  skipGlobal := r.skipGlobal
  skipEnvironment := false

def configOf (files : FileSystem) (environment : Environment) (home : FileName) (r : Request) :
    Except ConfigError Config :=
  (Config.load files (sources environment home r)).map fun c =>
    if r.debug then { c with debug := true } else c

/-- The configuration is found before anything else, also where it is not needed. -/
def perform (files : FileSystem) (environment : Environment) (home : FileName) (r : Request) :
    Outcome × FileSystem :=
  match configOf files environment home r with
  | .error e => (.failed ("Config error: " ++ ErrorCode.message e), files)
  | .ok config =>
    match r.command with
    | .dump log json => (dump files log json, files)
    | .config => (.printed config.toToml, files)
    | .demo events directory =>
      match Demo.run config events directory files with
      | (.error e, files) => (.failed e.message, files)
      | (.ok summary, files) => (.printed summary.text, files)

def run (files : FileSystem) (environment : Environment) (home : FileName) (arguments : List String) :
    Outcome × FileSystem :=
  match read arguments with
  | .error stop => (stop.outcome, files)
  | .ok r => perform files environment home r

end EventHub.CommandLine
