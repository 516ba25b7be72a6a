import EventHub.Query
import EventHub.Recording.Recorder
set_option autoImplicit false

namespace EventHub

inductive ChannelError where
  | illegalWait (channel : String) (mode : WaitMode) (reason : String)
  | flagConflict (channel : String)
  | closed (channel : String)
  | recording (cause : RecordingError)
  deriving DecidableEq, Repr

def ChannelError.channelText (name : String) : String := "ch:<" ++ name ++ ">"

instance : ErrorCode ChannelError where
  code
    | .illegalWait _ _ _ => "CHANNEL_ILLEGAL_WAIT"
    | .flagConflict _ => "CHANNEL_FLAG_CONFLICT"
    | .closed _ => "CHANNEL_CLOSED"
    | .recording _ => "CHANNEL_RECORDING"
  recoverable
    | .recording cause => ErrorCode.recoverable cause
    | _ => false
  message
    | .illegalWait channel mode reason =>
      s!"illegal {mode} wait on " ++ ChannelError.channelText channel ++ s!": {reason}"
    | .flagConflict channel =>
      "channel " ++ ChannelError.channelText channel ++ " is already attached to another event flag"
    | .closed channel => "channel " ++ ChannelError.channelText channel ++ " is closed"
    | .recording cause => ErrorCode.message cause

/-- The bit that a channel holds, and of which flag. -/
structure Binding where
  flag : Nat
  bit : Nat
  deriving DecidableEq, Repr

inductive Outlet where
  | hub (id : Nat)
  | collector (id : Nat)
  deriving DecidableEq, Repr

/-- A plain channel passes posted events on, a bare one only records them, and a hub's channel also gets
the events of one sink. -/
inductive ChannelKind where
  | plain (outlet : Option Outlet)
  | bare
  | ofHub (hub sink : Nat) (outlet : Outlet)
  deriving DecidableEq, Repr

structure Channel where
  name : String
  kind : ChannelKind
  isOpen : Bool
  binding : Option Binding
  recorder : Recorder
  deriving DecidableEq, Repr

namespace Channel

def make (name : String) (kind : ChannelKind) : Channel := ⟨name, kind, false, none, .idle⟩

def outlet? (c : Channel) : Option Outlet :=
  match c.kind with
  | .plain outlet => outlet
  | .bare => none
  | .ofHub _ _ outlet => some outlet

abbrev Outcome := Except ChannelError Unit × Channel × FileSystem

def ofRecorder (c : Channel) {α : Type} (r : Except RecordingError α × Recorder × FileSystem) : Outcome :=
  match r with
  | (.error e, recorder, fs) => (.error (.recording e), { c with recorder := recorder }, fs)
  | (.ok _, recorder, fs) => (.ok (), { c with recorder := recorder }, fs)

/-- A channel is closed whatever becomes of its recordings. -/
def close (c : Channel) (fs : FileSystem) : Outcome :=
  if c.isOpen then { c with isOpen := false }.ofRecorder (c.recorder.finish fs) else (.ok (), c, fs)

def init (c : Channel) (fs : FileSystem) (config : ChannelConfig) : Outcome :=
  match c.close fs with
  | (.error e, c, fs) => (.error e, c, fs)
  | (.ok (), c, fs) =>
    match c.ofRecorder (c.recorder.start fs config) with
    | (.error e, c, fs) => (.error e, c, fs)
    | (.ok (), c, fs) => (.ok (), { c with isOpen := true }, fs)

def abort (c : Channel) (fs : FileSystem) : Outcome :=
  if c.isOpen then
    match c.ofRecorder (c.recorder.discard fs) with
    | (discarded, c, fs) =>
      match c.close fs with
      | (.error e, c, fs) => (.error e, c, fs)
      | (.ok (), c, fs) => (discarded, c, fs)
  else (.ok (), c, fs)

def flush (c : Channel) (fs : FileSystem) : Outcome := c.ofRecorder (c.recorder.flush fs)

/-- Records what is posted. It is for the caller to pass the event on when this succeeds. -/
def recordPost (c : Channel) (fs : FileSystem) (e : Event) : Outcome :=
  if c.isOpen then c.ofRecorder (c.recorder.recordOutput fs e) else (.error (.closed c.name), c, fs)

def recordFetch (c : Channel) (fs : FileSystem) (e : Event) : Outcome :=
  c.ofRecorder (c.recorder.recordInput fs e)

end Channel
end EventHub
