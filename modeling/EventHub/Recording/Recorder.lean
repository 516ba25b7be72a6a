import EventHub.Channel.Config
import EventHub.Recording.Stream
set_option autoImplicit false

namespace EventHub

structure Recorder where
  input : Option Stream
  output : Option Stream
  deriving DecidableEq, Repr

namespace Recorder

def idle : Recorder := ⟨none, none⟩

def isRecording (r : Recorder) : Bool := r.input.isSome || r.output.isSome

def startOptional (fs : FileSystem) (log : Option FileName) (temporary : Bool) :
    Except RecordingError (Option Stream) × FileSystem :=
  match log with
  | none => (.ok none, fs)
  | some f =>
    match Stream.start fs f temporary with
    | (.error e, fs) => (.error e, fs)
    | (.ok s, fs) => (.ok (some s), fs)

def dropOptional (s : Option Stream) (fs : FileSystem) : FileSystem :=
  match s with
  | none => fs
  | some s => s.drop fs

def drop (r : Recorder) (fs : FileSystem) : FileSystem := dropOptional r.output (dropOptional r.input fs)

/-- Starts the recordings that are asked for, both or none, and only then lets go of those before. -/
def start (r : Recorder) (fs : FileSystem) (c : ChannelConfig) :
    Except RecordingError Unit × Recorder × FileSystem :=
  match startOptional fs c.input? c.deleteOnAbort with
  | (.error e, fs) => (.error e, r, fs)
  | (.ok input, fs) =>
    match startOptional fs c.output? c.deleteOnAbort with
    | (.error e, fs) =>
      match input with
      | none => (.error e, r, fs)
      | some s => (.error e, r, (s.discard fs).2)
    | (.ok output, fs) => (.ok (), ⟨input, output⟩, r.drop fs)

def appendOptional (s : Option Stream) (fs : FileSystem) (e : Event) :
    Except RecordingError Unit × Option Stream × FileSystem :=
  match s with
  | none => (.ok (), none, fs)
  | some s =>
    match s.append fs (.ofEvent e) with
    | (result, s, fs) => (result, some s, fs)

def recordInput (r : Recorder) (fs : FileSystem) (e : Event) :
    Except RecordingError Unit × Recorder × FileSystem :=
  match appendOptional r.input fs e with
  | (result, s, fs) => (result, { r with input := s }, fs)

def recordOutput (r : Recorder) (fs : FileSystem) (e : Event) :
    Except RecordingError Unit × Recorder × FileSystem :=
  match appendOptional r.output fs e with
  | (result, s, fs) => (result, { r with output := s }, fs)

def flushOptional (s : Option Stream) (fs : FileSystem) :
    Except RecordingError Unit × Option Stream × FileSystem :=
  match s with
  | none => (.ok (), none, fs)
  | some s =>
    match s.flush fs with
    | (result, s, fs) => (result, some s, fs)

def flush (r : Recorder) (fs : FileSystem) : Except RecordingError Unit × Recorder × FileSystem :=
  match flushOptional r.input fs with
  | (.error e, s, fs) => (.error e, { r with input := s }, fs)
  | (.ok (), s, fs) =>
    match flushOptional r.output fs with
    | (result, t, fs) => (result, ⟨s, t⟩, fs)

def finishOptional (s : Option Stream) (fs : FileSystem) :
    Except RecordingError (List FileName) × FileSystem :=
  match s with
  | none => (.ok [], fs)
  | some s =>
    match s.finish fs with
    | (.error e, fs) => (.error e, fs)
    | (.ok f, fs) => (.ok [f], fs)

/-- Finishes both, whatever happens to the first; gives the names of the logs or the first failure. -/
def finish (r : Recorder) (fs : FileSystem) :
    Except RecordingError (List FileName) × Recorder × FileSystem :=
  match finishOptional r.input fs with
  | (input, fs) =>
    match finishOptional r.output fs with
    | (output, fs) =>
      match input, output with
      | .ok a, .ok b => (.ok (a ++ b), idle, fs)
      | .error e, _ => (.error e, idle, fs)
      | _, .error e => (.error e, idle, fs)

def discardOptional (s : Option Stream) (fs : FileSystem) : Except RecordingError Unit × FileSystem :=
  match s with
  | none => (.ok (), fs)
  | some s => s.discard fs

def discard (r : Recorder) (fs : FileSystem) : Except RecordingError Unit × Recorder × FileSystem :=
  match discardOptional r.input fs with
  | (input, fs) =>
    match discardOptional r.output fs with
    | (output, fs) =>
      match input, output with
      | .error e, _ => (.error e, idle, fs)
      | .ok (), result => (result, idle, fs)

end Recorder
end EventHub
