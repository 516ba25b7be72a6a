import EventHub.Recording.Error
import EventHub.Recording.Record
import EventHub.Recording.Writer
set_option autoImplicit false

/-!
Open recordings. One that is to vanish with an aborted run is written under a temporary name and gets its
own name when it is finished; the others are written where they stay.
-/
namespace EventHub

structure Stream where
  final : FileName
  temporary : Bool
  writer : Writer
  written : Nat
  deriving DecidableEq, Repr

namespace Stream

def temporaryName (f : FileName) : FileName := ⟨f.text ++ ".tmp"⟩

def writtenName (final : FileName) (temporary : Bool) : FileName :=
  if temporary then temporaryName final else final

def file (s : Stream) : FileName := writtenName s.final s.temporary

def start (fs : FileSystem) (final : FileName) (temporary : Bool) :
    Except RecordingError Stream × FileSystem :=
  match fs.create (writtenName final temporary) with
  | (.error e, fs) => (.error (.openFailed (writtenName final temporary) e), fs)
  | (.ok h, fs) => (.ok ⟨final, temporary, .onto h, 0⟩, fs)

/-- The line of a record and then its end, each a piece of its own. -/
def append (s : Stream) (fs : FileSystem) (r : Record) :
    Except RecordingError Unit × Stream × FileSystem :=
  match s.writer.write fs (Text.toUtf8 r.line) with
  | (.error e, w, fs) => (.error (.writeFailed s.file e), { s with writer := w }, fs)
  | (.ok (), w, fs) =>
    match w.write fs [0x0A] with
    | (.error e, w, fs) => (.error (.writeFailed s.file e), { s with writer := w }, fs)
    | (.ok (), w, fs) => (.ok (), { s with writer := w, written := s.written + 1 }, fs)

def flush (s : Stream) (fs : FileSystem) : Except RecordingError Unit × Stream × FileSystem :=
  match s.writer.flush fs with
  | (.error e, w, fs) => (.error (.writeFailed s.file e), { s with writer := w }, fs)
  | (.ok (), w, fs) => (.ok (), { s with writer := w }, fs)

def drop (s : Stream) (fs : FileSystem) : FileSystem := s.writer.drop fs

/-- Gives the file its own name. If its records cannot be written out it keeps the name that it has. -/
def finish (s : Stream) (fs : FileSystem) : Except RecordingError FileName × FileSystem :=
  match s.flush fs with
  | (.error e, s, fs) => (.error e, s.drop fs)
  | (.ok (), s, fs) =>
    let fs := s.drop fs
    if s.temporary then
      match fs.rename s.file s.final with
      | (.error e, fs) => (.error (.renameFailed s.file s.final e), fs)
      | (.ok (), fs) => (.ok s.final, fs)
    else (.ok s.final, fs)

/-- Takes a temporary file away and finishes any other. -/
def discard (s : Stream) (fs : FileSystem) : Except RecordingError Unit × FileSystem :=
  if s.temporary then
    let (_, s, fs) := s.flush fs
    let fs := s.drop fs
    match fs.remove s.file with
    | (.error e, fs) => (.error (.removeFailed s.file e), fs)
    | (.ok (), fs) => (.ok (), fs)
  else
    match s.finish fs with
    | (.error e, fs) => (.error e, fs)
    | (.ok _, fs) => (.ok (), fs)

end Stream
end EventHub
