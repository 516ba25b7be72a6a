import EventHub.Recording.Error
import EventHub.Recording.Record
import EventHub.Text.Blank
set_option autoImplicit false

namespace EventHub.Log

def lineEnd : UInt8 := 0x0A
def carriageReturn : UInt8 := 0x0D

/-- One carriage return in front of a line's end belongs to the end. -/
def dropCarriage (line : Bytes) : Bytes :=
  if line.getLast? = some carriageReturn then line.dropLast else line

/-- The lines of a log. The last one needs no end, but an end makes no line after it. -/
def lines (bytes : Bytes) : List Bytes :=
  let pieces := Text.splitOn lineEnd bytes
  let last := pieces.getLast?.getD []
  pieces.dropLast.map dropCarriage ++ (if last.isEmpty then [] else [last])

inductive Fault where
  | notText
  | notRecord (line : Nat)
  deriving DecidableEq, Repr

/-- The record of the line of a given number, or none for a blank line. -/
def readLine (number : Nat) (line : Bytes) : Except Fault (Option Record) :=
  match Text.ofUtf8? line with
  | none => .error .notText
  | some s =>
    if Text.isAllBlank s.toList then .ok none
    else match Record.ofLine? s with
      | none => .error (.notRecord number)
      | some r => .ok (some r)

def readLines (number : Nat) : List Bytes → Except Fault (List Record)
  | [] => .ok []
  | line :: rest =>
    match readLine number line with
    | .error e => .error e
    | .ok r =>
      match readLines (number + 1) rest with
      | .error e => .error e
      | .ok rs => .ok (r.toList ++ rs)

def records (bytes : Bytes) : Except Fault (List Record) := readLines 1 (lines bytes)

def read (fs : FileSystem) (f : FileName) : Except RecordingError (List Record) :=
  match fs.read f with
  | .error e => .error (.readFailed f e)
  | .ok bytes =>
    match records bytes with
    | .error .notText => .error (.readFailed f .notText)
    | .error (.notRecord line) => .error (.decodeFailed f line "")
    | .ok rs => .ok rs

end EventHub.Log
