import EventHub.FileSystem
set_option autoImplicit false

/-!
Writers that collect small pieces before they pass them on. What a failed pass did not get rid of stays
collected, so nothing is lost and nothing written twice; only pieces too large to be collected are
passed on at once and are not kept.
-/
namespace EventHub

structure Writer where
  handle : FileSystem.Handle
  pending : Bytes
  deriving DecidableEq, Repr

namespace Writer

def capacity : Nat := 8192

def onto (h : FileSystem.Handle) : Writer := ⟨h, []⟩

def flush (w : Writer) (fs : FileSystem) : Except OsError Unit × Writer × FileSystem :=
  let (done, handle, fs) := fs.write w.handle w.pending
  let w : Writer := ⟨handle, w.pending.drop done.accepted⟩
  match done.error? with
  | some e => (.error e, w, fs)
  | none => (.ok (), w, fs)

/-- Takes a piece up, if the one before it has been passed on as far as needed. -/
def take (w : Writer) (fs : FileSystem) (bytes : Bytes) : Except OsError Unit × Writer × FileSystem :=
  if capacity ≤ bytes.length then
    let (done, handle, fs) := fs.write w.handle bytes
    match done.error? with
    | some e => (.error e, { w with handle := handle }, fs)
    | none => (.ok (), { w with handle := handle }, fs)
  else (.ok (), { w with pending := w.pending ++ bytes }, fs)

def write (w : Writer) (fs : FileSystem) (bytes : Bytes) : Except OsError Unit × Writer × FileSystem :=
  if capacity < w.pending.length + bytes.length then
    match w.flush fs with
    | (.error e, w, fs) => (.error e, w, fs)
    | (.ok (), w, fs) => w.take fs bytes
  else w.take fs bytes

/-- Lets go of the file. What is still collected is passed on as far as it goes. -/
def drop (w : Writer) (fs : FileSystem) : FileSystem := (w.flush fs).2.2

end Writer
end EventHub
