import EventHub.Proofs.Recording.Recorded
set_option autoImplicit false

/-!
What the log of a stream gets from appends that may fail. An append hands over the line and its end one after the
other, so a refusal can come before the line, inside a line that is too large to be collected, or between the two.
-/
namespace EventHub

/-- A call of `append`: the record that it was given, how many bytes the writer had collected by then, what it returned
and what the log got from it. -/
structure Attempt where
  record : Record
  collected : Nat
  result : Except RecordingError Unit
  left : Bytes

namespace Attempt

def line (a : Attempt) : Bytes := Text.toUtf8 a.record.line

def isTaken (a : Attempt) : Bool := a.result.isOk

/-- What an append can leave. One that failed left nothing if what had been collected before could not be passed on; it
left any part of a line that is too large to be collected; and it left the whole of a line that filled the buffer to the
last byte, because then nothing but its end was refused. -/
inductive Leaves (file : FileName) (a : Attempt) : Prop where
  | taken (result : a.result = .ok ()) (left : a.left = a.record.bytes)
  | nothing {e : OsError} (result : a.result = .error (.writeFailed file e))
      (full : Writer.capacity < a.collected + a.line.length) (left : a.left = [])
  | part {e : OsError} (k : Nat) (result : a.result = .error (.writeFailed file e))
      (large : Writer.capacity ≤ a.line.length) (left : a.left = a.line.take k)
  | line {e : OsError} (result : a.result = .error (.writeFailed file e)) (collected : 0 < a.collected)
      (fills : a.collected + a.line.length = Writer.capacity) (left : a.left = a.line)

def taken (as : List Attempt) : List Record := (as.filter isTaken).map record

end Attempt

namespace Stream

variable {s t : Stream} {fs fs' : FileSystem}

/-- What the log of a stream has got so far, in its file or collected for its end. -/
def reached (s : Stream) (fs : FileSystem) : Bytes :=
  match s.writer.handle.node with
  | .file id => fs.content id ++ s.writer.pending
  | _ => []

theorem Keeps.reached {bytes : Bytes} (hs : s.Keeps fs bytes) : s.reached fs = bytes := by
  obtain ⟨id, place, hl, hb⟩ := hs
  rw [Stream.reached, hl.node]
  exact hb.bytes

/-- The turns of a recording in which any append and any flush may be refused. What happens besides leaves its file
alone. -/
inductive Tries : Stream → FileSystem → List Attempt → Stream → FileSystem → Prop
  | done (s : Stream) (fs : FileSystem) : Tries s fs [] s fs
  | append {s t u : Stream} {fs gs fs' : FileSystem} {r : Record} {result : Except RecordingError Unit}
      {as : List Attempt} (appended : s.append fs r = (result, t, gs)) (rest : Tries t gs as u fs') :
      Tries s fs (⟨r, s.writer.pending.length, result, (t.reached gs).drop (s.reached fs).length⟩ :: as) u fs'
  | flush {s t u : Stream} {fs gs fs' : FileSystem} {as : List Attempt} {result : Except RecordingError Unit}
      (flushed : s.flush fs = (result, t, gs)) (rest : Tries t gs as u fs') : Tries s fs as u fs'
  | beside {s u : Stream} {fs gs fs' : FileSystem} {as : List Attempt} (spared : s.Spared fs gs)
      (rest : Tries s gs as u fs') : Tries s fs as u fs'

/-- Whether it fails or not, an append only adds to the log. -/
theorem append_leaves {id : Nat} {old : Bytes} {r : Record} {result : Except RecordingError Unit}
    (hs : s.writer.Holds fs id old) (h : s.append fs r = (result, t, fs')) :
    ∃ left, Grows s fs id (old ++ left) t fs' ∧
      Attempt.Leaves s.file ⟨r, s.writer.pending.length, result, left⟩ := by
  rw [append] at h
  generalize hw : s.writer.write fs (Text.toUtf8 r.line) = first at h
  obtain ⟨result, w, gs⟩ := first
  cases hs.handed hw with
  | before passes full =>
    cases h
    exact ⟨[], ⟨(List.append_nil old).symm ▸ passes, rfl, rfl⟩, .nothing rfl full rfl⟩
  | cut k passes large =>
    cases h
    exact ⟨_, ⟨passes, rfl, rfl⟩, .part k rfl large rfl⟩
  | taken passes room =>
    dsimp only at h
    generalize hw' : w.write gs [0x0A] = second at h
    obtain ⟨result, w', gs'⟩ := second
    cases passes.holds.handed hw' with
    | before passes' full =>
      cases h
      have hfills : 0 < s.writer.pending.length ∧
          s.writer.pending.length + (Text.toUtf8 r.line).length = Writer.capacity :=
        room.resolve_left (Nat.not_lt.2 (Nat.le_of_lt_succ full))
      exact ⟨_, ⟨⟨passes'.holds, passes.sameBut.trans passes'.sameBut⟩, rfl, rfl⟩, .line rfl hfills.1 hfills.2 rfl⟩
    | cut k passes' large => exact absurd large (by decide)
    | taken passes' room' =>
      cases h
      refine ⟨r.bytes, ⟨⟨?_, passes.sameBut.trans passes'.sameBut⟩, rfl, rfl⟩, .taken rfl rfl⟩
      rw [Record.bytes, ← List.append_assoc]
      exact passes'.holds

theorem Keeps.attempt {old : Bytes} {r : Record} {result : Except RecordingError Unit}
    (hs : s.Keeps fs old) (h : s.append fs r = (result, t, fs')) :
    t.Keeps fs' (old ++ (t.reached fs').drop (s.reached fs).length) ∧ Steps s fs t fs' ∧
      Attempt.Leaves s.file ⟨r, s.writer.pending.length, result, (t.reached fs').drop (s.reached fs).length⟩ := by
  have hold := hs.reached
  obtain ⟨id, place, hl, hb⟩ := hs
  obtain ⟨left, hg, hleaves⟩ := append_leaves hb h
  have hkeeps : t.Keeps fs' (old ++ left) := ⟨id, place, hl.grows hg, hg.holds⟩
  have hleft : (t.reached fs').drop (s.reached fs).length = left := by
    rw [hkeeps.reached, hold, List.drop_left]
  rw [hleft]
  exact ⟨hkeeps, hg.steps hl, hleaves⟩

theorem Tries.keeps {as : List Attempt} {bytes : Bytes} (h : Tries s fs as t fs') (hs : s.Keeps fs bytes) :
    t.Keeps fs' (bytes ++ as.flatMap Attempt.left) ∧ t.final = s.final ∧ ∀ a ∈ as, a.Leaves s.file := by
  induction h generalizing bytes with
  | done s fs => exact ⟨(List.append_nil bytes).symm ▸ hs, rfl, List.forall_mem_nil _⟩
  | append appended _ ih =>
    obtain ⟨hk, hsteps, hleaves⟩ := hs.attempt appended
    obtain ⟨hk, hfinal, has⟩ := ih hk
    refine ⟨?_, hfinal.trans hsteps.final, List.forall_mem_cons.2 ⟨hleaves, hsteps.file ▸ has⟩⟩
    rwa [List.append_assoc] at hk
  | flush flushed _ ih =>
    obtain ⟨hk, hsteps⟩ := hs.flush flushed
    obtain ⟨hk, hfinal, has⟩ := ih hk
    exact ⟨hk, hfinal.trans hsteps.final, hsteps.file ▸ has⟩
  | beside spared _ ih => exact ih (hs.spared spared)

end Stream

/-- A log that was started, appended to any number of times whether that failed or not, and finished. -/
def Attempted (before : FileSystem) (log : FileName) (temporary : Bool) (as : List Attempt) (after : FileSystem) :
    Prop :=
  ∃ p s fs t fs' f, before.Ready (Stream.writtenName log temporary) p ∧
    Stream.start before log temporary = (.ok s, fs) ∧ s.Tries fs as t fs' ∧ t.finish fs' = (.ok f, after)

theorem Attempted.read {before after : FileSystem} {log : FileName} {temporary : Bool} {as : List Attempt}
    (h : Attempted before log temporary as after) :
    after.read log = .ok (as.flatMap Attempt.left) ∧ ∀ a ∈ as, a.Leaves (Stream.writtenName log temporary) := by
  obtain ⟨p, s, fs, t, fs', f, ready, started, tries, finished⟩ := h
  obtain ⟨id, rfl, ho⟩ := Stream.start_eq_ok ready started
  obtain ⟨ht, hfinal, has⟩ := tries.keeps (Stream.keeps_anew (Stream.lies_of_opened ready.bottom ho) ho.empty)
  have hread := ht.finish finished
  rw [hfinal, List.nil_append] at hread
  exact ⟨hread, has⟩

end EventHub
