import EventHub.Proofs.Recording.Recorder
set_option autoImplicit false

/-!
Files with something beneath. What others left in a file shows behind its end; whoever writes at the end goes on as
without it, so a recording is the same above whatever lies there.
-/
namespace EventHub

namespace FileSystem

variable {fs : FileSystem} {beneath : Nat → Bytes} {id : Nat}

/-- The same files with something beneath: behind the end of each shows what lies deeper there. -/
def above (fs : FileSystem) (beneath : Nat → Bytes) : FileSystem :=
  { fs with contents := fs.contents.mapIdx fun id bytes => bytes ++ (beneath id).drop bytes.length }

@[simp]
theorem nodeAt?_above (p : Place) : (fs.above beneath).nodeAt? p = fs.nodeAt? p := rfl

theorem content_above (known : id < fs.contents.length) :
    (fs.above beneath).content id = fs.content id ++ (beneath id).drop (fs.content id).length := by
  simp [content, above, known]

theorem nextRefusal_above : (fs.above beneath).nextRefusal = (fs.nextRefusal.1, fs.nextRefusal.2.above beneath) := by
  unfold nextRefusal
  cases h : fs.refusals <;> simp [above, h]

theorem enter_above (names : List String) (start : Place) :
    (fs.above beneath).enter start names = fs.enter start names := by
  induction names generalizing start with
  | nil => rfl
  | cons name names ih => simp only [enter, ih, nodeAt?_above]

theorem locate_above (f : FileName) : (fs.above beneath).locate f = fs.locate f := by
  rw [locate, locate, enter_above]
  rfl

theorem setContent_above (bytes : Bytes) :
    (fs.setContent id bytes).above beneath =
      (fs.above beneath).setContent id (bytes ++ (beneath id).drop bytes.length) := by
  simp [above, setContent, List.mapIdx_set]

theorem put_above (known : id < fs.contents.length) (bytes : Bytes) :
    (fs.above beneath).put (fs.endOf id) bytes =
      ((fs.put (fs.endOf id) bytes).1, (fs.put (fs.endOf id) bytes).2.above beneath) := by
  simp only [put, endOf, setContent_above, content_above known]
  congr 2
  simp [overwrite]

def aboveStep (beneath : Nat → Bytes) {α β : Type} (r : α × β × FileSystem) : α × β × FileSystem :=
  (r.1, r.2.1, r.2.2.above beneath)

theorem eq_of_aboveStep {α β : Type} {step : α × β × FileSystem} {a : α} {b : β} {fs' : FileSystem}
    (h : aboveStep beneath step = (a, b, fs')) : ∃ gs, step = (a, b, gs) ∧ fs' = gs.above beneath := by
  obtain ⟨a', b', gs⟩ := step
  cases h
  exact ⟨gs, rfl, rfl⟩

theorem write_above (known : id < fs.contents.length) (bytes : Bytes) :
    (fs.above beneath).write (fs.endOf id) bytes = aboveStep beneath (fs.write (fs.endOf id) bytes) := by
  have hs := sameBut_nextRefusal id fs
  have hc := contents_nextRefusal fs
  rw [write, write, nextRefusal_above]
  generalize fs.nextRefusal = next at hs hc ⊢
  obtain ⟨r, gs⟩ := next
  have hend : fs.endOf id = gs.endOf id := by rw [endOf, endOf, content, content, hc]
  have hknown : id < gs.contents.length := hc ▸ known
  split
  · rfl
  cases r with
  | some r => simp only [hend, put_above hknown, aboveStep]
  | none =>
    simp only [hend, put_above hknown]
    split <;> rfl

theorem checkedMove_above (f g : FileName) :
    (fs.above beneath).checkedMove f g = (fs.checkedMove f g).map fun gs => gs.above beneath := by
  rw [checkedMove, checkedMove, locate_above, locate_above]
  cases fs.locate f with
  | error e => rfl
  | ok source =>
    cases fs.locate g with
    | error e => rfl
    | ok target =>
      cases source with
      | passed place => rfl
      | entry directory name slash =>
        cases target with
        | passed place => rfl
        | entry toDirectory toName toSlash =>
          have hnode : ∀ d n, (fs.above beneath).entryNode d n = fs.entryNode d n := fun _ _ => rfl
          have hfault : ∀ n p, (fs.above beneath).replaceFault? n p = fs.replaceFault? n p := fun _ _ => rfl
          simp only [bind, Except.bind, hnode, hfault]
          repeat' split
          all_goals rfl

theorem rename_above (f g : FileName) :
    (fs.above beneath).rename f g = ((fs.rename f g).1, (fs.rename f g).2.above beneath) := by
  rw [rename, rename, attempt, attempt, nextRefusal_above]
  cases fs.nextRefusal with
  | mk r gs =>
    cases r with
    | some r => rfl
    | none =>
      dsimp only
      rw [checkedMove_above]
      cases gs.checkedMove f g <;> rfl

theorem above_emptied (fs : FileSystem) (a b : Nat) :
    ((fs.setContent a []).setContent b []).above fs.content = fs := by
  have hcontents : (((fs.setContent a []).setContent b []).above fs.content).contents = fs.contents := by
    refine List.ext_getElem? fun id => ?_
    by_cases hid : id < fs.contents.length
    · by_cases hb : b = id
      · simp [above, setContent, content, hb, hid]
      · by_cases ha : a = id <;> simp [above, setContent, content, ha, hb, hid]
    · simp [above, setContent, hid]
  cases fs
  simpa [above, setContent] using hcontents

end FileSystem

open FileSystem (aboveStep)

variable {fs gs fs' : FileSystem} {beneath : Nat → Bytes}

namespace Writer

variable {w : Writer} {id : Nat} {bytes : Bytes}

theorem Holds.write_above (hw : w.Holds fs id bytes) (piece : Bytes) :
    (fs.above beneath).write w.handle piece = aboveStep beneath (fs.write w.handle piece) := by
  rw [hw.handle, FileSystem.write_above hw.known]

theorem Holds.flush_above (hw : w.Holds fs id bytes) :
    w.flush (fs.above beneath) = aboveStep beneath (w.flush fs) := by
  rw [Writer.flush, Writer.flush, hw.write_above]
  obtain ⟨⟨accepted, e⟩, h, gs⟩ := fs.write w.handle w.pending
  cases e <;> rfl

theorem Holds.take_above (hw : w.Holds fs id bytes) (piece : Bytes) :
    w.take (fs.above beneath) piece = aboveStep beneath (w.take fs piece) := by
  rw [Writer.take, Writer.take, hw.write_above]
  obtain ⟨⟨accepted, e⟩, h, gs⟩ := fs.write w.handle piece
  cases e <;> split <;> rfl

theorem Holds.piece_above (hw : w.Holds fs id bytes) (piece : Bytes) :
    w.write (fs.above beneath) piece = aboveStep beneath (w.write fs piece) := by
  rw [Writer.write, Writer.write, hw.flush_above, hw.take_above]
  split
  · generalize hf : w.flush fs = flushed
    obtain ⟨e | u, v, gs⟩ := flushed
    · rfl
    · exact (hw.flush hf).2.holds.take_above piece
  · rfl

end Writer

namespace Stream

variable {s : Stream} {bytes : Bytes}

theorem Keeps.append_above (hs : s.Keeps fs bytes) (r : Record) :
    s.append (fs.above beneath) r = aboveStep beneath (s.append fs r) := by
  obtain ⟨id, place, -, hb⟩ := hs
  rw [Stream.append, Stream.append, hb.piece_above]
  generalize hw : s.writer.write fs (Text.toUtf8 r.line) = first
  obtain ⟨e | u, w, gs⟩ := first
  · rfl
  · have hb' := (hb.piece hw).holds
    simp only [aboveStep]
    rw [hb'.piece_above]
    obtain ⟨e | u, w', gs'⟩ := w.write gs [0x0A]
    · rfl
    · rfl

theorem Keeps.flush_above (hs : s.Keeps fs bytes) : s.flush (fs.above beneath) = aboveStep beneath (s.flush fs) := by
  obtain ⟨id, place, -, hb⟩ := hs
  rw [Stream.flush, Stream.flush, hb.flush_above]
  obtain ⟨e | u, w, gs⟩ := s.writer.flush fs
  · rfl
  · rfl

theorem Keeps.finish_above (hs : s.Keeps fs bytes) :
    s.finish (fs.above beneath) = ((s.finish fs).1, (s.finish fs).2.above beneath) := by
  rw [Stream.finish, Stream.finish, hs.flush_above]
  generalize hf : s.flush fs = flushed
  obtain ⟨result, t, gs⟩ := flushed
  obtain ⟨id, place, -, hb⟩ := (hs.flush hf).1
  have hdrop : t.drop (gs.above beneath) = (t.drop gs).above beneath := by
    rw [drop, Writer.drop, hb.flush_above]
    rfl
  cases result with
  | error e => simp only [aboveStep, hdrop]
  | ok u =>
    simp only [aboveStep, hdrop, FileSystem.rename_above]
    obtain ⟨e | u, gs'⟩ := (t.drop gs).rename t.file t.final
    · cases t.temporary <;> rfl
    · cases t.temporary <;> rfl

/-- What is found beneath a log that was finished is what its own bytes do not cover. -/
theorem Found.read_above {id : Nat} (h : s.Found fs id bytes) :
    (fs.above beneath).read s.final = .ok (bytes ++ (beneath id).drop bytes.length) := by
  obtain ⟨q, hf⟩ := h.file
  have habove : (fs.above beneath).IsFile s.final q id := by
    refine hf.congr ?_ rfl
    rw [FileSystem.target?, FileSystem.locate_above]
    rfl
  rw [habove.read, FileSystem.content_above h.known, h.content]

end Stream

namespace Recorder

variable {r r' : Recorder} {input output : Bytes}

theorem appendOptional_above {s : Option Stream} {old : Bytes} (hs : ∀ t, s = some t → t.Keeps fs old) (e : Event) :
    appendOptional s (fs.above beneath) e = aboveStep beneath (appendOptional s fs e) := by
  cases s with
  | none => rfl
  | some s =>
    rw [appendOptional, appendOptional, (hs s rfl).append_above]
    obtain ⟨result, t, gs⟩ := s.append fs (.ofEvent e)
    rfl

theorem flushOptional_above {s : Option Stream} {bytes : Bytes} (hs : ∀ t, s = some t → t.Keeps fs bytes) :
    flushOptional s (fs.above beneath) = aboveStep beneath (flushOptional s fs) := by
  cases s with
  | none => rfl
  | some s =>
    rw [flushOptional, flushOptional, (hs s rfl).flush_above]
    obtain ⟨result, t, gs⟩ := s.flush fs
    rfl

theorem Keeps.recordInput_above (hr : r.Keeps fs input output) (e : Event) :
    r.recordInput (fs.above beneath) e = aboveStep beneath (r.recordInput fs e) := by
  rw [Recorder.recordInput, Recorder.recordInput, appendOptional_above hr.input]
  obtain ⟨result, s, gs⟩ := appendOptional r.input fs e
  rfl

theorem Keeps.recordOutput_above (hr : r.Keeps fs input output) (e : Event) :
    r.recordOutput (fs.above beneath) e = aboveStep beneath (r.recordOutput fs e) := by
  rw [Recorder.recordOutput, Recorder.recordOutput, appendOptional_above hr.output]
  obtain ⟨result, s, gs⟩ := appendOptional r.output fs e
  rfl

theorem Keeps.flush_above (hr : r.Keeps fs input output) :
    r.flush (fs.above beneath) = aboveStep beneath (r.flush fs) := by
  rw [Recorder.flush, Recorder.flush, flushOptional_above hr.input]
  generalize hf : flushOptional r.input fs = flushed
  obtain ⟨e | u, s, gs⟩ := flushed
  · rfl
  · obtain ⟨hsteps, hs⟩ := flushOptional_keeps hr.input hf
    simp only [aboveStep]
    rw [flushOptional_above (hr.stepInput hsteps hs).output]
    obtain ⟨result, t, gs'⟩ := flushOptional r.output gs
    rfl

theorem finishOptional_above {s : Option Stream} {bytes : Bytes} (hs : ∀ t, s = some t → t.Keeps fs bytes) :
    finishOptional s (fs.above beneath) = ((finishOptional s fs).1, (finishOptional s fs).2.above beneath) := by
  cases s with
  | none => rfl
  | some s =>
    rw [finishOptional, finishOptional, (hs s rfl).finish_above]
    obtain ⟨e | f, gs⟩ := s.finish fs
    · rfl
    · rfl

theorem Keeps.finish_above {files : List FileName} (hr : r.Keeps fs input output)
    (h : r.finish (fs.above beneath) = (.ok files, r', fs')) :
    ∃ gs, r.finish fs = (.ok files, r', gs) ∧ fs' = gs.above beneath := by
  rw [Recorder.finish, finishOptional_above hr.input] at h
  rw [Recorder.finish]
  generalize hi : finishOptional r.input fs = first at h ⊢
  obtain ⟨e | a, gs⟩ := first
  · cases h
  · simp only [finishOptional_above (hr.afterInput hi)] at h
    dsimp only
    generalize finishOptional r.output gs = second at h ⊢
    obtain ⟨e | b, gs'⟩ := second
    · cases h
    · cases h
      exact ⟨gs', rfl, rfl⟩

end Recorder
end EventHub
