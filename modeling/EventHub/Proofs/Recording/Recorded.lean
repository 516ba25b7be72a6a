import EventHub.Proofs.Reach
import EventHub.Proofs.Recording.Stream
set_option autoImplicit false

namespace EventHub

/-- A name under which a log can be written: it leads to a place where nothing but perhaps an older file stands. -/
structure FileSystem.Ready (fs : FileSystem) (f : FileName) (p : Place) : Prop where
  leads : fs.Leads f p
  free : fs.Free p
  bottom : fs.hasEntries p = false
  known : ∀ id, fs.nodeAt? p = some (.file id) → id < fs.contents.length

theorem FileSystem.Ready.sameAt {fs fs' : FileSystem} {f : FileName} {p : Place} (h : fs.Ready f p)
    (ht : fs'.target? f = fs.target? f) (hs : FileSystem.SameAt p fs fs')
    (hl : fs.contents.length ≤ fs'.contents.length) : fs'.Ready f p where
  leads := h.leads.congr ht
  free node hn := h.free node (hs.node ▸ hn)
  bottom := hs.bottom h.bottom
  known id hn := Nat.lt_of_lt_of_le (h.known id (hs.node ▸ hn)) hl

namespace Stream

/-- The turns of a recording that takes these records. Nothing fails but perhaps a flush, and what happens besides
leaves its file alone. -/
inductive Takes : Stream → FileSystem → List Record → Stream → FileSystem → Prop where
  | done (s : Stream) (fs : FileSystem) : Takes s fs [] s fs
  | append {s t u : Stream} {fs gs fs' : FileSystem} {r : Record} {rs : List Record}
      (appended : s.append fs r = (.ok (), t, gs)) (rest : Takes t gs rs u fs') : Takes s fs (r :: rs) u fs'
  | flush {s t u : Stream} {fs gs fs' : FileSystem} {rs : List Record} {result : Except RecordingError Unit}
      (flushed : s.flush fs = (result, t, gs)) (rest : Takes t gs rs u fs') : Takes s fs rs u fs'
  | beside {s u : Stream} {fs gs fs' : FileSystem} {rs : List Record} (spared : s.Spared fs gs)
      (rest : Takes s gs rs u fs') : Takes s fs rs u fs'

variable {s t : Stream} {fs fs' : FileSystem} {log : FileName} {temporary : Bool}

def anew (log : FileName) (temporary : Bool) (id : Nat) : Stream := ⟨log, temporary, .onto ⟨.file id, 0⟩, 0⟩

theorem start_eq_ok {p : Place} (ready : fs.Ready (writtenName log temporary) p)
    (h : start fs log temporary = (.ok s, fs')) :
    ∃ id, s = anew log temporary id ∧ fs.Opened (writtenName log temporary) p ⟨.file id, 0⟩ id fs' := by
  rw [start] at h
  generalize hc : fs.create (writtenName log temporary) = created at h
  obtain ⟨e | handle, gs⟩ := created
  · cases h
  · cases h
    obtain ⟨id, ho⟩ := FileSystem.opened_of_create ready.leads ready.free ready.known hc
    obtain rfl := ho.handle
    exact ⟨id, rfl, ho⟩

theorem lies_of_opened {id : Nat} {p : Place} (bottom : fs.hasEntries p = false)
    (h : fs.Opened (writtenName log temporary) p ⟨.file id, 0⟩ id fs') : (anew log temporary id).Lies fs' id p where
  node := rfl
  known := h.known
  file := h.file
  bottom := h.reach.entries p (by simpa using FileSystem.isInside_self p) bottom

theorem keeps_anew {id : Nat} {p : Place} (hl : (anew log temporary id).Lies fs id p) (hc : fs.content id = []) :
    (anew log temporary id).Keeps fs [] :=
  ⟨id, p, hl, hl.known, by rw [FileSystem.endOf, hc]; rfl, by rw [hc]; rfl⟩

theorem start_keeps {p : Place} (ready : fs.Ready (writtenName log temporary) p)
    (h : start fs log temporary = (.ok s, fs')) : s.Keeps fs' [] ∧ s.final = log := by
  obtain ⟨id, rfl, ho⟩ := start_eq_ok ready h
  exact ⟨keeps_anew (lies_of_opened ready.bottom ho) ho.empty, rfl⟩

theorem Takes.keeps {rs : List Record} {bytes : Bytes} (h : Takes s fs rs t fs') (hs : s.Keeps fs bytes) :
    t.Keeps fs' (bytes ++ rs.flatMap Record.bytes) ∧ t.final = s.final := by
  induction h generalizing bytes with
  | done s fs => simpa using hs
  | append appended _ ih =>
    obtain ⟨hk, hsteps⟩ := hs.append appended
    obtain ⟨hk, hfinal⟩ := ih hk
    exact ⟨by simpa using hk, hfinal.trans hsteps.final⟩
  | flush flushed _ ih =>
    obtain ⟨id, place, hl, hb⟩ := hs
    obtain ⟨hg, -⟩ := flush_grows hb flushed
    obtain ⟨hk, hfinal⟩ := ih ⟨id, place, hl.grows hg, hg.holds⟩
    exact ⟨hk, hfinal.trans hg.final⟩
  | beside spared _ ih => exact ih (hs.spared spared)

theorem Keeps.finish {bytes : Bytes} {f : FileName} (hs : s.Keeps fs bytes) (h : s.finish fs = (.ok f, fs')) :
    fs'.read s.final = .ok bytes := by
  obtain ⟨id, place, hl, hb⟩ := hs
  exact (finish_finished hl hb h).2.read

end Stream

/-- A log that was started, took these records and was finished. -/
def Recorded (before : FileSystem) (log : FileName) (temporary : Bool) (rs : List Record) (after : FileSystem) : Prop :=
  ∃ p s fs t fs' f, before.Ready (Stream.writtenName log temporary) p ∧
    Stream.start before log temporary = (.ok s, fs) ∧ s.Takes fs rs t fs' ∧ t.finish fs' = (.ok f, after)

theorem Recorded.read {before after : FileSystem} {log : FileName} {temporary : Bool} {rs : List Record}
    (h : Recorded before log temporary rs after) : after.read log = .ok (rs.flatMap Record.bytes) := by
  obtain ⟨p, s, fs, t, fs', f, ready, started, takes, finished⟩ := h
  obtain ⟨hs, hfinal⟩ := Stream.start_keeps ready started
  obtain ⟨ht, htfinal⟩ := takes.keeps hs
  have hread := ht.finish finished
  rwa [htfinal, hfinal, List.nil_append] at hread

structure Writer.Unrefused (w : Writer) (fs : FileSystem) : Prop where
  refusals : fs.refusals = []
  node : ∃ id, w.handle.node = .file id

namespace Writer

variable {w : Writer} {fs : FileSystem}

theorem Unrefused.passes (h : w.Unrefused fs) (bytes : Bytes) : ∃ handle fs',
    fs.write w.handle bytes = (⟨bytes.length, none⟩, handle, fs') ∧ ∀ pending, Unrefused ⟨handle, pending⟩ fs' := by
  obtain ⟨id, hnode⟩ := h.node
  rw [FileSystem.write]
  split
  · rename_i hempty
    have hnil : bytes = [] := List.isEmpty_iff.1 hempty
    exact ⟨w.handle, fs, by rw [hnil]; rfl, fun _ => ⟨h.refusals, id, hnode⟩⟩
  · have hnext : fs.nextRefusal = (none, fs) := by rw [FileSystem.nextRefusal, h.refusals]
    have hdevice : w.handle.node ≠ .device true := by
      rw [hnode]
      intro h
      cases h
    rw [hnext]
    dsimp only
    rw [if_neg hdevice, FileSystem.put, hnode]
    exact ⟨_, _, rfl, fun _ => ⟨h.refusals, id, rfl⟩⟩

theorem Unrefused.flush (h : w.Unrefused fs) : ∃ w' fs', w.flush fs = (.ok (), w', fs') ∧ w'.Unrefused fs' := by
  obtain ⟨handle, fs', hwrite, hnext⟩ := h.passes w.pending
  exact ⟨_, fs', by rw [Writer.flush, hwrite], hnext _⟩

theorem Unrefused.take (h : w.Unrefused fs) (bytes : Bytes) :
    ∃ w' fs', w.take fs bytes = (.ok (), w', fs') ∧ w'.Unrefused fs' := by
  rw [Writer.take]
  split
  · obtain ⟨handle, fs', hwrite, hnext⟩ := h.passes bytes
    exact ⟨_, fs', by rw [hwrite], hnext _⟩
  · exact ⟨_, fs, rfl, h.refusals, h.node⟩

theorem Unrefused.write (h : w.Unrefused fs) (bytes : Bytes) :
    ∃ w' fs', w.write fs bytes = (.ok (), w', fs') ∧ w'.Unrefused fs' := by
  rw [Writer.write]
  split
  · obtain ⟨v, gs, hflush, hv⟩ := h.flush
    rw [hflush]
    exact hv.take bytes
  · exact h.take bytes

end Writer

namespace Stream

variable {s : Stream} {fs : FileSystem}

theorem append_of_unrefused (h : s.writer.Unrefused fs) (r : Record) :
    ∃ t fs', s.append fs r = (.ok (), t, fs') ∧ t.writer.Unrefused fs' ∧ t.temporary = s.temporary := by
  obtain ⟨v, gs, hline, hv⟩ := h.write (Text.toUtf8 r.line)
  obtain ⟨w, fs', hend, hw⟩ := hv.write [0x0A]
  refine ⟨{ s with writer := w, written := s.written + 1 }, fs', ?_, hw, rfl⟩
  rw [append, hline]
  dsimp only
  rw [hend]

theorem takes_of_unrefused (h : s.writer.Unrefused fs) (rs : List Record) :
    ∃ t fs', s.Takes fs rs t fs' ∧ t.writer.Unrefused fs' ∧ t.temporary = s.temporary := by
  induction rs generalizing s fs with
  | nil => exact ⟨s, fs, .done s fs, h, rfl⟩
  | cons r rs ih =>
    obtain ⟨u, gs, happend, hu, htemporary⟩ := append_of_unrefused h r
    obtain ⟨t, fs', htakes, ht, htemporary'⟩ := ih hu
    exact ⟨t, fs', .append happend htakes, ht, htemporary'.trans htemporary⟩

theorem finish_of_unrefused (h : s.writer.Unrefused fs) (ht : s.temporary = false) :
    ∃ fs', s.finish fs = (.ok s.final, fs') := by
  obtain ⟨w, gs, hflush, -⟩ := h.flush
  have hstream : s.flush fs = (.ok (), { s with writer := w }, gs) := by rw [flush, hflush]
  refine ⟨Stream.drop { s with writer := w } gs, ?_⟩
  rw [finish, hstream]
  simp [ht]

end Stream

theorem recorded_of_unrefused {before fs : FileSystem} {log : FileName} {p : Place} {s : Stream}
    (ready : before.Ready log p) (started : Stream.start before log false = (.ok s, fs))
    (h : s.writer.Unrefused fs) (rs : List Record) : ∃ after, Recorded before log false rs after := by
  obtain ⟨t, gs, htakes, ht, htemporary⟩ := Stream.takes_of_unrefused h rs
  have hs : s.temporary = false := by
    rw [Stream.start] at started
    split at started
    · cases started
    · cases started
      rfl
  obtain ⟨after, hfinish⟩ := Stream.finish_of_unrefused ht (htemporary.trans hs)
  exact ⟨after, p, s, fs, t, gs, _, ready, started, htakes, hfinish⟩

theorem recorded_fresh (rs : List Record) : ∃ after, Recorded .fresh ⟨"a.log"⟩ false rs after := by
  refine recorded_of_unrefused (p := ["tmp", "work", "a.log"]) ⟨⟨["tmp", "work"], "a.log", rfl, rfl⟩, ?_, rfl, ?_⟩ rfl
    ⟨rfl, 0, rfl⟩ rs
  · intro node h
    cases h
  · intro id h
    cases h

end EventHub
