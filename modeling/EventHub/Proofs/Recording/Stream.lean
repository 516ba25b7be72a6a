import EventHub.Proofs.Reach
import EventHub.Proofs.Recording.Log
import EventHub.Recording.Stream
set_option autoImplicit false

namespace EventHub

open FileSystem (SameBut)

namespace Writer

/-- What is in a file and what is collected for its end make up these bytes. -/
structure Holds (w : Writer) (fs : FileSystem) (id : Nat) (bytes : Bytes) : Prop where
  known : id < fs.contents.length
  handle : w.handle = fs.endOf id
  bytes : fs.content id ++ w.pending = bytes

structure Passes (fs : FileSystem) (id : Nat) (bytes : Bytes) (w : Writer) (fs' : FileSystem) : Prop where
  holds : w.Holds fs' id bytes
  sameBut : SameBut id fs fs'

theorem Holds.partly {w : Writer} {fs fs' : FileSystem} {id : Nat} {old bytes : Bytes} {done : FileSystem.Written}
    {h : FileSystem.Handle} (hw : w.Holds fs id old) (hp : w.pending = [])
    (hr : fs.write w.handle bytes = (done, h, fs')) :
    Passes fs id (old ++ bytes.take done.accepted) ⟨h, []⟩ fs' ∧
      (done.error? = none → done.accepted = bytes.length) := by
  obtain ⟨hk, hh, rfl⟩ := hw
  rw [hh] at hr
  obtain ⟨hh', hc, hs, ha⟩ := FileSystem.write_endOf hk hr
  refine ⟨⟨⟨hs.length ▸ hk, hh', ?_⟩, hs⟩, ha⟩
  rw [hc, hp, List.append_nil, List.append_nil]

/-- What was not accepted is kept, so nothing is lost when a pass fails. -/
theorem Holds.passes {w w' : Writer} {fs fs' : FileSystem} {id : Nat} {bytes : Bytes}
    {r : Except OsError Unit} (hw : w.Holds fs id bytes) (hf : w.flush fs = (r, w', fs')) :
    Passes fs id bytes w' fs' ∧ (r = .ok () → w'.pending = []) := by
  obtain ⟨hk, hh, rfl⟩ := hw
  rw [Writer.flush] at hf
  generalize hr : fs.write w.handle w.pending = done at hf
  obtain ⟨⟨accepted, e⟩, h, gs⟩ := done
  rw [hh] at hr
  obtain ⟨hh', hc, hs, ha⟩ := FileSystem.write_endOf hk hr
  have hbytes : gs.content id ++ w.pending.drop accepted = fs.content id ++ w.pending := by
    rw [hc, List.append_assoc, List.take_append_drop]
  have hholds : Passes fs id (fs.content id ++ w.pending) ⟨h, w.pending.drop accepted⟩ gs :=
    ⟨⟨hs.length ▸ hk, hh', hbytes⟩, hs⟩
  cases e with
  | some e =>
    cases hf
    exact ⟨hholds, fun h => by cases h⟩
  | none =>
    cases hf
    exact ⟨hholds, fun _ => by rw [ha rfl, List.drop_length]⟩

theorem Holds.flush {w w' : Writer} {fs fs' : FileSystem} {id : Nat} {bytes : Bytes}
    (hw : w.Holds fs id bytes) (hf : w.flush fs = (.ok (), w', fs')) :
    w'.pending = [] ∧ Passes fs id bytes w' fs' :=
  ⟨(hw.passes hf).2 rfl, (hw.passes hf).1⟩

section

variable {w w' : Writer} {fs fs' : FileSystem} {id : Nat} {old bytes : Bytes} {r : Except OsError Unit}

theorem Holds.take (hw : w.Holds fs id old) (hp : capacity ≤ bytes.length → w.pending = [])
    (h : w.take fs bytes = (r, w', fs')) :
    (r = .ok () ∧ Passes fs id (old ++ bytes) w' fs' ∧
      (w'.pending = [] ∨ bytes.length < capacity ∧ w'.pending = w.pending ++ bytes)) ∨
    ∃ e k, r = .error e ∧ Passes fs id (old ++ bytes.take k) w' fs' ∧ capacity ≤ bytes.length := by
  rw [Writer.take] at h
  split at h
  · rename_i large
    have hp := hp large
    generalize hr : fs.write w.handle bytes = done at h
    obtain ⟨⟨accepted, e⟩, handle, gs⟩ := done
    obtain ⟨hpass, ha⟩ := hw.partly hp hr
    cases e with
    | some e =>
      cases h
      exact .inr ⟨e, accepted, rfl, hp ▸ hpass, large⟩
    | none =>
      cases h
      have ha : accepted = bytes.length := ha rfl
      rw [ha, List.take_length] at hpass
      exact .inl ⟨rfl, hp ▸ hpass, .inl hp⟩
  · rename_i small
    cases h
    refine .inl ⟨rfl, ⟨⟨hw.known, hw.handle, ?_⟩, .refl id fs⟩, .inr ⟨Nat.lt_of_not_le small, rfl⟩⟩
    dsimp only
    rw [← List.append_assoc, hw.bytes]

/-- What comes of a piece. It is taken, and then the buffer is full only if the piece filled it to the last byte; or
what was collected before could not be passed on, and nothing of the piece got through; or it was too large to be
collected and was cut. -/
inductive Handed (w : Writer) (fs : FileSystem) (id : Nat) (old bytes : Bytes) :
    Except OsError Unit → Writer → FileSystem → Prop where
  | taken {w' : Writer} {fs' : FileSystem} (passes : Passes fs id (old ++ bytes) w' fs')
      (room : w'.pending.length < capacity ∨
        0 < w.pending.length ∧ w.pending.length + bytes.length = capacity) : Handed w fs id old bytes (.ok ()) w' fs'
  | before {e : OsError} {w' : Writer} {fs' : FileSystem} (passes : Passes fs id old w' fs')
      (full : capacity < w.pending.length + bytes.length) : Handed w fs id old bytes (.error e) w' fs'
  | cut {e : OsError} {w' : Writer} {fs' : FileSystem} (k : Nat) (passes : Passes fs id (old ++ bytes.take k) w' fs')
      (large : capacity ≤ bytes.length) : Handed w fs id old bytes (.error e) w' fs'

theorem Holds.handed (hw : w.Holds fs id old) (h : w.write fs bytes = (r, w', fs')) :
    Handed w fs id old bytes r w' fs' := by
  rw [Writer.write] at h
  split at h
  · rename_i full
    generalize hf : w.flush fs = done at h
    obtain ⟨e | u, v, gs⟩ := done
    · cases h
      exact .before (hw.passes hf).1 full
    · obtain ⟨hv, hpass, hsame⟩ := hw.flush hf
      rcases hpass.take (fun _ => hv) h with ⟨rfl, hnew, hroom⟩ | ⟨e, k, rfl, hnew, large⟩
      · refine .taken ⟨hnew.holds, hsame.trans hnew.sameBut⟩ (.inl ?_)
        rcases hroom with hw' | ⟨small, hw'⟩
        · rw [hw']
          exact Nat.zero_lt_succ _
        · rwa [hw', hv]
      · exact .cut k ⟨hnew.holds, hsame.trans hnew.sameBut⟩ large
  · rename_i fits
    have hp : capacity ≤ bytes.length → w.pending = [] := by
      intro large
      apply List.eq_nil_of_length_eq_zero
      omega
    rcases hw.take hp h with ⟨rfl, hnew, hroom⟩ | ⟨e, k, rfl, hnew, large⟩
    · refine .taken hnew ?_
      rcases hroom with hw' | ⟨small, hw'⟩
      · rw [hw']
        exact .inl (Nat.zero_lt_succ _)
      · rw [hw', List.length_append]
        omega
    · exact .cut k hnew large

theorem Holds.piece (hw : w.Holds fs id old) (h : w.write fs bytes = (.ok (), w', fs')) :
    Passes fs id (old ++ bytes) w' fs' := by
  cases hw.handed h with
  | taken passes _ => exact passes

end

theorem drop_of_pending_eq_nil {w : Writer} (h : w.pending = []) (fs : FileSystem) : w.drop fs = fs := by
  simp [drop, flush, h, FileSystem.write]

end Writer

namespace Stream

structure Lies (s : Stream) (fs : FileSystem) (id : Nat) (place : Place) : Prop where
  node : s.writer.handle.node = .file id
  known : id < fs.contents.length
  file : fs.IsFile s.file place id
  bottom : fs.hasEntries place = false

/-- A step that leaves the file of a stream alone, what is in it and where the names of the log lead. -/
structure Spared (s : Stream) (fs fs' : FileSystem) : Prop where
  file : fs'.target? s.file = fs.target? s.file
  final : fs'.target? s.final = fs.target? s.final
  node : ∀ p, fs.placeOf? s.file = some p → fs'.nodeAt? p = fs.nodeAt? p
  bottom : ∀ p, fs.placeOf? s.file = some p → fs.hasEntries p = false → fs'.hasEntries p = false
  content : ∀ id, s.writer.handle.node = .file id → fs'.contents[id]? = fs.contents[id]?

structure Apart (s t : Stream) (fs : FileSystem) : Prop where
  node : s.writer.handle.node ≠ t.writer.handle.node
  names : ∀ f ∈ [s.file, s.final], ∀ g ∈ [t.file, t.final], fs.Separate f g

/-- A step of a stream that did not fail. -/
structure Grows (s : Stream) (fs : FileSystem) (id : Nat) (bytes : Bytes) (s' : Stream)
    (fs' : FileSystem) : Prop extends Writer.Passes fs id bytes s'.writer fs' where
  final : s'.final = s.final
  temporary : s'.temporary = s.temporary

theorem Grows.file {s s' : Stream} {fs fs' : FileSystem} {id : Nat} {bytes : Bytes}
    (h : Grows s fs id bytes s' fs') : s'.file = s.file := by
  rw [Stream.file, Stream.file, h.final, h.temporary]

theorem Grows.node {s s' : Stream} {fs fs' : FileSystem} {id : Nat} {bytes : Bytes}
    (h : Grows s fs id bytes s' fs') : s'.writer.handle.node = .file id := by
  rw [h.holds.handle]
  rfl

theorem Lies.grows {s s' : Stream} {fs fs' : FileSystem} {id : Nat} {place : Place} {bytes : Bytes}
    (hs : s.Lies fs id place) (h : Grows s fs id bytes s' fs') : s'.Lies fs' id place where
  node := h.node
  known := h.holds.known
  file := h.file ▸ hs.file.congr (h.sameBut.target? s.file) (h.sameBut.nodeAt? place)
  bottom := (h.sameBut.hasEntries place).trans hs.bottom

theorem Spared.of_sameBut {s : Stream} {fs fs' : FileSystem} {id : Nat} (h : SameBut id fs fs')
    (hn : s.writer.handle.node ≠ .file id) : s.Spared fs fs' where
  file := h.target? s.file
  final := h.target? s.final
  node p _ := h.nodeAt? p
  bottom p _ he := (h.hasEntries p).trans he
  content other ho := h.content other (fun he => hn (he ▸ ho))

theorem Lies.spared {s : Stream} {fs fs' : FileSystem} {id : Nat} {place : Place}
    (hs : s.Lies fs id place) (h : s.Spared fs fs') : s.Lies fs' id place := by
  have hp := hs.file.placeOf?
  refine ⟨hs.node, ?_, hs.file.congr h.file (h.node place hp), h.bottom place hp hs.bottom⟩
  have hc := h.content id hs.node
  rw [List.getElem?_eq_getElem hs.known] at hc
  exact (List.getElem?_eq_some_iff.1 hc).1

theorem Lies.sameAt {s : Stream} {fs fs' : FileSystem} {id : Nat} {p : Place} (h : s.Lies fs id p)
    (ht : fs'.target? s.file = fs.target? s.file) (hs : FileSystem.SameAt p fs fs') : s.Lies fs' id p where
  node := h.node
  known := by
    have hc := hs.content id h.file.node
    rw [List.getElem?_eq_getElem h.known] at hc
    exact (List.getElem?_eq_some_iff.1 hc).1
  file := h.file.congr ht hs.node
  bottom := hs.bottom h.bottom

theorem Lies.sameBeside {touched : Nat → Prop} {s : Stream} {fs fs' : FileSystem} {id : Nat} {p : Place}
    (h : s.Lies fs id p) (hs : FileSystem.SameBeside touched fs fs') : s.Lies fs' id p where
  node := h.node
  known := hs.length ▸ h.known
  file := h.file.congr (hs.sameDirectories.target? s.file) (by rw [FileSystem.nodeAt?, FileSystem.nodeAt?, hs.nodes])
  bottom := by
    rw [FileSystem.hasEntries, hs.nodes]
    exact h.bottom

def Keeps (s : Stream) (fs : FileSystem) (bytes : Bytes) : Prop :=
  ∃ id place, s.Lies fs id place ∧ s.writer.Holds fs id bytes

theorem Keeps.spared {s : Stream} {fs fs' : FileSystem} {bytes : Bytes} (hs : s.Keeps fs bytes)
    (h : s.Spared fs fs') : s.Keeps fs' bytes := by
  obtain ⟨id, place, hl, hb⟩ := hs
  have hc : fs'.content id = fs.content id := by
    rw [FileSystem.content, FileSystem.content, h.content id hl.node]
  refine ⟨id, place, hl.spared h, (hl.spared h).known, ?_, hc.symm ▸ hb.bytes⟩
  rw [FileSystem.endOf, hc]
  exact hb.handle

theorem Apart.symm {s t : Stream} {fs : FileSystem} (h : s.Apart t fs) : t.Apart s fs where
  node := h.node.symm
  names f hf g hg := fun p q hp hq => And.symm (h.names g hg f hf q p hq hp)

theorem Apart.spared {s t : Stream} {fs fs' : FileSystem} (h : s.Apart t fs) (hs : s.Spared fs fs')
    (ht : t.Spared fs fs') : s.Apart t fs' where
  node := h.node
  names f hf g hg := by
    have htarget : ∀ u : Stream, u.Spared fs fs' → ∀ f ∈ [u.file, u.final], fs'.target? f = fs.target? f := by
      intro u hu f hf
      rcases List.mem_cons.1 hf with rfl | hf
      · exact hu.file
      · rw [List.mem_singleton.1 hf]
        exact hu.final
    exact (h.names f hf g hg).congr (htarget s hs f hf) (htarget t ht g hg)

theorem append_grows {s s' : Stream} {fs fs' : FileSystem} {id : Nat} {old : Bytes} {r : Record}
    (hs : s.writer.Holds fs id old) (h : s.append fs r = (.ok (), s', fs')) :
    Grows s fs id (old ++ r.bytes) s' fs' := by
  rw [append] at h
  generalize hw : s.writer.write fs (Text.toUtf8 r.line) = first at h
  obtain ⟨e | u, w, gs⟩ := first
  · cases h
  · obtain ⟨hl, hsame⟩ := hs.piece hw
    dsimp only at h
    generalize hw' : w.write gs [0x0A] = second at h
    obtain ⟨e | u, w', gs'⟩ := second
    · cases h
    · cases h
      obtain ⟨hl', hsame'⟩ := hl.piece hw'
      refine ⟨⟨?_, hsame.trans hsame'⟩, rfl, rfl⟩
      rw [Record.bytes, ← List.append_assoc]
      exact hl'

/-- Whether it fails or not, a flush only moves what is collected nearer to the file. -/
theorem flush_grows {s s' : Stream} {fs fs' : FileSystem} {id : Nat} {bytes : Bytes}
    {r : Except RecordingError Unit} (hs : s.writer.Holds fs id bytes) (h : s.flush fs = (r, s', fs')) :
    Grows s fs id bytes s' fs' ∧ (r = .ok () → s'.writer.pending = []) := by
  rw [flush] at h
  generalize hw : s.writer.flush fs = done at h
  obtain ⟨e | u, w, gs⟩ := done
  · cases h
    exact ⟨⟨(hs.passes hw).1, rfl, rfl⟩, fun h => by cases h⟩
  · cases h
    obtain ⟨hl, hp⟩ := hs.passes hw
    exact ⟨⟨hl, rfl, rfl⟩, fun _ => hp rfl⟩

structure Steps (s : Stream) (fs : FileSystem) (s' : Stream) (fs' : FileSystem) : Prop where
  file : s'.file = s.file
  final : s'.final = s.final
  node : s'.writer.handle.node = s.writer.handle.node
  target : ∀ f, fs'.target? f = fs.target? f
  spares : ∀ t : Stream, s.Apart t fs → t.Spared fs fs'

def mark (s : Stream) : FileName × Node := (s.final, s.writer.handle.node)

theorem Steps.mark {s s' : Stream} {fs fs' : FileSystem} (h : Steps s fs s' fs') : s'.mark = s.mark :=
  Prod.ext h.final h.node

theorem Grows.steps {s s' : Stream} {fs fs' : FileSystem} {id : Nat} {place : Place} {bytes : Bytes}
    (h : Grows s fs id bytes s' fs') (hl : s.Lies fs id place) : Steps s fs s' fs' where
  file := h.file
  final := h.final
  node := h.node.trans hl.node.symm
  target := h.sameBut.target?
  spares _ ht := .of_sameBut h.sameBut fun hn => ht.node (hl.node.trans hn.symm)

theorem Steps.apart {s s' t : Stream} {fs fs' : FileSystem} (h : Steps s fs s' fs') (ha : s.Apart t fs) :
    s'.Apart t fs' where
  node := h.node ▸ ha.node
  names f hf g hg := by
    rw [h.file, h.final] at hf
    exact (ha.names f hf g hg).congr (h.target f) (h.target g)

theorem Keeps.append {s s' : Stream} {fs fs' : FileSystem} {old : Bytes} {r : Record}
    (hs : s.Keeps fs old) (h : s.append fs r = (.ok (), s', fs')) :
    s'.Keeps fs' (old ++ r.bytes) ∧ Steps s fs s' fs' := by
  obtain ⟨id, place, hl, hb⟩ := hs
  have hg := append_grows hb h
  exact ⟨⟨id, place, hl.grows hg, hg.holds⟩, hg.steps hl⟩

theorem Keeps.flush {s s' : Stream} {fs fs' : FileSystem} {bytes : Bytes} {r : Except RecordingError Unit}
    (hs : s.Keeps fs bytes) (h : s.flush fs = (r, s', fs')) : s'.Keeps fs' bytes ∧ Steps s fs s' fs' := by
  obtain ⟨id, place, hl, hb⟩ := hs
  obtain ⟨hg, -⟩ := flush_grows hb h
  exact ⟨⟨id, place, hl.grows hg, hg.holds⟩, hg.steps hl⟩

/-- A log that was finished: all is in the file, which is found under the name of the log. -/
structure Finished (s : Stream) (fs : FileSystem) (id : Nat) (bytes : Bytes) (fs' : FileSystem) : Prop where
  file : ∃ q, fs.placeOf? s.final = some q ∧ fs'.IsFile s.final q id
  length : fs'.contents.length = fs.contents.length
  content : fs'.content id = bytes
  target : ∀ g, fs'.target? g = fs.target? g
  contents : ∀ other, other ≠ id → fs'.contents[other]? = fs.contents[other]?
  node : ∀ p, (∀ q, fs.placeOf? s.file = some q → p ≠ q) → (∀ q, fs.placeOf? s.final = some q → p ≠ q) →
    fs'.nodeAt? p = fs.nodeAt? p
  entries : ∀ p, (∀ q, fs.placeOf? s.final = some q → FileSystem.isInside p q = false) →
    fs.hasEntries p = false → fs'.hasEntries p = false

theorem Grows.finished {s t : Stream} {fs gs : FileSystem} {id : Nat} {place : Place} {bytes : Bytes}
    (hg : Grows s fs id bytes t gs) (hl : s.Lies fs id place) (hc : gs.content id = bytes)
    (ht : t.temporary = false) : Finished s fs id bytes gs := by
  have hfile : s.file = s.final := by
    rw [Stream.file, writtenName, ← hg.temporary, ht]
    rfl
  exact
    { file := ⟨place, hfile ▸ hl.file.placeOf?, hfile ▸ hg.file ▸ (hl.grows hg).file⟩
      length := hg.sameBut.length
      content := hc
      target := hg.sameBut.target?
      contents := hg.sameBut.content
      node := fun p _ _ => hg.sameBut.nodeAt? p
      entries := fun p _ he => (hg.sameBut.hasEntries p).trans he }

theorem Grows.renamed {s t : Stream} {fs gs fs' : FileSystem} {id : Nat} {place : Place} {bytes : Bytes}
    (hg : Grows s fs id bytes t gs) (hl : s.Lies fs id place) (hc : gs.content id = bytes)
    (hr : gs.rename t.file t.final = (.ok (), fs')) : Finished s fs id bytes fs' := by
  have hgl := hl.grows hg
  have hsame := hg.sameBut
  obtain ⟨q, hq, hren, hfile⟩ := FileSystem.renamed_of_rename hgl.file hgl.bottom hr
  have hdir := hren.sameDirectories hgl.file.node
  rw [hg.final] at hq hfile
  have hq' : fs.placeOf? s.final = some q := by
    rw [← FileSystem.placeOf?_congr (hsame.target? s.final)]
    exact hq
  refine ⟨⟨q, hq', hfile⟩, ?_, ?_, fun g => (hdir.target? g).trans (hsame.target? g), ?_, ?_, ?_⟩
  · rw [hren.contents, hsame.length]
  · rw [FileSystem.content, hren.contents]
    exact hc
  · intro other ho
    rw [hren.contents]
    exact hsame.content other ho
  · intro p hpf hpn
    rw [hren.others p (hpf place hl.file.placeOf?) (hpn q hq')]
    exact hsame.nodeAt? p
  · intro p hin he
    exact hren.entries p (hin q hq') ((hsame.hasEntries p).trans he)

theorem finish_finished {s : Stream} {fs fs' : FileSystem} {f : FileName} {id : Nat} {place : Place}
    {bytes : Bytes} (hl : s.Lies fs id place) (hs : s.writer.Holds fs id bytes)
    (h : s.finish fs = (.ok f, fs')) : f = s.final ∧ Finished s fs id bytes fs' := by
  rw [finish] at h
  generalize hw : s.flush fs = r at h
  obtain ⟨e | u, t, gs⟩ := r
  · cases h
  · obtain ⟨hg, hp⟩ := flush_grows hs hw
    have hp := hp rfl
    have hcontent : gs.content id = bytes := by
      have hb := hg.holds.bytes
      rw [hp, List.append_nil] at hb
      exact hb
    dsimp only at h
    -- nothing is collected any more, so letting go of the file writes nothing
    have hdrop : t.drop gs = gs := Writer.drop_of_pending_eq_nil hp gs
    rw [hdrop] at h
    cases ht : t.temporary with
    | false =>
      simp only [ht, Bool.false_eq_true, if_false] at h
      cases h
      exact ⟨hg.final, hg.finished hl hcontent ht⟩
    | true =>
      simp only [ht, if_true] at h
      generalize hr : gs.rename t.file t.final = r at h
      obtain ⟨e | u, gs'⟩ := r
      · cases h
      · cases h
        exact ⟨hg.final, hg.renamed hl hcontent hr⟩

theorem Finished.spares {s t : Stream} {fs fs' : FileSystem} {id : Nat} {place : Place} {bytes : Bytes}
    (h : Finished s fs id bytes fs') (hl : s.Lies fs id place) (ha : s.Apart t fs) : t.Spared fs fs' where
  file := h.target t.file
  final := h.target t.final
  node p hp := by
    apply h.node p
    · exact fun q hq => (ha.names s.file (by simp) t.file (by simp) q p hq hp).ne.symm
    · exact fun q hq => (ha.names s.final (by simp) t.file (by simp) q p hq hp).ne.symm
  bottom p hp he := by
    apply h.entries p _ he
    exact fun q hq => (ha.names s.final (by simp) t.file (by simp) q p hq hp).symm.isInside
  content other ho := h.contents other fun he => ha.node (hl.node.trans (he ▸ ho.symm))

structure Found (s : Stream) (fs : FileSystem) (id : Nat) (bytes : Bytes) : Prop where
  node : s.writer.handle.node = .file id
  known : id < fs.contents.length
  file : ∃ q, fs.IsFile s.final q id
  content : fs.content id = bytes

theorem Found.read {s : Stream} {fs : FileSystem} {id : Nat} {bytes : Bytes} (h : s.Found fs id bytes) :
    fs.read s.final = .ok bytes := by
  obtain ⟨q, hf⟩ := h.file
  rw [hf.read, h.content]

theorem Finished.found {s : Stream} {fs fs' : FileSystem} {id : Nat} {place : Place} {bytes : Bytes}
    (h : Finished s fs id bytes fs') (hl : s.Lies fs id place) : s.Found fs' id bytes where
  node := hl.node
  known := h.length ▸ hl.known
  file := by
    obtain ⟨q, -, hf⟩ := h.file
    exact ⟨q, hf⟩
  content := h.content

theorem Found.beside {s t : Stream} {fs fs' : FileSystem} {id other : Nat} {place : Place} {bytes others : Bytes}
    (hs : s.Found fs id bytes) (ht : Finished t fs other others fs') (hl : t.Lies fs other place)
    (ha : t.Apart s fs) : s.Found fs' id bytes := by
  obtain ⟨q, hf⟩ := hs.file
  have hid : id ≠ other := fun he => ha.node (hl.node.trans (he ▸ hs.node.symm))
  have hq : fs.placeOf? s.final = some q := hf.placeOf?
  have hnode : fs'.nodeAt? q = fs.nodeAt? q := by
    apply ht.node q
    · exact fun p hp => (ha.names t.file (by simp) s.final (by simp) p q hp hq).ne.symm
    · exact fun p hp => (ha.names t.final (by simp) s.final (by simp) p q hp hq).ne.symm
  refine ⟨hs.node, ht.length ▸ hs.known, ⟨q, hf.congr (ht.target s.final) hnode⟩, ?_⟩
  rw [FileSystem.content, ht.contents id hid, ← FileSystem.content, hs.content]

theorem Finished.read {s : Stream} {fs fs' : FileSystem} {id : Nat} {bytes : Bytes}
    (h : Finished s fs id bytes fs') : fs'.read s.final = .ok bytes := by
  obtain ⟨q, -, hf⟩ := h.file
  rw [hf.read, h.content]

end Stream
end EventHub
