import EventHub.Proofs.Opening
import EventHub.Proofs.Recording.Beneath
import EventHub.Proofs.Recording.Recorded
set_option autoImplicit false

/-!
Recordings that are started over. The logs before are let go of when the new ones are already there, and what was
still collected for them is written then. Where that goes into a new log it lies beneath it, and shows where the
log turns out shorter.
-/
namespace EventHub

open FileSystem (SameBeside)

variable {fs gs fs' : FileSystem}

theorem Writer.drop_eq (w : Writer) (fs : FileSystem) : w.drop fs = (fs.write w.handle w.pending).2.2 := by
  rw [Writer.drop, Writer.flush]
  generalize fs.write w.handle w.pending = done
  obtain ⟨⟨accepted, e⟩, handle, gs⟩ := done
  cases e <;> rfl

theorem Writer.sameBeside_drop {touched : Nat → Prop} (w : Writer) (fs : FileSystem)
    (ht : ∀ id, w.pending ≠ [] → w.handle.node = .file id → touched id) : SameBeside touched fs (w.drop fs) := by
  rw [Writer.drop_eq]
  exact FileSystem.sameBeside_write fs w.handle w.pending ht

namespace Recorder

variable {r r' t : Recorder} {c : ChannelConfig} {p q : Place}

def Spills (r : Recorder) (id : Nat) : Prop :=
  ∃ s, (r.input = some s ∨ r.output = some s) ∧ s.writer.pending ≠ [] ∧ s.writer.handle.node = .file id

theorem sameBeside_drop (r : Recorder) (fs : FileSystem) : SameBeside r.Spills fs (r.drop fs) := by
  have hoptional : ∀ (s : Option Stream) (gs : FileSystem), (∀ t, s = some t → r.input = some t ∨ r.output = some t) →
      SameBeside r.Spills gs (dropOptional s gs) := by
    intro s gs hs
    cases s with
    | none => exact .refl _ gs
    | some t => exact t.writer.sameBeside_drop gs fun id hp hn => ⟨t, hs t rfl, hp, hn⟩
  exact (hoptional r.input fs fun _ => .inl).trans (hoptional r.output _ fun _ => .inr)

theorem content_dropOptional_ne_nil {id : Nat} (s : Option Stream) (hc : fs.content id ≠ []) :
    (dropOptional s fs).content id ≠ [] := by
  cases s with
  | none => exact hc
  | some s =>
    rw [dropOptional, Stream.drop, Writer.drop_eq]
    exact FileSystem.content_write_ne_nil _ _ hc

theorem Spills.content_drop {id : Nat} (h : r.Spills id) (quiet : fs.refusals = [])
    (known : id < fs.contents.length) : (r.drop fs).content id ≠ [] := by
  obtain ⟨s, hs | hs, hp, hn⟩ := h
  · refine content_dropOptional_ne_nil r.output ?_
    rw [hs, dropOptional, Stream.drop, Writer.drop_eq]
    exact FileSystem.content_write_of_quiet quiet known hn hp
  · rw [drop, hs, dropOptional, Stream.drop, Writer.drop_eq]
    cases hi : r.input with
    | none => exact FileSystem.content_write_of_quiet quiet known hn hp
    | some t =>
      have hsame : SameBeside (fun _ => True) fs (t.drop fs) := t.writer.sameBeside_drop fs fun _ _ _ => trivial
      refine FileSystem.content_write_of_quiet ?_ (hsame.length ▸ known) hn hp
      rw [dropOptional, Stream.drop, Writer.drop_eq]
      exact FileSystem.refusals_write fs _ _ quiet

/-- Two logs that have nothing to do with each other: where each is written at most an older file stands, and
neither its own name nor that under which it is written leads near those of the other. -/
structure TwoLogs (fs : FileSystem) (c : ChannelConfig) (p q : Place) : Prop where
  input : c.input? = some c.inputLog
  output : c.output? = some c.outputLog
  readyInput : fs.Ready (Stream.writtenName c.inputLog c.deleteOnAbort) p
  readyOutput : fs.Ready (Stream.writtenName c.outputLog c.deleteOnAbort) q
  names : ∀ f ∈ [Stream.writtenName c.inputLog c.deleteOnAbort, c.inputLog],
    ∀ g ∈ [Stream.writtenName c.outputLog c.deleteOnAbort, c.outputLog], fs.Separate f g
  files : ∀ id, fs.nodeAt? p = some (.file id) → fs.nodeAt? q ≠ some (.file id)

structure Begun (r : Recorder) (fs : FileSystem) (c : ChannelConfig) (a b : Nat) (p q : Place) : Prop where
  recorder : r = ⟨some (.anew c.inputLog c.deleteOnAbort a), some (.anew c.outputLog c.deleteOnAbort b)⟩
  input : (Stream.anew c.inputLog c.deleteOnAbort a).Lies fs a p
  output : (Stream.anew c.outputLog c.deleteOnAbort b).Lies fs b q
  apart : (Stream.anew c.inputLog c.deleteOnAbort a).Apart (Stream.anew c.outputLog c.deleteOnAbort b) fs

theorem TwoLogs.apart (own : TwoLogs fs c p q) : FileSystem.Apart p q :=
  own.names _ (by simp) _ (by simp) p q own.readyInput.leads.placeOf? own.readyOutput.leads.placeOf?

theorem refusals_start {log : FileName} {temporary : Bool} {s : Stream} (quiet : fs.refusals = [])
    (h : Stream.start fs log temporary = (.ok s, fs')) : fs'.refusals = [] := by
  rw [Stream.start] at h
  generalize hc : fs.create (Stream.writtenName log temporary) = created at h
  obtain ⟨e | handle, gs⟩ := created
  · cases h
  · cases h
    obtain ⟨p, -, ho⟩ := FileSystem.opens_of_create hc
    rw [ho.refusals, FileSystem.nextRefusal, quiet]
    exact quiet

theorem begun_of_start (own : TwoLogs fs c p q) (h : r.start fs c = (.ok (), r', fs')) :
    ∃ a b gs, r'.Begun gs c a b p q ∧ gs.content a = [] ∧ gs.content b = [] ∧
      (fs.refusals = [] → gs.refusals = []) ∧ fs' = r.drop gs := by
  rw [start] at h
  generalize hi : startOptional fs c.input? c.deleteOnAbort = first at h
  obtain ⟨e | input, gs⟩ := first
  · cases h
  dsimp only at h
  generalize ho : startOptional gs c.output? c.deleteOnAbort = second at h
  obtain ⟨e | output, gs'⟩ := second
  · cases input <;> cases h
  cases h
  rw [own.input] at hi
  rw [own.output] at ho
  obtain ⟨hnone, -⟩ | ⟨f, s, hf, rfl, hs⟩ := startOptional_eq_ok hi
  · cases hnone
  obtain ⟨hnone, -⟩ | ⟨g, t, hg, rfl, ht⟩ := startOptional_eq_ok ho
  · cases hnone
  cases hf
  cases hg
  obtain ⟨a, rfl, ha⟩ := Stream.start_eq_ok own.readyInput hs
  -- the second log finds its place as it was before the first one was begun
  have hdirectories := ha.reach.directories.target?
  have hq : fs.nodeAt? q ≠ some (.file a) := by
    intro hq
    rcases ha.origin with hp | hnew
    · exact own.files a hp hq
    · exact absurd (own.readyOutput.known a hq) (by omega)
  have hsecond : FileSystem.SameAt q fs gs := ha.reach.sameAt (by simpa using own.apart.symm) hq
  obtain ⟨b, rfl, hb⟩ :=
    Stream.start_eq_ok (own.readyOutput.sameAt (hdirectories _) hsecond ha.reach.length) ht
  have hne : a ≠ b := by
    rintro rfl
    rcases hb.origin with hp | hnew
    · exact hq (hsecond.node ▸ hp)
    · exact absurd ha.known (by omega)
  -- and the first one is as it was when the second is begun
  have hdirectories' := hb.reach.directories.target?
  have hfirst : FileSystem.SameAt p gs gs' := by
    refine hb.reach.sameAt (by simpa using own.apart) fun hp => hne ?_
    rw [ha.file.node] at hp
    cases hp
    rfl
  refine ⟨a, b, gs', ⟨rfl, ?_, ?_, ?_⟩, ?_, hb.empty, fun quiet => refusals_start (refusals_start quiet hs) ht, rfl⟩
  · exact (Stream.lies_of_opened own.readyInput.bottom ha).sameAt (hdirectories' _) hfirst
  · exact Stream.lies_of_opened (hsecond.bottom own.readyOutput.bottom) hb
  · refine ⟨fun hn => hne (Node.file.inj hn), fun f hf g hg => ?_⟩
    exact (own.names f hf g hg).congr ((hdirectories' f).trans (hdirectories f))
      ((hdirectories' g).trans (hdirectories g))
  · rw [FileSystem.content, hfirst.content a ha.file.node]
    exact ha.empty

theorem Begun.sameBeside {touched : Nat → Prop} {a b : Nat} (h : r.Begun fs c a b p q)
    (hs : SameBeside touched fs fs') : r.Begun fs' c a b p q where
  recorder := h.recorder
  input := h.input.sameBeside hs
  output := h.output.sameBeside hs
  apart := ⟨h.apart.node, fun f hf g hg =>
    (h.apart.names f hf g hg).congr (hs.sameDirectories.target? f) (hs.sameDirectories.target? g)⟩

theorem Begun.keeps {a b : Nat} (h : r.Begun fs c a b p q) (ha : fs.content a = []) (hb : fs.content b = []) :
    r.Keeps fs [] [] := by
  obtain rfl := h.recorder
  refine ⟨fun s hs => ?_, fun s hs => ?_, fun s t hs ht => ?_⟩
  · cases hs
    exact Stream.keeps_anew h.input ha
  · cases hs
    exact Stream.keeps_anew h.output hb
  · cases hs
    cases ht
    exact h.apart

/-- The turns of a recorder that is given these records. Nothing fails but perhaps a flush. -/
inductive Takes : Recorder → FileSystem → List Record → List Record → Recorder → FileSystem → Prop where
  | done (r : Recorder) (fs : FileSystem) : Takes r fs [] [] r fs
  | input {r s t : Recorder} {fs gs fs' : FileSystem} {e : Event} {inputs outputs : List Record}
      (recorded : r.recordInput fs e = (.ok (), s, gs)) (rest : Takes s gs inputs outputs t fs') :
      Takes r fs (.ofEvent e :: inputs) outputs t fs'
  | output {r s t : Recorder} {fs gs fs' : FileSystem} {e : Event} {inputs outputs : List Record}
      (recorded : r.recordOutput fs e = (.ok (), s, gs)) (rest : Takes s gs inputs outputs t fs') :
      Takes r fs inputs (.ofEvent e :: outputs) t fs'
  | flush {r s t : Recorder} {fs gs fs' : FileSystem} {inputs outputs : List Record}
      {result : Except RecordingError Unit} (flushed : r.flush fs = (result, s, gs))
      (rest : Takes s gs inputs outputs t fs') : Takes r fs inputs outputs t fs'

/-- Whatever lies beneath the files, a recorder writes the same above it. -/
theorem Takes.above {beneath : Nat → Bytes} {inputs outputs : List Record} {input output : Bytes}
    (h : r.Takes fs inputs outputs t fs') (hfs : fs = gs.above beneath) (hr : r.Keeps gs input output) :
    ∃ gs', fs' = gs'.above beneath ∧ t.marks = r.marks ∧
      t.Keeps gs' (input ++ inputs.flatMap Record.bytes) (output ++ outputs.flatMap Record.bytes) := by
  -- each turn is one of the clean files, in which the streams stand at the ends of what they wrote
  induction h generalizing gs input output with
  | done r fs => exact ⟨gs, hfs, rfl, by simpa using hr⟩
  | input recorded _ ih =>
    subst hfs
    rw [hr.recordInput_above] at recorded
    obtain ⟨gs₁, hstep, rfl⟩ := FileSystem.eq_of_aboveStep recorded
    obtain ⟨hk, hm⟩ := hr.recordInput hstep
    obtain ⟨gs', rfl, hm', hk'⟩ := ih rfl hk
    exact ⟨gs', rfl, hm'.trans hm, by simpa using hk'⟩
  | output recorded _ ih =>
    subst hfs
    rw [hr.recordOutput_above] at recorded
    obtain ⟨gs₁, hstep, rfl⟩ := FileSystem.eq_of_aboveStep recorded
    obtain ⟨hk, hm⟩ := hr.recordOutput hstep
    obtain ⟨gs', rfl, hm', hk'⟩ := ih rfl hk
    exact ⟨gs', rfl, hm'.trans hm, by simpa using hk'⟩
  | flush flushed _ ih =>
    subst hfs
    rw [hr.flush_above] at flushed
    obtain ⟨gs₁, hstep, rfl⟩ := FileSystem.eq_of_aboveStep flushed
    obtain ⟨hk, hm⟩ := hr.flush hstep
    obtain ⟨gs', rfl, hm', hk'⟩ := ih rfl hk
    exact ⟨gs', rfl, hm'.trans hm, hk'⟩

def SpillsInto (r : Recorder) (fs : FileSystem) (name : FileName) : Prop :=
  ∃ id, fs.find name = .ok (.file id) ∧ r.Spills id

/-- How a log begins when recordings of before are let go of after its file was emptied: with what they spill. -/
structure Begins (r : Recorder) (quiet : Prop) (fs : FileSystem) (name : FileName) (left : Bytes) : Prop where
  read : fs.read name = .ok left
  spilt : left ≠ [] → r.SpillsInto fs name
  shown : quiet → r.SpillsInto fs name → left ≠ []

/-- How a log ends that began with something left in it: this still shows where the lines of its own records end,
and only blank lines in it go unnoticed. -/
structure Ends (fs : FileSystem) (log : FileName) (left : Bytes) (rs : List Record) : Prop where
  read : fs.read log = .ok (rs.flatMap Record.bytes ++ left.drop (rs.flatMap Record.bytes).length)
  records : (∀ r ∈ rs, r.Returns) →
    (Log.read fs log = .ok (rs.map Record.kept) ↔ Log.Blank (left.drop (rs.flatMap Record.bytes).length))

theorem begins_of_lies {quiet : Prop} {s : Stream} {id : Nat} {p : Place} (hl : s.Lies gs id p)
    (hc : gs.content id = []) (hq : quiet → gs.refusals = []) :
    Begins r quiet (r.drop gs) s.file ((r.drop gs).content id) := by
  have hfile := (hl.sameBeside (r.sameBeside_drop gs)).file
  refine ⟨hfile.read, fun hleft => ⟨id, hfile.find, ?_⟩, ?_⟩
  · by_contra hs
    exact hleft (((r.sameBeside_drop gs).content id hs).trans hc)
  · rintro hquiet ⟨other, hfind, hs⟩
    cases hfile.find.symm.trans hfind
    exact hs.content_drop (hq hquiet) hl.known

theorem ends_of_found {beneath : Nat → Bytes} {s : Stream} {log : FileName} {id : Nat} {rs : List Record}
    (hs : ∃ other, s.Found gs other (rs.flatMap Record.bytes)) (hm : s.mark = (log, .file id)) :
    Ends (gs.above beneath) log (beneath id) rs := by
  obtain ⟨other, hf⟩ := hs
  have hother : Node.file other = .file id := hf.node.symm.trans (congrArg Prod.snd hm)
  cases hother
  have hread : (gs.above beneath).read s.final =
      .ok (rs.flatMap Record.bytes ++ (beneath id).drop (rs.flatMap Record.bytes).length) := hf.read_above
  rw [show s.final = log from congrArg Prod.fst hm] at hread
  exact ⟨hread, fun h => Log.read_eq_ok_iff_blank h hread⟩

/-- When a recorder is started over, each log holds in the end what its recording was given since, and behind it
what is left of what the recordings of before spilt into its file. -/
theorem reopened_logs {inputs outputs : List Record} {after : FileSystem} {files : List FileName}
    (own : TwoLogs fs c p q) (started : r.start fs c = (.ok (), r', fs'))
    (takes : r'.Takes fs' inputs outputs t gs) (finished : t.finish gs = (.ok files, .idle, after)) :
    ∃ left right, Begins r (fs.refusals = []) fs' (Stream.writtenName c.inputLog c.deleteOnAbort) left ∧
      Begins r (fs.refusals = []) fs' (Stream.writtenName c.outputLog c.deleteOnAbort) right ∧
      Ends after c.inputLog left inputs ∧ Ends after c.outputLog right outputs := by
  obtain ⟨a, b, before, hbegun, ha, hb, hquiet, rfl⟩ := begun_of_start own started
  have emptied : ∀ (fs : FileSystem) (id : Nat), SameBeside (fun _ => True) fs (fs.setContent id []) :=
    fun fs id => (FileSystem.sameBut_setContent fs id []).beside trivial
  have hsame := r.sameBeside_drop before
  refine ⟨_, _, begins_of_lies hbegun.input ha hquiet, begins_of_lies hbegun.output hb hquiet, ?_⟩
  -- without what was left in the two files all goes as in logs that begin empty
  have hclean : r'.Begun (((r.drop before).setContent a []).setContent b []) c a b p q :=
    ((hbegun.sameBeside hsame).sameBeside (emptied _ a)).sameBeside (emptied _ b)
  have hkeeps : r'.Keeps (((r.drop before).setContent a []).setContent b []) [] [] := by
    apply hclean.keeps <;> simp [FileSystem.content_setContent_nil]
  obtain ⟨gs', rfl, hmarks, hkept⟩ := takes.above (FileSystem.above_emptied _ a b).symm hkeeps
  obtain ⟨after', hfinish, rfl⟩ := hkept.finish_above finished
  obtain ⟨hinput, houtput⟩ := hkept.found hfinish
  rw [hclean.recorder] at hmarks
  obtain ⟨s, hs, hsmark⟩ := Option.map_eq_some_iff.1 (congrArg Prod.fst hmarks)
  obtain ⟨u, hu, humark⟩ := Option.map_eq_some_iff.1 (congrArg Prod.snd hmarks)
  exact ⟨ends_of_found (hinput s hs) hsmark, ends_of_found (houtput u hu) humark⟩

def plainLogs : ChannelConfig := ⟨⟨"in.log"⟩, ⟨"out.log"⟩, false⟩

def lateEvent : Event := ⟨⟨"a.long", by decide⟩, none, .data, none⟩

def overdue : Recorder × FileSystem :=
  let opened := (idle.start .fresh plainLogs).2
  (opened.1.recordInput opened.2 lateEvent).2

theorem twoLogs_overdue :
    TwoLogs overdue.2 plainLogs ["tmp", "work", "in.log"] ["tmp", "work", "out.log"] where
  input := rfl
  output := rfl
  readyInput := by
    refine ⟨⟨["tmp", "work"], "in.log", rfl, rfl⟩, fun node hn => ?_, rfl, fun id hn => ?_⟩
    · cases hn
      exact ⟨0, rfl⟩
    · cases hn
      decide
  readyOutput := by
    refine ⟨⟨["tmp", "work"], "out.log", rfl, rfl⟩, fun node hn => ?_, rfl, fun id hn => ?_⟩
    · cases hn
      exact ⟨1, rfl⟩
    · cases hn
      decide
  names := by
    intro f hf g hg
    have hf : f = ⟨"in.log"⟩ := by simpa [Stream.writtenName, plainLogs] using hf
    have hg : g = ⟨"out.log"⟩ := by simpa [Stream.writtenName, plainLogs] using hg
    subst hf hg
    exact FileSystem.separate_of_places rfl rfl ⟨by decide, by decide⟩
  files := by
    intro id hp hq
    cases hp
    cases hq

/-- Nothing is recorded since the start, and yet the log of it has a record. -/
theorem reopened_logs_overdue :
    let started := overdue.1.start overdue.2 plainLogs
    let finished := started.2.1.finish started.2.2
    started.1 = .ok () ∧ finished.1 = .ok [⟨"in.log"⟩, ⟨"out.log"⟩] ∧
      (∃ left, Begins overdue.1 (overdue.2.refusals = []) started.2.2 ⟨"in.log"⟩ left ∧
        Ends finished.2.2 ⟨"in.log"⟩ left [] ∧ ¬Log.Blank left) ∧
      Log.read finished.2.2 ⟨"in.log"⟩ = .ok [.ofEvent lateEvent] ∧
      Log.read finished.2.2 ⟨"out.log"⟩ = .ok [] := by
  intro started finished
  have hstart : overdue.1.start overdue.2 plainLogs = (.ok (), started.2.1, started.2.2) := rfl
  have hfinish : started.2.1.finish started.2.2 = (.ok [⟨"in.log"⟩, ⟨"out.log"⟩], .idle, finished.2.2) := rfl
  have hlog : finished.2.2.read ⟨"in.log"⟩ = .ok ([Record.ofEvent lateEvent].flatMap Record.bytes) := rfl
  have hreturns : ∀ r ∈ [Record.ofEvent lateEvent], r.Returns := by
    intro r hr v hv
    rw [List.mem_singleton.1 hr] at hv
    cases hv
  have hread := Log.read_of_returns hreturns hlog
  obtain ⟨left, right, hbegins, -, hinput, -⟩ := reopened_logs twoLogs_overdue hstart (.done _ _) hfinish
  refine ⟨rfl, rfl, ⟨left, hbegins, hinput, fun hblank => ?_⟩, hread, rfl⟩
  have hempty := (hinput.records (by simp)).2 hblank
  cases hread.symm.trans hempty

end Recorder
end EventHub
