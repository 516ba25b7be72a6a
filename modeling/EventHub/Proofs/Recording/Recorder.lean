import EventHub.Proofs.Recording.Stream
import EventHub.Recording.Recorder
set_option autoImplicit false

namespace EventHub.Recorder

/-- Each recording has a regular file of its own, and the names of the one lead nowhere near those of the
other. -/
structure Apart (r : Recorder) (fs : FileSystem) : Prop where
  input : ∀ s, r.input = some s → ∃ id place, s.Lies fs id place
  output : ∀ s, r.output = some s → ∃ id place, s.Lies fs id place
  apart : ∀ s t, r.input = some s → r.output = some t → s.Apart t fs

/-- What the recordings have been given is in their files or on the way there. -/
structure Keeps (r : Recorder) (fs : FileSystem) (input output : Bytes) : Prop where
  input : ∀ s, r.input = some s → s.Keeps fs input
  output : ∀ s, r.output = some s → s.Keeps fs output
  apart : ∀ s t, r.input = some s → r.output = some t → s.Apart t fs

def Spared (r : Recorder) (fs fs' : FileSystem) : Prop :=
  ∀ s, r.input = some s ∨ r.output = some s → s.Spared fs fs'

def logs (r : Recorder) : Option FileName × Option FileName := (r.input.map Stream.final, r.output.map Stream.final)

def marks (r : Recorder) : Option (FileName × Node) × Option (FileName × Node) :=
  (r.input.map Stream.mark, r.output.map Stream.mark)

theorem logs_of_marks {r r' : Recorder} (h : r'.marks = r.marks) : r'.logs = r.logs := by
  have hlogs : ∀ q : Recorder, q.logs = (q.marks.1.map Prod.fst, q.marks.2.map Prod.fst) := by
    intro q
    rw [marks, Option.map_map, Option.map_map]
    rfl
  rw [hlogs, hlogs, h]

theorem Keeps.spared {r : Recorder} {fs fs' : FileSystem} {input output : Bytes}
    (hr : r.Keeps fs input output) (h : r.Spared fs fs') : r.Keeps fs' input output where
  input s hs := (hr.input s hs).spared (h s (.inl hs))
  output s hs := (hr.output s hs).spared (h s (.inr hs))
  apart s t hs ht := (hr.apart s t hs ht).spared (h s (.inl hs)) (h t (.inr ht))

def StepsOptional (s : Option Stream) (fs : FileSystem) (s' : Option Stream) (fs' : FileSystem) : Prop :=
  match s, s' with
  | none, none => fs' = fs
  | some s, some s' => s.Steps fs s' fs'
  | _, _ => False

theorem StepsOptional.mark {s s' : Option Stream} {fs fs' : FileSystem} (h : StepsOptional s fs s' fs') :
    s'.map Stream.mark = s.map Stream.mark := by
  cases s with
  | none =>
    cases s' with
    | none => rfl
    | some s' => exact h.elim
  | some s =>
    cases s' with
    | none => exact h.elim
    | some s' => exact congrArg some (Stream.Steps.mark h)

theorem Keeps.stepInput {r : Recorder} {fs fs' : FileSystem} {s' : Option Stream}
    {input input' output : Bytes} (hr : r.Keeps fs input output) (h : StepsOptional r.input fs s' fs')
    (hs : ∀ s, s' = some s → s.Keeps fs' input') :
    ({ r with input := s' } : Recorder).Keeps fs' input' output := by
  cases hi : r.input with
  | none =>
    cases s' with
    | none =>
      rw [hi] at h
      cases h
      exact ⟨hs, hr.output, fun s t h => by cases h⟩
    | some s' =>
      rw [hi] at h
      exact h.elim
  | some s =>
    cases s' with
    | none =>
      rw [hi] at h
      exact h.elim
    | some s' =>
      rw [hi] at h
      refine ⟨hs, fun t ht => (hr.output t ht).spared (h.spares t (hr.apart s t hi ht)), ?_⟩
      intro u t hu ht
      cases hu
      exact h.apart (hr.apart s t hi ht)

theorem Keeps.stepOutput {r : Recorder} {fs fs' : FileSystem} {s' : Option Stream}
    {input output output' : Bytes} (hr : r.Keeps fs input output) (h : StepsOptional r.output fs s' fs')
    (hs : ∀ s, s' = some s → s.Keeps fs' output') :
    ({ r with output := s' } : Recorder).Keeps fs' input output' := by
  cases ho : r.output with
  | none =>
    cases s' with
    | none =>
      rw [ho] at h
      cases h
      exact ⟨hr.input, hs, fun s t _ h => by cases h⟩
    | some s' =>
      rw [ho] at h
      exact h.elim
  | some s =>
    cases s' with
    | none =>
      rw [ho] at h
      exact h.elim
    | some s' =>
      rw [ho] at h
      have ha := fun t ht => (hr.apart t s ht ho).symm
      refine ⟨fun t ht => (hr.input t ht).spared (h.spares t (ha t ht)), hs, ?_⟩
      intro t u ht hu
      cases hu
      exact (h.apart (ha t ht)).symm

theorem appendOptional_keeps {s s' : Option Stream} {fs fs' : FileSystem} {old : Bytes} {e : Event}
    (hs : ∀ t, s = some t → t.Keeps fs old) (h : appendOptional s fs e = (.ok (), s', fs')) :
    StepsOptional s fs s' fs' ∧ ∀ t, s' = some t → t.Keeps fs' (old ++ (Record.ofEvent e).bytes) := by
  cases s with
  | none =>
    cases h
    exact ⟨rfl, fun t ht => by cases ht⟩
  | some s =>
    rw [appendOptional] at h
    generalize hr : s.append fs (.ofEvent e) = r at h
    obtain ⟨result, t, gs⟩ := r
    cases h
    obtain ⟨hk, hsteps⟩ := (hs s rfl).append hr
    refine ⟨hsteps, fun u hu => ?_⟩
    cases hu
    exact hk

theorem flushOptional_keeps {s s' : Option Stream} {fs fs' : FileSystem} {bytes : Bytes}
    {result : Except RecordingError Unit} (hs : ∀ t, s = some t → t.Keeps fs bytes)
    (h : flushOptional s fs = (result, s', fs')) :
    StepsOptional s fs s' fs' ∧ ∀ t, s' = some t → t.Keeps fs' bytes := by
  cases s with
  | none =>
    cases h
    exact ⟨rfl, fun t ht => by cases ht⟩
  | some s =>
    rw [flushOptional] at h
    generalize hr : s.flush fs = r at h
    obtain ⟨result, t, gs⟩ := r
    cases h
    obtain ⟨hk, hsteps⟩ := (hs s rfl).flush hr
    refine ⟨hsteps, fun u hu => ?_⟩
    cases hu
    exact hk

theorem Keeps.recordInput {r r' : Recorder} {fs fs' : FileSystem} {input output : Bytes} {e : Event}
    (hr : r.Keeps fs input output) (h : r.recordInput fs e = (.ok (), r', fs')) :
    r'.Keeps fs' (input ++ (Record.ofEvent e).bytes) output ∧ r'.marks = r.marks := by
  rw [Recorder.recordInput] at h
  generalize ha : appendOptional r.input fs e = a at h
  obtain ⟨result, s, gs⟩ := a
  cases h
  obtain ⟨hsteps, hs⟩ := appendOptional_keeps hr.input ha
  exact ⟨hr.stepInput hsteps hs, by rw [marks, marks, hsteps.mark]⟩

theorem Keeps.recordOutput {r r' : Recorder} {fs fs' : FileSystem} {input output : Bytes} {e : Event}
    (hr : r.Keeps fs input output) (h : r.recordOutput fs e = (.ok (), r', fs')) :
    r'.Keeps fs' input (output ++ (Record.ofEvent e).bytes) ∧ r'.marks = r.marks := by
  rw [Recorder.recordOutput] at h
  generalize ha : appendOptional r.output fs e = a at h
  obtain ⟨result, s, gs⟩ := a
  cases h
  obtain ⟨hsteps, hs⟩ := appendOptional_keeps hr.output ha
  exact ⟨hr.stepOutput hsteps hs, by rw [marks, marks, hsteps.mark]⟩

theorem Keeps.flush {r r' : Recorder} {fs fs' : FileSystem} {input output : Bytes}
    {result : Except RecordingError Unit} (hr : r.Keeps fs input output) (h : r.flush fs = (result, r', fs')) :
    r'.Keeps fs' input output ∧ r'.marks = r.marks := by
  rw [Recorder.flush] at h
  generalize ha : flushOptional r.input fs = a at h
  obtain ⟨first, s, gs⟩ := a
  obtain ⟨hsteps, hs⟩ := flushOptional_keeps hr.input ha
  have hr' := hr.stepInput hsteps hs
  cases first with
  | error e =>
    cases h
    exact ⟨hr', by rw [marks, marks, hsteps.mark]⟩
  | ok u =>
    dsimp only at h
    generalize hb : flushOptional r.output gs = b at h
    obtain ⟨second, t, gs'⟩ := b
    cases h
    obtain ⟨hsteps', ht⟩ := flushOptional_keeps hr'.output hb
    refine ⟨hr'.stepOutput hsteps' ht, ?_⟩
    rw [marks, marks, hsteps.mark, hsteps'.mark]

theorem finish_of_finishOptional {s : Stream} {fs fs' : FileSystem} {files : List FileName}
    (h : finishOptional (some s) fs = (.ok files, fs')) : ∃ f, s.finish fs = (.ok f, fs') := by
  rw [finishOptional] at h
  generalize hr : s.finish fs = r at h
  obtain ⟨e | f, gs⟩ := r
  · cases h
  · cases h
    exact ⟨f, rfl⟩

theorem finishOptional_of_finish {r r' : Recorder} {fs fs' : FileSystem} {files : List FileName}
    (h : r.finish fs = (.ok files, r', fs')) :
    ∃ a b gs, finishOptional r.input fs = (.ok a, gs) ∧ finishOptional r.output gs = (.ok b, fs') := by
  rw [finish] at h
  generalize hi : finishOptional r.input fs = a at h
  obtain ⟨ea | a, gs⟩ := a
  · dsimp only at h
    generalize finishOptional r.output gs = b at h
    obtain ⟨eb | b, gs'⟩ := b
    · cases h
    · cases h
  · dsimp only at h
    generalize ho : finishOptional r.output gs = b at h
    obtain ⟨eb | b, gs'⟩ := b
    · cases h
    · cases h
      exact ⟨a, b, gs, rfl, ho⟩

/-- Finishing the input log leaves the output log whole. -/
theorem Keeps.afterInput {r : Recorder} {fs gs : FileSystem} {files : List FileName} {input output : Bytes}
    (hr : r.Keeps fs input output) (h : finishOptional r.input fs = (.ok files, gs)) :
    ∀ t, r.output = some t → t.Keeps gs output := by
  intro t ht
  cases hri : r.input with
  | none =>
    rw [hri] at h
    cases h
    exact hr.output t ht
  | some s =>
    rw [hri] at h
    obtain ⟨f, hf⟩ := finish_of_finishOptional h
    obtain ⟨id, place, hl, hb⟩ := hr.input s hri
    obtain ⟨-, hfin⟩ := Stream.finish_finished hl hb hf
    exact (hr.output t ht).spared (hfin.spares hl (hr.apart s t hri ht))

/-- When both recordings were finished, each log holds what its recording was given, in the recording's file. -/
theorem Keeps.found {r r' : Recorder} {fs fs' : FileSystem} {files : List FileName}
    {input output : Bytes} (hr : r.Keeps fs input output) (h : r.finish fs = (.ok files, r', fs')) :
    (∀ s, r.input = some s → ∃ id, s.Found fs' id input) ∧
      ∀ s, r.output = some s → ∃ id, s.Found fs' id output := by
  obtain ⟨a, b, gs, hi, ho⟩ := finishOptional_of_finish h
  have hafter := hr.afterInput hi
  cases hri : r.input with
  | none =>
    refine ⟨fun s hs => (by cases hs), fun t ht => ?_⟩
    rw [ht] at ho
    obtain ⟨f, hf⟩ := finish_of_finishOptional ho
    obtain ⟨id, place, hl, hb⟩ := hafter t ht
    exact ⟨id, (Stream.finish_finished hl hb hf).2.found hl⟩
  | some s =>
    rw [hri] at hi
    obtain ⟨f, hf⟩ := finish_of_finishOptional hi
    obtain ⟨id, place, hl, hb⟩ := hr.input s hri
    obtain ⟨-, hfin⟩ := Stream.finish_finished hl hb hf
    cases hro : r.output with
    | none =>
      rw [hro] at ho
      cases ho
      refine ⟨fun u hu => ?_, fun t ht => (by cases ht)⟩
      cases hu
      exact ⟨id, hfin.found hl⟩
    | some t =>
      rw [hro] at ho
      obtain ⟨g, hg⟩ := finish_of_finishOptional ho
      -- the output log is finished second, which leaves the input log as it was finished
      have hapart := hr.apart s t hri hro
      obtain ⟨id', place', hl', hb'⟩ := hafter t hro
      obtain ⟨-, hfin'⟩ := Stream.finish_finished hl' hb' hg
      have hapart' : t.Apart s gs := by
        refine ⟨hapart.symm.node, fun f hf g hg => ?_⟩
        exact (hapart.symm.names f hf g hg).congr (hfin.target f) (hfin.target g)
      refine ⟨fun u hu => ?_, fun u hu => ?_⟩
      · cases hu
        exact ⟨id, (hfin.found hl).beside hfin' hl' hapart'⟩
      · cases hu
        exact ⟨id', hfin'.found hl'⟩

theorem Keeps.finish {r r' : Recorder} {fs fs' : FileSystem} {files : List FileName}
    {input output : Bytes} (hr : r.Keeps fs input output) (h : r.finish fs = (.ok files, r', fs')) :
    (∀ s, r.input = some s → fs'.read s.final = .ok input) ∧
      ∀ s, r.output = some s → fs'.read s.final = .ok output := by
  obtain ⟨hinput, houtput⟩ := hr.found h
  refine ⟨fun s hs => ?_, fun s hs => ?_⟩
  · obtain ⟨id, hf⟩ := hinput s hs
    exact hf.read
  · obtain ⟨id, hf⟩ := houtput s hs
    exact hf.read

structure Started (log : Option FileName) (s : Option Stream) (fs : FileSystem) : Prop where
  final : s.map Stream.final = log
  pending : ∀ t, s = some t → t.writer.pending = [] ∧ t.writer.handle.offset = 0
  empty : ∀ t, s = some t → ∀ id, t.writer.handle.node = .file id → fs.content id = []

theorem startOptional_eq_ok {fs fs' : FileSystem} {log : Option FileName} {temporary : Bool} {s : Option Stream}
    (h : startOptional fs log temporary = (.ok s, fs')) :
    log = none ∧ s = none ∧ fs' = fs ∨
      ∃ f t, log = some f ∧ s = some t ∧ Stream.start fs f temporary = (.ok t, fs') := by
  cases log with
  | none =>
    cases h
    exact .inl ⟨rfl, rfl, rfl⟩
  | some f =>
    rw [startOptional] at h
    generalize hs : Stream.start fs f temporary = started at h
    obtain ⟨cause | t, gs⟩ := started
    · cases h
    · cases h
      exact .inr ⟨f, t, rfl, rfl, hs⟩

theorem started_of_startOptional {log : Option FileName} {temporary : Bool} {s : Option Stream}
    {fs fs' : FileSystem} (h : startOptional fs log temporary = (.ok s, fs')) :
    Started log s fs' ∧ ∀ id, fs.content id = [] → fs'.content id = [] := by
  cases log with
  | none =>
    cases h
    exact ⟨⟨rfl, fun t ht => (by cases ht), fun t ht => (by cases ht)⟩, fun _ h => h⟩
  | some f =>
    rw [startOptional, Stream.start] at h
    generalize hc : fs.create (Stream.writtenName f temporary) = r at h
    obtain ⟨e | handle, gs⟩ := r
    · cases h
    · cases h
      have hcreated := FileSystem.created_of_create hc
      refine ⟨⟨rfl, fun t ht => ?_, fun t ht id hid => ?_⟩, hcreated.others⟩
      · cases ht
        exact ⟨rfl, hcreated.offset⟩
      · cases ht
        exact hcreated.empty id hid

theorem Started.keeps {log : Option FileName} {s : Option Stream} {fs : FileSystem}
    (h : Started log s fs) (hl : ∀ t, s = some t → ∃ id place, t.Lies fs id place) :
    ∀ t, s = some t → t.Keeps fs [] := by
  intro t ht
  obtain ⟨id, place, hl⟩ := hl t ht
  obtain ⟨hp, ho⟩ := h.pending t ht
  have hc := h.empty t ht id hl.node
  refine ⟨id, place, hl, hl.known, ?_, by rw [hc, hp, List.append_nil]⟩
  rw [FileSystem.endOf, hc, List.length_nil, ← hl.node, ← ho]

theorem keeps_start {r : Recorder} {fs fs' : FileSystem} {c : ChannelConfig}
    (h : idle.start fs c = (.ok (), r, fs')) (ha : r.Apart fs') :
    r.Keeps fs' [] [] ∧ r.logs = (c.input?, c.output?) := by
  rw [start] at h
  generalize hi : startOptional fs c.input? c.deleteOnAbort = a at h
  obtain ⟨e | input, gs⟩ := a
  · cases h
  · dsimp only at h
    generalize ho : startOptional gs c.output? c.deleteOnAbort = b at h
    obtain ⟨e | output, gs'⟩ := b
    · cases input with
      | none => cases h
      | some s => cases h
    · cases h
      obtain ⟨hin, -⟩ := started_of_startOptional hi
      obtain ⟨hout, hothers⟩ := started_of_startOptional ho
      have hin' : Started c.input? input gs' :=
        ⟨hin.final, hin.pending, fun t ht id hid => hothers id (hin.empty t ht id hid)⟩
      exact ⟨⟨hin'.keeps ha.input, hout.keeps ha.output, ha.apart⟩,
        by rw [logs, hin.final, hout.final]⟩

end EventHub.Recorder
