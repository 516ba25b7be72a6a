import EventHub.Proofs.Recording.LogPlaces
import EventHub.Recording.Recorder
set_option autoImplicit false

namespace EventHub

open FileSystem (SameAt SameBut Reach Renamed)

variable {fs fs' gs : FileSystem} {f g : FileName} {h k : LogPlaces} {bytes : Bytes}

theorem OwnLogs.read_input (own : OwnLogs fs f g h k) (own' : OwnLogs fs' f g h k)
    (hs : SameAt h.final fs fs') : fs'.read f = fs.read f := own.input.final.read own'.input.final hs

theorem Works.read_output (w : Works fs f g h k fs') (own : OwnLogs fs f g h k) : fs'.read g = fs.read g :=
  own.output.final.read w.own.output.final (w.other k.final (by simp [LogPlaces.places]))

theorem Works.find_temporary (w : Works fs f g h k fs') (own : OwnLogs fs f g h k) :
    fs'.isThere (Stream.temporaryName g) = fs.isThere (Stream.temporaryName g) := by
  have hnode := (w.other k.temporary (by simp [LogPlaces.places])).node
  rw [FileSystem.isThere, FileSystem.isThere, own.output.temporary.find w.own.output.temporary hnode]

namespace Stream

variable {s s' : Stream} {id : Nat}

def goesThrough (s : Stream) (fs : FileSystem) : Bool :=
  (s.flush fs).1.isOk && ((s.flush fs).2.2.rename s.file s.final).1.isOk

/-- What is seen of a log once its recording was to be finished: all of it, or what was seen before. -/
structure Fate (f : FileName) (bytes : Bytes) (s : Stream) (fs fs' : FileSystem) : Prop where
  answer : (s.finish fs).1.isOk = s.goesThrough fs
  whole : s.goesThrough fs = true → fs'.read f = .ok bytes ∧ fs'.isThere (temporaryName f) = false
  unseen : s.goesThrough fs = false → fs'.read f = fs.read f

theorem Fate.read {before : Except OsError Bytes} (hf : Fate f bytes s fs fs') (hb : fs.read f = before) :
    fs'.read f = if s.goesThrough fs then .ok bytes else before := by
  cases hs : s.goesThrough fs with
  | false => exact (hf.unseen hs).trans hb
  | true => exact (hf.whole hs).1

theorem Grows.drop (hg : Grows s fs id bytes s' fs') : SameBut id fs (s'.drop fs') := by
  have hflush : s'.writer.flush fs' = ((s'.writer.flush fs').1, (s'.writer.flush fs').2.1, s'.drop fs') := rfl
  exact hg.sameBut.trans (hg.holds.passes hflush).1.sameBut

theorem Lies.works_sameBut (hl : s.Lies fs id h.temporary) (own : OwnLogs fs f g h k) (hs : SameBut id fs fs') :
    Works fs f g h k fs' ∧ SameAt h.final fs fs' := by
  refine own.change_of_reach (hs.reach hl.file.node) (.inl hl.file.node) (hs.length ▸ hl.known) ?_
  intro node hn
  rw [hs.nodeAt?, hl.file.node] at hn
  cases hn
  exact ⟨id, rfl⟩

theorem Lies.works_renamed (hl : s.Lies fs id h.temporary) (own : OwnLogs fs f g h k) (hs : SameBut id fs gs)
    (hr : Renamed gs id h.temporary h.final fs') : Works fs f g h k fs' := by
  have hne := own.final_ne_temporary
  have hnode : gs.nodeAt? h.temporary = some (.file id) := (hs.nodeAt? _).trans hl.file.node
  have hgone := hr.source hne
  have hlast : ∀ p ∈ [h.temporary, h.final], fs'.nodeAt? p = some (.file id) → p = h.final := by
    intro p hp hn
    rcases List.mem_cons.1 hp with rfl | hp
    · rw [hgone] at hn
      cases hn
    · exact List.mem_singleton.1 hp
  have c : Change fs h id [h.temporary, h.final] fs' :=
    { reach := .afterWrite hs (hr.reach hnode hne)
      temporary := by simp
      inside := by simp [LogPlaces.places]
      origin := .inl hl.file.node
      known := by
        rw [hr.contents, hs.length]
        exact hl.known
      once := fun p hp q hq hpn hqn => (hlast p hp hpn).trans (hlast q hq hqn).symm
      free := fun node hn => by
        rw [hgone] at hn
        cases hn }
  exact c.works own

theorem Lies.unfinished {e : RecordingError} (hl : s.Lies fs id h.temporary) (own : OwnLogs fs f g h k)
    (hf : s.finish fs = (.error e, gs)) (hnot : s.goesThrough fs = false) (hs : SameBut id fs gs) :
    Works fs f g h k (s.finish fs).2 ∧ Fate f bytes s fs (s.finish fs).2 := by
  obtain ⟨hw, hfinal⟩ := hl.works_sameBut own hs
  rw [hf]
  refine ⟨hw, by rw [hf, hnot]; rfl, fun h => ?_, fun _ => own.read_input hw.own hfinal⟩
  rw [hnot] at h
  cases h

theorem Runs.finish (hs : s.Runs fs f h bytes) (own : OwnLogs fs f g h k) :
    Works fs f g h k (s.finish fs).2 ∧ Fate f bytes s fs (s.finish fs).2 := by
  obtain ⟨id, hl, hb⟩ := hs.keeps
  generalize hw : s.flush fs = done
  obtain ⟨e | u, t, gs⟩ := done
  · have hnot : s.goesThrough fs = false := by
      rw [goesThrough, hw]
      rfl
    exact hl.unfinished own (by rw [Stream.finish, hw]) hnot (flush_grows hb hw).1.drop
  · obtain ⟨hg, hp⟩ := flush_grows hb hw
    have hp := hp rfl
    have hdrop : t.drop gs = gs := Writer.drop_of_pending_eq_nil hp gs
    have ht : t.temporary = true := hg.temporary.trans hs.temporary
    have hgoes : s.goesThrough fs = (gs.rename t.file t.final).1.isOk := by
      rw [goesThrough, hw, hg.file, hg.final]
      rfl
    generalize hr : gs.rename t.file t.final = renamed at hgoes
    obtain ⟨e | u, gs'⟩ := renamed
    · have heq : s.finish fs = (.error (.renameFailed t.file t.final e), gs') := by
        rw [Stream.finish, hw]
        simp only [hdrop, ht, if_true, hr]
      exact hl.unfinished own heq hgoes (hg.sameBut.trans ((FileSystem.sameFiles_of_attempt hr).sameBut id))
    · have heq : s.finish fs = (.ok t.final, gs') := by
        rw [Stream.finish, hw]
        simp only [hdrop, ht, if_true, hr]
      have hgl := hl.grows hg
      obtain ⟨q, hq, hren, hfile⟩ := FileSystem.renamed_of_rename hgl.file hgl.bottom hr
      have hfinal : t.final = f := hg.final.trans hs.final
      obtain rfl : h.final = q := by
        rw [hfinal, (own.input.final.congr (hg.sameBut.target? f)).placeOf?] at hq
        exact Option.some.inj hq
      have hw := hl.works_renamed own hg.sameBut hren
      have hcontent : gs'.content id = bytes := by
        have hbytes := hg.holds.bytes
        rw [hp, List.append_nil] at hbytes
        rw [FileSystem.content, hren.contents]
        exact hbytes
      rw [heq]
      refine ⟨hw, by rw [heq, hgoes]; rfl, fun _ => ⟨?_, ?_⟩, fun h => ?_⟩
      · rw [← hfinal, hfile.read, hcontent]
      · exact hw.own.input.temporary.isThere (hren.source own.final_ne_temporary)
      · rw [hgoes] at h
        cases h

/-- A recording that is discarded is never seen, and if that succeeds nothing is left of it. -/
theorem Runs.discard (hs : s.Runs fs f h bytes) (own : OwnLogs fs f g h k) :
    Works fs f g h k (s.discard fs).2 ∧ SameAt h.final fs (s.discard fs).2 ∧
      ((s.discard fs).1 = .ok () → (s.discard fs).2.isThere (temporaryName f) = false) := by
  obtain ⟨id, hl, hb⟩ := hs.keeps
  rw [Stream.discard, if_pos hs.temporary]
  generalize hw : s.flush fs = done
  obtain ⟨flushed, t, gs⟩ := done
  have hg := (flush_grows hb hw).1
  have hsame := hg.drop
  dsimp only
  generalize hr : (t.drop gs).remove t.file = removed
  obtain ⟨e | u, gs'⟩ := removed
  · obtain ⟨hw, hfinal⟩ := hl.works_sameBut own (hsame.trans ((FileSystem.sameFiles_of_attempt hr).sameBut id))
    exact ⟨hw, hfinal, fun h => by cases h⟩
  · have hfile := hg.file.symm ▸ hl.file.congr (hsame.target? s.file) (hsame.nodeAt? h.temporary)
    obtain ⟨hreach, hgone⟩ := FileSystem.reach_of_remove hfile hr
    have hreach := hreach.afterWrite hsame
    obtain ⟨hw, hfinal⟩ := own.change_of_reach hreach (.inl hl.file.node)
      (Nat.lt_of_lt_of_le hl.known hreach.length) fun node hn => by
        rw [hgone] at hn
        cases hn
    exact ⟨hw, hfinal, fun _ => hw.own.input.temporary.isThere hgone⟩

theorem start_runs {r : Except RecordingError Stream} (own : OwnLogs fs f g h k)
    (hs : Stream.start fs f true = (r, fs')) : Works fs f g h k fs' ∧ SameAt h.final fs fs' ∧
      ∀ s, r = .ok s → s.Runs fs' f h [] := by
  rw [Stream.start, show writtenName f true = temporaryName f from rfl] at hs
  generalize hc : fs.create (temporaryName f) = created at hs
  obtain ⟨e | handle, gs⟩ := created
  · cases hs
    have hsame := FileSystem.sameFiles_of_create hc
    exact ⟨own.works_sameFiles hsame, hsame.sameAt _, fun s h => by cases h⟩
  · cases hs
    obtain ⟨id, ho⟩ := FileSystem.opened_of_create own.input.temporary own.input.free
      (own.known h.temporary (by simp [LogPlaces.places])) hc
    obtain ⟨hw, hfinal⟩ := own.change_of_reach ho.reach ho.origin ho.known fun node hn => by
      rw [ho.file.node] at hn
      cases hn
      exact ⟨id, rfl⟩
    refine ⟨hw, hfinal, fun s h => ?_⟩
    cases h
    refine ⟨rfl, rfl, id, ⟨?_, ho.known, ho.file, hw.own.input.bottom⟩, ho.known, ?_, ?_⟩
    · rw [ho.handle]
      rfl
    · rw [FileSystem.endOf, ho.empty, ho.handle]
      rfl
    · rw [ho.empty]
      rfl

end Stream

structure SameLogs (f g : FileName) (fs fs' : FileSystem) : Prop where
  input : fs'.read f = fs.read f
  output : fs'.read g = fs.read g

theorem SameLogs.trans (hs : SameLogs f g fs gs) (ht : SameLogs f g gs fs') : SameLogs f g fs fs' :=
  ⟨ht.input.trans hs.input, ht.output.trans hs.output⟩

def firstFailure {ε α β : Type} (a : Except ε α) (b : Except ε β) : Except ε Unit :=
  match a, b with
  | .error e, _ => .error e
  | .ok _, .error e => .error e
  | .ok _, .ok _ => .ok ()

namespace Recorder

variable {r r' : Recorder} {input output : Bytes}

/-- Both recordings are written, and these bytes have been given to them. -/
structure Runs (r : Recorder) (fs : FileSystem) (f g : FileName) (h k : LogPlaces) (input output : Bytes) :
    Prop where
  own : OwnLogs fs f g h k
  input : ∃ s, r.input = some s ∧ s.Runs fs f h input
  output : ∃ s, r.output = some s ∧ s.Runs fs g k output

theorem Runs.runs_input {s : Stream} (hr : r.Runs fs f g h k input output) (hs : r.input = some s) :
    s.Runs fs f h input := by
  obtain ⟨t, ht, hrun⟩ := hr.input
  rw [hs] at ht
  cases ht
  exact hrun

theorem Runs.runs_output {s : Stream} (hr : r.Runs fs f g h k input output) (hs : r.output = some s) :
    s.Runs fs g k output := by
  obtain ⟨t, ht, hrun⟩ := hr.output
  rw [hs] at ht
  cases ht
  exact hrun

theorem Runs.spared (hr : r.Runs fs f g h k input output) (w : Works fs f g h k fs')
    (v : Works fs g f k h fs') : r.Runs fs' f g h k input output := by
  obtain ⟨s, hs, hrun⟩ := hr.input
  obtain ⟨t, ht, hrun'⟩ := hr.output
  exact ⟨w.own, ⟨s, hs, hrun.beside hr.own.symm v⟩, ⟨t, ht, hrun'.beside hr.own w⟩⟩

theorem Runs.stepInput {s : Stream} {bytes : Bytes} (hr : r.Runs fs f g h k input output)
    (hs : s.Runs fs' f h bytes ∧ Works fs f g h k fs' ∧ SameAt h.final fs fs') :
    ({ r with input := some s } : Recorder).Runs fs' f g h k bytes output ∧ SameLogs f g fs fs' := by
  obtain ⟨hs, hw, hfinal⟩ := hs
  obtain ⟨t, ht, hrun⟩ := hr.output
  exact ⟨⟨hw.own, ⟨s, rfl, hs⟩, t, ht, hrun.beside hr.own hw⟩,
    hr.own.read_input hw.own hfinal, hw.read_output hr.own⟩

theorem Runs.stepOutput {s : Stream} {bytes : Bytes} (hr : r.Runs fs f g h k input output)
    (hs : s.Runs fs' g k bytes ∧ Works fs g f k h fs' ∧ SameAt k.final fs fs') :
    ({ r with output := some s } : Recorder).Runs fs' f g h k input bytes ∧ SameLogs f g fs fs' := by
  obtain ⟨hs, hw, hfinal⟩ := hs
  obtain ⟨t, ht, hrun⟩ := hr.input
  exact ⟨⟨hw.own.symm, ⟨t, ht, hrun.beside hr.own.symm hw⟩, s, rfl, hs⟩,
    hw.read_output hr.own.symm, hr.own.symm.read_input hw.own hfinal⟩

theorem Runs.recordInput {e : Event} (hr : r.Runs fs f g h k input output)
    (he : r.recordInput fs e = (.ok (), r', fs')) :
    r'.Runs fs' f g h k (input ++ (Record.ofEvent e).bytes) output ∧ SameLogs f g fs fs' := by
  obtain ⟨s, hs, hrun⟩ := hr.input
  rw [Recorder.recordInput, hs, appendOptional] at he
  generalize ha : s.append fs (.ofEvent e) = appended at he
  obtain ⟨result, t, gs⟩ := appended
  cases he
  exact hr.stepInput (hrun.append hr.own ha)

theorem Runs.recordOutput {e : Event} (hr : r.Runs fs f g h k input output)
    (he : r.recordOutput fs e = (.ok (), r', fs')) :
    r'.Runs fs' f g h k input (output ++ (Record.ofEvent e).bytes) ∧ SameLogs f g fs fs' := by
  obtain ⟨s, hs, hrun⟩ := hr.output
  rw [Recorder.recordOutput, hs, appendOptional] at he
  generalize ha : s.append fs (.ofEvent e) = appended at he
  obtain ⟨result, t, gs⟩ := appended
  cases he
  exact hr.stepOutput (hrun.append hr.own.symm ha)

theorem Runs.flush (hr : r.Runs fs f g h k input output) :
    (r.flush fs).2.1.Runs (r.flush fs).2.2 f g h k input output ∧ SameLogs f g fs (r.flush fs).2.2 := by
  obtain ⟨s, hs, hrun⟩ := hr.input
  obtain ⟨hr', hsame⟩ := hr.stepInput (hrun.flush hr.own)
  rw [Recorder.flush, hs, flushOptional]
  generalize s.flush fs = flushed at hr' hsame
  obtain ⟨e | u, s', gs⟩ := flushed
  · exact ⟨hr', hsame⟩
  · obtain ⟨t, ht, hrun'⟩ := hr'.output
    have ht' : r.output = some t := ht
    obtain ⟨hr'', hsame'⟩ := hr'.stepOutput (hrun'.flush hr'.own.symm)
    dsimp only
    rw [ht', flushOptional]
    exact ⟨hr'', hsame.trans hsame'⟩

theorem finishOptional_some (s : Stream) (fs : FileSystem) :
    finishOptional (some s) fs = ((s.finish fs).1.map fun f => [f], (s.finish fs).2) := by
  rw [finishOptional]
  generalize s.finish fs = r
  obtain ⟨e | f, gs⟩ := r
  · rfl
  · rfl

theorem finish_eq {s t : Stream} (hs : r.input = some s) (ht : r.output = some t) (fs : FileSystem) :
    ∃ files, r.finish fs =
      ((firstFailure (s.finish fs).1 (t.finish (s.finish fs).2).1).map fun _ => files, .idle,
        (t.finish (s.finish fs).2).2) := by
  rw [Recorder.finish, hs, ht, finishOptional_some]
  dsimp only
  rw [finishOptional_some]
  dsimp only
  generalize (t.finish (s.finish fs).2).1 = b
  cases (s.finish fs).1 with
  | error e =>
    cases b with
    | error e' => exact ⟨[], rfl⟩
    | ok b => exact ⟨[], rfl⟩
  | ok a =>
    cases b with
    | error e' => exact ⟨[], rfl⟩
    | ok b => exact ⟨[a, b], rfl⟩

theorem discard_eq {s t : Stream} (hs : r.input = some s) (ht : r.output = some t) (fs : FileSystem) :
    r.discard fs = (firstFailure (s.discard fs).1 (t.discard (s.discard fs).2).1, .idle,
      (t.discard (s.discard fs).2).2) := by
  rw [Recorder.discard, hs, ht, discardOptional]
  dsimp only
  rw [discardOptional]
  generalize (t.discard (s.discard fs).2).1 = b
  cases (s.discard fs).1 with
  | error e =>
    cases b with
    | error e' => rfl
    | ok b => rfl
  | ok a =>
    cases b with
    | error e' => rfl
    | ok b => rfl

/-- Two recordings are finished one after the other. Nothing is seen of either log while its records are written
out or the other one is finished, and each has a fate of its own. -/
structure Finishes (fs : FileSystem) (f g : FileName) (input output : Bytes) (a b : Stream) : Prop where
  writtenInput : (a.flush fs).2.2.read f = fs.read f
  between : (a.finish fs).2.read g = fs.read g
  writtenOutput : (b.flush (a.finish fs).2).2.2.read g = fs.read g
  input : Stream.Fate f input a fs (b.finish (a.finish fs).2).2
  output : Stream.Fate g output b (a.finish fs).2 (b.finish (a.finish fs).2).2

theorem Runs.finishes {a b : Stream} (hr : r.Runs fs f g h k input output) (ha : r.input = some a)
    (hb : r.output = some b) :
    OwnLogs (b.finish (a.finish fs).2).2 f g h k ∧ Finishes fs f g input output a b := by
  have hrun := hr.runs_input ha
  obtain ⟨-, hflush, hunseen⟩ := hrun.flush hr.own
  obtain ⟨hw, hfate⟩ := hrun.finish hr.own
  have hrun' := (hr.runs_output hb).beside hr.own hw
  obtain ⟨-, hflush', hunseen'⟩ := hrun'.flush hw.own.symm
  obtain ⟨hw', hfate'⟩ := hrun'.finish hw.own.symm
  have hseen := hw.read_output hr.own
  have hseen' := hw'.read_output hw.own.symm
  refine ⟨hw'.own.symm, hr.own.read_input hflush.own hunseen, hseen,
    (hw.own.symm.read_input hflush'.own hunseen').trans hseen,
    ⟨hfate.answer, fun hx => ?_, fun hx => hseen'.trans (hfate.unseen hx)⟩, hfate'⟩
  obtain ⟨hread, hgone⟩ := hfate.whole hx
  exact ⟨hseen'.trans hread, (hw'.find_temporary hw.own.symm).trans hgone⟩

/-- Two recordings are discarded one after the other. Nothing is ever seen of either, and what was discarded is
gone whatever became of the other one. -/
structure Discards (fs : FileSystem) (f g : FileName) (a b : Stream) : Prop where
  between : SameLogs f g fs (a.discard fs).2
  unseen : SameLogs f g fs (b.discard (a.discard fs).2).2
  input : (a.discard fs).1 = .ok () →
    (b.discard (a.discard fs).2).2.isThere (Stream.temporaryName f) = false
  output : (b.discard (a.discard fs).2).1 = .ok () →
    (b.discard (a.discard fs).2).2.isThere (Stream.temporaryName g) = false

theorem Runs.discards {a b : Stream} (hr : r.Runs fs f g h k input output) (ha : r.input = some a)
    (hb : r.output = some b) :
    OwnLogs (b.discard (a.discard fs).2).2 f g h k ∧ Discards fs f g a b := by
  obtain ⟨hw, hfinal, hgone⟩ := (hr.runs_input ha).discard hr.own
  obtain ⟨hw', hfinal', hgone'⟩ := ((hr.runs_output hb).beside hr.own hw).discard hw.own.symm
  have hsame : SameLogs f g fs (a.discard fs).2 := ⟨hr.own.read_input hw.own hfinal, hw.read_output hr.own⟩
  refine ⟨hw'.own.symm, hsame, hsame.trans ⟨?_, ?_⟩, fun hx => ?_, hgone'⟩
  · exact hw'.read_output hw.own.symm
  · exact hw.own.symm.read_input hw'.own hfinal'
  · exact (hw'.find_temporary hw.own.symm).trans (hgone hx)

/-- Recordings begin with nothing, and nothing is seen of it, also when the second one cannot begin. -/
theorem start_runs {result : Except RecordingError Unit} (own : OwnLogs fs f g h k)
    (he : idle.start fs ⟨f, g, true⟩ = (result, r, fs')) :
    OwnLogs fs' f g h k ∧ SameLogs f g fs fs' ∧ (result = .ok () → r.Runs fs' f g h k [] []) := by
  have hf : ChannelConfig.input? ⟨f, g, true⟩ = some f := if_neg (by simp [own.input.final.isEmpty])
  have hg : ChannelConfig.output? ⟨f, g, true⟩ = some g := if_neg (by simp [own.output.final.isEmpty])
  rw [Recorder.start, hf, hg, startOptional] at he
  dsimp only at he
  generalize ha : Stream.start fs f true = first at he
  obtain ⟨a, gs⟩ := first
  obtain ⟨hw, hfinal, hruns⟩ := Stream.start_runs own ha
  have hsame : SameLogs f g fs gs := ⟨own.read_input hw.own hfinal, hw.read_output own⟩
  cases a with
  | error e =>
    cases he
    exact ⟨hw.own, hsame, fun h => by cases h⟩
  | ok s =>
    have hrun := hruns s rfl
    dsimp only at he
    rw [startOptional] at he
    generalize hb : Stream.start gs g true = second at he
    obtain ⟨b, gs'⟩ := second
    obtain ⟨hw', hfinal', hruns'⟩ := Stream.start_runs hw.own.symm hb
    have hrun := hrun.beside hw.own.symm hw'
    have hsame' : SameLogs f g gs gs' :=
      ⟨hw'.read_output hw.own.symm, hw.own.symm.read_input hw'.own hfinal'⟩
    cases b with
    | ok t =>
      cases he
      exact ⟨hw'.own.symm, hsame.trans hsame', fun _ => ⟨hw'.own.symm, ⟨s, rfl, hrun⟩, t, rfl, hruns' t rfl⟩⟩
    | error e =>
      -- what was begun of the first one is taken back
      dsimp only at he
      cases he
      obtain ⟨hw'', hfinal'', -⟩ := hrun.discard hw'.own.symm
      have hsame'' : SameLogs f g gs' (s.discard gs').2 :=
        ⟨hw'.own.symm.read_input hw''.own hfinal'', hw''.read_output hw'.own.symm⟩
      exact ⟨hw''.own, (hsame.trans hsame').trans hsame'', fun h => by cases h⟩

end Recorder
end EventHub
