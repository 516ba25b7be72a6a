import EventHub.Proofs.Opening
import EventHub.Proofs.Recording.Recorder
set_option autoImplicit false

namespace EventHub

namespace Stream

/-- The temporary name lies in the same directory, with a longer last piece. -/
theorem reading_temporaryName {f : FileName} {name : String} (h : (FileSystem.reading f).2 = some (name, false)) :
    (FileSystem.reading (temporaryName f)).2 = some (name ++ ".tmp", false) := by
  have hp := FileSystem.pieces_of_reading (Prod.ext rfl h)
  have hslash : '/' ∉ ".tmp".toList := by decide
  obtain ⟨init, last, hs, ha⟩ := Text.splitOn_append_of_notMem hslash f.text.toList
  have hf : f.pieces = init ++ [last] := hs
  have ht : (temporaryName f).pieces = init ++ [last ++ ".tmp".toList] := by
    rw [FileName.pieces, temporaryName, String.toList_append]
    exact ha
  rw [hf, List.map_append] at hp
  obtain ⟨-, hlast⟩ := List.append_inj' hp rfl
  obtain rfl : String.ofList last = name := (List.cons.inj hlast).1
  have hlong : ∀ short : String, short.length < 4 → String.ofList last ++ ".tmp" ≠ short := by
    rintro short hl rfl
    rw [String.length_append, show ".tmp".length = 4 from rfl] at hl
    omega
  have hpieces : (temporaryName f).pieces.map String.ofList =
      init.map String.ofList ++ [String.ofList last ++ ".tmp"] := by
    rw [ht, List.map_append]
    simp
  rw [FileSystem.reading_of_pieces hpieces (hlong "" (by decide))
    (not_or.2 ⟨hlong "." (by decide), hlong ".." (by decide)⟩)]

theorem not_denotes_temporaryName {fs : FileSystem} {f : FileName} {p : Place} (hd : fs.Denotes f p) :
    ¬fs.Denotes (temporaryName f) p := by
  rintro ⟨directory, name, ht, rfl, -⟩
  obtain ⟨directory', name', ht', hp, -⟩ := hd
  have hread := reading_temporaryName (FileSystem.reading_of_target? ht')
  rw [FileSystem.reading_of_target? ht] at hread
  obtain rfl : name' = name := List.singleton_inj.1 (List.append_inj' hp rfl).2
  have hlen := congrArg (fun r : Option (String × Bool) => (r.map fun l => l.1.length).getD 0) hread
  simp at hlen

variable {fs : FileSystem} {s : Stream}

theorem discard_of_nothing (hp : s.writer.pending = []) :
    (s.discard fs).2 = if s.temporary then (fs.remove s.file).2 else fs := by
  obtain ⟨final, temporary, ⟨handle, pending⟩, written⟩ := s
  obtain rfl : pending = [] := hp
  have hflush : flush ⟨final, temporary, ⟨handle, []⟩, written⟩ fs =
      (.ok (), ⟨final, temporary, ⟨handle, []⟩, written⟩, fs) := rfl
  have hdrop : drop ⟨final, temporary, ⟨handle, []⟩, written⟩ fs = fs := Writer.drop_of_pending_eq_nil rfl fs
  cases temporary with
  | true =>
    rw [discard, if_pos rfl, hflush]
    dsimp only
    rw [hdrop]
    split
    · rename_i heq
      rw [if_pos rfl, heq]
    · rename_i heq
      rw [if_pos rfl, heq]
  | false =>
    rw [discard, finish, hflush]
    simp [hdrop]

end Stream

namespace Recorder

open FileSystem (SameFiles OpenedAt)

variable {r r' : Recorder} {fs gs fs' : FileSystem} {c : ChannelConfig} {e : RecordingError}

/-- What is left behind when only the first log can be opened: a new file, unless it is a temporary one and can
be removed, or a file that was emptied and bears the log's own name. -/
def LeavesTraces (fs : FileSystem) (c : ChannelConfig) : Prop :=
  ∃ log, c.input? = some log ∧ (fs.create (Stream.writtenName log c.deleteOnAbort)).1.isOk = true ∧
    (fs.isThere (Stream.writtenName log c.deleteOnAbort) = false ∧ (c.deleteOnAbort = true → fs.refuses 2 = true) ∨
      ∃ id, fs.find (Stream.writtenName log c.deleteOnAbort) = .ok (.file id) ∧ fs.find log = .ok (.file id) ∧
        fs.content id ≠ [])

theorem sameFiles_of_startOptional {log : Option FileName} {temporary : Bool}
    (h : startOptional fs log temporary = (.error e, fs')) :
    SameFiles fs fs' ∧ ∀ n, fs'.refuses n = fs.refuses (n + 1) := by
  cases log with
  | none => cases h
  | some f =>
    have hn := fun n => fs.refuses_create (Stream.writtenName f temporary) n
    rw [startOptional, Stream.start] at h
    generalize hc : fs.create (Stream.writtenName f temporary) = created at h hn
    obtain ⟨cause | handle, gs⟩ := created
    · cases h
      exact ⟨FileSystem.sameFiles_of_create hc, hn⟩
    · cases h

theorem opened_then_discarded {log : FileName} {temporary : Bool} {s : Stream}
    (hs : Stream.start fs log temporary = (.ok s, gs)) :
    (fs.create (Stream.writtenName log temporary)).1.isOk = true ∧
      ∃ p, fs.Denotes (Stream.writtenName log temporary) p ∧
        ∀ {gs'}, SameFiles gs gs' → gs'.refuses 0 = gs.refuses 1 →
          OpenedAt fs p (temporary = true → fs.refuses 2 = true) (s.discard gs').2 := by
  have hn := fs.refuses_create (Stream.writtenName log temporary) 1
  rw [Stream.start] at hs
  generalize hc : fs.create (Stream.writtenName log temporary) = created at hs hn
  obtain ⟨cause | handle, gs⟩ := created
  · cases hs
  · cases hs
    obtain ⟨p, hd, ho⟩ := FileSystem.opens_of_create hc
    refine ⟨rfl, p, hd, fun {gs'} hsame href => ?_⟩
    have ho' := (ho.openedAt.before (FileSystem.sameFiles_nextRefusal fs)).after hsame
    rw [Stream.discard_of_nothing rfl]
    cases temporary with
    | false =>
      rw [if_neg Bool.false_ne_true, show (false = true → fs.refuses 2 = true) = True by simp]
      exact ho'
    | true =>
      have hremoved := ho'.remove (hd.congr (ho'.target _)) (ho'.stands trivial)
      rw [href, hn] at hremoved
      rw [if_pos rfl, show (true = true → fs.refuses 2 = true) = (fs.refuses 2 = true) by simp]
      exact hremoved

theorem startOptional_isOk {f : FileName} {temporary : Bool}
    (hc : (fs.create (Stream.writtenName f temporary)).1.isOk = true) :
    (startOptional fs (some f) temporary).1.isOk = true := by
  rw [startOptional, Stream.start]
  generalize fs.create (Stream.writtenName f temporary) = created at hc
  obtain ⟨cause | handle, gs⟩ := created
  · cases hc
  · rfl

theorem inputLog_of_input? {log : FileName} (h : c.input? = some log) : c.inputLog = log := by
  rw [ChannelConfig.input?, ChannelConfig.logOf] at h
  split at h
  · cases h
  · exact Option.some.inj h

/-- A start that fails leaves the recorder alone, and the files too unless something of the first log is left
behind. -/
theorem failed_start_undone_iff (h : r.start fs c = (.error e, r', fs')) :
    r' = r ∧ (fs.Undone fs' c.inputLog ↔ ¬LeavesTraces fs c) := by
  rw [start] at h
  generalize hi : startOptional fs c.input? c.deleteOnAbort = first at h
  obtain ⟨cause | input, gs⟩ := first
  · cases h
    refine ⟨rfl, iff_of_true (sameFiles_of_startOptional hi).1.undone ?_⟩
    rintro ⟨log, hlog, hok, -⟩
    have hok := startOptional_isOk hok
    rw [← hlog, hi] at hok
    cases hok
  · dsimp only at h
    generalize ho : startOptional gs c.output? c.deleteOnAbort = second at h
    obtain ⟨cause | output, gs'⟩ := second
    · obtain ⟨hsame, href⟩ := sameFiles_of_startOptional ho
      rcases startOptional_eq_ok hi with ⟨hnone, rfl, rfl⟩ | ⟨log, s, hlog, rfl, hs⟩
      · cases h
        refine ⟨rfl, iff_of_true hsame.undone ?_⟩
        rintro ⟨log, hlog, -⟩
        cases hnone.symm.trans hlog
      · obtain ⟨hok, p, hd, hdiscarded⟩ := opened_then_discarded hs
        cases h
        rw [inputLog_of_input? hlog, (hdiscarded hsame (href 0)).undone_iff, LeavesTraces, ← hd.isThere]
        · simp only [hlog, Option.some.injEq, exists_eq_left', hok, true_and, hd.find_eq_ok]
        · -- a temporary file never stands at the log's own name
          rintro hlog' - hdelete
          rw [hdelete] at hd
          exact absurd hd (Stream.not_denotes_temporaryName hlog')
    · cases h

def withOldLog : FileSystem :=
  { FileSystem.fresh.setNode ["tmp", "work", "in.log"] (.file 0) with contents := [[0x6F, 0x6C, 0x64, 0x0A]] }

def halfOpen : ChannelConfig := ⟨⟨"in.log"⟩, ⟨"missing/out.log"⟩, false⟩

theorem failed_start_undone_iff_emptied :
    let fs := withOldLog
    let after := idle.start fs halfOpen
    after.1 = .error (.openFailed ⟨"missing/out.log"⟩ .notFound) ∧ after.2.1 = idle ∧
      LeavesTraces fs halfOpen ∧ ¬fs.Undone after.2.2 halfOpen.inputLog ∧
      fs.read ⟨"in.log"⟩ = .ok [0x6F, 0x6C, 0x64, 0x0A] ∧ after.2.2.read ⟨"in.log"⟩ = .ok [] := by
  intro fs after
  have hstart : idle.start fs halfOpen =
      (.error (.openFailed ⟨"missing/out.log"⟩ .notFound), after.2.1, after.2.2) := rfl
  have hleft : LeavesTraces fs halfOpen :=
    ⟨⟨"in.log"⟩, rfl, rfl, .inr ⟨0, rfl, rfl, List.cons_ne_nil _ _⟩⟩
  obtain ⟨hr, hundone⟩ := failed_start_undone_iff hstart
  exact ⟨rfl, hr, hleft, fun hu => hundone.1 hu hleft, rfl, rfl⟩

end Recorder
end EventHub
