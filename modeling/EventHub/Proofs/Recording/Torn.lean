import EventHub.Proofs.Json.Outline
import EventHub.Proofs.Recording.Attempts
set_option autoImplicit false

/-!
Logs with torn lines. What a failed append left stands on one line with what came next, and nothing is read from such
a line: it begins an object that it does not end, or goes on behind the end of one.
-/
namespace EventHub

namespace Record

theorem codes_line (r : Record) : ∃ codes, (Text.toUtf8 r.line).map UInt8.toNat = Json.Outline.keyed ++ codes := by
  have hline : ∃ cs, r.line = .ofList ('\x7b' :: '"' :: 'i' :: cs) := ⟨_, by rw [line]; rfl⟩
  obtain ⟨cs, hcs⟩ := hline
  rw [hcs, Text.toUtf8_ofList]
  exact ⟨_, rfl⟩

theorem follow_line (r : Record) :
    ∃ m, Json.Outline.follow ⟨0, .free⟩ ((Text.toUtf8 r.line).map UInt8.toNat) = some ⟨0, m⟩ := by
  have hline : r.line = .ofList (Json.Form.value r).text := rfl
  rw [hline, Json.Outline.follow_toUtf8]
  exact Json.Outline.follow_of_ofText? (Json.ofText?_text _)

end Record

namespace Log

def Piece (p : Bytes) : Prop := p ≠ [] ∧ ∃ r : Record, p <+: Text.toUtf8 r.line

theorem piece_line (r : Record) : Piece (Text.toUtf8 r.line) := by
  obtain ⟨cs, hcs⟩ := r.line_eq
  refine ⟨?_, r, List.prefix_rfl⟩
  rw [hcs, Text.toUtf8_ofList]
  exact List.cons_ne_nil _ _

variable {p q : Bytes}

theorem Piece.eq_cons (h : Piece p) : ∃ rest, p = 0x7B :: rest := by
  obtain ⟨hne, r, hr⟩ := h
  obtain ⟨cs, hcs⟩ := r.line_eq
  rw [hcs, Text.toUtf8_ofList] at hr
  rcases List.prefix_cons_iff.1 hr with rfl | ⟨rest, rfl, -⟩
  · exact absurd rfl hne
  · exact ⟨rest, rfl⟩

theorem Piece.lineEnd_notMem (h : Piece p) : lineEnd ∉ p := by
  obtain ⟨-, r, hr⟩ := h
  exact fun hm => r.lineEnd_notMem_line (hr.subset hm)

/-- The codes of a piece lie at the beginning of an object, and their outline begins a value. -/
theorem Piece.follow (h : Piece p) : ∃ o codes, p.map UInt8.toNat <+: Json.Outline.keyed ++ codes ∧
    Json.Outline.follow ⟨0, .free⟩ (p.map UInt8.toNat) = some o ∧ o.Begun := by
  obtain ⟨rest, rfl⟩ := h.eq_cons
  obtain ⟨-, r, tail, hr⟩ := h
  obtain ⟨codes, hcodes⟩ := r.codes_line
  obtain ⟨m, hm⟩ := r.follow_line
  rw [← hr, List.map_append] at hm hcodes
  rw [Json.Outline.follow_append] at hm
  obtain ⟨o, ho, -⟩ := Option.bind_eq_some_iff.1 hm
  have hopen : Json.Outline.Begun ⟨1, .free⟩ := fun h => nomatch h
  exact ⟨o, codes, ⟨tail.map UInt8.toNat, hcodes⟩, ho, hopen.follow ho⟩

/-- Whatever pieces follow behind a value that has begun, a bracket stays open. -/
theorem depth_pos_of_pieces {ps : List Bytes} (hne : ps ≠ []) (hps : ∀ p ∈ ps, Piece p) {o next : Json.Outline}
    (ho : o.Begun) (h : o.follow (ps.flatten.map UInt8.toNat) = some next) : 0 < next.depth := by
  induction ps generalizing o with
  | nil => exact absurd rfl hne
  | cons p ps ih =>
    obtain ⟨hp, hps⟩ := List.forall_mem_cons.1 hps
    obtain ⟨alone, codes, hprefix, halone, -⟩ := hp.follow
    rw [List.flatten_cons, List.map_append, Json.Outline.follow_append] at h
    obtain ⟨mid, hmid, h⟩ := Option.bind_eq_some_iff.1 h
    have hdepth : 0 < mid.depth := ho.depth_pos (by simpa using hp.1) hprefix halone hmid
    cases ps with
    | nil =>
      cases h
      exact hdepth
    | cons q ps => exact ih (List.cons_ne_nil q ps) hps (fun h => absurd h hdepth.ne') h

theorem ofLine?_pieces {ps : List Bytes} (hp : Piece p) (hne : ps ≠ []) (hps : ∀ q ∈ ps, Piece q) {s : String}
    (hs : Text.ofUtf8? (p ++ ps.flatten) = some s) : Record.ofLine? s = none := by
  rw [Record.ofLine?, Json.Form.ofText?]
  cases ht : Json.Tree.ofText? s.toList with
  | none => rfl
  | some t =>
    obtain ⟨m, hm⟩ := Json.Outline.follow_of_ofText? ht
    rw [← Json.Outline.follow_toUtf8, String.ofList_toList, Text.toUtf8_of_ofUtf8? hs, List.map_append,
      Json.Outline.follow_append] at hm
    obtain ⟨mid, hmid, hm⟩ := Option.bind_eq_some_iff.1 hm
    obtain ⟨o, -, -, ho, hbegun⟩ := hp.follow
    cases ho.symm.trans hmid
    exact absurd (depth_pos_of_pieces hne hps hbegun hm) (Nat.lt_irrefl 0)

theorem isAllBlank_of_brace {rest : Bytes} {s : String} (hs : Text.ofUtf8? (0x7B :: rest) = some s) :
    Text.isAllBlank s.toList = false := by
  have hbytes := Text.toUtf8_of_ofUtf8? hs
  rw [← String.ofList_toList (s := s), Text.toUtf8_ofList] at hbytes
  cases hcs : s.toList with
  | nil =>
    rw [hcs] at hbytes
    cases hbytes
  | cons c cs =>
    rw [hcs, List.flatMap_cons] at hbytes
    have hmem : 0x7B ∈ String.utf8EncodeChar c := by
      cases hc : String.utf8EncodeChar c with
      | nil => exact absurd hc (by simp)
      | cons b bs =>
        rw [hc] at hbytes
        cases hbytes
        exact List.mem_cons_self
    rcases Text.utf8EncodeChar_cases c with hone | ⟨-, hmany⟩
    · have hcode := hone ▸ List.mem_map_of_mem (f := UInt8.toNat) hmem
      have hbrace : c = '\x7b' := (Char.toNat_inj.1 (List.mem_singleton.1 hcode)).symm
      rw [hbrace]
      rfl
    · exact absurd (hmany _ hmem) (by decide)

theorem readLine_ne_none (number : Nat) (rest : Bytes) : readLine number (0x7B :: rest) ≠ .ok none := by
  rw [Ne, readLine_eq_none_iff]
  rintro ⟨s, hs, hblank⟩
  rw [isAllBlank_of_brace hs] at hblank
  cases hblank

/-- Nothing is read from a line with a piece in front of another one. -/
theorem readLine_pieces {ps : List Bytes} (hp : Piece p) (hne : ps ≠ []) (hps : ∀ q ∈ ps, Piece q) (number : Nat)
    (r : Option Record) : readLine number (p ++ ps.flatten) ≠ .ok r := by
  intro h
  cases r with
  | none =>
    obtain ⟨rest, rfl⟩ := hp.eq_cons
    exact readLine_ne_none number _ h
  | some r =>
    rw [readLine] at h
    split at h
    · cases h
    · rename_i s hs
      rw [ofLine?_pieces hp hne hps hs] at h
      split at h <;> cases h

theorem readLines_cons_eq_ok {number : Nat} {line : Bytes} {rest : List Bytes} {rs : List Record}
    (h : readLines number (line :: rest) = .ok rs) : ∃ r qs, readLine number line = .ok r ∧
      readLines (number + 1) rest = .ok qs ∧ rs = r.toList ++ qs := by
  rw [readLines] at h
  split at h
  · cases h
  · rename_i r hr
    split at h
    · cases h
    · rename_i qs hqs
      cases h
      exact ⟨r, qs, hr, hqs, rfl⟩

theorem lineEnd_notMem_pieces {ps : List Bytes} (hp : Piece p) (hps : ∀ q ∈ ps, Piece q) :
    lineEnd ∉ p ++ ps.flatten := by
  rw [List.mem_append, List.mem_flatten]
  rintro (hm | ⟨q, hq, hm⟩)
  · exact hp.lineEnd_notMem hm
  · exact (hps q hq).lineEnd_notMem hm

theorem lines_pieces_bytes {ps : List Bytes} (hp : Piece p) (hps : ∀ q ∈ ps, Piece q) (r : Record) (tail : Bytes) :
    lines (p ++ ps.flatten ++ (r.bytes ++ tail)) =
      (p ++ (ps ++ [Text.toUtf8 r.line]).flatten) :: lines tail := by
  have hsplit : p ++ ps.flatten ++ (r.bytes ++ tail) =
      (p ++ (ps ++ [Text.toUtf8 r.line]).flatten) ++ lineEnd :: tail := by simp [Record.bytes]
  rw [hsplit, lines_cons]
  · refine lineEnd_notMem_pieces hp (List.forall_mem_append.2 ⟨hps, ?_⟩)
    simpa using piece_line r
  · rw [List.flatten_append, List.flatten_singleton, ← List.append_assoc, List.getLast?_append,
      r.getLast?_toUtf8_line, Option.some_or]
    decide

theorem lines_bytes (r : Record) (tail : Bytes) : lines (r.bytes ++ tail) = Text.toUtf8 r.line :: lines tail := by
  rw [Record.bytes, List.append_assoc, List.singleton_append, lines_cons r.lineEnd_notMem_line]
  rw [r.getLast?_toUtf8_line]
  decide

theorem readLine_line_ne_none (r : Record) (number : Nat) : readLine number (Text.toUtf8 r.line) ≠ .ok none := by
  obtain ⟨rest, hrest⟩ := (piece_line r).eq_cons
  rw [hrest]
  exact readLine_ne_none number rest

theorem records_of_read {fs : FileSystem} {f : FileName} {bytes : Bytes} {rs : List Record}
    (hf : fs.read f = .ok bytes) (h : read fs f = .ok rs) : records bytes = .ok rs := by
  rw [read_eq hf] at h
  cases hr : records bytes with
  | error e =>
    rw [hr] at h
    cases h
  | ok qs =>
    rw [hr] at h
    cases h
    rfl

end Log

namespace Attempt

variable {file : FileName} {a : Attempt} {as : List Attempt}

theorem isTaken_of_error {e : RecordingError} (h : a.result = .error e) : a.isTaken = false := by
  rw [isTaken, h]
  rfl

theorem Leaves.left_of_isTaken (h : a.Leaves file) (ht : a.isTaken = true) : a.left = a.record.bytes := by
  cases h with
  | taken _ left => exact left
  | nothing result => exact absurd ht (by simp [isTaken_of_error result])
  | part _ result => exact absurd ht (by simp [isTaken_of_error result])
  | line result => exact absurd ht (by simp [isTaken_of_error result])

theorem Leaves.piece (h : a.Leaves file) (ht : a.isTaken = false) (hne : a.left ≠ []) : Log.Piece a.left := by
  cases h with
  | taken result =>
    rw [isTaken, result] at ht
    cases ht
  | nothing _ _ left => exact absurd left hne
  | part k _ _ left => exact ⟨hne, a.record, left ▸ List.take_prefix k _⟩
  | line _ _ _ left => exact left ▸ Log.piece_line a.record

theorem taken_cons_of_isTaken (h : a.isTaken = true) (as : List Attempt) : taken (a :: as) = a.record :: taken as := by
  rw [taken, List.filter_cons_of_pos h]
  rfl

theorem taken_cons_of_not (h : a.isTaken = false) (as : List Attempt) : taken (a :: as) = taken as := by
  rw [taken, List.filter_cons_of_neg (by simp [h])]
  rfl

/-- What a failed append has left is on one line with whatever is appended next. Nothing is read from that line, or it
is the last one and read as a record that was not taken. -/
theorem length_ne_of_pieces (has : ∀ a ∈ as, a.Leaves file) {p : Bytes} {ps : List Bytes} (hp : Log.Piece p)
    (hps : ∀ q ∈ ps, Log.Piece q) {number : Nat} {rs : List Record}
    (h : Log.readLines number (Log.lines (p ++ ps.flatten ++ as.flatMap left)) = .ok rs) :
    rs.length ≠ (taken as).length := by
  -- the pieces grow in front of what is still to come, until the first line that was taken or the end of the log
  induction as generalizing ps with
  | nil =>
    have hne : p ++ ps.flatten ≠ [] := List.append_ne_nil_of_left_ne_nil hp.1 _
    rw [List.flatMap_nil, List.append_nil, Log.lines_of_notMem (Log.lineEnd_notMem_pieces hp hps) hne] at h
    obtain ⟨r, qs, hr, hqs, rfl⟩ := Log.readLines_cons_eq_ok h
    cases hqs
    cases r with
    | none =>
      obtain ⟨rest, rfl⟩ := hp.eq_cons
      exact absurd hr (Log.readLine_ne_none number _)
    | some r => exact Nat.one_ne_zero
  | cons a as ih =>
    obtain ⟨ha, has⟩ := List.forall_mem_cons.1 has
    rw [List.flatMap_cons] at h
    cases ht : a.isTaken with
    | true =>
      rw [ha.left_of_isTaken ht, Log.lines_pieces_bytes hp hps] at h
      obtain ⟨r, qs, hr, -⟩ := Log.readLines_cons_eq_ok h
      refine absurd hr (Log.readLine_pieces hp (by simp) (List.forall_mem_append.2 ⟨hps, ?_⟩) number r)
      simpa using Log.piece_line a.record
    | false =>
      rw [taken_cons_of_not ht]
      by_cases hleft : a.left = []
      · rw [hleft, List.nil_append] at h
        exact ih has hps h
      · have hmore : ∀ q ∈ ps ++ [a.left], Log.Piece q :=
          List.forall_mem_append.2 ⟨hps, by simpa using ha.piece ht hleft⟩
        exact ih has hmore (by simpa using h)

/-- Where something was left behind, not as many records are read as were taken. -/
theorem length_ne_of_left (has : ∀ a ∈ as, a.Leaves file) (hleft : ∃ a ∈ as, a.isTaken = false ∧ a.left ≠ [])
    {number : Nat} {rs : List Record} (h : Log.readLines number (Log.lines (as.flatMap left)) = .ok rs) :
    rs.length ≠ (taken as).length := by
  induction as generalizing number rs with
  | nil =>
    obtain ⟨a, ha, -⟩ := hleft
    cases ha
  | cons a as ih =>
    obtain ⟨ha, has⟩ := List.forall_mem_cons.1 has
    rw [List.flatMap_cons] at h
    cases ht : a.isTaken with
    | true =>
      obtain ⟨b, hb, hbt, hbl⟩ := hleft
      have hb : b ∈ as := (List.mem_cons.1 hb).resolve_left fun he => by
        rw [he, ht] at hbt
        cases hbt
      rw [ha.left_of_isTaken ht, Log.lines_bytes] at h
      obtain ⟨r, qs, hr, hqs, rfl⟩ := Log.readLines_cons_eq_ok h
      have hlength := ih has ⟨b, hb, hbt, hbl⟩ hqs
      rw [taken_cons_of_isTaken ht]
      cases r with
      | none => exact absurd hr (Log.readLine_line_ne_none a.record number)
      | some r => simpa using hlength
    | false =>
      rw [taken_cons_of_not ht]
      by_cases hl : a.left = []
      · rw [hl, List.nil_append] at h
        refine ih has ?_ h
        obtain ⟨b, hb, hbt, hbl⟩ := hleft
        exact ⟨b, (List.mem_cons.1 hb).resolve_left fun he => hbl (he ▸ hl), hbt, hbl⟩
      · exact length_ne_of_pieces has (ha.piece ht hl) (List.forall_mem_nil _) (by simpa using h)

theorem flatMap_left (has : ∀ a ∈ as, a.Leaves file)
    (h : ∀ a ∈ as, a.isTaken = false → a.left = []) :
    as.flatMap left = (taken as).flatMap Record.bytes := by
  induction as with
  | nil => rfl
  | cons a as ih =>
    obtain ⟨ha, has⟩ := List.forall_mem_cons.1 has
    obtain ⟨hnot, h⟩ := List.forall_mem_cons.1 h
    rw [List.flatMap_cons, ih has h]
    cases ht : a.isTaken with
    | true =>
      rw [taken_cons_of_isTaken ht, List.flatMap_cons, ha.left_of_isTaken ht]
    | false => rw [taken_cons_of_not ht, hnot ht, List.nil_append]

end Attempt

def lettered (n : Nat) : Record :=
  ⟨⟨"torn.letters", by decide⟩, none, .data, some (.string (.ofList (List.replicate n 'a')))⟩

theorem length_text_letters (n : Nat) : (Json.Value.string (.ofList (List.replicate n 'a'))).text.length = n + 2 := by
  have hletter : Json.escapeChar 'a' = ['a'] := by decide
  simp [Json.Value.text, Json.quote, List.flatMap_replicate, hletter]

theorem length_line_lettered (n : Nat) : n < (Text.toUtf8 (lettered n).line).length := by
  have hline : (lettered n).line = .ofList (Json.Form.value (lettered n)).text := rfl
  rw [hline]
  refine Nat.lt_of_lt_of_le ?_ (Text.length_le_toUtf8 _)
  have hpayload := length_text_letters n
  generalize hv : Json.Value.string (.ofList (List.replicate n 'a')) = v at hpayload
  have hvalue : Json.Form.value (lettered n) = .object [("id", .string "torn.letters"), ("address", .null),
    ("category", Json.Form.value Category.data), ("payload", v)] := by
    rw [← hv]
    rfl
  rw [hvalue, Json.length_text_object]
  simp only [Json.fieldsText, List.length_append, List.length_cons, hpayload]
  omega

def refusing : FileSystem := { FileSystem.fresh with refusals := [none, some ⟨1, .noSpace⟩] }

theorem append_refusing (log : FileName) {id : Nat} {fs : FileSystem} {r : Record}
    (large : Writer.capacity < (Text.toUtf8 r.line).length) (hr : fs.refusals = [some ⟨1, .noSpace⟩])
    (hc : fs.content id = []) (hk : id < fs.contents.length) :
    ∃ t fs', (Stream.anew log false id).append fs r = (.error (.writeFailed log .noSpace), t, fs') ∧
      t.writer.Unrefused fs' ∧ t.temporary = false ∧ t.writer.pending = [] ∧ t.reached fs' = [0x7B] := by
  obtain ⟨rest, hrest⟩ := (Log.piece_line r).eq_cons
  have hnext : fs.nextRefusal = (some ⟨1, .noSpace⟩, { fs with refusals := [] }) := by rw [FileSystem.nextRefusal, hr]
  have hempty : { fs with refusals := [] }.content id = [] := hc
  have hpass : fs.write ⟨.file id, 0⟩ (Text.toUtf8 r.line) = (⟨1, some .noSpace⟩, ⟨.file id, 1⟩,
      { fs with refusals := [], contents := fs.contents.set id [0x7B] }) := by
    rw [FileSystem.write, hrest, hnext]
    simp [FileSystem.put, hempty, FileSystem.overwrite, FileSystem.setContent]
  have hflush : (Writer.onto ⟨.file id, 0⟩).flush fs = (.ok (), .onto ⟨.file id, 0⟩, fs) := rfl
  have hfull : Writer.capacity < (Writer.onto ⟨.file id, 0⟩).pending.length + (Text.toUtf8 r.line).length := by
    simpa [Writer.onto] using large
  refine ⟨⟨log, false, ⟨⟨.file id, 1⟩, []⟩, 0⟩, { fs with refusals := [], contents := fs.contents.set id [0x7B] }, ?_,
    ⟨rfl, id, rfl⟩, rfl, rfl, ?_⟩
  · rw [Stream.append, Stream.anew, Writer.write, if_pos hfull, hflush]
    dsimp only
    rw [Writer.take, if_pos (Nat.le_of_lt large), Writer.onto, hpass]
    rfl
  · simp [Stream.reached, FileSystem.content, hk]

theorem attempted_lettered : ∃ after, Attempted refusing ⟨"a.log"⟩ false
    [⟨lettered Writer.capacity, 0, .error (.writeFailed ⟨"a.log"⟩ .noSpace), [0x7B]⟩,
      ⟨lettered 0, 0, .ok (), (lettered 0).bytes⟩] after := by
  have ready : refusing.Ready ⟨"a.log"⟩ ["tmp", "work", "a.log"] := by
    refine ⟨⟨["tmp", "work"], "a.log", rfl, rfl⟩, ?_, rfl, ?_⟩
    · intro node h
      cases h
    · intro id h
      cases h
  generalize hs : Stream.start refusing ⟨"a.log"⟩ false = started
  obtain ⟨e | s, fs⟩ := started
  · cases hs
  obtain ⟨id, rfl, ho⟩ := Stream.start_eq_ok ready hs
  have hrefusals : fs.refusals = [some ⟨1, .noSpace⟩] := by
    cases hs
    rfl
  obtain ⟨t, gs, hfailed, ht, htemporary, hpending, hreached⟩ :=
    append_refusing ⟨"a.log"⟩ (length_line_lettered Writer.capacity) hrefusals ho.empty ho.known
  obtain ⟨u, gs', htaken, hu, hutemporary⟩ := Stream.append_of_unrefused ht (lettered 0)
  obtain ⟨after, hfinish⟩ := Stream.finish_of_unrefused hu (hutemporary.trans htemporary)
  have hkeeps := Stream.keeps_anew (Stream.lies_of_opened ready.bottom ho) ho.empty
  obtain ⟨hkeeps', -, -⟩ := hkeeps.attempt hfailed
  obtain ⟨-, -, hleaves⟩ := hkeeps'.attempt htaken
  have hleft : (u.reached gs').drop (t.reached gs).length = (lettered 0).bytes := hleaves.left_of_isTaken rfl
  have htries := Stream.Tries.append hfailed (.append htaken (.done u gs'))
  rw [hleft, hreached, hkeeps.reached, hpending] at htries
  exact ⟨after, _, _, fs, u, gs', _, ready, hs, htries, hfinish⟩

theorem returns_lettered (n : Nat) : (lettered n).Returns := by
  intro v hv
  cases hv
  exact ⟨Json.fits_scalar rfl rfl, trivial⟩

/-- A finished log holds what its appends have left, those that failed as well. It is read as the records that were
taken if and only if nothing was left by any that failed. -/
theorem Attempted.log_read_iff_nothing_left {before after : FileSystem} {log : FileName} {temporary : Bool}
    {as : List Attempt} (h : Attempted before log temporary as after) :
    after.read log = .ok (as.flatMap Attempt.left) ∧
    (∀ a ∈ as, a.Leaves (Stream.writtenName log temporary)) ∧
    ((∀ r ∈ Attempt.taken as, r.Returns) →
      (Log.read after log = .ok ((Attempt.taken as).map Record.kept) ↔ ∀ a ∈ as, a.isTaken = false → a.left = [])) := by
  obtain ⟨hread, has⟩ := h.read
  refine ⟨hread, has, fun returns => ⟨fun hlog => ?_, fun hnothing => ?_⟩⟩
  · by_contra hleft
    push Not at hleft
    have hlength := Attempt.length_ne_of_left has hleft (Log.records_of_read hread hlog)
    exact hlength (List.length_map _)
  · rw [Attempt.flatMap_left has hnothing] at hread
    exact Log.read_of_returns returns hread

theorem Attempted.log_read_iff_nothing_left_torn : ∃ after, Attempted refusing ⟨"a.log"⟩ false
    [⟨lettered Writer.capacity, 0, .error (.writeFailed ⟨"a.log"⟩ .noSpace), [0x7B]⟩,
      ⟨lettered 0, 0, .ok (), (lettered 0).bytes⟩] after ∧
    after.read ⟨"a.log"⟩ = .ok (0x7B :: (lettered 0).bytes) ∧ Log.read after ⟨"a.log"⟩ ≠ .ok [(lettered 0).kept] := by
  obtain ⟨after, hafter⟩ := attempted_lettered
  obtain ⟨hcontent, -, hiff⟩ := hafter.log_read_iff_nothing_left
  refine ⟨after, hafter, by simpa using hcontent, fun hread => ?_⟩
  have hiff := hiff fun r hr => by
    rw [List.mem_singleton.1 hr]
    exact returns_lettered 0
  have hleft := hiff.1 hread _ List.mem_cons_self rfl
  cases hleft

end EventHub
