import EventHub.Proofs.Recording.Line
import EventHub.Proofs.Utf8
import EventHub.Recording.Log
set_option autoImplicit false

namespace EventHub

namespace Text

theorem lineEnd_notMem_toUtf8 {cs : List Char} (h : '\n' ∉ cs) : Log.lineEnd ∉ toUtf8 (.ofList cs) := by
  rw [toUtf8_ofList, List.mem_flatMap]
  rintro ⟨c, hc, hb⟩
  exact h (eq_newline_of_mem_utf8EncodeChar hb ▸ hc)

end Text

namespace Record

def bytes (r : Record) : Bytes := Text.toUtf8 r.line ++ [Log.lineEnd]

theorem line_eq (r : Record) : ∃ cs, r.line = .ofList ('\x7b' :: (cs ++ ['\x7d'])) :=
  ⟨_, by rw [line, Json.Form.print, Json.Value.print, Json.Form.value, instForm, Json.Value.text]⟩

theorem lineEnd_notMem_line (r : Record) : Log.lineEnd ∉ Text.toUtf8 r.line :=
  Text.lineEnd_notMem_toUtf8 (Json.newline_notMem_text _)

theorem getLast?_toUtf8_line (r : Record) : (Text.toUtf8 r.line).getLast? = some 0x7D := by
  obtain ⟨cs, hcs⟩ := r.line_eq
  rw [hcs, Text.toUtf8_ofList, List.flatMap_cons, List.flatMap_append, ← List.append_assoc]
  exact List.getLast?_concat

theorem isAllBlank_line (r : Record) : Text.isAllBlank r.line.toList = false := by
  obtain ⟨cs, hcs⟩ := r.line_eq
  rw [hcs, String.toList_ofList]
  rfl

end Record

namespace Log

def Fault.inFile (f : FileName) : Fault → RecordingError
  | .notText => .readFailed f .notText
  | .notRecord line => .decodeFailed f line ""

theorem read_eq {fs : FileSystem} {f : FileName} {bytes : Bytes} (h : fs.read f = .ok bytes) :
    read fs f = (records bytes).mapError (Fault.inFile f) := by
  rw [read, h]
  dsimp only
  cases records bytes with
  | ok rs => rfl
  | error e => cases e <;> rfl

theorem lines_append_lineEnd (front back : Bytes) :
    lines (front ++ lineEnd :: back) = (Text.splitOn lineEnd front).map dropCarriage ++ lines back := by
  obtain ⟨init, last, hpieces⟩ :=
    (List.eq_nil_or_concat (Text.splitOn lineEnd back)).resolve_left (Text.splitOn_ne_nil lineEnd back)
  rw [lines, lines, Text.splitOn_append_sep, hpieces, ← List.append_assoc]
  simp

theorem lines_cons {line : Bytes} (h : lineEnd ∉ line) (hc : line.getLast? ≠ some carriageReturn) (tail : Bytes) :
    lines (line ++ lineEnd :: tail) = line :: lines tail := by
  rw [lines_append_lineEnd, Text.splitOn_of_notMem h, List.map_singleton, dropCarriage, if_neg hc]
  rfl

/-- Whole lines are lines whatever stands behind them. -/
theorem lines_flatMap (ls : List Bytes) (h : ∀ l ∈ ls, lineEnd ∉ l)
    (hc : ∀ l ∈ ls, l.getLast? ≠ some carriageReturn) (tail : Bytes) :
    lines (ls.flatMap (· ++ [lineEnd]) ++ tail) = ls ++ lines tail := by
  induction ls with
  | nil => rfl
  | cons l ls ih =>
    obtain ⟨hl, hls⟩ := List.forall_mem_cons.1 h
    obtain ⟨hcl, hcls⟩ := List.forall_mem_cons.1 hc
    rw [List.flatMap_cons, List.append_assoc, List.append_assoc, List.singleton_append, lines_cons hl hcl, ih hls hcls]
    rfl

theorem lines_of_notMem {line : Bytes} (h : lineEnd ∉ line) (hne : line ≠ []) : lines line = [line] := by
  simp [lines, Text.splitOn_of_notMem h, hne]

theorem readLine_line (r : Record) (number : Nat) : readLine number (Text.toUtf8 r.line) =
    match Record.ofLine? r.line with
    | none => .error (.notRecord number)
    | some q => .ok (some q) := by
  cases h : Record.ofLine? r.line <;> simp [readLine, Text.ofUtf8?_toUtf8, r.isAllBlank_line, h]

theorem records_flatMap_append (rs : List Record) (tail : Bytes) :
    records (rs.flatMap Record.bytes ++ tail) = readLines 1 ((rs.map fun r => Text.toUtf8 r.line) ++ lines tail) := by
  have hb : rs.flatMap Record.bytes = (rs.map fun r => Text.toUtf8 r.line).flatMap (· ++ [lineEnd]) := by
    rw [List.flatMap_map]
    rfl
  rw [records, hb, lines_flatMap]
  · simpa using fun r _ => r.lineEnd_notMem_line
  · simp [Record.getLast?_toUtf8_line, carriageReturn]

theorem records_flatMap (rs : List Record) :
    records (rs.flatMap Record.bytes) = readLines 1 (rs.map fun r => Text.toUtf8 r.line) := by
  have h := records_flatMap_append rs []
  rwa [List.append_nil, show lines [] = [] from rfl, List.append_nil] at h

theorem readLines_of_returns (rs : List Record) (h : ∀ r ∈ rs, r.Returns) (number : Nat) (rest : List Bytes) :
    readLines number ((rs.map fun r => Text.toUtf8 r.line) ++ rest) =
      (readLines (number + rs.length) rest).map fun qs => rs.map Record.kept ++ qs := by
  induction rs generalizing number with
  | nil => cases hr : readLines number rest <;> simp [Except.map, hr]
  | cons r rs ih =>
    rw [List.map_cons, List.cons_append, readLines, readLine_line, (h r List.mem_cons_self).ofLine?_line]
    rw [List.length_cons, Nat.add_comm rs.length, ← Nat.add_assoc]
    simp only [ih fun q hq => h q (List.mem_cons_of_mem r hq)]
    cases readLines (number + 1 + rs.length) rest <;> rfl

theorem read_of_returns {fs : FileSystem} {f : FileName} {rs : List Record} (h : ∀ r ∈ rs, r.Returns)
    (hf : fs.read f = .ok (rs.flatMap Record.bytes)) : read fs f = .ok (rs.map Record.kept) := by
  have hlines := readLines_of_returns rs h 1 []
  rw [List.append_nil] at hlines
  rw [read_eq hf, records_flatMap, hlines]
  simp [readLines, Except.map, Except.mapError]

def Blank (bytes : Bytes) : Prop :=
  ∀ line ∈ lines bytes, ∃ text, Text.ofUtf8? line = some text ∧ Text.isAllBlank text.toList = true

theorem readLine_eq_none_iff {number : Nat} {line : Bytes} :
    readLine number line = .ok none ↔
      ∃ text, Text.ofUtf8? line = some text ∧ Text.isAllBlank text.toList = true := by
  rw [readLine]
  cases Text.ofUtf8? line with
  | none => simp
  | some s =>
    cases hb : Text.isAllBlank s.toList with
    | true => simp [hb]
    | false => cases hl : Record.ofLine? s <;> simp [hb, hl]

theorem readLines_eq_nil_iff {ls : List Bytes} (number : Nat) :
    readLines number ls = .ok [] ↔
      ∀ line ∈ ls, ∃ text, Text.ofUtf8? line = some text ∧ Text.isAllBlank text.toList = true := by
  induction ls generalizing number with
  | nil => simp [readLines]
  | cons l ls ih =>
    rw [readLines, List.forall_mem_cons, ← ih (number + 1), ← @readLine_eq_none_iff number]
    cases readLine number l with
    | error e => simp
    | ok r => cases readLines (number + 1) ls <;> cases r <;> simp

/-- Behind records that can be read only blank lines go unnoticed. -/
theorem read_eq_ok_iff_blank {fs : FileSystem} {f : FileName} {rs : List Record} {tail : Bytes}
    (h : ∀ r ∈ rs, r.Returns) (hf : fs.read f = .ok (rs.flatMap Record.bytes ++ tail)) :
    read fs f = .ok (rs.map Record.kept) ↔ Blank tail := by
  rw [Blank, ← readLines_eq_nil_iff (1 + rs.length), read_eq hf, records_flatMap_append, readLines_of_returns rs h]
  cases readLines (1 + rs.length) (lines tail) <;> simp [Except.map, Except.mapError]

end Log
end EventHub
