import EventHub.Proofs.Recording.Log
set_option autoImplicit false

/-!
Logs one behind the other. Lines are read one by one and nothing is kept between them but their number, so a log of
whole lines is read alike whatever stands behind it, and what stands behind it is read as it is alone, under later
numbers.
-/
namespace EventHub.Log

def Whole (bytes : Bytes) : Prop := bytes = [] ∨ bytes.getLast? = some lineEnd

def Fault.later (lines : Nat) : Fault → Fault
  | .notText => .notText
  | .notRecord line => .notRecord (line + lines)

/-- What ends a line: a newline, also behind a carriage return, and the end of the log if the line is not empty. -/
inductive Ends (line : Bytes) : Bytes → Prop where
  | newline (free : line.getLast? ≠ some carriageReturn) : Ends line [lineEnd]
  | carriage : Ends line [carriageReturn, lineEnd]
  | last (nonempty : line ≠ []) : Ends line []

/-- What is read from a log of whole lines and another one behind it. -/
structure AppendLaws (front back : Bytes) : Prop where
  lines : lines (front ++ back) = lines front ++ lines back
  fault : ∀ e, records front = .error e → records (front ++ back) = .error e
  later : ∀ rs e, records front = .ok rs → records back = .error e →
    records (front ++ back) = .error (e.later (Log.lines front).length)
  both : ∀ rs qs, records front = .ok rs → records back = .ok qs → records (front ++ back) = .ok (rs ++ qs)

structure LineLaws (line ending : Bytes) : Prop where
  lines : lines (line ++ ending) = [line]
  notText : Text.ofUtf8? line = none → records (line ++ ending) = .error .notText
  blank : ∀ s, Text.ofUtf8? line = some s → Text.isAllBlank s.toList = true → records (line ++ ending) = .ok []
  notRecord : ∀ s, Text.ofUtf8? line = some s → Text.isAllBlank s.toList = false → Record.ofLine? s = none →
    records (line ++ ending) = .error (.notRecord 1)
  record : ∀ s r, Text.ofUtf8? line = some s → Text.isAllBlank s.toList = false → Record.ofLine? s = some r →
    records (line ++ ending) = .ok [r]

variable {front back line ending : Bytes} {ls ks : List Bytes}

theorem Whole.lines_append (h : Whole front) (back : Bytes) : lines (front ++ back) = lines front ++ lines back := by
  rcases h with rfl | h
  · rfl
  · obtain ⟨init, rfl⟩ := List.getLast?_eq_some_iff.1 h
    rw [List.append_assoc, List.singleton_append, lines_append_lineEnd, lines_append_lineEnd]
    simp [show lines [] = [] from rfl]

theorem Ends.lines_eq (he : Ends line ending) (h : lineEnd ∉ line) : lines (line ++ ending) = [line] := by
  cases he with
  | newline free => exact lines_cons h free []
  | carriage =>
    have hfree : lineEnd ∉ line ++ [carriageReturn] := by
      rw [List.mem_append, List.mem_singleton]
      exact not_or.2 ⟨h, by decide⟩
    rw [show line ++ [carriageReturn, lineEnd] = (line ++ [carriageReturn]) ++ lineEnd :: [] by simp,
      lines_append_lineEnd, Text.splitOn_of_notMem hfree]
    simp [dropCarriage, show lines [] = [] from rfl]
  | last nonempty => rw [List.append_nil, lines_of_notMem h nonempty]

theorem readLine_later (number n : Nat) (line : Bytes) :
    readLine (number + n) line = (readLine number line).mapError (Fault.later n) := by
  rw [readLine, readLine]
  split
  · rfl
  · split
    · rfl
    · split <;> rfl

theorem readLines_later (number n : Nat) (ls : List Bytes) :
    readLines (number + n) ls = (readLines number ls).mapError (Fault.later n) := by
  induction ls generalizing number with
  | nil => rfl
  | cons l ls ih =>
    rw [readLines, readLines, readLine_later, Nat.add_right_comm, ih]
    cases readLine number l with
    | error e => rfl
    | ok r => cases readLines (number + 1) ls <;> rfl

theorem readLines_append (number : Nat) (ls ks : List Bytes) :
    readLines number (ls ++ ks) =
      (readLines number ls).bind fun rs => (readLines (number + ls.length) ks).map (rs ++ ·) := by
  induction ls generalizing number with
  | nil => cases h : readLines number ks <;> simp [readLines, Except.bind, Except.map, h]
  | cons l ls ih =>
    rw [List.cons_append, readLines, readLines, ih, List.length_cons, Nat.add_comm ls.length, ← Nat.add_assoc]
    cases readLine number l with
    | error e => rfl
    | ok r =>
      cases readLines (number + 1) ls with
      | error e => rfl
      | ok rs => cases readLines (number + 1 + ls.length) ks <;> simp [Except.bind, Except.map]

/-- Behind a log of whole lines another one is read as it is alone, but for the numbers of its lines. -/
theorem Whole.records_append (h : Whole front) (back : Bytes) :
    records (front ++ back) = (records front).bind fun rs =>
      ((records back).mapError (Fault.later (lines front).length)).map (rs ++ ·) := by
  rw [records, h.lines_append, readLines_append, readLines_later]
  rfl

theorem Whole.appendLaws (h : Whole front) (back : Bytes) : AppendLaws front back where
  lines := h.lines_append back
  fault e he := by
    rw [h.records_append, he]
    rfl
  later rs e hr he := by
    rw [h.records_append, hr, he]
    rfl
  both rs qs hr hq := by
    rw [h.records_append, hr, hq]
    rfl

theorem Ends.records_eq (he : Ends line ending) (h : lineEnd ∉ line) :
    records (line ++ ending) = (readLine 1 line).map Option.toList := by
  rw [records, he.lines_eq h, readLines]
  cases readLine 1 line with
  | error e => rfl
  | ok r => exact congrArg Except.ok (List.append_nil _)

theorem Ends.lineLaws (he : Ends line ending) (h : lineEnd ∉ line) : LineLaws line ending where
  lines := he.lines_eq h
  notText ht := by
    rw [he.records_eq h, readLine, ht]
    rfl
  blank s ht hb := by
    rw [he.records_eq h, readLine, ht]
    simp [hb, Except.map]
  notRecord s ht hb hr := by
    rw [he.records_eq h, readLine, ht]
    simp [hb, hr, Except.map]
  record s r ht hb hr := by
    rw [he.records_eq h, readLine, ht]
    simp [hb, hr, Except.map]

/-- Logs of whole lines may be put one behind the other: the first fault is the first of either, with the number that
its line has in the whole, and where there is none the records follow each other. Each line counts, whatever ends it
and whether or not a record is on it, and what is wrong with it is found when it is reached. -/
theorem appended_logs_read :
    (∀ front back, Whole front → AppendLaws front back) ∧
      (∀ line ending, lineEnd ∉ line → Ends line ending → LineLaws line ending) ∧
      ∀ (fs : FileSystem) (f : FileName) (bytes : Bytes), fs.read f = .ok bytes →
        read fs f = (records bytes).mapError (Fault.inFile f) :=
  ⟨fun _ back h => h.appendLaws back, fun _ _ h he => he.lineLaws h, fun _ _ _ h => read_eq h⟩

def blankLog : Bytes := Text.toUtf8 "\u2003" ++ [carriageReturn, lineEnd]

def brokenLog : Bytes := Text.toUtf8 "x" ++ []

def blankThenBroken : FileSystem :=
  { FileSystem.fresh.setNode ["tmp", "work", "a.log"] (.file 0) with contents := [blankLog ++ brokenLog] }

theorem appended_logs_read_blankThenBroken :
    Whole blankLog ∧ records blankLog = .ok [] ∧ records brokenLog = .error (.notRecord 1) ∧
      read blankThenBroken ⟨"a.log"⟩ = .error (.decodeFailed ⟨"a.log"⟩ 2 "") := by
  obtain ⟨happend, hline, hfile⟩ := appended_logs_read
  have hwhole : Whole blankLog := .inr (by decide)
  have hblank : records blankLog = .ok [] :=
    (hline _ _ (by decide) .carriage).blank _ (Text.ofUtf8?_toUtf8 _) (by decide)
  have hbroken : records brokenLog = .error (.notRecord 1) :=
    (hline _ _ (by decide) (.last (by decide))).notRecord _ (Text.ofUtf8?_toUtf8 _) (by decide) (by decide +kernel)
  refine ⟨hwhole, hblank, hbroken, ?_⟩
  rw [hfile blankThenBroken ⟨"a.log"⟩ (blankLog ++ brokenLog) (by decide),
    (happend _ brokenLog hwhole).later _ _ hblank hbroken, show (lines blankLog).length = 1 by decide]
  rfl

end EventHub.Log
