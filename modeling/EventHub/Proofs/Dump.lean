import EventHub.CommandLine.Run
import EventHub.Proofs.Recording.Canonical
import EventHub.Proofs.Recording.Log
import EventHub.Proofs.Recording.Recorded
set_option autoImplicit false

namespace EventHub

namespace Text

theorem toUtf8_join (ss : List String) : toUtf8 (String.join ss) = ss.flatMap toUtf8 := by
  induction ss with
  | nil => rfl
  | cons s ss ih => rw [String.join_cons, toUtf8_append, ih, List.flatMap_cons]

end Text

namespace Record

/-- A null that was attached and none at all are written alike. -/
theorem line_kept (r : Record) : r.kept.line = r.line := by
  obtain ⟨id, address, category, payload⟩ := r
  cases payload with
  | none => rfl
  | some v => cases v <;> rfl

theorem toUtf8_join_lines (rs : List Record) :
    Text.toUtf8 (String.join (rs.map fun r => r.line ++ "\n")) = rs.flatMap bytes := by
  have hline (r : Record) : Text.toUtf8 (r.line ++ "\n") = r.bytes := by
    rw [Text.toUtf8_append]
    rfl
  rw [Text.toUtf8_join, List.flatMap_map]
  simp only [hline]

/-- The payload of a record that a program wrote: numbers are whole, the fields of objects are in order as in every
map, and the braces of the record leave room for it. -/
def Whole (r : Record) : Prop :=
  ∀ v, r.payload = some v → v.Ordered ∧ v.nesting ≤ 126 ∧ ∀ n ∈ v.numbers, n.IsWhole

theorem Whole.returns {r : Record} (h : r.Whole) : r.Returns := by
  intro v hv
  obtain ⟨hordered, hnesting, hnumbers⟩ := h v hv
  exact ⟨⟨hnesting, fun n hn => (hnumbers n hn).kept⟩, hordered⟩

end Record

namespace CommandLine

theorem dump_of_read {files : FileSystem} {log : FileName} {rs : List Record} (h : ∀ r ∈ rs, r.Returns)
    (hf : files.read log = .ok (rs.flatMap Record.bytes)) :
    dump files log true = .printed (String.join (rs.map fun r => r.line ++ "\n")) := by
  rw [dump, Log.read_of_returns h hf]
  simp [Record.line_kept, Function.comp_def]

/-- The line of a record that was read is a fixed form of it, and a finished log is printed byte for byte. -/
theorem dump_reproduces :
    (∀ s r, Record.ofLine? s = some r → (∀ v, r.payload = some v → ∀ n ∈ v.numbers, n.IsWhole) →
      Record.ofLine? r.line = some r) ∧
    ∀ before after log temporary (es : List Event), (∀ e ∈ es, (Record.ofEvent e).Whole) →
      Recorded before log temporary (es.map Record.ofEvent) after →
      ∃ text, after.read log = .ok (Text.toUtf8 text) ∧ dump after log true = .printed text ∧
        ∀ environment home (request : Request) config, request.command = .dump log true →
          configOf after environment home request = .ok config →
          perform after environment home request = (.printed text, after) := by
  refine ⟨fun s r => Record.ofLine?_line_of_ofLine?, fun before after log temporary es whole recorded => ?_⟩
  have hreturns : ∀ r ∈ es.map Record.ofEvent, r.Returns := by
    intro r hr
    obtain ⟨e, he, rfl⟩ := List.mem_map.1 hr
    exact (whole e he).returns
  have hdump := dump_of_read hreturns recorded.read
  refine ⟨_, ?_, hdump, ?_⟩
  · rw [recorded.read, Record.toUtf8_join_lines]
  · intro environment home request config hcommand hconfig
    rw [perform, hconfig, hcommand]
    dsimp only
    rw [hdump]

/-- A record in the form of an array, with a key that stands twice, out of order and in an escape. -/
def looseLine : String :=
  " [\"loose.line\", null, \x7b\"Lifecycle\": null\x7d, \x7b\"b\": [1], \"\\u0061\": -2, \"b\": \"x\"\x7d] "

def looseRecord : Record :=
  ⟨⟨"loose.line", by decide⟩, none, .lifecycle, some (.object [("a", .int (-2)), ("b", .string "x")])⟩

def twoEvents : List Event :=
  [⟨⟨"dump.null", by decide⟩, some .null, .data, none⟩,
   ⟨⟨"dump.other", by decide⟩, looseRecord.payload, .extension "x\ny" "", some ⟨"dump.source", by decide⟩⟩]

theorem ofLine?_looseLine : Record.ofLine? looseLine = some looseRecord := by
  have htree : Json.Tree.ofText? looseLine.toList = some (.array
      [.string (some "loose.line"), .null, .object [(some "Lifecycle", .null)],
       .object [(some "b", .array [.number ⟨false, ['1'], none, none⟩]),
         (some "a", .number ⟨true, ['2'], none, none⟩), (some "b", .string (some "x"))]]) := by
    rw [looseLine]
    simp only [String.reduceToList]
    rfl
  rw [Record.ofLine?, Json.Form.ofText?, htree]
  rfl

theorem isWhole_looseRecord (v : Json.Value) (hv : looseRecord.payload = some v) : ∀ n ∈ v.numbers, n.IsWhole := by
  cases hv
  intro n hn
  rw [List.mem_singleton.1 hn]
  exact ⟨by decide, by decide⟩

theorem whole_twoEvents : ∀ e ∈ twoEvents, (Record.ofEvent e).Whole := by
  intro e he v hv
  rcases List.mem_cons.1 he with rfl | he
  · cases hv
    exact ⟨trivial, Nat.zero_le _, by simp [Json.Value.numbers]⟩
  · obtain rfl := List.mem_singleton.1 he
    have hnumbers := isWhole_looseRecord v hv
    cases hv
    exact ⟨⟨by simp; decide, trivial, trivial, trivial⟩, by decide, hnumbers⟩

theorem dump_reproduces_twoEvents :
    Record.ofLine? looseLine = some looseRecord ∧ Record.ofLine? looseRecord.line = some looseRecord ∧
      ∃ after text, Recorded .fresh ⟨"a.log"⟩ false (twoEvents.map Record.ofEvent) after ∧
        after.read ⟨"a.log"⟩ = .ok (Text.toUtf8 text) ∧
        perform after [] ⟨"/home"⟩ ⟨false, false, none, true, .dump ⟨"a.log"⟩ true⟩ = (.printed text, after) := by
  obtain ⟨after, hafter⟩ := recorded_fresh (twoEvents.map Record.ofEvent)
  obtain ⟨text, hread, -, hperform⟩ := dump_reproduces.2 _ _ _ _ _ whole_twoEvents hafter
  exact ⟨ofLine?_looseLine, dump_reproduces.1 _ _ ofLine?_looseLine isWhole_looseRecord, after, text, hafter, hread,
    hperform _ _ _ _ rfl rfl⟩

end CommandLine
end EventHub
