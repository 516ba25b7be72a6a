import EventHub.Sink
import EventHub.Proofs.Utf8
set_option autoImplicit false

/-!
Leading segments. Writing a path before another one and taking it away again are inverse, although the one only
puts texts together and the other cuts a text at a number of bytes: the dot between them keeps `hu` from being the
beginning of `hub`.
-/
namespace EventHub

namespace Text

def behind? (s : String) (bytes : Nat) : Option String :=
  if bytes ≤ (toUtf8 s).length then ofUtf8? ((toUtf8 s).drop bytes) else none

theorem behind?_append (s t : String) : behind? (s ++ t) (toUtf8 s).length = some t := by
  rw [behind?, toUtf8_append, if_pos (by simp), List.drop_left, ofUtf8?_toUtf8]

end Text

namespace Path

variable {a b p r : Path}

theorem eq_of_text (h : a.text = b.text) : a = b := by
  cases a
  cases b
  cases h
  rfl

theorem eq_of_segments (h : a.segments = b.segments) : a = b := by
  have hj := congrArg (Text.join '.') h
  rw [segments, segments, segmentsOf, segmentsOf, Text.join_splitOn, Text.join_splitOn] at hj
  exact eq_of_text (String.toList_inj.1 hj)

theorem segments_ne_nil (a : Path) : a.segments ≠ [] := Text.splitOn_ne_nil '.' a.text.toList

theorem text_ne_empty (a : Path) : a.text ≠ "" := by
  intro h
  have hempty : [] ∈ segmentsOf a.text := by
    rw [h]
    exact .head _
  exact (a.proper [] hempty).1 rfl

theorem parse_text (a : Path) : parse a.text = .ok a := by
  have hempty : ¬a.text.isEmpty = true := by
    rw [String.isEmpty_iff]
    exact a.text_ne_empty
  rw [parse, if_neg hempty]
  split
  · rename_i e h
    rw [segmentFault_eq_none_iff.2 a.proper] at h
    cases h
  · rfl

theorem segments_prefixed (r p : Path) : (r.prefixed p).segments = p.segments ++ r.segments := by
  simp [segments, segmentsOf, prefixed, Text.splitOn_append_sep]

theorem depth_prefixed (r p : Path) : (r.prefixed p).depth = p.depth + r.depth := by
  rw [depth, segments_prefixed, List.length_append]
  rfl

theorem startsWith_iff : a.startsWith p = true ↔ p.segments <+: a.segments := List.isPrefixOf_iff_prefix

theorem startsWith_prefixed (r p : Path) : (r.prefixed p).startsWith p = true := by
  rw [startsWith_iff, segments_prefixed]
  exact List.prefix_append _ _

theorem prefixed_ne (r p : Path) : r.prefixed p ≠ p := by
  intro h
  have hs := congrArg segments h
  rw [segments_prefixed] at hs
  exact r.segments_ne_nil (List.append_right_eq_self.1 hs)

theorem stripPrefix?_prefixed (r p : Path) : (r.prefixed p).stripPrefix? p = some r := by
  have htext : (r.prefixed p).text.toList = p.text.toList ++ '.' :: r.text.toList := by simp [prefixed]
  have hlt : p.text.length < (r.prefixed p).text.length := by
    rw [← String.length_toList, ← String.length_toList, htext, List.length_append, List.length_cons]
    omega
  rw [stripPrefix?, dif_pos ⟨startsWith_prefixed r p, hlt⟩]
  refine congrArg some (eq_of_text ?_)
  simp [htext, ← String.length_toList, List.drop_append]

theorem stripPrefix?_eq_some_iff : a.stripPrefix? p = some r ↔ a = r.prefixed p := by
  constructor
  · intro h
    rw [stripPrefix?] at h
    split at h
    · rename_i hp
      cases h
      refine eq_of_segments ?_
      rw [segments_prefixed]
      exact segmentsOf_drop (startsWith_iff.1 hp.1) hp.2
    · cases h
  · rintro rfl
    exact stripPrefix?_prefixed r p

theorem length_lt_of_startsWith (h : a.startsWith p = true) (hne : a ≠ p) : p.text.length < a.text.length := by
  obtain ⟨more, hs⟩ := startsWith_iff.1 h
  have hmore : more ≠ [] := by
    rintro rfl
    rw [List.append_nil] at hs
    exact hne (eq_of_segments hs.symm)
  have ha := Text.join_splitOn '.' a.text.toList
  have hp := Text.join_splitOn '.' p.text.toList
  rw [show Text.splitOn '.' a.text.toList = p.segments ++ more from hs.symm,
    Text.join_append p.segments_ne_nil hmore] at ha
  have hl := congrArg List.length ha
  rw [segments, segmentsOf, hp, List.length_append, List.length_cons, String.length_toList, String.length_toList] at hl
  omega

theorem stripPrefix?_eq_none_iff : a.stripPrefix? p = none ↔ ¬p.segments <+: a.segments ∨ a = p := by
  constructor
  · intro h
    by_cases hs : p.segments <+: a.segments
    · by_cases he : a = p
      · exact .inr he
      · rw [stripPrefix?, dif_pos ⟨startsWith_iff.2 hs, length_lt_of_startsWith (startsWith_iff.2 hs) he⟩] at h
        cases h
    · exact .inl hs
  · intro h
    rw [Option.eq_none_iff_forall_ne_some]
    intro r hr
    obtain rfl := stripPrefix?_eq_some_iff.1 hr
    rcases h with h | h
    · exact h (startsWith_iff.1 (startsWith_prefixed r p))
    · exact prefixed_ne r p h

theorem behind?_prefixed (r p : Path) :
    Text.behind? (r.prefixed p).text ((Text.toUtf8 p.text).length + 1) = some r.text := by
  have hlen : (Text.toUtf8 (p.text ++ ".")).length = (Text.toUtf8 p.text).length + 1 := by
    rw [Text.toUtf8_append, List.length_append]
    rfl
  rw [← hlen]
  exact Text.behind?_append _ _

theorem behind?_self (p : Path) : Text.behind? p.text ((Text.toUtf8 p.text).length + 1) = none := by
  rw [Text.behind?, if_neg (by omega)]

/-- One byte behind the leading segments there is what is left, or the path has ended before. -/
theorem text_stripPrefix? (h : a.startsWith p = true) :
    (a.stripPrefix? p).map Path.text = Text.behind? a.text ((Text.toUtf8 p.text).length + 1) := by
  cases hs : a.stripPrefix? p with
  | some r =>
    obtain rfl := stripPrefix?_eq_some_iff.1 hs
    exact (behind?_prefixed r p).symm
  | none =>
    obtain rfl := (stripPrefix?_eq_none_iff.1 hs).resolve_left (not_not_intro (startsWith_iff.1 h))
    exact (behind?_self a).symm

/-- Where a path with these leading segments is long enough to be cut behind them, the cut is between characters. -/
theorem behind?_ne_none (h : a.startsWith p = true)
    (fits : (Text.toUtf8 p.text).length + 1 ≤ (Text.toUtf8 a.text).length) :
    Text.behind? a.text ((Text.toUtf8 p.text).length + 1) ≠ none := by
  intro hn
  rw [← text_stripPrefix? h, Option.map_eq_none_iff, stripPrefix?_eq_none_iff] at hn
  obtain rfl := hn.resolve_left (not_not_intro (startsWith_iff.1 h))
  omega

def Extends (a p : Path) : Prop := p.segments <+: a.segments ∧ a ≠ p

theorem extends_iff : a.Extends p ↔ ∃ r : Path, a = r.prefixed p := by
  constructor
  · rintro ⟨hs, hne⟩
    cases h : a.stripPrefix? p with
    | some r => exact ⟨r, stripPrefix?_eq_some_iff.1 h⟩
    | none =>
      rcases stripPrefix?_eq_none_iff.1 h with hn | he
      · exact absurd hs hn
      · exact absurd he hne
  · rintro ⟨r, rfl⟩
    exact ⟨startsWith_iff.1 (startsWith_prefixed r p), prefixed_ne r p⟩

end Path

namespace Sink

variable {m : Mask} {strip : Option Path} {id p r : Path}

theorem isSome_accept_ofMask (m : Mask) (strip : Option Path) (id : Path) :
    ((ofMask m strip).accept id).isSome = m.accepts id := by
  rw [ofMask]
  dsimp only
  cases m.accepts id <;> rfl

theorem accept_ofMask_prefixed (hm : m.accepts (r.prefixed p) = true) :
    (ofMask m (some p)).accept (r.prefixed p) = some r := by
  simp [ofMask, hm, Path.stripPrefix?_prefixed]

theorem accept_ofMask_whole (hm : m.accepts id = true) (h : ∀ p, strip = some p → ¬id.Extends p) :
    (ofMask m strip).accept id = some id := by
  have hnone : strip.bind id.stripPrefix? = none := by
    cases strip with
    | none => rfl
    | some p =>
      rw [Option.bind_some, Option.eq_none_iff_forall_ne_some]
      intro r hr
      exact h p rfl (Path.extends_iff.2 ⟨r, Path.stripPrefix?_eq_some_iff.1 hr⟩)
  simp [ofMask, hm, hnone]

end Sink

/-- What is promised of a path `a` and of `p` as its leading segments, or as what is written before it. -/
structure Path.PrefixLaws (a p : Path) : Prop where
  startsWith : a.startsWith p = true ↔ p.segments <+: a.segments
  stripped : ∀ r, a.stripPrefix? p = some r ↔ a = r.prefixed p
  unstripped : a.stripPrefix? p = none ↔ ¬p.segments <+: a.segments ∨ a = p
  back : (a.prefixed p).stripPrefix? p = some a
  segments : (a.prefixed p).segments = p.segments ++ a.segments
  depth : (a.prefixed p).depth = p.depth + a.depth
  read : Path.parse (p.text ++ "." ++ a.text) = .ok (a.prefixed p)
  rest : ∀ r, a.stripPrefix? p = some r → Path.parse r.text = .ok r
  bytes : a.startsWith p = true →
    (a.stripPrefix? p).map Path.text = Text.behind? a.text ((Text.toUtf8 p.text).length + 1)
  cut : a.startsWith p = true → (Text.toUtf8 p.text).length + 1 ≤ (Text.toUtf8 a.text).length →
    Text.behind? a.text ((Text.toUtf8 p.text).length + 1) ≠ none

/-- The name under which a sink that takes what a mask accepts hands it out. -/
structure Sink.MaskLaws (m : Mask) (strip : Option Path) (id : Path) : Prop where
  takes : ((Sink.ofMask m strip).accept id).isSome = m.accepts id
  remainder : ∀ p, m.accepts id = true → strip = some p → id.Extends p →
    ∃ r, id = r.prefixed p ∧ (Sink.ofMask m strip).accept id = some r
  whole : m.accepts id = true → (∀ p, strip = some p → ¬id.Extends p) → (Sink.ofMask m strip).accept id = some id

/-- Taking leading segments away undoes writing them before a path, and is possible just where something is left.
What the two build are paths again, and no character is ever cut. A sink strips just the ids that go on behind what
it strips. -/
theorem Path.stripping_undoes_prefixing :
    (∀ a p : Path, a.PrefixLaws p) ∧ ∀ m strip id, Sink.MaskLaws m strip id := by
  constructor
  · intro a p
    exact
      { startsWith := startsWith_iff
        stripped := fun r => stripPrefix?_eq_some_iff
        unstripped := stripPrefix?_eq_none_iff
        back := stripPrefix?_prefixed a p
        segments := segments_prefixed a p
        depth := depth_prefixed a p
        read := parse_text (a.prefixed p)
        rest := fun r _ => parse_text r
        bytes := text_stripPrefix?
        cut := behind?_ne_none }
  · intro m strip id
    refine ⟨Sink.isSome_accept_ofMask m strip id, ?_, fun hm h => Sink.accept_ofMask_whole hm h⟩
    rintro p hm rfl hext
    obtain ⟨r, rfl⟩ := extends_iff.1 hext
    exact ⟨r, rfl, Sink.accept_ofMask_prefixed hm⟩

namespace Path

def interface : Path := ⟨"сеть.é", by decide⟩
def counter : Path := ⟨"日.1", by decide⟩
def interfaceCounter : Path := ⟨"сеть.é.日.1", by decide⟩

example : interface.startsWith ⟨"сет", by decide⟩ = false := by decide

theorem stripping_undoes_prefixing_ofWide :
    interfaceCounter.Extends interface ∧ interfaceCounter.stripPrefix? interface = some counter ∧
      (Sink.ofMask ⟨"сеть.**", [.literal "сеть".toList, .many]⟩ (some interface)).accept interfaceCounter =
        some counter := by
  obtain ⟨hpaths, hsinks⟩ := stripping_undoes_prefixing
  have hid : interfaceCounter = counter.prefixed interface := by decide
  have hext : interfaceCounter.Extends interface := extends_iff.2 ⟨counter, hid⟩
  have hstripped := ((hpaths interfaceCounter interface).stripped counter).2 hid
  obtain ⟨r, hr, haccept⟩ := (hsinks ⟨"сеть.**", [.literal "сеть".toList, .many]⟩ (some interface)
    interfaceCounter).remainder interface (by decide) rfl hext
  have hrc : r = counter := by
    have hback := ((hpaths _ interface).stripped r).2 hr
    rw [hstripped] at hback
    exact (Option.some.inj hback).symm
  exact ⟨hext, hstripped, hrc ▸ haccept⟩

end Path
end EventHub
