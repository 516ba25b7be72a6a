import EventHub.ErrorCode
import EventHub.Text.Split
import EventHub.Text.Blank
set_option autoImplicit false

/-!
Event paths: names such as `net.rx.1`, cut into segments by dots. A path is its text together with the
proof that every segment is a proper one, so whatever builds a path has to keep them so.
-/
namespace EventHub

inductive PathError where
  | empty
  | emptySegment (input : String)
  | invalidSegment (input segment : String)
  deriving DecidableEq, Repr

instance : ErrorCode PathError where
  code
    | .empty => "PATH_EMPTY"
    | .emptySegment _ => "PATH_EMPTY_SEGMENT"
    | .invalidSegment _ _ => "PATH_INVALID_SEGMENT"
  recoverable _ := false
  message
    | .empty => "path is empty"
    | .emptySegment input => s!"empty segment in '{input}'"
    | .invalidSegment input segment => s!"invalid segment '{segment}' in '{input}'"

abbrev Segment := List Char

def Segment.isPlain (s : Segment) : Bool := s.all fun c => !Text.isBlank c && c != '*'

def segmentsOf (text : String) : List Segment := Text.splitOn '.' text.toList

/-- The leftmost segment that is empty or fails `ok` decides the error. -/
def segmentFault (ok : Segment → Bool) (input : String) : List Segment → Option PathError
  | [] => none
  | s :: ss =>
    if s.isEmpty then some (.emptySegment input)
    else if !ok s then some (.invalidSegment input (String.ofList s))
    else segmentFault ok input ss

theorem segmentFault_eq_none_iff {ok : Segment → Bool} {input : String} {ss : List Segment} :
    segmentFault ok input ss = none ↔ ∀ s ∈ ss, s ≠ [] ∧ ok s = true := by
  induction ss with
  | nil => simp [segmentFault]
  | cons s ss ih =>
    rw [segmentFault]
    by_cases he : s = []
    · simp [he]
    · by_cases ho : ok s = true
      · simp [he, ho, ih]
      · simp [he, ho]

structure Path where
  text : String
  proper : ∀ s ∈ segmentsOf text, s ≠ [] ∧ s.isPlain = true
  deriving DecidableEq

namespace Path

instance : ToString Path := ⟨Path.text⟩

def segments (p : Path) : List Segment := segmentsOf p.text

def depth (p : Path) : Nat := p.segments.length

def parse (input : String) : Except PathError Path :=
  if input.isEmpty then .error .empty
  else match h : segmentFault Segment.isPlain input (segmentsOf input) with
    | some e => .error e
    | none => .ok ⟨input, segmentFault_eq_none_iff.1 h⟩

/-- Text order is by code point, which is also the order of the UTF-8 bytes. -/
def cmp (a b : Path) : Ordering := compare a.text b.text

def prefixed (p lead : Path) : Path where
  text := lead.text ++ "." ++ p.text
  proper s hs := by
    have : segmentsOf (lead.text ++ "." ++ p.text) = segmentsOf lead.text ++ segmentsOf p.text := by
      simp [segmentsOf, Text.splitOn_append_sep]
    rw [this, List.mem_append] at hs
    exact hs.elim (lead.proper s) (p.proper s)

def startsWith (p lead : Path) : Bool := lead.segments.isPrefixOf p.segments

theorem segmentsOf_drop {text lead : String}
    (h : segmentsOf lead <+: segmentsOf text) (hlt : lead.length < text.length) :
    segmentsOf text =
      segmentsOf lead ++ segmentsOf (String.ofList (text.toList.drop (lead.length + 1))) := by
  obtain ⟨tl, ht⟩ := h
  have htext := Text.join_splitOn '.' text.toList
  have hlead := Text.join_splitOn '.' lead.toList
  simp only [segmentsOf] at ht ⊢
  rw [← ht] at htext
  cases tl with
  | nil =>
    rw [List.append_nil, hlead] at htext
    have := congrArg List.length htext
    rw [String.length_toList, String.length_toList] at this
    omega
  | cons q qs =>
    rw [Text.join_append (Text.splitOn_ne_nil _ _) (by simp), hlead] at htext
    have hdrop : text.toList.drop (lead.length + 1) = Text.join '.' (q :: qs) := by
      rw [← htext, ← String.length_toList]
      simp [List.drop_append]
    have hpieces : ∀ r ∈ q :: qs, '.' ∉ r := fun r hr =>
      have hmem : r ∈ Text.splitOn '.' text.toList := by
        rw [← ht]; exact List.mem_append.2 (.inr hr)
      Text.notMem_of_mem_splitOn hmem
    rw [String.toList_ofList, hdrop, Text.splitOn_join (by simp) hpieces, ht]

/-- What is left of `p` after the segments of `lead`, if something is. -/
def stripPrefix? (p lead : Path) : Option Path :=
  if h : p.startsWith lead = true ∧ lead.text.length < p.text.length then
    some
      { text := String.ofList (p.text.toList.drop (lead.text.length + 1))
        proper := fun s hs => p.proper s (by
          rw [segmentsOf_drop (List.isPrefixOf_iff_prefix.1 h.1) h.2]
          exact List.mem_append.2 (.inr hs)) }
  else none

end Path
end EventHub
