import EventHub.Path
set_option autoImplicit false

/-!
Event masks: paths in which a segment may be a wildcard. `*` stands for one segment and `**` for any
number of them, none included.
-/
namespace EventHub

inductive MaskSegment where
  | literal (segment : Segment)
  | one
  | many
  deriving DecidableEq, Repr

namespace MaskSegment

def ofSegment (s : Segment) : MaskSegment :=
  if s = ['*'] then .one else if s = ['*', '*'] then .many else .literal s

def isLiteral : MaskSegment → Bool
  | .literal _ => true
  | .one | .many => false

def isProper (s : Segment) : Bool :=
  s.all (fun c => !Text.isBlank c) && (!s.contains '*' || s == ['*'] || s == ['*', '*'])

end MaskSegment

/-- Two masks are the same when they have the same text and the same segments. -/
structure Mask where
  text : String
  segments : List MaskSegment
  deriving DecidableEq, Repr

namespace Mask

instance : ToString Mask := ⟨Mask.text⟩

def parse (input : String) : Except PathError Mask :=
  if input.isEmpty then .error .empty
  else match segmentFault MaskSegment.isProper input (segmentsOf input) with
    | some e => .error e
    | none => .ok ⟨input, (segmentsOf input).map MaskSegment.ofSegment⟩

def any : Mask := ⟨"**", [.many]⟩

def exact (p : Path) : Mask := ⟨p.text, p.segments.map .literal⟩

def isExact (m : Mask) : Bool := m.segments.all MaskSegment.isLiteral

/-- How far a comparison has come: what is left of the mask and of the path and, once a `**` was met,
what followed the last one and the path that it was last tried against. -/
structure Cursor where
  mask : List MaskSegment
  path : List Segment
  resume : Option (List MaskSegment × List Segment)

/-- Gives the last `**` one more segment and takes up the comparison behind it. -/
def Cursor.back (c : Cursor) : Option Cursor :=
  c.resume.map fun (mask, path) => ⟨mask, path.tail, some (mask, path.tail)⟩

def Cursor.step (c : Cursor) (s : Segment) (rest : List Segment) : Option Cursor :=
  match c.mask with
  | .many :: mask => some ⟨mask, s :: rest, some (mask, s :: rest)⟩
  | .one :: mask => some ⟨mask, rest, c.resume⟩
  | .literal l :: mask => if l = s then some ⟨mask, rest, c.resume⟩ else c.back
  | [] => c.back

/-- The verdict within so many steps. At the end of the path only `**` may be left of the mask. -/
def Cursor.run : Nat → Cursor → Option Bool
  | _, ⟨mask, [], _⟩ => some (mask.all (· == .many))
  | 0, ⟨_, _ :: _, _⟩ => none
  | fuel + 1, ⟨mask, s :: rest, resume⟩ =>
    match Cursor.step ⟨mask, s :: rest, resume⟩ s rest with
    | none => some false
    | some next => next.run fuel

/-- Steps that suffice: each position of the path meets each position of the mask at most once. -/
def stepBound (mask : List MaskSegment) (path : List Segment) : Nat :=
  (mask.length + 1) * (path.length + 1)

def matchSegments (mask : List MaskSegment) (path : List Segment) : Bool :=
  (Cursor.run (stepBound mask path) ⟨mask, path, none⟩).getD false

def accepts (m : Mask) (p : Path) : Bool := matchSegments m.segments p.segments

end Mask
end EventHub
