import EventHub.Mask
set_option autoImplicit false

namespace EventHub

structure Sink where
  accept : Path → Option Path

namespace Sink

/-- Takes what a mask accepts. A path to strip is taken from the ids that go on behind it. -/
def ofMask (m : Mask) (strip : Option Path) : Sink where
  accept id :=
    if m.accepts id then some ((strip.bind id.stripPrefix?).getD id) else none

/-- Takes the ids of one depth, and may write a path before them. -/
def ofDepth (depth : Nat) (lead : Option Path) : Sink where
  accept id :=
    if id.depth = depth then
      some (match lead with
        | none => id
        | some lead => id.prefixed lead)
    else none

def indexText (index : Nat) : String := s!"sink:{index}"

end Sink
end EventHub
