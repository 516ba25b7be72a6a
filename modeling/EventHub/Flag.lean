import EventHub.ErrorCode
set_option autoImplicit false

/-!
Event flags: one bit for each source that was registered. Raised and asynchronous sources are counted as
they come and go, so asking costs nothing. Bits that were never issued are ignored.
-/
namespace EventHub

/-- An asynchronous source may raise its bit while another caller sleeps. -/
structure Source where
  asynchronous : Bool
  raised : Bool
  deriving DecidableEq, Repr

structure Flag where
  sources : List Source
  raisedCount : Nat
  asyncCount : Nat
  deriving DecidableEq, Repr

inductive FlagError where
  | wouldBlockForever
  deriving DecidableEq, Repr

instance : ErrorCode FlagError where
  code | .wouldBlockForever => "FLAG_WOULD_BLOCK_FOREVER"
  recoverable _ := false
  message
    | .wouldBlockForever => "wait would block forever: no asynchronous source is registered"

namespace Flag

def empty : Flag := ⟨[], 0, 0⟩

instance : Inhabited Flag := ⟨empty⟩

/-- The bit of a new source is the number of the sources before it. -/
def addSource (f : Flag) (asynchronous : Bool) : Nat × Flag :=
  (f.sources.length,
   { f with
     sources := f.sources ++ [⟨asynchronous, false⟩]
     asyncCount := if asynchronous then f.asyncCount + 1 else f.asyncCount })

def bitText (bit : Nat) : String := s!"bit:{bit}"

def raise (f : Flag) (bit : Nat) : Flag :=
  match f.sources[bit]? with
  | none => f
  | some s =>
    if s.raised then f
    else
      { f with
        sources := f.sources.set bit { s with raised := true }
        raisedCount := f.raisedCount + 1 }

theorem length_raise (f : Flag) (bit : Nat) : (f.raise bit).sources.length = f.sources.length := by
  unfold raise
  split
  · rfl
  · split <;> simp

def clear (f : Flag) (bit : Nat) : Flag :=
  match f.sources[bit]? with
  | none => f
  | some s =>
    if s.raised then
      { f with
        sources := f.sources.set bit { s with raised := false }
        raisedCount := f.raisedCount - 1 }
    else f

theorem length_clear (f : Flag) (bit : Nat) : (f.clear bit).sources.length = f.sources.length := by
  unfold clear
  split
  · rfl
  · split <;> simp

def isIssued (f : Flag) (bit : Nat) : Bool := bit < f.sources.length

def isRaised (f : Flag) : Bool := 0 < f.raisedCount

def isBitRaised (f : Flag) (bit : Nat) : Bool := (f.sources[bit]?.map Source.raised).getD false

theorem isBitRaised_raise (f : Flag) (bit other : Nat) :
    (f.raise bit).isBitRaised other = (f.isBitRaised other || (other == bit && f.isIssued bit)) := by
  unfold raise isBitRaised isIssued
  by_cases h : bit < f.sources.length
  · rw [List.getElem?_eq_getElem h]
    by_cases hr : f.sources[bit].raised = true
    · by_cases ho : other = bit
      · subst ho; simp [h, hr]
      · simp [hr, ho]
    · by_cases ho : other = bit
      · subst ho; simp [hr, h]
      · simp [hr, ho, List.getElem?_set_ne (Ne.symm ho)]
  · simp [h]

theorem isBitRaised_clear (f : Flag) (bit other : Nat) :
    (f.clear bit).isBitRaised other = (f.isBitRaised other && other != bit) := by
  unfold clear isBitRaised
  by_cases h : bit < f.sources.length
  · rw [List.getElem?_eq_getElem h]
    by_cases hr : f.sources[bit].raised = true
    · by_cases ho : other = bit
      · subst ho; simp [h, hr]
      · simp [hr, ho, List.getElem?_set_ne (Ne.symm ho)]
    · by_cases ho : other = bit
      · subst ho; simp [hr, h]
      · simp [hr, ho]
  · have hn : f.sources[bit]? = none := List.getElem?_eq_none (Nat.le_of_not_lt h)
    by_cases ho : other = bit
    · subst ho; simp [hn]
    · simp [hn, ho]

/-- Whether one who waits may go on at once; nobody is put to sleep whom nothing could wake. -/
def wait (f : Flag) : Except FlagError Bool :=
  if f.isRaised then .ok true
  else if f.asyncCount = 0 then .error .wouldBlockForever
  else .ok false

end Flag
end EventHub
