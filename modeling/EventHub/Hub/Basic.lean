import EventHub.Event
import EventHub.Flag
import EventHub.Sink
set_option autoImplicit false

/-!
Hubs: one queue for many consumers. The event at the head belongs to the first sink that takes it, and
nobody sees what lies behind it before it is gone.
-/
namespace EventHub

structure Entry where
  seq : Nat
  event : Event

/-- Whose the entry of a number is, and under which name. -/
structure Assignment where
  seq : Nat
  sink : Nat
  canonical : Path
  deriving DecidableEq

/-- A hub holds the bit `bit` of the flag that it was made with. The numbers of its entries and both counters are
numbers of sixty-four bits in a program that runs. Here they have no end, and so they are the same as long as
fewer than `2 ^ 64` events came into the hub. -/
structure Hub where
  name : String
  bit : Nat
  running : Bool
  sinks : List Sink
  queue : List Entry
  nextSeq : Nat
  cached : Option Assignment
  delivered : Nat
  dropped : Nat

namespace Hub

def make (name : String) (flag : Flag) : Hub × Flag :=
  let (bit, flag) := flag.addSource true
  (⟨name, bit, true, [], [], 0, none, 0, 0⟩, flag)

def addSink (h : Hub) (s : Sink) : Nat × Hub := (h.sinks.length, { h with sinks := h.sinks ++ [s] })

def routeFrom (index : Nat) (id : Path) : List Sink → Option (Nat × Path)
  | [] => none
  | s :: ss =>
    match s.accept id with
    | some canonical => some (index, canonical)
    | none => routeFrom (index + 1) id ss

/-- Sinks that were added later are asked only if all before them refuse. -/
theorem routeFrom_append (index : Nat) (id : Path) (ss ts : List Sink) :
    routeFrom index id (ss ++ ts)
      = (routeFrom index id ss).or (routeFrom (index + ss.length) id ts) := by
  induction ss generalizing index with
  | nil => simp [routeFrom]
  | cons s ss ih =>
    rw [List.cons_append, routeFrom, routeFrom]
    split
    · simp
    · rw [ih]; simp [Nat.add_assoc, Nat.add_comm 1]

def route (h : Hub) (id : Path) : Option (Nat × Path) := routeFrom 0 id h.sinks

def isBound (h : Hub) (id : Path) : Bool := (h.route id).isSome

def publish (h : Hub) (flag : Flag) (e : Event) : Bool × Hub × Flag :=
  if h.running then
    (true, { h with queue := h.queue ++ [⟨h.nextSeq, e⟩], nextSeq := h.nextSeq + 1 },
     flag.raise h.bit)
  else (false, h, flag)

def stop (h : Hub) (flag : Flag) : Hub × Flag :=
  if h.running then ({ h with running := false }, flag.raise h.bit) else (h, flag)

/-- Forgets an assignment that is not the head's. -/
def forgetStale (h : Hub) : Hub :=
  match h.cached, h.queue with
  | some a, e :: _ => if a.seq = e.seq then h else { h with cached := none }
  | some _, [] => { h with cached := none }
  | none, _ => h

end Hub
end EventHub
