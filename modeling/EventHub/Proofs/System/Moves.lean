import EventHub.System
set_option autoImplicit false

/-!
Runs of a system. A move is one public operation, or that a sleeping call which was woken goes on; moves
may follow each other in any order, so nothing is assumed about who is resumed when.
-/
namespace EventHub

inductive HubMove where
  | makeFlag
  | addSource (flag : Nat) (asynchronous : Bool)
  | raise (flag bit : Nat)
  | clear (flag bit : Nat)
  | makeHub (name : String) (flag : Nat)
  | addSink (hub : Nat) (sink : Sink)
  | publish (hub : Nat) (event : Event)
  | notify (hub : Nat)
  | stop (hub : Nat)
  | probe (hub : Nat) (mask : Mask) (sink : Nat)
  | call (c : Call)
  | resume (handle : Nat)

/-- What can be done with a system. With `disturb` something else happens to the files. -/
inductive Move where
  | onHubs (m : HubMove)
  | makeCollector (accepts : Bool)
  | makeChannel (name : String) (outlet : Option Outlet)
  | makeBareChannel (name : String)
  | makeHubChannel (name : String) (hub sink : Nat) (outlet : Outlet)
  | attach (channel flag : Nat) (asynchronous : Bool)
  | init (channel : Nat) (config : ChannelConfig)
  | close (channel : Nat)
  | abort (channel : Nat)
  | flush (channel : Nat)
  | post (channel : Nat) (event : Event)
  | hasEvent (channel : Nat) (mask : Mask)
  | raiseOwn (channel : Nat)
  | clearOwn (channel : Nat)
  | disturb (files : FileSystem)

/-- What a move lets be seen. A call that goes to sleep shows nothing until it returns. -/
inductive Note where
  | quiet
  | published (hub : Nat) (event : Event) (taken : Bool)
  | returned (call : Call) (reply : Reply)
  | changed (channel : Nat) (outcome : Except ChannelError Unit)
  | posted (channel : Nat) (event : Event) (outcome : Except ChannelError Unit)

def Note.ofCall (c : Call) : Option Reply → Note
  | some r => .returned c r
  | none => .quiet

def Ask.reply (ask : Ask) (fetch : Fetch) : Reply :=
  if ask.take then .fetched fetch else .status fetch.status

def Progress.reply? : Progress → Option Reply
  | .returned r => some r
  | .asleep _ => none

/-- A hub is made on a flag that is there, and only calls that were woken go on; otherwise nothing happens. -/
def HubMove.step (s : System) : HubMove → Note × System
  | .makeFlag => (.quiet, s.addFlag.2)
  | .addSource flag asynchronous => (.quiet, (s.addSource flag asynchronous).2)
  | .raise flag bit => (.quiet, s.raise flag bit)
  | .clear flag bit => (.quiet, s.clear flag bit)
  | .makeHub name flag => (.quiet, if flag < s.flags.length then (s.addHub name flag).2 else s)
  | .addSink hub sink => (.quiet, (s.addSink hub sink).2)
  | .publish hub e => (.published hub e (s.publish hub e).1, (s.publish hub e).2)
  | .notify hub => (.quiet, s.notify hub)
  | .stop hub => (.quiet, s.stop hub)
  | .probe hub mask sink =>
    (.returned (.askHub hub ⟨mask, .noWait, sink, false⟩) (.status (s.probe hub mask sink).1),
     (s.probe hub mask sink).2)
  | .call c => (.ofCall c (s.start c).2.1.reply?, (s.start c).2.2)
  | .resume handle =>
    match s.wokenUnder handle with
    | none => (.quiet, s)
    | some p => (.ofCall p.call (s.resume p).1, (s.resume p).2)

/-- A channel is made for a hub that is there, and attached to a flag that is there. -/
def Move.step (s : System) : Move → Note × System
  | .onHubs m => m.step s
  | .makeCollector accepts => (.quiet, (s.addCollector accepts).2)
  | .makeChannel name outlet => (.quiet, (s.addChannel (.make name (.plain outlet))).2)
  | .makeBareChannel name => (.quiet, (s.addChannel (.make name .bare)).2)
  | .makeHubChannel name hub sink outlet =>
    (.quiet, if hub < s.hubs.length then (s.addHubChannel name hub sink outlet).2 else s)
  | .attach channel flag asynchronous =>
    (.quiet, if flag < s.flags.length then (s.attach channel flag asynchronous).2 else s)
  | .init channel config =>
    let (r, s) := s.changeChannel channel fun c fs => c.init fs config
    (.changed channel r, s)
  | .close channel => let (r, s) := s.changeChannel channel Channel.close; (.changed channel r, s)
  | .abort channel => let (r, s) := s.changeChannel channel Channel.abort; (.changed channel r, s)
  | .flush channel => let (r, s) := s.changeChannel channel Channel.flush; (.changed channel r, s)
  | .post channel e => let (r, s) := s.post channel e; (.posted channel e r, s)
  | .hasEvent channel mask => (.quiet, (s.hasEvent channel mask).2)
  | .raiseOwn channel => (.quiet, s.raiseOwn channel)
  | .clearOwn channel => (.quiet, s.clearOwn channel)
  | .disturb files => (.quiet, { s with files := files })

namespace System

def after (s : System) : List HubMove → System
  | [] => s
  | m :: ms => (m.step s).2.after ms

def notes (s : System) : List HubMove → List Note
  | [] => []
  | m :: ms => (m.step s).1 :: (m.step s).2.notes ms

theorem after_append (s : System) (ms ns : List HubMove) :
    s.after (ms ++ ns) = (s.after ms).after ns := by
  induction ms generalizing s with
  | nil => rfl
  | cons m ms ih => exact ih (m.step s).2

theorem notes_append (s : System) (ms ns : List HubMove) :
    s.notes (ms ++ ns) = s.notes ms ++ (s.after ms).notes ns := by
  induction ms generalizing s with
  | nil => rfl
  | cons m ms ih =>
    rw [List.cons_append, notes, notes, ih]
    rfl

end System
end EventHub
