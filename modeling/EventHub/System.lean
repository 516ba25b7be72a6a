import EventHub.Channel.Basic
import EventHub.Hub.Dispatch
set_option autoImplicit false

/-!
Flags, hubs, channels and collectors together with the calls that sleep among them. A call runs until it
returns or goes to sleep; what happens meanwhile marks the sleepers that it wakes, and a sleeper that was
woken takes its call up again where it left it.
-/
namespace EventHub

/-- A collector keeps the events that are posted to it, whether it accepts or refuses them. -/
structure Collector where
  accepts : Bool
  events : List Event

inductive Call where
  | waitForFlag (flag : Nat)
  | askHub (hub : Nat) (ask : Ask)
  | fetchFrom (channel : Nat) (mask : Mask) (mode : WaitMode)
  | waitOnChannel (channel : Nat) (mode : WaitMode)

/-- What a call sleeps on: the queue of a hub, or a flag. -/
inductive WaitPoint where
  | queue (hub : Nat)
  | flag (flag : Nat)
  deriving DecidableEq, Repr

structure Sleeper where
  handle : Nat
  call : Call
  point : WaitPoint
  awake : Bool

inductive Reply where
  | done
  | fetched (fetch : Fetch)
  | status (s : Status)
  | flagError (e : FlagError)
  | channelError (e : ChannelError)

inductive Progress where
  | returned (r : Reply)
  | asleep (point : WaitPoint)

/-- Flags, hubs, channels and collectors are known by their places in these lists, which only grow. -/
structure System where
  files : FileSystem
  flags : List Flag
  hubs : List (Hub × Nat)
  channels : List Channel
  collectors : List Collector
  sleepers : List Sleeper
  handles : Nat

namespace System

def empty (files : FileSystem) : System := ⟨files, [], [], [], [], [], 0⟩

def wake (s : System) (point : WaitPoint) : System :=
  { s with sleepers := s.sleepers.map fun p => if p.point = point then { p with awake := true } else p }

def flagAt (s : System) (id : Nat) : Flag := s.flags[id]?.getD .empty

def setFlag (s : System) (id : Nat) (f : Flag) : System := { s with flags := s.flags.set id f }

/-- A raise of an issued bit wakes those who sleep on the flag, also if the bit was raised before. -/
def raise (s : System) (flag bit : Nat) : System :=
  if (s.flagAt flag).isIssued bit then
    (s.setFlag flag ((s.flagAt flag).raise bit)).wake (.flag flag)
  else s

def clear (s : System) (flag bit : Nat) : System := s.setFlag flag ((s.flagAt flag).clear bit)

def addFlag (s : System) : Nat × System := (s.flags.length, { s with flags := s.flags ++ [.empty] })

def addSource (s : System) (flag : Nat) (asynchronous : Bool) : Nat × System :=
  let (bit, f) := (s.flagAt flag).addSource asynchronous
  (bit, s.setFlag flag f)

def addHub (s : System) (name : String) (flag : Nat) : Nat × System :=
  let (hub, f) := Hub.make name (s.flagAt flag)
  (s.hubs.length, { s.setFlag flag f with hubs := s.hubs ++ [(hub, flag)] })

def addCollector (s : System) (accepts : Bool) : Nat × System :=
  (s.collectors.length, { s with collectors := s.collectors ++ [⟨accepts, []⟩] })

def addChannel (s : System) (c : Channel) : Nat × System :=
  (s.channels.length, { s with channels := s.channels ++ [c] })

def changeHub {α : Type} (s : System) (id : Nat) (absent : α) (change : Hub → Flag → α × Hub × Flag) :
    α × System :=
  match s.hubs[id]? with
  | none => (absent, s)
  | some (hub, flag) =>
    let (a, hub', f) := change hub (s.flagAt flag)
    (a, { s.setFlag flag f with hubs := s.hubs.set id (hub', flag) })

def flagOfHub (s : System) (id : Nat) : Nat := (s.hubs[id]?.map Prod.snd).getD 0

def addSink (s : System) (hub : Nat) (sink : Sink) : Nat × System :=
  s.changeHub hub 0 fun h f => let (index, h) := h.addSink sink; (index, h, f)

def publish (s : System) (hub : Nat) (e : Event) : Bool × System :=
  let (taken, s) := s.changeHub hub false fun h f => h.publish f e
  (taken, if taken then (s.wake (.queue hub)).wake (.flag (s.flagOfHub hub)) else s)

def notify (s : System) (hub : Nat) : System :=
  match s.hubs[hub]? with
  | none => s
  | some (h, flag) => s.raise flag h.bit

/-- Only the first stop of a hub wakes anybody. -/
def stop (s : System) (hub : Nat) : System :=
  let (wasRunning, s) := s.changeHub hub false fun h f => (h.running, h.stop f)
  if wasRunning then (s.wake (.queue hub)).wake (.flag (s.flagOfHub hub)) else s

def askHub (s : System) (hub : Nat) (ask : Ask) (resumed : Bool) : Hub.Pause × System :=
  let ((pause, woke), s) :=
    s.changeHub hub (.answer (.pending .closed), false) fun h f =>
      let (pause, t) := h.dispatch f ask resumed
      ((pause, t.woke), t.hub, t.flag)
  (pause, if woke then s.wake (.queue hub) else s)

def changeChannel (s : System) (id : Nat)
    (change : Channel → FileSystem → Except ChannelError Unit × Channel × FileSystem) :
    Except ChannelError Unit × System :=
  match s.channels[id]? with
  | none => (.ok (), s)
  | some c =>
    let (result, c, files) := change c s.files
    (result, { s with files := files, channels := s.channels.set id c })

def send (s : System) (outlet : Outlet) (e : Event) : Bool × System :=
  match outlet with
  | .hub id => s.publish id e
  | .collector id =>
    match s.collectors[id]? with
    | none => (false, s)
    | some c =>
      (c.accepts, { s with collectors := s.collectors.set id { c with events := c.events ++ [e] } })

/-- An event is recorded and then passed on; a refusal of the outlet is no failure. -/
def post (s : System) (channel : Nat) (e : Event) : Except ChannelError Unit × System :=
  match s.changeChannel channel fun c fs => c.recordPost fs e with
  | (.error err, s) => (.error err, s)
  | (.ok (), s) =>
    match s.channels[channel]?.bind Channel.outlet? with
    | none => (.ok (), s)
    | some outlet => (.ok (), (s.send outlet e).2)

/-- A channel keeps the bit of the one flag that it was attached to first. -/
def attach (s : System) (channel flag : Nat) (asynchronous : Bool) : Except ChannelError Nat × System :=
  match s.channels[channel]? with
  | none => (.ok 0, s)
  | some c =>
    match c.binding with
    | some b => (if b.flag = flag then .ok b.bit else .error (.flagConflict c.name), s)
    | none =>
      let (bit, s) := s.addSource flag asynchronous
      (.ok bit, { s with channels := s.channels.set channel { c with binding := some ⟨flag, bit⟩ } })

def addHubChannel (s : System) (name : String) (hub sink : Nat) (outlet : Outlet) : Nat × System :=
  let (id, s) := s.addChannel (.make name (.ofHub hub sink outlet))
  (id, (s.attach id (s.flagOfHub hub) false).2)

def raiseOwn (s : System) (channel : Nat) : System :=
  match s.channels[channel]?.bind Channel.binding with
  | none => s
  | some b => s.raise b.flag b.bit

def clearOwn (s : System) (channel : Nat) : System :=
  match s.channels[channel]?.bind Channel.binding with
  | none => s
  | some b => s.clear b.flag b.bit

def isFlagRaised (s : System) (c : Channel) : Bool :=
  (c.binding.map fun b => (s.flagAt b.flag).isRaised).getD false

def probe (s : System) (hub : Nat) (mask : Mask) (sink : Nat) : Status × System :=
  match s.askHub hub ⟨mask, .noWait, sink, false⟩ false with
  | (.answer fetch, s) => (fetch.status, s)
  | (_, s) => (.error, s)

def hasEvent (s : System) (channel : Nat) (mask : Mask) : Status × System :=
  match s.channels[channel]? with
  | none => (.closed, s)
  | some c =>
    if c.isOpen then
      match c.kind with
      | .ofHub hub sink _ => s.probe hub mask sink
      | _ => (if s.isFlagRaised c then .outOfSeq else .wait, s)
    else (.closed, s)

def isBound (s : System) (channel : Nat) (id : Path) : Bool :=
  match s.channels[channel]?.map Channel.kind with
  | some (.ofHub hub _ _) => (s.hubs[hub]?.map fun h => h.1.isBound id).getD false
  | _ => false

/-- Waiting with nothing but a flag. There is no queue to insist on, and no waiting for what cannot come. -/
def waitOnFlag (s : System) (c : Channel) (mode : WaitMode) : Progress :=
  match mode with
  | .noWait => .returned (.status .wait)
  | .block => .returned (.channelError (.illegalWait c.name mode "channel has no event queue"))
  | .wait =>
    match c.binding with
    | none => .returned (.channelError (.illegalWait c.name mode "no event flag attached"))
    | some b =>
      match (s.flagAt b.flag).wait with
      | .ok true => .returned (.status .outOfSeq)
      | .ok false => .asleep (.flag b.flag)
      | .error _ =>
        .returned (.channelError (.illegalWait c.name mode "event flag has no asynchronous source"))

def asFetch : Progress → Progress
  | .returned (.status s) => .returned (.fetched (.pending s))
  | p => p

/-- An event that is handed out is recorded. If that fails the failure is the answer. -/
def deliver (s : System) (channel : Nat) (fetch : Fetch) : Progress × System :=
  match fetch with
  | .pending _ => (.returned (.fetched fetch), s)
  | .delivered e =>
    match s.changeChannel channel fun c fs => c.recordFetch fs e with
    | (.error err, s) => (.returned (.channelError err), s)
    | (.ok (), s) => (.returned (.fetched fetch), s)

def pausePoint (s : System) (hub : Nat) : Hub.Pause → Fetch ⊕ WaitPoint
  | .answer fetch => .inl fetch
  | .onQueue => .inr (.queue hub)
  | .onFlag => .inr (.flag (s.flagOfHub hub))

/-- Runs a call from its start, or from its waking if it is resumed, until it returns or sleeps. -/
def advance (s : System) (resumed : Bool) : Call → Progress × System
  | .waitForFlag flag =>
    match (s.flagAt flag).wait with
    | .ok true => (.returned .done, s)
    | .ok false => (.asleep (.flag flag), s)
    | .error e => (.returned (.flagError e), s)
  | .askHub hub ask =>
    let (pause, s) := s.askHub hub ask resumed
    match s.pausePoint hub pause with
    | .inl fetch => (.returned (if ask.take then .fetched fetch else .status fetch.status), s)
    | .inr point => (.asleep point, s)
  | .fetchFrom channel mask mode =>
    match s.channels[channel]? with
    | none => (.returned (.fetched (.pending .closed)), s)
    | some c =>
      if c.isOpen then
        match c.kind with
        | .ofHub hub sink _ =>
          let (pause, s) := s.askHub hub ⟨mask, mode, sink, true⟩ resumed
          match s.pausePoint hub pause with
          | .inl fetch => s.deliver channel fetch
          | .inr point => (.asleep point, s)
        | _ => (asFetch (s.waitOnFlag c mode), s)
      else (.returned (.fetched (.pending .closed)), s)
  | .waitOnChannel channel mode =>
    match s.channels[channel]? with
    | none => (.returned (.status .closed), s)
    | some c => (s.waitOnFlag c mode, s)

def start (s : System) (call : Call) : Nat × Progress × System :=
  let handle := s.handles
  match { s with handles := s.handles + 1 }.advance false call with
  | (.returned r, s) => (handle, .returned r, s)
  | (.asleep point, s) =>
    (handle, .asleep point, { s with sleepers := s.sleepers ++ [⟨handle, call, point, false⟩] })

/-- Whether a sleeper that was woken goes on: one that sleeps on a flag looks first whether it is still
raised. -/
def mayGoOn (s : System) (p : Sleeper) : Bool :=
  match p.point with
  | .queue _ => true
  | .flag flag => (s.flagAt flag).isRaised

def wokenUnder (s : System) (handle : Nat) : Option Sleeper :=
  s.sleepers.find? fun p => p.handle == handle && p.awake

def without (s : System) (handle : Nat) : System :=
  { s with sleepers := s.sleepers.filter fun p => p.handle != handle }

def replace (s : System) (p : Sleeper) : System :=
  { s with sleepers := s.sleepers.map fun q => if q.handle = p.handle then p else q }

def resume (s : System) (p : Sleeper) : Option Reply × System :=
  if s.mayGoOn p then
    match (s.replace { p with awake := false }).advance true p.call with
    | (.returned r, s) => (some r, s.without p.handle)
    | (.asleep point, s) => (none, s.replace { p with point := point, awake := false })
  else (none, s.replace { p with awake := false })

/-- Resumes those that were woken, the oldest first, until none is left; at most so many times. -/
def settleWithin : Nat → System → List (Nat × Reply) × System
  | 0, s => ([], s)
  | fuel + 1, s =>
    match s.sleepers.find? Sleeper.awake with
    | none => ([], s)
    | some p =>
      match s.resume p with
      | (none, s) => settleWithin fuel s
      | (some r, s) =>
        let (replies, s) := settleWithin fuel s
        ((p.handle, r) :: replies, s)

def queued (s : System) : Nat := s.hubs.foldl (fun n h => n + h.1.queue.length) 0

/-- Every sleeper goes on once, and once more for each event that leaves a queue meanwhile. -/
def settleBound (s : System) : Nat := s.sleepers.length * (s.queued + 1) + 1

def settle (s : System) : List (Nat × Reply) × System :=
  let (replies, s) := settleWithin s.settleBound s
  (replies.mergeSort fun a b => a.1 ≤ b.1, s)

def isBusy (s : System) (channel : Nat) : Bool :=
  s.sleepers.any fun p =>
    match p.call with
    | .fetchFrom c _ _ => c == channel
    | .waitOnChannel c _ => c == channel
    | _ => false

end System
end EventHub
