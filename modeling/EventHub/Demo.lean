import EventHub.Config.Basic
import EventHub.System
set_option autoImplicit false

/-!
A demonstration: one producer posts events of three kinds into a hub, and two consumers take one kind each.
Nobody takes the third kind, so its events are dropped when a consumer comes upon them.
-/
namespace EventHub.Demo

inductive Error where
  | directory (directory : FileName)
  | channel (e : ChannelError)

def Error.message : Error → String
  | .directory d => s!"cannot create record dir {d}"
  | .channel e => ErrorCode.message e

structure Summary where
  received : List (String × List String)
  delivered : Nat
  dropped : Nat
  queued : Nat

def Summary.text (s : Summary) : String :=
  String.join (s.received.map fun (name, ids) => name ++ ": " ++ " ".intercalate ids ++ "\n")
    ++ s!"delivered={s.delivered} dropped={s.dropped} queued={s.queued}\n"

def channelConfig (config : Config) (name : String) (directory : Option FileName) : ChannelConfig :=
  let own := config.forChannel name
  match directory with
  | none => own
  | some d => { own with inputLog := d.join ⟨name ++ "-in.log"⟩, outputLog := d.join ⟨name ++ "-out.log"⟩ }

structure Consumer where
  name : String
  channel : Nat
  mask : Mask
  ids : List String
  finished : Bool
  failure : Option ChannelError

def literal (s : String) : MaskSegment := .literal s.toList

def below (lead : String) : Mask := ⟨lead ++ ".*", [literal lead, .one]⟩

def consumers : List (String × Mask) := [("alpha", below "a"), ("beta", below "b")]

def leads : List String := ["a", "b", "c"]

def abandon (s : System) (channel : Nat) : System :=
  match s.channels[channel]? with
  | none => s
  | some c => { s with files := c.recorder.drop s.files }

def finish (s : System) (c : Consumer) : Consumer × System :=
  match s.changeChannel c.channel Channel.close with
  | (.error e, s) => ({ c with finished := true, failure := some e }, s)
  | (.ok (), s) => ({ c with finished := true }, s)

def finishIfDone (expected : Nat) (s : System) (c : Consumer) : Consumer × System :=
  if c.ids.length < expected then (c, s) else finish s c

/-- What becomes of a consumer whose question was answered. If it is sent away it asks again. -/
def receive (expected : Nat) (s : System) (c : Consumer) : Reply → Consumer × System
  | .fetched (.delivered e) => finishIfDone expected s { c with ids := e.id.text :: c.ids }
  | .fetched (.pending .closed) => finish s c
  | .channelError e => ({ c with finished := true, failure := some e }, abandon s c.channel)
  | _ => (c, s)

def join (config : Config) (directory : Option FileName) (expected hub sink : Nat) (s : System)
    (name : String) (mask : Mask) : Except ChannelError Consumer × System :=
  let (channel, s) := s.addHubChannel name hub sink (.hub hub)
  match s.changeChannel channel fun c fs => c.init fs (channelConfig config name directory) with
  | (.error e, s) => (.error e, s)
  | (.ok (), s) =>
    let (c, s) := finishIfDone expected s ⟨name, channel, mask, [], false, none⟩
    (.ok c, s)

def eventOf (lead : String) (round : Nat) : Except PathError Event :=
  (Path.parse (lead ++ "." ++ toString round)).map fun id =>
    ⟨id, some (.object [("n", .int round)]), .data, none⟩

def script (events : Nat) : List Event :=
  (List.range events).flatMap fun round => leads.filterMap fun lead => (eventOf lead round).toOption

/-- What the producer does. The consumers are on their own once they have joined. -/
inductive Task where
  | addSink (mask : Mask)
  | join (name : String) (mask : Mask)
  | open
  | post (e : Event)
  | close

def tasks (events : Nat) : List Task :=
  consumers.flatMap (fun (name, mask) => [.addSink mask, .join name mask])
    ++ .open :: (script events).map .post ++ [.close]

structure Participant where
  consumer : Consumer
  asleep : Option Nat

/-- A demonstration under way: the sink that was made last, where the channel of the producer stands and what
it still has to do, and who has joined. It is over when the producer fails. -/
structure Stage where
  system : System
  hub : Nat
  sink : Nat
  producer : Nat
  tasks : List Task
  participants : List Participant
  failure : Option ChannelError

namespace Stage

def afterJoin (t : Stage) : Except ChannelError Consumer × System → Stage
  | (.error e, s) => { t with system := s, failure := some e }
  | (.ok c, s) => { t with system := s, participants := t.participants ++ [⟨c, none⟩] }

def after (t : Stage) : Except ChannelError Unit × System → Stage
  | (.error e, s) => { t with system := s, failure := some e }
  | (.ok (), s) => { t with system := s }

/-- A producer that cannot post drops its channel. -/
def afterPost (t : Stage) : Except ChannelError Unit × System → Stage
  | (.error e, s) => { t with system := abandon s t.producer, failure := some e }
  | (.ok (), s) => { t with system := s }

def work (config : Config) (directory : Option FileName) (expected : Nat) (t : Stage) : Task → Stage
  | .addSink mask =>
    let (sink, s) := t.system.addSink t.hub (.ofMask mask none)
    { t with system := s, sink := sink }
  | .join name mask => t.afterJoin (join config directory expected t.hub t.sink t.system name mask)
  | .open =>
    let (producer, s) := t.system.addChannel (.make "producer" (.plain (some (.hub t.hub))))
    { t with producer := producer }.after
      (s.changeChannel producer fun c fs => c.init fs (channelConfig config "producer" directory))
  | .post e => t.afterPost (t.system.post t.producer e)
  | .close => t.after (t.system.changeChannel t.producer Channel.close)

end Stage

/-- A consumer asks the hub, or goes on with its question if it was woken, and insists on its own event. -/
def Participant.ask (expected : Nat) (s : System) (p : Participant) : Participant × System :=
  if p.consumer.finished then (p, s)
  else
    match p.asleep with
    | none =>
      match s.start (.fetchFrom p.consumer.channel p.consumer.mask .block) with
      | (handle, .asleep _, s) => ({ p with asleep := some handle }, s)
      | (_, .returned r, s) =>
        let (c, s) := receive expected s p.consumer r
        (⟨c, none⟩, s)
    | some handle =>
      match s.wokenUnder handle with
      | none => (p, s)
      | some sleeper =>
        match s.resume sleeper with
        | (none, s) => (p, s)
        | (some r, s) =>
          let (c, s) := receive expected s p.consumer r
          (⟨c, none⟩, s)

inductive Turn where
  | producer
  | consumer (index : Nat)

namespace Stage

variable (config : Config) (directory : Option FileName) (expected : Nat)

def turn (t : Stage) : Turn → Stage
  | .producer =>
    match t.failure, t.tasks with
    | none, task :: tasks => { t with tasks := tasks }.work config directory expected task
    | _, _ => t
  | .consumer index =>
    match t.failure, t.participants[index]? with
    | none, some p =>
      let (p, s) := p.ask expected t.system
      { t with system := s, participants := t.participants.set index p }
    | _, _ => t

def turns (t : Stage) (schedule : List Turn) : Stage := schedule.foldl (turn config directory expected) t

end Stage

def opening (events : Nat) (files : FileSystem) : Stage :=
  let (flag, s) := (System.empty files).addFlag
  let (hub, s) := s.addHub "demo" flag
  ⟨s, hub, 0, 0, tasks events, [], none⟩

def summaryOf (hub : Nat) (s : System) (cs : List Consumer) : Except Error Summary :=
  match cs.findSome? Consumer.failure with
  | some e => .error (.channel e)
  | none =>
    let received := cs.map fun c => (c.name, c.ids.reverse)
    match s.hubs[hub]? with
    | none => .ok ⟨received, 0, 0, 0⟩
    | some (h, _) => .ok ⟨received, h.delivered, h.dropped, h.queue.length⟩

def Stage.summary (t : Stage) : Except Error Summary :=
  match t.failure with
  | some e => .error (.channel e)
  | none => summaryOf t.hub t.system (t.participants.map Participant.consumer)

/-- In every round the producer posts one event of each kind, and then each consumer asks once. What a
consumer receives does not depend on when it asks. -/
def schedule (events : Nat) : List Turn :=
  List.replicate (2 * consumers.length + 1) .producer
    ++ (List.range events).flatMap (fun _ =>
      List.replicate leads.length .producer ++ (List.range consumers.length).map .consumer)
    ++ [.producer]

def perform (config : Config) (events : Nat) (directory : Option FileName) (files : FileSystem) :
    Except Error Summary × FileSystem :=
  let t := (opening events files).turns config directory events (schedule events)
  (t.summary, t.system.files)

def run (config : Config) (events : Nat) (directory : Option FileName) (files : FileSystem) :
    Except Error Summary × FileSystem :=
  match directory with
  | none => perform config events none files
  | some d =>
    match files.makeDirectories d with
    | (.error _, files) => (.error (.directory d), files)
    | (.ok (), files) => perform config events (some d) files

end EventHub.Demo
