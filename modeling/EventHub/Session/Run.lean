import EventHub.Recording.Log
import EventHub.Session.Command
set_option autoImplicit false

/-!
Sessions: a system whose parts have names, together with recorders and streams of their own. Giving a name
again lets go of what had it before; a call that sleeps keeps hold of what it is about.
-/
namespace EventHub

/-- With `calls` the handles of the calls that might have gone to sleep, each numbered by its place. -/
structure Session where
  system : System
  flags : List (String × Nat)
  hubs : List (String × Nat)
  channels : List (String × Nat)
  collectors : List (String × Nat)
  recorders : List (String × Recorder)
  streams : List (String × Stream)
  calls : List Nat

namespace Session

def empty (files : FileSystem) : Session := ⟨.empty files, [], [], [], [], [], [], []⟩

abbrev Result := Except SessionError Answer × Session

def name {α : Type} (key : String) (value : α) (names : List (String × α)) : List (String × α) :=
  (key, value) :: names.filter fun n => n.1 != key

def forget {α : Type} (key : String) (names : List (String × α)) : List (String × α) :=
  names.filter fun n => n.1 != key

def find {α : Type} (kind : Named) (key : String) (names : List (String × α)) : Except SessionError α :=
  match names.lookup key with
  | some a => .ok a
  | none => .error (.unknown kind)

def flagId (s : Session) (key : String) : Except SessionError Nat := find .flag key s.flags

def hubId (s : Session) (key : String) : Except SessionError Nat := find .hub key s.hubs

/-- Channels inside a sleeping call are out of reach. -/
def channelId (s : Session) (key : String) : Except SessionError Nat := do
  let id ← find .channel key s.channels
  if s.system.isBusy id then .error .busy else .ok id

def ownFlagName (hub : String) : String := "@" ++ hub

def path (text : String) : Except SessionError Path := (Path.parse text).mapError .path

def mask (text : String) : Except SessionError Mask := (Mask.parse text).mapError .path

def mode (text : String) : Except SessionError WaitMode := (WaitMode.parse text).mapError .waitMode

def event (text : EventText) : Except SessionError Event := text.read.mapError .path

def optionalPath : Option String → Except SessionError (Option Path)
  | none => .ok none
  | some text => (path text).map some

def sinkOf : SinkText → Except SessionError Sink
  | .mask text strip => do
    let m ← mask text
    let strip ← optionalPath strip
    .ok (.ofMask m strip)
  | .depth depth lead => do
    let lead ← optionalPath lead
    .ok (.ofDepth depth lead)

/-- Goes on if the first part succeeds; otherwise nothing has changed. -/
def tryThen {α : Type} (s : Session) (first : Except SessionError α) (next : α → Result) : Result :=
  match first with
  | .error e => (.error e, s)
  | .ok a => next a

def withSystem (s : Session) (system : System) : Session := { s with system := system }

def withFiles (s : Session) (files : FileSystem) : Session :=
  { s with system := { s.system with files := files } }

def ofReply : Reply → Except SessionError Answer
  | .done => .ok .ok
  | .fetched fetch => .ok (.fetched fetch)
  | .status status => .ok (.status status)
  | .flagError e => .error (.flag e)
  | .channelError e => .error (.channel e)

def numberOf (s : Session) (handle : Nat) : Nat := s.calls.idxOf handle

/-- A call that may not sleep gets no number. -/
def call (s : Session) (maySleep : Bool) (c : Call) : Result :=
  let (handle, progress, system) := s.system.start c
  let s := { s.withSystem system with calls := if maySleep then s.calls ++ [handle] else s.calls }
  match progress with
  | .returned r => (ofReply r, s)
  | .asleep _ => (.ok (.blocked (s.numberOf handle)), s)

def onChannel (s : Session) (key : String)
    (change : Channel → FileSystem → Except ChannelError Unit × Channel × FileSystem) : Result :=
  s.tryThen (s.channelId key) fun id =>
    match s.system.changeChannel id change with
    | (.error e, system) => (.error (.channel e), s.withSystem system)
    | (.ok (), system) => (.ok .ok, s.withSystem system)

def onRecorder (s : Session) (key : String)
    (change : Recorder → FileSystem → Except RecordingError Answer × Recorder × FileSystem) : Result :=
  s.tryThen (find .recorder key s.recorders) fun r =>
    let (result, r, files) := change r s.system.files
    (result.mapError .recording, { s.withFiles files with recorders := name key r s.recorders })

def okAfter (r : Except RecordingError Unit × Recorder × FileSystem) :
    Except RecordingError Answer × Recorder × FileSystem :=
  (r.1.map fun _ => .ok, r.2)

def onStream (s : Session) (key : String) (change : Stream → Result) : Result :=
  s.tryThen (find .stream key s.streams) change

def keepStream (s : Session) (key : String)
    (r : Except RecordingError Unit × Stream × FileSystem) (answer : Stream → Answer) : Result :=
  let (result, stream, files) := r
  let s := { s.withFiles files with streams := name key stream s.streams }
  match result with
  | .error e => (.error (.recording e), s)
  | .ok () => (.ok (answer stream), s)

def onFiles (s : Session) (r : Except OsError Unit × FileSystem) : Result :=
  (match r.1 with
   | .error e => .error (.files e)
   | .ok () => .ok .nothing,
   s.withFiles r.2)

def makeFlag (s : Session) (key : String) : Result :=
  let (id, system) := s.system.addFlag
  (.ok .nothing, { s.withSystem system with flags := name key id s.flags })

def makeHub (s : Session) (key : String) (flag : Option String) : Result :=
  match flag with
  | some flagKey =>
    s.tryThen (s.flagId flagKey) fun flag =>
      let (id, system) := s.system.addHub key flag
      (.ok (.bit ((system.hubs[id]?.map fun h => h.1.bit).getD 0)),
       { s.withSystem system with hubs := name key id s.hubs })
  | none =>
    let (flag, system) := s.system.addFlag
    let (id, system) := system.addHub key flag
    (.ok (.bit ((system.hubs[id]?.map fun h => h.1.bit).getD 0)),
     { s.withSystem system with
       hubs := name key id s.hubs
       flags := name (ownFlagName key) flag s.flags })

def outletOf (s : Session) : OutletText → Except SessionError (Outlet × Session)
  | .hub key => (s.hubId key).map fun id => (.hub id, s)
  | .collector key accepts =>
    let (id, system) := s.system.addCollector accepts
    .ok (.collector id, { s.withSystem system with collectors := name key id s.collectors })

def optionalOutletOf (s : Session) : Option OutletText → Except SessionError (Option Outlet × Session)
  | none => .ok (none, s)
  | some text => (s.outletOf text).map fun (outlet, s) => (some outlet, s)

/-- The outlet is made first, also for a bare channel, which never hands anything on to it. -/
def makeChannel (s : Session) (key : String) (kind : ChannelText) (outlet : Option OutletText) : Result :=
  s.tryThen (s.optionalOutletOf outlet) fun (outlet, s) =>
    match kind with
    | .plain =>
      let (id, system) := s.system.addChannel (.make key (.plain outlet))
      (.ok .nothing, { s.withSystem system with channels := name key id s.channels })
    | .bare =>
      let (id, system) := s.system.addChannel (.make key .bare)
      (.ok .nothing, { s.withSystem system with channels := name key id s.channels })
    | .ofHub hubKey sink =>
      s.tryThen (s.hubId hubKey) fun hub =>
        let (id, system) := s.system.addHubChannel key hub sink (outlet.getD (.hub hub))
        let hubName := (system.hubs[hub]?.map fun h => h.1.name).getD ""
        (.ok (.hubChannel sink hubName), { s.withSystem system with channels := name key id s.channels })

/-- The new stream is there before the one that had its name is let go. -/
def startStream (s : Session) (key : String) (file : FileName) (temporary : Bool) : Result :=
  match Stream.start s.system.files file temporary with
  | (.error e, files) => (.error (.recording e), s.withFiles files)
  | (.ok stream, files) =>
    let files := Recorder.dropOptional (s.streams.lookup key) files
    (.ok (.stream stream), { s.withFiles files with streams := name key stream s.streams })

def makeRecorder (s : Session) (key : String) : Result :=
  let files := ((s.recorders.lookup key).getD .idle).drop s.system.files
  (.ok .nothing, { s.withFiles files with recorders := name key .idle s.recorders })

def flagStateOf (f : Flag) : Answer :=
  .flagState f.isRaised f.sources.length f.asyncCount
    ((List.range (f.sources.length + 1)).map f.isBitRaised)

def perform (s : Session) : Command → Result
  | .makeFlag key => s.makeFlag key
  | .addSource key asynchronous =>
    s.tryThen (s.flagId key) fun id =>
      let (bit, system) := s.system.addSource id asynchronous
      (.ok (.source bit), s.withSystem system)
  | .raise key bit =>
    s.tryThen (s.flagId key) fun id => (.ok .nothing, s.withSystem (s.system.raise id bit))
  | .clear key bit =>
    s.tryThen (s.flagId key) fun id => (.ok .nothing, s.withSystem (s.system.clear id bit))
  | .flagState key => s.tryThen (s.flagId key) fun id => (.ok (flagStateOf (s.system.flagAt id)), s)
  | .waitForFlag key => s.tryThen (s.flagId key) fun id => s.call true (.waitForFlag id)
  | .makeHub key flag => s.makeHub key flag
  | .hubState key =>
    s.tryThen (s.hubId key) fun id =>
      match s.system.hubs[id]? with
      | none => (.ok .nothing, s)
      | some (h, _) => (.ok (.hubState h), s)
  | .addSink key text =>
    s.tryThen (s.hubId key) fun id =>
      s.tryThen (sinkOf text) fun sink =>
        let (index, system) := s.system.addSink id sink
        (.ok (.sink index), s.withSystem system)
  | .isBound key text =>
    s.tryThen (s.hubId key) fun id =>
      s.tryThen (path text) fun p =>
        (.ok (.yes ((s.system.hubs[id]?.map fun h => h.1.isBound p).getD false)), s)
  | .publish key text =>
    s.tryThen (s.hubId key) fun id =>
      s.tryThen (event text) fun e =>
        let (taken, system) := s.system.publish id e
        (.ok (.yes taken), s.withSystem system)
  | .notify key => s.tryThen (s.hubId key) fun id => (.ok .nothing, s.withSystem (s.system.notify id))
  | .stop key => s.tryThen (s.hubId key) fun id => (.ok .nothing, s.withSystem (s.system.stop id))
  | .ask key maskText modeText sink take =>
    s.tryThen (s.hubId key) fun id =>
      s.tryThen (mask maskText) fun m =>
        s.tryThen (mode modeText) fun w => s.call (w != .noWait) (.askHub id ⟨m, w, sink, take⟩)
  | .probe key maskText sink =>
    s.tryThen (s.hubId key) fun id =>
      s.tryThen (mask maskText) fun m =>
        let (status, system) := s.system.probe id m sink
        (.ok (.status status), s.withSystem system)
  | .makeChannel key kind outlet => s.makeChannel key kind outlet
  | .init key config => s.onChannel key fun c fs => c.init fs config
  | .close key => s.onChannel key Channel.close
  | .abort key => s.onChannel key Channel.abort
  | .flush key => s.onChannel key Channel.flush
  | .post key text =>
    s.tryThen (s.channelId key) fun id =>
      s.tryThen (event text) fun e =>
        match s.system.post id e with
        | (.error err, system) => (.error (.channel err), s.withSystem system)
        | (.ok (), system) => (.ok .ok, s.withSystem system)
  | .attach key flagKey asynchronous =>
    s.tryThen (s.channelId key) fun id =>
      s.tryThen (s.flagId flagKey) fun flag =>
        match s.system.attach id flag asynchronous with
        | (.error err, system) => (.error (.channel err), s.withSystem system)
        | (.ok bit, system) => (.ok (.bit bit), s.withSystem system)
  | .fetch key maskText modeText =>
    s.tryThen (s.channelId key) fun id =>
      s.tryThen (mask maskText) fun m =>
        s.tryThen (mode modeText) fun w => s.call (w != .noWait) (.fetchFrom id m w)
  | .waitOn key modeText =>
    s.tryThen (s.channelId key) fun id =>
      s.tryThen (mode modeText) fun w => s.call (w != .noWait) (.waitOnChannel id w)
  | .hasEvent key maskText =>
    s.tryThen (s.channelId key) fun id =>
      s.tryThen (mask maskText) fun m =>
        let (status, system) := s.system.hasEvent id m
        (.ok (.status status), s.withSystem system)
  | .isChannelBound key text =>
    s.tryThen (s.channelId key) fun id =>
      s.tryThen (path text) fun p => (.ok (.yes (s.system.isBound id p)), s)
  | .raiseOwn key =>
    s.tryThen (s.channelId key) fun id => (.ok .nothing, s.withSystem (s.system.raiseOwn id))
  | .clearOwn key =>
    s.tryThen (s.channelId key) fun id => (.ok .nothing, s.withSystem (s.system.clearOwn id))
  | .channelState key =>
    s.tryThen (s.channelId key) fun id =>
      match s.system.channels[id]? with
      | none => (.ok .nothing, s)
      | some c => (.ok (.channelState c (c.binding.map fun b => s.system.flagAt b.flag)), s)
  | .collected key =>
    s.tryThen (find .outlet key s.collectors) fun id =>
      (.ok (.events ((s.system.collectors[id]?.map Collector.events).getD [])), s)
  | .makeRecorder key => s.makeRecorder key
  | .startRecorder key config => s.onRecorder key fun r fs => okAfter (r.start fs config)
  | .recordInput key text =>
    s.tryThen (find .recorder key s.recorders) fun _ =>
      s.tryThen (event text) fun e => s.onRecorder key fun r fs => okAfter (r.recordInput fs e)
  | .recordOutput key text =>
    s.tryThen (find .recorder key s.recorders) fun _ =>
      s.tryThen (event text) fun e => s.onRecorder key fun r fs => okAfter (r.recordOutput fs e)
  | .flushRecorder key => s.onRecorder key fun r fs => okAfter (r.flush fs)
  | .finishRecorder key =>
    s.onRecorder key fun r fs =>
      let (result, rest) := r.finish fs
      (result.map .files, rest)
  | .discardRecorder key => s.onRecorder key fun r fs => okAfter (r.discard fs)
  | .recorderState key =>
    s.tryThen (find .recorder key s.recorders) fun r => (.ok (.recording r.isRecording), s)
  | .startStream key file temporary => s.startStream key file temporary
  | .append key text =>
    s.onStream key fun stream =>
      s.tryThen (event text) fun e =>
        s.keepStream key (stream.append s.system.files (.ofEvent e)) fun stream => .written stream.written
  | .streamWritten key => s.onStream key fun stream => (.ok (.written stream.written), s)
  | .flushStream key =>
    s.onStream key fun stream => s.keepStream key (stream.flush s.system.files) fun _ => .ok
  | .finishStream key =>
    s.onStream key fun stream =>
      let (result, files) := stream.finish s.system.files
      ((result.map .file).mapError .recording,
       { s.withFiles files with streams := forget key s.streams })
  | .discardStream key =>
    s.onStream key fun stream =>
      let (result, files) := stream.discard s.system.files
      ((result.map fun _ => .ok).mapError .recording,
       { s.withFiles files with streams := forget key s.streams })
  | .save file content => s.onFiles (s.system.files.save file content)
  | .makeDirectory file => s.onFiles (s.system.files.makeDirectories file)
  | .remove file => s.onFiles (s.system.files.removeAll file)
  | .list => (.ok (.names (s.system.files.entries.map Prod.fst)), s)
  | .tree => (.ok (.entries s.system.files.entries), s)
  | .read file =>
    match s.system.files.read file with
    | .error e => (.error (.files e), s)
    | .ok bytes => (.ok (.content bytes), s)
  | .readLog file =>
    match Log.read s.system.files file with
    | .error e => (.error (.recording e), s)
    | .ok records => (.ok (.records records), s)

/-- A channel that has no name any more and is in no sleeping call is closed, but its recordings are not
finished: they are let go of. -/
def releaseChannel (s : Session) (id : Nat) : Session :=
  match s.system.channels[id]? with
  | none => s
  | some c =>
    if c.isOpen && !(s.channels.any fun n => n.2 == id) && !s.system.isBusy id then
      s.withSystem
        { s.system with
          files := c.recorder.drop s.system.files
          channels := s.system.channels.set id { c with isOpen := false, recorder := .idle } }
    else s

def release (s : Session) : Session :=
  (List.range s.system.channels.length).foldl releaseChannel s

structure Outcome where
  result : Except SessionError Answer
  woke : List (Nat × Except SessionError Answer)

def run (s : Session) (c : Command) : Outcome × Session :=
  let (result, s) := s.perform c
  let (replies, system) := s.system.settle
  (⟨result, replies.map fun (handle, r) => (s.numberOf handle, ofReply r)⟩, (s.withSystem system).release)

def sleeping (s : Session) : List Nat := (s.system.sleepers.map fun p => s.numberOf p.handle).mergeSort

end Session
end EventHub
