import EventHub.System
set_option autoImplicit false

namespace EventHub

/-- An event whose paths were not read yet. -/
structure EventText where
  id : String
  category : Category
  payload : Option Json.Value
  address : Option String

def EventText.read (e : EventText) : Except PathError Event := do
  let id ← Path.parse e.id
  let address ← match e.address with
    | none => .ok none
    | some a => (Path.parse a).map some
  .ok ⟨id, e.payload, e.category, address⟩

inductive OutletText where
  | hub (name : String)
  | collector (name : String) (accepts : Bool)

inductive ChannelText where
  | plain
  | bare
  | ofHub (hub : String) (sink : Nat)

inductive SinkText where
  | mask (mask : String) (strip : Option String)
  | depth (depth : Nat) (lead : Option String)

inductive Command where
  -- flags
  | makeFlag (flag : String)
  | addSource (flag : String) (asynchronous : Bool)
  | raise (flag : String) (bit : Nat)
  | clear (flag : String) (bit : Nat)
  | flagState (flag : String)
  | waitForFlag (flag : String)
  -- hubs
  | makeHub (hub : String) (flag : Option String)
  | hubState (hub : String)
  | addSink (hub : String) (sink : SinkText)
  | isBound (hub id : String)
  | publish (hub : String) (event : EventText)
  | notify (hub : String)
  | stop (hub : String)
  | ask (hub mask mode : String) (sink : Nat) (take : Bool)
  | probe (hub mask : String) (sink : Nat)
  -- channels
  | makeChannel (channel : String) (kind : ChannelText) (outlet : Option OutletText)
  | init (channel : String) (config : ChannelConfig)
  | close (channel : String)
  | abort (channel : String)
  | flush (channel : String)
  | post (channel : String) (event : EventText)
  | attach (channel flag : String) (asynchronous : Bool)
  | fetch (channel mask mode : String)
  | waitOn (channel mode : String)
  | hasEvent (channel mask : String)
  | isChannelBound (channel id : String)
  | raiseOwn (channel : String)
  | clearOwn (channel : String)
  | channelState (channel : String)
  | collected (outlet : String)
  -- recorders and streams
  | makeRecorder (recorder : String)
  | startRecorder (recorder : String) (config : ChannelConfig)
  | recordInput (recorder : String) (event : EventText)
  | recordOutput (recorder : String) (event : EventText)
  | flushRecorder (recorder : String)
  | finishRecorder (recorder : String)
  | discardRecorder (recorder : String)
  | recorderState (recorder : String)
  | startStream (stream : String) (file : FileName) (temporary : Bool)
  | append (stream : String) (event : EventText)
  | streamWritten (stream : String)
  | flushStream (stream : String)
  | finishStream (stream : String)
  | discardStream (stream : String)
  -- files
  | save (file : FileName) (content : Bytes)
  | makeDirectory (file : FileName)
  | remove (file : FileName)
  | list
  | tree
  | read (file : FileName)
  | readLog (file : FileName)

/-- `blocked` is the answer of a call that went to sleep. -/
inductive Answer where
  | nothing
  | ok
  | yes (b : Bool)
  | bit (bit : Nat)
  | source (bit : Nat)
  | flagState (raised : Bool) (sources asynchronous : Nat) (bits : List Bool)
  | sink (index : Nat)
  | hubState (hub : Hub)
  | fetched (fetch : Fetch)
  | status (s : Status)
  | hubChannel (sink : Nat) (hub : String)
  | channelState (channel : Channel) (flag : Option Flag)
  | events (events : List Event)
  | file (file : FileName)
  | files (files : List FileName)
  | recording (b : Bool)
  | stream (stream : Stream)
  | written (count : Nat)
  | names (names : List String)
  | entries (entries : List (String × Option Bytes))
  | content (content : Bytes)
  | records (records : List Record)
  | blocked (handle : Nat)

inductive Named where
  | flag
  | hub
  | channel
  | outlet
  | recorder
  | stream
  deriving DecidableEq, Repr

inductive SessionError where
  | unknown (kind : Named)
  | busy
  | path (e : PathError)
  | waitMode (low : String)
  | flag (e : FlagError)
  | channel (e : ChannelError)
  | recording (e : RecordingError)
  | files (e : OsError)

end EventHub
