import EventHub.Channel.Config
set_option autoImplicit false

/-!
The configuration: settings that every channel starts from, and settings of single channels. Layers are
laid over each other, and what a layer leaves at its standard value shows what lies below.
-/
namespace EventHub

/-- The channels stand in the order of their names, each once. -/
structure Config where
  debug : Bool
  channel : ChannelConfig
  channels : List (String × ChannelConfig)
  deriving DecidableEq, Repr

namespace Config

def standard : Config := ⟨false, .standard, []⟩

instance : Inhabited Config := ⟨standard⟩

def overlayChannel (channels : List (String × ChannelConfig)) (upper : String × ChannelConfig) :
    List (String × ChannelConfig) :=
  Json.putField upper.1 (((channels.lookup upper.1).getD .standard).overlay upper.2) channels

def overlay (c upper : Config) : Config where
  debug := if upper.debug = standard.debug then c.debug else upper.debug
  channel := c.channel.overlay upper.channel
  channels := upper.channels.foldl overlayChannel c.channels

/-- The logs that all channels share get the name of the channel into their own, so that no two channels
write one file; a channel's own settings are taken as they are. -/
def forChannel (c : Config) (name : String) : ChannelConfig :=
  let qualify (log : FileName) : FileName := if log.isEmpty then log else log.qualified name
  let base : ChannelConfig :=
    { c.channel with
      inputLog := qualify c.channel.inputLog
      outputLog := qualify c.channel.outputLog }
  match c.channels.lookup name with
  | none => base
  | some own => base.overlay own

def sameChannels : List (String × ChannelConfig) → List (String × ChannelConfig) → Bool
  | [], [] => true
  | (j, a) :: as, (k, b) :: bs => j == k && a.same b && sameChannels as bs
  | _, _ => false

/-- Names of files count by their components. -/
def same (c d : Config) : Bool :=
  c.debug == d.debug && c.channel.same d.channel && sameChannels c.channels d.channels

def fieldNames : List String := ["debug", "channel", "channels"]

/-- Of two channels with one name the later stays. -/
def readChannels? (depth : Nat) :
    List (Option String × Json.Tree) → List (String × ChannelConfig) → Option (List (String × ChannelConfig))
  | [], done => some done
  | (key, t) :: fields, done =>
    key.bind fun k =>
      (Json.Form.read? depth t).bind fun c => readChannels? depth fields (Json.putField k c done)

def channelsOf? (depth : Nat) : Option Json.Tree → Option (List (String × ChannelConfig))
  | none => some []
  | some (.object fields) =>
    match depth with
    | 0 => none
    | depth + 1 => readChannels? depth fields []
  | some _ => none

instance : Json.Form Config where
  read? depth t :=
    match depth, Json.fieldTrees? fieldNames true t with
    | depth + 1, some [debug, channel, channels] => do
      some
        { debug := ← Json.defaulted? depth standard.debug debug
          channel := ← Json.defaulted? depth standard.channel channel
          channels := ← channelsOf? depth channels }
    | _, _ => none
  value c := .object
    [("debug", .bool c.debug), ("channel", Json.Form.value c.channel),
     ("channels", .object (c.channels.map fun (name, channel) => (name, Json.Form.value channel)))]

end Config
end EventHub
