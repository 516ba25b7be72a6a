import EventHub.Config.Basic
import EventHub.Toml.Document
import EventHub.Toml.Quoted
set_option autoImplicit false

namespace EventHub

open Toml (Item Fields)

def boolText (b : Bool) : List Char := if b then "true".toList else "false".toList

namespace ChannelConfig

def fileOfItem? : Item → Option FileName
  | .string s => some ⟨s⟩
  | _ => none

def boolOfItem? : Item → Option Bool
  | .bool b => some b
  | _ => none

def settingOf? {α : Type} (read : Item → Option α) (missing : α) : Option Item → Option α
  | none => some missing
  | some item => read item

def ofParts? (input output delete : Option Item) : Option ChannelConfig := do
  some
    { inputLog := ← settingOf? fileOfItem? standard.inputLog input
      outputLog := ← settingOf? fileOfItem? standard.outputLog output
      deleteOnAbort := ← settingOf? boolOfItem? standard.deleteOnAbort delete }

/-- The settings by their keys, or by position in an array, of which more is not read. A moment has parts
too, but none of these. -/
def ofItem? : Item → Option ChannelConfig
  | .table _ fields =>
    ofParts? (fields.lookup "record-input-file") (fields.lookup "record-output-file")
      (fields.lookup "delete-recordings-on-abort")
  | .array items => ofParts? items[0]? items[1]? items[2]?
  | .tables elements => if elements.isEmpty then some standard else none
  | .moment _ => some standard
  | _ => none

def tomlLines (c : ChannelConfig) : List Char :=
  "record-input-file = ".toList ++ Toml.quoted c.inputLog.text.toList
    ++ "\nrecord-output-file = ".toList ++ Toml.quoted c.outputLog.text.toList
    ++ "\ndelete-recordings-on-abort = ".toList ++ boolText c.deleteOnAbort ++ ['\n']

end ChannelConfig

namespace Config

def channelsOfFields? : Fields → List (String × ChannelConfig) → Option (List (String × ChannelConfig))
  | [], done => some done
  | (key, item) :: fields, done =>
    (ChannelConfig.ofItem? item).bind fun c => channelsOfFields? fields (Json.putField key c done)

def channelsOfItem? : Item → Option (List (String × ChannelConfig))
  | .table _ fields => channelsOfFields? fields []
  | _ => none

def ofFields? (fields : Fields) : Option Config := do
  some
    { debug := ← ChannelConfig.settingOf? ChannelConfig.boolOfItem? standard.debug (fields.lookup "debug")
      channel :=
        ← ChannelConfig.settingOf? ChannelConfig.ofItem? standard.channel (fields.lookup "channel")
      channels :=
        ← ChannelConfig.settingOf? channelsOfItem? standard.channels (fields.lookup "channels") }

def ofToml? (text : String) : Option Config := (Toml.ofText? text).bind ofFields?

def channelTables : List (String × ChannelConfig) → List Char
  | [] => "[channels]\n".toList
  | [(name, c)] => "[channels.".toList ++ Toml.quotedKey name.toList ++ "]\n".toList ++ c.tomlLines
  | (name, c) :: next :: rest =>
    "[channels.".toList ++ Toml.quotedKey name.toList ++ "]\n".toList ++ c.tomlLines
      ++ '\n' :: channelTables (next :: rest)

def toToml (c : Config) : String :=
  String.ofList ("debug = ".toList ++ boolText c.debug ++ "\n\n[channel]\n".toList
    ++ c.channel.tomlLines ++ '\n' :: channelTables c.channels)

end Config
end EventHub
