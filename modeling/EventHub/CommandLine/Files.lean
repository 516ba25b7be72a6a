import EventHub.CommandLine.Run
set_option autoImplicit false

namespace EventHub.CommandLine

def configFiles (home : FileName) (r : Request) : List FileName := Config.homeFile home :: r.config.toList

def logFiles (c : ChannelConfig) : List FileName :=
  [c.inputLog, c.outputLog].flatMap fun f => if f.isEmpty then [] else [f, Stream.temporaryName f]

/-- The files that a command reads and writes under a configuration. -/
def commandFiles (config : Config) : Command → List FileName
  | .dump log _ => [log]
  | .config => []
  | .demo _ directory =>
    directory.toList ++ (["alpha", "beta", "producer"].flatMap fun name =>
      logFiles (Demo.channelConfig config name directory))

def waysTo (f : FileName) : List FileName :=
  let pieces := f.pieces
  (List.range pieces.length).filterMap fun n =>
    let way : FileName := ⟨String.ofList (Text.join '/' (pieces.take (n + 1)))⟩
    if way.isEmpty then none else some way

/-- What has to be done to files for them to become as they are after a run. -/
inductive Repair where
  | directory (name : String)
  | write (name : String) (content : Bytes)
  | remove (name : String)

def absoluteName (place : Place) : String := "/" ++ "/".intercalate place

def repairs (before after : FileSystem) : List Repair :=
  let kept := after.nodes.reverse.filterMap fun (place, node) =>
    match node with
    | .directory =>
      if before.nodeAt? place = some .directory then none else some (.directory (absoluteName place))
    | .file id =>
      let unchanged := match before.nodeAt? place with
        | some (.file old) => before.content old == after.content id
        | _ => false
      if unchanged then none else some (.write (absoluteName place) (after.content id))
    | .device _ => none
  let gone := before.nodes.filterMap fun (place, _) =>
    if (after.nodeAt? place).isSome then none else some (.remove (absoluteName place))
  kept ++ gone

end EventHub.CommandLine
