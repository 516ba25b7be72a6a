import EventHub.FileName
import EventHub.Json.Form
set_option autoImplicit false

namespace EventHub

/-- An empty name stands for no log. -/
structure ChannelConfig where
  inputLog : FileName
  outputLog : FileName
  deleteOnAbort : Bool
  deriving DecidableEq, Repr

namespace ChannelConfig

def standard : ChannelConfig := ⟨⟨""⟩, ⟨""⟩, true⟩

instance : Inhabited ChannelConfig := ⟨standard⟩

def logOf (f : FileName) : Option FileName := if f.isEmpty then none else some f

def input? (c : ChannelConfig) : Option FileName := logOf c.inputLog

def output? (c : ChannelConfig) : Option FileName := logOf c.outputLog

/-- The settings of `c`, except for those that `upper` sets to something else than the standard ones. -/
def overlay (c upper : ChannelConfig) : ChannelConfig where
  inputLog := if upper.inputLog.same standard.inputLog then c.inputLog else upper.inputLog
  outputLog := if upper.outputLog.same standard.outputLog then c.outputLog else upper.outputLog
  deleteOnAbort :=
    if upper.deleteOnAbort = standard.deleteOnAbort then c.deleteOnAbort else upper.deleteOnAbort

/-- Names of files count by their components. -/
def same (c d : ChannelConfig) : Bool :=
  c.inputLog.same d.inputLog && c.outputLog.same d.outputLog && c.deleteOnAbort == d.deleteOnAbort

def fieldNames : List String :=
  ["record-input-file", "record-output-file", "delete-recordings-on-abort"]

instance : Json.Form FileName := Json.Form.ofStrings (fun s => some ⟨s⟩) FileName.text

instance : Json.Form ChannelConfig where
  read? depth t :=
    match depth, Json.fieldTrees? fieldNames true t with
    | depth + 1, some [input, output, delete] => do
      some
        { inputLog := ← Json.defaulted? depth standard.inputLog input
          outputLog := ← Json.defaulted? depth standard.outputLog output
          deleteOnAbort := ← Json.defaulted? depth standard.deleteOnAbort delete }
    | _, _ => none
  value c := .object
    [("record-input-file", Json.Form.value c.inputLog), ("record-output-file", Json.Form.value c.outputLog),
     ("delete-recordings-on-abort", .bool c.deleteOnAbort)]

end ChannelConfig
end EventHub
