import EventHub.Proofs.Config.Layers
import EventHub.Proofs.Toml.Tidy
set_option autoImplicit false

/-!
Two files, one laid over the other, and what becomes of a key that the upper one writes down. What it sets away from
the standard value is what is loaded. But layers are laid over each other by their values, and a key that was written
at its standard value is then like one that was not written: what lies below shows through.
-/
namespace EventHub

open Toml (Item Fields)

/-- What comes of a value that is laid over another one. -/
structure LaidOver {α : Type} (standard lower upper result : α) : Prop where
  apart : upper ≠ standard → result = upper
  through : upper = standard → result = lower

/-- A setting in another form, such as the one in which it is written, is laid over like the setting itself. -/
theorem laidOver_overlaid {α β : Type} [DecidableEq α] {form : α → β} (hf : form.Injective)
    (standard lower upper : α) :
    LaidOver (form standard) (form lower) (form upper) (form (overlaid standard lower upper)) where
  apart h := by rw [overlaid, if_neg fun he => h (congrArg form he)]
  through h := by rw [overlaid, if_pos (hf h)]

namespace ChannelConfig

theorem eq_string_of_fileOfItem? {item : Item} {f : FileName} (h : fileOfItem? item = some f) :
    .string f.text = item := by
  cases item with
  | string text =>
    cases h
    rfl
  | _ => cases h

theorem eq_bool_of_boolOfItem? {item : Item} {b : Bool} (h : boolOfItem? item = some b) : .bool b = item := by
  cases item with
  | bool b =>
    cases h
    rfl
  | _ => cases h

theorem read_of_settingOf? {α : Type} {read : Item → Option α} {missing value : α} {found : Option Item}
    (h : settingOf? read missing found = some value) {item : Item} (hf : found = some item) :
    read item = some value := by
  rwa [hf] at h

inductive Setting where
  | inputLog
  | outputLog
  | deleteOnAbort
  deriving DecidableEq, Repr

namespace Setting

def key : Setting → String
  | inputLog => "record-input-file"
  | outputLog => "record-output-file"
  | deleteOnAbort => "delete-recordings-on-abort"

def of (c : ChannelConfig) : Setting → Item
  | inputLog => .string c.inputLog.text
  | outputLog => .string c.outputLog.text
  | deleteOnAbort => .bool c.deleteOnAbort

def standard (s : Setting) : Item := s.of .standard

theorem laidOver_overlay (s : Setting) (c upper : ChannelConfig) :
    LaidOver s.standard (s.of c) (s.of upper) (s.of (c.overlay upper)) := by
  have hlog : (fun f : FileName => Item.string f.text).Injective :=
    fun _ _ h => congrArg FileName.mk (Item.string.inj h)
  rw [overlay_eq]
  cases s with
  | inputLog => exact laidOver_overlaid hlog _ c.inputLog upper.inputLog
  | outputLog => exact laidOver_overlaid hlog _ c.outputLog upper.outputLog
  | deleteOnAbort => exact laidOver_overlaid (fun _ _ => Item.bool.inj) _ c.deleteOnAbort upper.deleteOnAbort

theorem of_ofItem? {s : Setting} {origin : Toml.Origin} {fields : Fields} {c : ChannelConfig} {item : Item}
    (h : ofItem? (.table origin fields) = some c) (hl : fields.lookup s.key = some item) : s.of c = item := by
  obtain ⟨input, hinput, h⟩ := Option.bind_eq_some_iff.1 h
  obtain ⟨output, houtput, h⟩ := Option.bind_eq_some_iff.1 h
  obtain ⟨delete, hdelete, h⟩ := Option.bind_eq_some_iff.1 h
  cases h
  cases s with
  | inputLog => exact eq_string_of_fileOfItem? (read_of_settingOf? hinput hl)
  | outputLog => exact eq_string_of_fileOfItem? (read_of_settingOf? houtput hl)
  | deleteOnAbort => exact eq_bool_of_boolOfItem? (read_of_settingOf? hdelete hl)

end Setting
end ChannelConfig

namespace Config

open ChannelConfig (Setting)

inductive Key where
  | debug
  | shared (setting : Setting)
  | own (name : String) (setting : Setting)
  deriving DecidableEq, Repr

def Key.standard : Key → Item
  | debug => .bool Config.standard.debug
  | shared setting | own _ setting => setting.standard

/-- None stands for a channel that has no settings of its own. -/
def at? (c : Config) : Key → Option Item
  | .debug => some (.bool c.debug)
  | .shared setting => some (setting.of c.channel)
  | .own name setting => (c.channels.lookup name).map setting.of

def tableAt? (fields : Fields) (key : String) : Option Fields :=
  match fields.lookup key with
  | some (.table _ inner) => some inner
  | _ => none

def writtenIn? (fields : Fields) : Key → Option Item
  | .debug => fields.lookup "debug"
  | .shared setting => (tableAt? fields "channel").bind fun inner => inner.lookup setting.key
  | .own name setting =>
    (tableAt? fields "channels").bind fun inner =>
      (tableAt? inner name).bind fun own => own.lookup setting.key

def written? (text : String) (key : Key) : Option Item := (Toml.ofText? text).bind fun fields => writtenIn? fields key

theorem written_eq_bool {text : String} {key : Key} {b : Bool}
    (h : (written? text key).bind ChannelConfig.boolOfItem? = some b) : written? text key = some (.bool b) := by
  obtain ⟨item, hw, hb⟩ := Option.bind_eq_some_iff.1 h
  rw [hw, ChannelConfig.eq_bool_of_boolOfItem? hb]

theorem written_eq_string {text : String} {key : Key} {f : FileName}
    (h : (written? text key).bind ChannelConfig.fileOfItem? = some f) : written? text key = some (.string f.text) := by
  obtain ⟨item, hw, hf⟩ := Option.bind_eq_some_iff.1 h
  rw [hw, ChannelConfig.eq_string_of_fileOfItem? hf]

theorem lookup_of_tableAt? {fields inner : Fields} {key : String} (h : tableAt? fields key = some inner) :
    ∃ origin, fields.lookup key = some (.table origin inner) := by
  rw [tableAt?] at h
  split at h
  · rename_i origin _ hl
    cases h
    exact ⟨origin, hl⟩
  · cases h

theorem lookup_channelsOfFields?_of_notMem {fields : Fields} {done channels : List (String × ChannelConfig)}
    (h : channelsOfFields? fields done = some channels) {name : String} (hn : name ∉ fields.map Prod.fst) :
    channels.lookup name = done.lookup name := by
  induction fields generalizing done with
  | nil =>
    cases h
    rfl
  | cons f fs ih =>
    obtain ⟨key, item⟩ := f
    rw [List.map_cons, List.mem_cons, not_or] at hn
    obtain ⟨c, -, h⟩ := Option.bind_eq_some_iff.1 h
    rw [ih h hn.2, Json.lookup_putField_of_ne c hn.1]

theorem lookup_channelsOfFields? {fields : Fields} {done channels : List (String × ChannelConfig)}
    (hk : (fields.map Prod.fst).Nodup) (h : channelsOfFields? fields done = some channels) {name : String}
    {item : Item} (hl : fields.lookup name = some item) :
    ∃ c, ChannelConfig.ofItem? item = some c ∧ channels.lookup name = some c := by
  induction fields generalizing done with
  | nil => cases hl
  | cons f fs ih =>
    obtain ⟨key, first⟩ := f
    rw [List.map_cons, List.nodup_cons] at hk
    obtain ⟨c, hc, hrest⟩ := Option.bind_eq_some_iff.1 h
    rw [List.lookup_cons] at hl
    by_cases hn : name = key
    · subst hn
      rw [beq_self_eq_true] at hl
      cases hl
      exact ⟨c, hc, by rw [lookup_channelsOfFields?_of_notMem hrest hk.1, Json.lookup_putField_self]⟩
    · rw [beq_eq_false_iff_ne.2 hn] at hl
      exact ih hk.2 hrest hl

theorem at?_ofToml? {text : String} {c : Config} (h : ofToml? text = some c) {key : Key} {item : Item}
    (hw : written? text key = some item) : c.at? key = some item := by
  obtain ⟨fields, hf, hw⟩ := Option.bind_eq_some_iff.1 hw
  have ht := Toml.tidy_ofText? hf
  rw [ofToml?, hf, Option.bind_some] at h
  obtain ⟨debug, hdebug, h⟩ := Option.bind_eq_some_iff.1 h
  obtain ⟨channel, hchannel, h⟩ := Option.bind_eq_some_iff.1 h
  obtain ⟨channels, hchannels, h⟩ := Option.bind_eq_some_iff.1 h
  cases h
  cases key with
  | debug => exact congrArg some (ChannelConfig.eq_bool_of_boolOfItem? (ChannelConfig.read_of_settingOf? hdebug hw))
  | shared setting =>
    obtain ⟨inner, hinner, hl⟩ := Option.bind_eq_some_iff.1 hw
    obtain ⟨origin, ho⟩ := lookup_of_tableAt? hinner
    have hread := ChannelConfig.read_of_settingOf? hchannel ho
    exact congrArg some (Setting.of_ofItem? hread hl)
  | own name setting =>
    obtain ⟨inner, hinner, hw⟩ := Option.bind_eq_some_iff.1 hw
    obtain ⟨own, hown, hl⟩ := Option.bind_eq_some_iff.1 hw
    obtain ⟨origin, ho⟩ := lookup_of_tableAt? hinner
    obtain ⟨origin', ho'⟩ := lookup_of_tableAt? hown
    have hread : channelsOfFields? inner [] = some channels := ChannelConfig.read_of_settingOf? hchannels ho
    -- the names of the channels are keys of one table, so none of them is read over another
    have hk := ((Toml.Fields.tidy_table_iff origin inner).1 (ht.lookup ho)).keys
    obtain ⟨c, hc, hlookup⟩ := lookup_channelsOfFields? hk hread ho'
    exact Option.map_eq_some_iff.2 ⟨c, hlookup, Setting.of_ofItem? hc hl⟩

theorem at?_overlay {upper : Config} (ho : upper.Ordered) (lower : Config) {key : Key} {item : Item}
    (hu : upper.at? key = some item) : ∃ result, (lower.overlay upper).at? key = some result ∧
      LaidOver key.standard ((lower.at? key).getD key.standard) item result := by
  cases key with
  | debug =>
    cases hu
    exact ⟨_, rfl, laidOver_overlaid (fun _ _ => Item.bool.inj) Config.standard.debug lower.debug upper.debug⟩
  | shared setting =>
    cases hu
    exact ⟨_, rfl, setting.laidOver_overlay lower.channel upper.channel⟩
  | own name setting =>
    obtain ⟨own, hl, rfl⟩ := Option.map_eq_some_iff.1 hu
    have hlower : (lower.at? (.own name setting)).getD (Key.own name setting).standard =
        setting.of ((lower.channels.lookup name).getD .standard) := by
      rw [at?]
      cases lower.channels.lookup name <;> rfl
    rw [hlower, at?, lookup_overlay ho, hl]
    exact ⟨_, rfl, setting.laidOver_overlay ((lower.channels.lookup name).getD .standard) own⟩

def sharedOnly (c : Config) : Config := { c with channels := [] }

theorem forChannel_eq (c : Config) (name : String) :
    c.forChannel name = (c.sharedOnly.forChannel name).overlay ((c.channels.lookup name).getD .standard) := by
  unfold forChannel
  cases c.channels.lookup name with
  | none => exact (ChannelConfig.standard_overlay _).symm
  | some own => rfl

theorem laidOver_forChannel {c : Config} {name : String} {setting : Setting} {item : Item}
    (h : c.at? (.own name setting) = some item) :
    LaidOver setting.standard (setting.of (c.sharedOnly.forChannel name)) item (setting.of (c.forChannel name)) := by
  obtain ⟨own, hl, rfl⟩ := Option.map_eq_some_iff.1 h
  rw [forChannel_eq c name, hl]
  exact setting.laidOver_overlay (c.sharedOnly.forChannel name) own

theorem isThere_of_read {fs : FileSystem} {f : FileName} {bytes : Bytes} (h : fs.read f = .ok bytes) :
    fs.isThere f = true := by
  unfold FileSystem.read at h
  cases hf : fs.find f with
  | error e =>
    rw [hf] at h
    cases h
  | ok node => simp [FileSystem.isThere, hf, Except.toOption]

theorem readFile_text {fs : FileSystem} {f : FileName} {text : String} (h : fs.read f = .ok (Text.toUtf8 text)) :
    readFile fs f = match ofToml? text with
      | none => .error (.parseFailed f)
      | some c => .ok c := by
  cases hc : ofToml? text with
  | none => simp [readFile, h, Text.ofUtf8?_toUtf8, hc]
  | some c => simp [readFile, h, Text.ofUtf8?_toUtf8, hc]

def knownVariables : List String :=
  ["EVMUX_DEBUG", "EVMUX_DELETE_RECORDINGS_ON_ABORT", "EVMUX_RECORD_INPUT_FILE", "EVMUX_RECORD_OUTPUT_FILE"]

theorem overlayEnvironment_of_unset {environment : Environment}
    (h : ∀ name ∈ knownVariables, environment.lookup name = none) (c : Config) :
    c.overlayEnvironment environment = .ok c := by
  simp only [knownVariables, List.forall_mem_cons] at h
  obtain ⟨hdebug, hdelete, hinput, houtput, -⟩ := h
  simp only [overlayEnvironment, boolVariable, fileVariable, hdebug, hdelete, hinput, houtput]
  rfl

/-- A global file and one that was asked for, both texts, and nothing said by the environment. -/
structure TwoTexts (fs : FileSystem) (s : Sources) (file : FileName) (below above : String) : Prop where
  global : s.skipGlobal = false
  asked : s.file = some file
  below : fs.read s.globalFile = .ok (Text.toUtf8 below)
  above : fs.read file = .ok (Text.toUtf8 above)
  unset : s.skipEnvironment = true ∨ ∀ name ∈ knownVariables, s.environment.lookup name = none

theorem load_twoTexts {fs : FileSystem} {s : Sources} {file : FileName} {below above : String}
    (h : TwoTexts fs s file below above) :
    load fs s = match ofToml? below with
      | none => .error (.parseFailed s.globalFile)
      | some lower =>
        match ofToml? above with
        | none => .error (.parseFailed file)
        | some upper => .ok (lower.overlay upper) := by
  have hlast (c : Config) :
      (if s.skipEnvironment then .ok c else c.overlayEnvironment s.environment) = .ok c := by
    rcases h.unset with hskip | hunset
    · rw [if_pos hskip]
    · rw [overlayEnvironment_of_unset hunset, ite_self]
  have hglobal : loadGlobal fs s = (readFile fs s.globalFile).map standard.overlay := by
    simp [loadGlobal, h.global, isThere_of_read h.below]
  simp only [load_eq, hlast, hglobal, loadFile, h.asked, readFile_text h.below, readFile_text h.above]
  cases hlower : ofToml? below with
  | none => rfl
  | some lower =>
    simp only [Except.map, Except.bind, overlay_standard (ordered_ofToml? hlower)]
    cases ofToml? above <;> rfl

/-- What is loaded over a configuration, by the keys that the text over it writes down. -/
structure Prevails (above : String) (lower c : Config) : Prop where
  apart : ∀ key item, written? above key = some item → item ≠ key.standard → c.at? key = some item
  standard : ∀ key item, written? above key = some item → item = key.standard →
    c.at? key = some ((lower.at? key).getD key.standard)
  used : ∀ name setting item, written? above (.own name setting) = some item → item ≠ setting.standard →
    setting.of (c.forChannel name) = item
  unused : ∀ name setting, c.at? (.own name setting) = some setting.standard →
    setting.of (c.forChannel name) = setting.of (c.sharedOnly.forChannel name)

theorem prevails_overlay {above : String} {upper : Config} (h : ofToml? above = some upper) (lower : Config) :
    Prevails above lower (lower.overlay upper) := by
  have hlaid {key : Key} {item : Item} (hw : written? above key = some item) :=
    at?_overlay (ordered_ofToml? h) lower (at?_ofToml? h hw)
  have hapart (key : Key) (item : Item) (hw : written? above key = some item) (hne : item ≠ key.standard) :
      (lower.overlay upper).at? key = some item := by
    obtain ⟨result, hr, hl⟩ := hlaid hw
    rw [hr, hl.apart hne]
  refine ⟨hapart, fun key item hw he => ?_, fun name setting item hw hne => ?_, fun name setting hc => ?_⟩
  · obtain ⟨result, hr, hl⟩ := hlaid hw
    rw [hr, hl.through he]
  · exact (laidOver_forChannel (hapart _ item hw hne)).apart hne
  · exact (laidOver_forChannel hc).through rfl

/-- Two texts are loaded if both can be read, and each key that the upper one writes down prevails, unless it is
written at its standard value. -/
theorem written_keys_prevail {fs : FileSystem} {s : Sources} {file : FileName} {below above : String}
    (h : TwoTexts fs s file below above) :
    (ofToml? below = none → load fs s = .error (.parseFailed s.globalFile)) ∧
      ∀ lower, ofToml? below = some lower →
        (ofToml? above = none → load fs s = .error (.parseFailed file)) ∧
          (ofToml? above ≠ none → ∃ c, load fs s = .ok c ∧ Prevails above lower c) := by
  refine ⟨fun hbelow => ?_, fun lower hlower => ⟨fun habove => ?_, fun habove => ?_⟩⟩
  · rw [load_twoTexts h, hbelow]
  · rw [load_twoTexts h, hlower, habove]
  · obtain ⟨upper, hupper⟩ := Option.ne_none_iff_exists'.1 habove
    exact ⟨lower.overlay upper, by rw [load_twoTexts h, hlower, hupper], prevails_overlay hupper lower⟩

def holdingTwo (below above : String) : FileSystem :=
  ⟨[([], .directory), (["g.toml"], .file 0), (["e.toml"], .file 1)], [Text.toUtf8 below, Text.toUtf8 above], [], []⟩

def askingForTwo : Sources := ⟨⟨"/"⟩, [], some ⟨"g.toml"⟩, some ⟨"e.toml"⟩, false, false⟩

theorem twoTexts_holdingTwo (below above : String) :
    TwoTexts (holdingTwo below above) askingForTwo ⟨"e.toml"⟩ below above :=
  ⟨rfl, rfl, rfl, rfl, .inr fun _ _ => rfl⟩

def belowText : String :=
  "debug = true\n[channel]\nrecord-input-file = \"in.log\"\ndelete-recordings-on-abort = false\n"

def aboveText : String :=
  "debug = false\n[channel]\nrecord-input-file = \"x.log\"\n[channels.a]\nrecord-output-file = \"a.log\"\n"

theorem written_keys_prevail_twoFiles :
    (∃ c, load (holdingTwo belowText aboveText) askingForTwo = .ok c ∧
        c.at? .debug = some (.bool true) ∧ c.at? (.shared .inputLog) = some (.string "x.log") ∧
        Setting.outputLog.of (c.forChannel "a") = .string "a.log") ∧
      load (holdingTwo "debug = 1\n" aboveText) askingForTwo = .error (.parseFailed ⟨"g.toml"⟩) ∧
      load (holdingTwo belowText "debug = 1\n") askingForTwo = .error (.parseFailed ⟨"e.toml"⟩) := by
  have hbelow : ofToml? belowText = some ⟨true, ⟨⟨"in.log"⟩, ⟨""⟩, false⟩, []⟩ := by decide +kernel
  have hno : ofToml? "debug = 1\n" = none := by decide +kernel
  have hdebug : written? aboveText .debug = some (.bool false) := written_eq_bool (by decide +kernel)
  have hinput : written? aboveText (.shared .inputLog) = some (.string "x.log") :=
    written_eq_string (f := ⟨"x.log"⟩) (by decide +kernel)
  have houtput : written? aboveText (.own "a" .outputLog) = some (.string "a.log") :=
    written_eq_string (f := ⟨"a.log"⟩) (by decide +kernel)
  have hother {text : String} (h : text ≠ "") : Item.string text ≠ .string "" := fun he => h (Item.string.inj he)
  have hload := (written_keys_prevail (twoTexts_holdingTwo belowText aboveText)).2 _ hbelow
  obtain ⟨c, hc, hp⟩ := hload.2 (by decide +kernel)
  refine ⟨⟨c, hc, hp.standard .debug _ hdebug rfl, hp.apart (.shared .inputLog) _ hinput (hother (by decide)),
    hp.used "a" .outputLog _ houtput (hother (by decide))⟩, ?_, ?_⟩
  · exact (written_keys_prevail (twoTexts_holdingTwo "debug = 1\n" aboveText)).1 hno
  · exact ((written_keys_prevail (twoTexts_holdingTwo belowText "debug = 1\n")).2 _ hbelow).1 hno

/-- What stands below shows through a standard value that is written over it, in the whole and for one channel. -/
theorem standard_values_give_way :
    written? "debug = false\n" .debug = some (.bool false) ∧
      (load (holdingTwo "debug = true\n" "debug = false\n") askingForTwo).map debug = .ok true ∧
      written? "[channels.a]\nrecord-input-file = \"\"\n" (.own "a" .inputLog) = some (.string "") ∧
      (load (holdingTwo "[channel]\nrecord-input-file = \"in.log\"\n"
          "[channels.a]\nrecord-input-file = \"\"\n") askingForTwo).map (fun c => (c.forChannel "a").inputLog) =
        .ok ⟨"in.a.log"⟩ := by
  refine ⟨written_eq_bool (by decide +kernel), ?_, written_eq_string (f := ⟨""⟩) (by decide +kernel), ?_⟩
  · rw [load_twoTexts (twoTexts_holdingTwo _ _)]
    decide +kernel
  · rw [load_twoTexts (twoTexts_holdingTwo _ _)]
    decide +kernel

end Config
end EventHub
