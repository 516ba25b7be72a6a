import EventHub.Config.Toml
import EventHub.Proofs.Json.Kept
import EventHub.Proofs.Toml.Document
set_option autoImplicit false

namespace EventHub

open Toml (Item Fields Statement Reads Written)
open Toml.Draft (pairLines sectionLines tablesOf withSections)

theorem written_boolText (b : Bool) : Written (boolText b) (.bool b) := by
  cases b with
  | true =>
    refine ⟨fun rest => Toml.skipGaps_cons rfl _, fun rest => ?_⟩
    simp [boolText, Toml.readValue, Toml.readItem]
  | false =>
    refine ⟨fun rest => Toml.skipGaps_cons rfl _, fun rest => ?_⟩
    simp [boolText, Toml.readValue, Toml.readItem]

namespace ChannelConfig

def fields (c : ChannelConfig) : Fields :=
  [("record-input-file", .string c.inputLog.text), ("record-output-file", .string c.outputLog.text),
   ("delete-recordings-on-abort", .bool c.deleteOnAbort)]

theorem ofItem?_fields (c : ChannelConfig) (origin : Toml.Origin) : ofItem? (.table origin c.fields) = some c := by
  rfl

theorem nodup_fields (c : ChannelConfig) : (c.fields.map Prod.fst).Nodup := by
  simp [fields]

theorem tomlLines_append (c : ChannelConfig) (rest : List Char) :
    c.tomlLines ++ rest =
      "record-input-file".toList ++ ' ' :: '=' :: ' ' :: (Toml.quoted c.inputLog.text.toList ++ '\n' ::
        ("record-output-file".toList ++ ' ' :: '=' :: ' ' :: (Toml.quoted c.outputLog.text.toList ++ '\n' ::
          ("delete-recordings-on-abort".toList ++ ' ' :: '=' :: ' ' ::
            (boolText c.deleteOnAbort ++ '\n' :: rest))))) := by
  have hinput : "record-input-file = ".toList = "record-input-file".toList ++ [' ', '=', ' '] := by simp
  have houtput : "\nrecord-output-file = ".toList = '\n' :: "record-output-file".toList ++ [' ', '=', ' '] := by
    simp
  have hdelete : "\ndelete-recordings-on-abort = ".toList =
      '\n' :: "delete-recordings-on-abort".toList ++ [' ', '=', ' '] := by simp
  unfold tomlLines
  rw [hinput, houtput, hdelete]
  simp only [List.append_assoc, List.cons_append, List.nil_append]

theorem reads_tomlLines (c : ChannelConfig) {rest : List Char} {statements : List Statement}
    (h : Reads rest statements) : Reads (c.tomlLines ++ rest) (pairLines c.fields ++ statements) := by
  have hdelete := h.pair (written_boolText c.deleteOnAbort)
    (show Toml.isBareKey "delete-recordings-on-abort".toList = true by decide)
  have houtput := hdelete.pair (Toml.written_quoted c.outputLog.text)
    (show Toml.isBareKey "record-output-file".toList = true by decide)
  have hinput := houtput.pair (Toml.written_quoted c.inputLog.text)
    (show Toml.isBareKey "record-input-file".toList = true by decide)
  rw [tomlLines_append]
  exact hinput

end ChannelConfig

namespace Config

/-- The channels as a map has them: in the order of their names, each once. -/
def Ordered (c : Config) : Prop := (c.channels.map Prod.fst).Pairwise fun j k => compare j k = .lt

instance (c : Config) : Decidable c.Ordered :=
  inferInstanceAs (Decidable ((c.channels.map Prod.fst).Pairwise fun j k => compare j k = .lt))

def sections (channels : List (String × ChannelConfig)) : List (String × Fields) :=
  channels.map fun p => (p.1, p.2.fields)

/-- The lines of the channels. Without channels there is a header for all of them. -/
def channelLines (channels : List (String × ChannelConfig)) : List Statement :=
  if channels.isEmpty then [.table ["channels"]] else sectionLines "channels" (sections channels)

theorem reads_channelHeader (name : String) {rest : List Char} {statements : List Statement}
    (h : Reads rest statements) :
    Reads ("[channels.".toList ++ Toml.quotedKey name.toList ++ "]\n".toList ++ rest)
      (.table ["channels", name] :: statements) := by
  have hheader := h.header (List.cons_ne_nil "channels" [name]) (by simp [Toml.depthLimit])
  have hopen : "[channels.".toList = '[' :: ("channels".toList ++ ['.']) := by simp
  have hclose : "]\n".toList = [']', '\n'] := by simp
  rw [Toml.dottedKey_cons_cons,
    Toml.quotedKey_of_isBareKey (show Toml.isBareKey "channels".toList = true by decide)] at hheader
  rw [hopen, hclose]
  simp only [List.append_assoc, List.cons_append, List.nil_append] at hheader ⊢
  exact hheader

theorem channelTables_nil : channelTables [] = "[channels]\n".toList := rfl

theorem channelTables_singleton (name : String) (c : ChannelConfig) :
    channelTables [(name, c)] =
      "[channels.".toList ++ Toml.quotedKey name.toList ++ "]\n".toList ++ c.tomlLines := rfl

theorem channelTables_cons_cons (name : String) (c : ChannelConfig) (next : String × ChannelConfig)
    (rest : List (String × ChannelConfig)) :
    channelTables ((name, c) :: next :: rest) =
      "[channels.".toList ++ Toml.quotedKey name.toList ++ "]\n".toList ++ c.tomlLines
        ++ '\n' :: channelTables (next :: rest) := rfl

theorem reads_noChannels : Reads (channelTables []) (channelLines []) := by
  have hheader := Toml.reads_nil.header (List.cons_ne_nil "channels" []) (by simp [Toml.depthLimit])
  have hline : "[channels]\n".toList = '[' :: ("channels".toList ++ [']', '\n']) := by simp
  rw [Toml.dottedKey_singleton,
    Toml.quotedKey_of_isBareKey (show Toml.isBareKey "channels".toList = true by decide)] at hheader
  rw [channelTables_nil, hline]
  exact hheader

theorem reads_channelTables (channels : List (String × ChannelConfig)) :
    Reads (channelTables channels) (channelLines channels) := by
  match channels with
  | [] => exact reads_noChannels
  | [(name, c)] =>
    have h := reads_channelHeader name (c.reads_tomlLines Toml.reads_nil)
    rw [List.append_nil] at h
    rw [channelTables_singleton]
    exact h
  | (name, c) :: next :: rest =>
    have h := reads_channelHeader name (c.reads_tomlLines (reads_channelTables (next :: rest)).newline)
    rw [← List.append_assoc] at h
    rw [channelTables_cons_cons]
    exact h

def lines (c : Config) : List Statement :=
  .pair ["debug"] (.bool c.debug) :: .table ["channel"] ::
    (pairLines c.channel.fields ++ channelLines c.channels)

theorem toList_toToml (c : Config) :
    c.toToml.toList = "debug".toList ++ ' ' :: '=' :: ' ' :: (boolText c.debug ++ '\n' :: '\n' ::
      '[' :: ("channel".toList ++ ']' :: '\n' :: (c.channel.tomlLines ++ '\n' :: channelTables c.channels))) := by
  have hdebug : "debug = ".toList = "debug".toList ++ [' ', '=', ' '] := by simp
  have hchannel : "\n\n[channel]\n".toList = '\n' :: '\n' :: '[' :: ("channel".toList ++ [']', '\n']) := by simp
  unfold toToml
  rw [String.toList_ofList, hdebug, hchannel]
  simp only [List.append_assoc, List.cons_append, List.nil_append]

theorem reads_toToml (c : Config) : Reads c.toToml.toList c.lines := by
  have hsettings := c.channel.reads_tomlLines (reads_channelTables c.channels).newline
  have hheader := hsettings.header (List.cons_ne_nil "channel" []) (by simp [Toml.depthLimit])
  rw [Toml.dottedKey_singleton,
    Toml.quotedKey_of_isBareKey (show Toml.isBareKey "channel".toList = true by decide)] at hheader
  have hdebug := hheader.newline.pair (written_boolText c.debug)
    (show Toml.isBareKey "debug".toList = true by decide)
  rw [toList_toToml]
  exact hdebug

def tree (c : Config) : Fields :=
  [("debug", .bool c.debug), ("channel", .table .header c.channel.fields),
   ("channels", .table (if c.channels.isEmpty then .header else .implied) (tablesOf (sections c.channels)))]

theorem nodup_of_ordered {c : Config} (h : c.Ordered) : ((sections c.channels).map Prod.fst).Nodup := by
  have hmap : (sections c.channels).map Prod.fst = c.channels.map Prod.fst := by simp [sections]
  rw [hmap]
  refine h.imp fun {j k} hlt he => ?_
  subst he
  have hself : compare j j = .eq := Std.ReflCmp.compare_self
  rw [hself] at hlt
  cases hlt

theorem add_channelLines {c : Config} (h : c.Ordered) (path : List String) :
    ((channelLines c.channels).foldlM Toml.Draft.add
      ⟨[("debug", .bool c.debug), ("channel", .table .header c.channel.fields)], path⟩).map
        Toml.Draft.fields = some c.tree := by
  have hnew : "channels" ∉ [("debug", Item.bool c.debug),
      ("channel", .table .header c.channel.fields)].map Prod.fst := by simp
  cases hc : c.channels with
  | nil =>
    simp [channelLines, Toml.Draft.add_header hnew, tree, hc, tablesOf, sections]
  | cons p ps =>
    have hfields : ∀ s ∈ sections c.channels, (s.2.map Prod.fst).Nodup := by
      intro s hs
      obtain ⟨q, -, rfl⟩ := List.mem_map.1 hs
      exact q.2.nodup_fields
    have hadd := @Toml.Draft.add_sectionLines _ _ hnew [] _ (nodup_of_ordered h) hfields path
    rw [hc] at hadd
    simpa [channelLines, tree, hc, withSections, sections] using hadd

theorem fieldsOf?_lines {c : Config} (h : c.Ordered) : Toml.fieldsOf? c.lines = some c.tree := by
  have hdebug : (pairLines [("debug", .bool c.debug)]).foldlM Toml.Draft.add Toml.Draft.empty =
      some ⟨[("debug", .bool c.debug)], []⟩ := Toml.Draft.add_pairLines Toml.Draft.focus_top (by simp)
  have hnew : "channel" ∉ [("debug", Item.bool c.debug)].map Prod.fst := by simp
  have hsettings := @Toml.Draft.add_pairLines _ _ (Toml.Draft.focus_table hnew) [] c.channel.fields
    c.channel.nodup_fields
  have hparts : c.lines = pairLines [("debug", .bool c.debug)] ++
      (.table ["channel"] :: (pairLines c.channel.fields ++ channelLines c.channels)) := rfl
  have hrest := add_channelLines h ["channel"]
  rw [Toml.fieldsOf?, hparts, List.foldlM_append, hdebug, Option.bind_eq_bind, Option.bind_some,
    List.foldlM_cons, Toml.Draft.add_header hnew, Option.bind_eq_bind, Option.bind_some,
    List.foldlM_append, hsettings]
  exact hrest

theorem channelsOfFields?_tablesOf {channels : List (String × ChannelConfig)}
    (h : (channels.map Prod.fst).Pairwise fun j k => compare j k = .lt) (done : List (String × ChannelConfig))
    (hd : ∀ p ∈ done, ∀ q ∈ channels, compare p.1 q.1 = .lt) :
    channelsOfFields? (tablesOf (sections channels)) done = some (done ++ channels) := by
  induction channels generalizing done with
  | nil => simp [tablesOf, sections, channelsOfFields?]
  | cons p ps ih =>
    obtain ⟨name, c⟩ := p
    rw [List.map_cons, List.pairwise_cons] at h
    have hput := Json.putField_of_gt name c done fun q hq => hd q hq (name, c) List.mem_cons_self
    have hnext := ih h.2 (done ++ [(name, c)]) (Json.lt_of_mem_concat hd h.1)
    rw [List.append_assoc, List.singleton_append] at hnext
    change (ChannelConfig.ofItem? (.table .header c.fields)).bind _ = _
    rw [c.ofItem?_fields, Option.bind_some, hput]
    exact hnext

theorem ofFields?_tree {c : Config} (h : c.Ordered) : ofFields? c.tree = some c := by
  have hdebug : c.tree.lookup "debug" = some (.bool c.debug) := by simp [tree]
  have hchannel : c.tree.lookup "channel" = some (.table .header c.channel.fields) := by
    simp [tree, List.lookup_cons]
  have hchannels : c.tree.lookup "channels" = some (.table (if c.channels.isEmpty then .header else .implied)
      (tablesOf (sections c.channels))) := by simp [tree, List.lookup_cons]
  have hread := channelsOfFields?_tablesOf h [] (by simp)
  rw [ofFields?, hdebug, hchannel, hchannels]
  simp [ChannelConfig.settingOf?, ChannelConfig.boolOfItem?, c.channel.ofItem?_fields, channelsOfItem?, hread]

theorem ofToml?_toToml {c : Config} (h : c.Ordered) : ofToml? c.toToml = some c := by
  have hmark : Toml.dropMark c.toToml.toList = c.toToml.toList := by
    rw [toList_toToml]
    rfl
  rw [ofToml?, Toml.ofText?, hmark, reads_toToml c _ (Nat.lt_succ_self _), Option.bind_some, fieldsOf?_lines h,
    Option.bind_some, ofFields?_tree h]

end Config
end EventHub
