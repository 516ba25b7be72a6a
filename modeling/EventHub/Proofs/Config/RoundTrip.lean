import EventHub.CommandLine.Run
import EventHub.Proofs.Config.Text
import EventHub.Proofs.FileName
set_option autoImplicit false

namespace EventHub

open Toml (Fields)

namespace ChannelConfig

theorem overlay_standard (c : ChannelConfig) : standard.overlay c = c := by
  obtain ⟨input, output, delete⟩ := c
  have hname (f : FileName) : (if f.same standard.inputLog then standard.inputLog else f) = f :=
    ite_eq_right_iff.2 fun h => (FileName.eq_empty_of_same h).symm
  have hdelete : (if delete = standard.deleteOnAbort then standard.deleteOnAbort else delete) = delete :=
    ite_eq_right_iff.2 Eq.symm
  exact (mk.injEq ..).mpr ⟨hname input, hname output, hdelete⟩

end ChannelConfig

namespace Config

theorem ordered_standard : standard.Ordered := List.Pairwise.nil

theorem ordered_overlay {c : Config} (h : c.Ordered) (upper : Config) : (c.overlay upper).Ordered := by
  have hfold (channels done : List (String × ChannelConfig))
      (hd : (done.map Prod.fst).Pairwise fun j k => compare j k = .lt) :
      ((channels.foldl overlayChannel done).map Prod.fst).Pairwise fun j k => compare j k = .lt := by
    induction channels generalizing done with
    | nil => exact hd
    | cons p ps ih => exact ih _ (Json.pairwise_putField _ _ hd)
  exact hfold upper.channels c.channels h

/-- Channels that come after all others are put behind them as they are. -/
theorem foldl_overlayChannel {channels : List (String × ChannelConfig)}
    (h : (channels.map Prod.fst).Pairwise fun j k => compare j k = .lt) (done : List (String × ChannelConfig))
    (hd : ∀ p ∈ done, ∀ q ∈ channels, compare p.1 q.1 = .lt) :
    channels.foldl overlayChannel done = done ++ channels := by
  induction channels generalizing done with
  | nil => simp
  | cons p ps ih =>
    rw [List.map_cons, List.pairwise_cons] at h
    have hlt (q : String × ChannelConfig) (hq : q ∈ done) : compare q.1 p.1 = .lt := hd q hq p List.mem_cons_self
    have hnew : done.lookup p.1 = none := by
      rw [List.lookup_eq_none_iff]
      intro q hq
      have hself : compare p.1 p.1 = .eq := Std.ReflCmp.compare_self
      have hne : p.1 ≠ q.1 := by
        intro he
        have := hlt q hq
        rw [← he, hself] at this
        cases this
      simpa using hne
    have hput : overlayChannel done p = done ++ [p] := by
      rw [overlayChannel, hnew]
      exact (Json.putField_of_gt _ _ done hlt).trans (by rw [Option.getD_none, ChannelConfig.overlay_standard])
    have hnext := ih h.2 (done ++ [p]) (Json.lt_of_mem_concat hd h.1)
    rw [List.foldl_cons, hput, hnext, List.append_assoc, List.singleton_append]

theorem overlay_standard {c : Config} (h : c.Ordered) : standard.overlay c = c := by
  have hchannels := foldl_overlayChannel h [] (by simp)
  obtain ⟨debug, channel, channels⟩ := c
  have hdebug : (if debug = standard.debug then standard.debug else debug) = debug :=
    ite_eq_right_iff.2 Eq.symm
  exact (mk.injEq ..).mpr ⟨hdebug, channel.overlay_standard, hchannels⟩

theorem ordered_channelsOfFields? {fields : Fields} {done channels : List (String × ChannelConfig)}
    (h : channelsOfFields? fields done = some channels)
    (hd : (done.map Prod.fst).Pairwise fun j k => compare j k = .lt) :
    (channels.map Prod.fst).Pairwise fun j k => compare j k = .lt := by
  induction fields generalizing done with
  | nil =>
    cases h
    exact hd
  | cons f fs ih =>
    obtain ⟨c, -, h⟩ := Option.bind_eq_some_iff.1 h
    exact ih h (Json.pairwise_putField _ _ hd)

theorem ordered_ofToml? {text : String} {c : Config} (h : ofToml? text = some c) : c.Ordered := by
  obtain ⟨fields, -, h⟩ := Option.bind_eq_some_iff.1 h
  rw [ofFields?] at h
  obtain ⟨debug, -, h⟩ := Option.bind_eq_some_iff.1 h
  obtain ⟨channel, -, h⟩ := Option.bind_eq_some_iff.1 h
  obtain ⟨channels, hc, h⟩ := Option.bind_eq_some_iff.1 h
  cases h
  cases hl : fields.lookup "channels" with
  | none =>
    rw [hl] at hc
    cases hc
    exact ordered_standard
  | some item =>
    rw [hl] at hc
    cases item with
    | table origin inner => exact ordered_channelsOfFields? hc List.Pairwise.nil
    | _ => cases hc

theorem ordered_overlayEnvironment {c d : Config} {environment : Environment} (h : c.Ordered)
    (hd : c.overlayEnvironment environment = .ok d) : d.Ordered := by
  unfold overlayEnvironment at hd
  cases hdebug : boolVariable environment "EVMUX_DEBUG" c.debug with
  | error e =>
    rw [hdebug] at hd
    cases hd
  | ok debug =>
    cases hdelete : boolVariable environment "EVMUX_DELETE_RECORDINGS_ON_ABORT" c.channel.deleteOnAbort with
    | error e =>
      rw [hdebug, hdelete] at hd
      cases hd
    | ok delete =>
      rw [hdebug, hdelete] at hd
      cases hd
      exact h

theorem ordered_loadGlobal {fs : FileSystem} {s : Sources} {c : Config} (h : loadGlobal fs s = .ok c) :
    c.Ordered := by
  unfold loadGlobal at h
  split at h
  · cases h
    exact ordered_standard
  · cases hr : readFile fs s.globalFile with
    | error e =>
      rw [hr] at h
      cases h
    | ok d =>
      rw [hr] at h
      cases h
      exact ordered_overlay ordered_standard d

def loadFile (fs : FileSystem) (s : Sources) (c : Config) : Except ConfigError Config :=
  match s.file with
  | none => .ok c
  | some f => (readFile fs f).map c.overlay

theorem load_eq (fs : FileSystem) (s : Sources) :
    load fs s = (loadGlobal fs s).bind fun c => (loadFile fs s c).bind fun c =>
      if s.skipEnvironment then .ok c else c.overlayEnvironment s.environment := by
  unfold load loadFile
  cases s.file with
  | none => rfl
  | some f => rfl

theorem ordered_loadFile {fs : FileSystem} {s : Sources} {c d : Config} (h : c.Ordered)
    (hd : loadFile fs s c = .ok d) : d.Ordered := by
  unfold loadFile at hd
  split at hd
  · cases hd
    exact h
  · rename_i f _
    cases hr : readFile fs f with
    | error e =>
      rw [hr] at hd
      cases hd
    | ok upper =>
      rw [hr] at hd
      cases hd
      exact ordered_overlay h upper

theorem ordered_load {fs : FileSystem} {s : Sources} {c : Config} (h : load fs s = .ok c) : c.Ordered := by
  rw [load_eq] at h
  cases hg : loadGlobal fs s with
  | error e =>
    rw [hg] at h
    cases h
  | ok below =>
    rw [hg] at h
    cases hf : loadFile fs s below with
    | error e =>
      simp only [Except.bind, hf] at h
      cases h
    | ok d =>
      simp only [Except.bind, hf] at h
      have hd := ordered_loadFile (ordered_loadGlobal hg) hf
      split at h
      · cases h
        exact hd
      · exact ordered_overlayEnvironment hd h

/-- What a text that was written for this configuration is read as, by itself and as the one layer that is
loaded. -/
structure Returns (c : Config) : Prop where
  read : ofToml? c.toToml = some c
  load : ∀ (fs : FileSystem) (s : Sources) (f : FileName), s.file = some f → s.skipGlobal = true →
    s.skipEnvironment = true → fs.read f = .ok (Text.toUtf8 c.toToml) → load fs s = .ok c

theorem returns_of_ordered {c : Config} (h : c.Ordered) : c.Returns where
  read := ofToml?_toToml h
  load fs s f hf hg he hr := by
    have hread : readFile fs f = .ok c := by
      simp [readFile, hr, Text.ofUtf8?_toUtf8, ofToml?_toToml h]
    have hglobal : loadGlobal fs s = .ok standard := by simp [loadGlobal, hg]
    have hfile : loadFile fs s standard = .ok c := by
      simp [loadFile, hf, hread, Except.map, overlay_standard h]
    rw [load_eq, hglobal]
    simp [Except.bind, hfile, he]

theorem ordered_configOf {files : FileSystem} {environment : Environment} {home : FileName}
    {r : CommandLine.Request} {c : Config} (h : CommandLine.configOf files environment home r = .ok c) :
    c.Ordered := by
  unfold CommandLine.configOf at h
  cases hl : load files (CommandLine.sources environment home r) with
  | error e =>
    rw [hl] at h
    cases h
  | ok d =>
    rw [hl] at h
    cases h
    have hd := ordered_load hl
    split
    · exact hd
    · exact hd

/-- Every configuration comes back from its text, and what is printed as the configuration that is in force
is such a text. -/
theorem toml_round_trip :
    (∀ c : Config, c.Ordered → c.Returns) ∧
      ∀ (files : FileSystem) (environment : Environment) (home : FileName) (r : CommandLine.Request)
        (text : String), r.command = .config →
        (CommandLine.perform files environment home r).1 = .printed text →
          ∃ c, CommandLine.configOf files environment home r = .ok c ∧ text = c.toToml ∧ c.Returns := by
  refine ⟨fun c h => returns_of_ordered h, fun files environment home r text hr hp => ?_⟩
  unfold CommandLine.perform at hp
  cases hc : CommandLine.configOf files environment home r with
  | error e =>
    rw [hc] at hp
    cases hp
  | ok c =>
    rw [hc] at hp
    dsimp only at hp
    rw [hr] at hp
    cases hp
    exact ⟨c, rfl, rfl, returns_of_ordered (ordered_configOf hc)⟩

/-- Names and paths that take every quoting there is. -/
def knotty : Config where
  debug := true
  channel := ⟨⟨"it\x27s \"in\" C:\\x\nand\ton"⟩, ⟨"\x27\x27\x27 \"\"\" \\ \x01\x7f"⟩, false⟩
  channels :=
    [("", .standard), ("a.b", ⟨⟨"say \"a\"\n"⟩, ⟨"plain"⟩, true⟩),
     ("it\x27s \"b\"\n\x02", ⟨⟨"c:\\d"⟩, ⟨"it\x27s c"⟩, false⟩)]

def holding (bytes : Bytes) : FileSystem := ⟨[([], .directory), (["c.toml"], .file 0)], [bytes], [], []⟩

theorem read_holding (bytes : Bytes) : (holding bytes).read ⟨"c.toml"⟩ = .ok bytes := by
  rfl

theorem toml_round_trip_knotty :
    ofToml? knotty.toToml = some knotty ∧
      load (holding (Text.toUtf8 knotty.toToml)) ⟨⟨"/"⟩, [], none, some ⟨"c.toml"⟩, true, true⟩ = .ok knotty ∧
      (CommandLine.perform (holding []) [("EVMUX_DEBUG", "on")] ⟨"/"⟩ ⟨false, false, none, true, .config⟩).1 =
        .printed { standard with debug := true }.toToml ∧
      { standard with debug := true }.Returns := by
  have h := toml_round_trip.1 knotty (by decide)
  refine ⟨h.read, h.load _ _ _ rfl rfl rfl (read_holding _), rfl, ?_⟩
  obtain ⟨c, hc, -, hr⟩ := toml_round_trip.2 (holding []) [("EVMUX_DEBUG", "on")] ⟨"/"⟩
    ⟨false, false, none, true, .config⟩ _ rfl rfl
  cases hc
  exact hr

end Config
end EventHub
