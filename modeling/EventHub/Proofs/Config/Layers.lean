import EventHub.Proofs.Config.RoundTrip
set_option autoImplicit false

/-!
What comes of many layers. Every setting is the topmost one that is not the standard one, below what the environment
says; the channels are those of all layers. Layers that lie next to each other can be laid together first.
-/
namespace EventHub

section

variable {α : Type} [DecidableEq α]

/-- A setting with another one over it, which counts unless it is the standard one. -/
def overlaid (standard lower upper : α) : α := if upper = standard then lower else upper

def topmost (standard : α) (settings : List α) : α := (settings.filter (· ≠ standard)).getLastD standard

theorem overlaid_assoc (standard a b c : α) :
    overlaid standard (overlaid standard a b) c = overlaid standard a (overlaid standard b c) := by
  by_cases hc : c = standard
  · simp [overlaid, hc]
  · simp [overlaid, hc]

theorem standard_overlaid (standard a : α) : overlaid standard a standard = a := if_pos rfl

theorem foldl_overlaid (standard lowest : α) (settings : List α) :
    settings.foldl (overlaid standard) lowest = (settings.filter (· ≠ standard)).getLastD lowest := by
  induction settings generalizing lowest with
  | nil => rfl
  | cons a as ih =>
    rw [List.foldl_cons, ih]
    by_cases ha : a = standard
    · simp [overlaid, ha]
    · rw [overlaid, if_neg ha, List.filter_cons_of_pos (by simpa using ha), List.getLastD_cons]

end

namespace ChannelConfig

theorem same_standard_iff (f : FileName) : f.same ⟨""⟩ = true ↔ f = ⟨""⟩ := by
  refine ⟨FileName.eq_empty_of_same, fun h => ?_⟩
  subst h
  exact beq_self_eq_true _

theorem overlay_eq (c upper : ChannelConfig) : c.overlay upper =
    ⟨overlaid standard.inputLog c.inputLog upper.inputLog, overlaid standard.outputLog c.outputLog upper.outputLog,
      overlaid standard.deleteOnAbort c.deleteOnAbort upper.deleteOnAbort⟩ := by
  have hlog (lower f : FileName) : (if f.same ⟨""⟩ then lower else f) = overlaid ⟨""⟩ lower f :=
    if_congr (same_standard_iff f) rfl rfl
  exact (mk.injEq ..).mpr ⟨hlog _ _, hlog _ _, rfl⟩

theorem overlay_assoc (a b c : ChannelConfig) : (a.overlay b).overlay c = a.overlay (b.overlay c) := by
  simp only [overlay_eq, overlaid_assoc]

theorem standard_overlay (c : ChannelConfig) : c.overlay standard = c := by
  simp only [overlay_eq, standard_overlaid]

def topmost (cs : List ChannelConfig) : ChannelConfig where
  inputLog := EventHub.topmost standard.inputLog (cs.map inputLog)
  outputLog := EventHub.topmost standard.outputLog (cs.map outputLog)
  deleteOnAbort := EventHub.topmost standard.deleteOnAbort (cs.map deleteOnAbort)

theorem foldl_overlay_eq (cs : List ChannelConfig) (lowest : ChannelConfig) : cs.foldl overlay lowest =
    ⟨(cs.map inputLog).foldl (overlaid standard.inputLog) lowest.inputLog,
      (cs.map outputLog).foldl (overlaid standard.outputLog) lowest.outputLog,
      (cs.map deleteOnAbort).foldl (overlaid standard.deleteOnAbort) lowest.deleteOnAbort⟩ := by
  induction cs generalizing lowest with
  | nil => rfl
  | cons c cs ih => rw [List.foldl_cons, ih, overlay_eq]; rfl

theorem foldl_overlay (cs : List ChannelConfig) : cs.foldl overlay standard = topmost cs := by
  rw [foldl_overlay_eq, foldl_overlaid, foldl_overlaid, foldl_overlaid]
  rfl

end ChannelConfig

namespace Config

theorem nodup_of_pairwise {channels : List (String × ChannelConfig)}
    (h : (channels.map Prod.fst).Pairwise fun j k => compare j k = .lt) : (channels.map Prod.fst).Nodup := by
  refine h.imp fun {j k} hlt he => ?_
  have hself : compare k k = .eq := Std.ReflCmp.compare_self
  rw [he, hself] at hlt
  cases hlt

theorem lookup_overlayChannel (channels : List (String × ChannelConfig)) (upper : String × ChannelConfig)
    (name : String) : (overlayChannel channels upper).lookup name =
      if name = upper.1 then some (((channels.lookup name).getD .standard).overlay upper.2)
      else channels.lookup name := by
  rw [overlayChannel]
  split
  · rename_i h
    rw [h, Json.lookup_putField_self]
  · rename_i h
    exact Json.lookup_putField_of_ne _ h _

def ownOver (own upper : Option ChannelConfig) : Option ChannelConfig :=
  match upper with
  | none => own
  | some u => some ((own.getD .standard).overlay u)

theorem lookup_foldl_overlayChannel {uppers : List (String × ChannelConfig)}
    (h : (uppers.map Prod.fst).Nodup) (channels : List (String × ChannelConfig)) (name : String) :
    (uppers.foldl overlayChannel channels).lookup name =
      ownOver (channels.lookup name) (uppers.lookup name) := by
  induction uppers generalizing channels with
  | nil => rfl
  | cons u us ih =>
    obtain ⟨key, upper⟩ := u
    rw [List.map_cons, List.nodup_cons] at h
    rw [List.foldl_cons, ih h.2, lookup_overlayChannel, List.lookup_cons]
    by_cases hk : name = key
    · -- each name stands there once, so nothing more is laid over this one
      subst hk
      have hus : us.lookup name = none := by
        rw [List.lookup_eq_none_iff]
        intro p hp
        have hne : name ≠ p.1 := by
          intro he
          have hm : p.1 ∈ us.map Prod.fst := List.mem_map_of_mem hp
          rw [← he] at hm
          exact h.1 hm
        simpa using hne
      simp [hus, ownOver]
    · have hb : (name == key) = false := beq_eq_false_iff_ne.2 hk
      simp [hk, hb]

theorem lookup_overlay {upper : Config} (h : upper.Ordered) (c : Config) (name : String) :
    (c.overlay upper).channels.lookup name = ownOver (c.channels.lookup name) (upper.channels.lookup name) :=
  lookup_foldl_overlayChannel (nodup_of_pairwise h) c.channels name

theorem lookup_of_lt {key : String} {channels : List (String × ChannelConfig)}
    (h : ∀ p ∈ channels, compare key p.1 = .lt) : channels.lookup key = none := by
  rw [List.lookup_eq_none_iff]
  intro p hp
  have hself : compare p.1 p.1 = .eq := Std.ReflCmp.compare_self
  have hne : key ≠ p.1 := by
    intro he
    have hlt := h p hp
    rw [he, hself] at hlt
    cases hlt
  simpa using hne

/-- Channels in order are known by what is found under each name. -/
theorem eq_of_lookup {cs ds : List (String × ChannelConfig)}
    (hc : (cs.map Prod.fst).Pairwise fun j k => compare j k = .lt)
    (hd : (ds.map Prod.fst).Pairwise fun j k => compare j k = .lt)
    (h : ∀ name, cs.lookup name = ds.lookup name) : cs = ds := by
  induction cs generalizing ds with
  | nil =>
    cases ds with
    | nil => rfl
    | cons d ds =>
      have hl := h d.1
      rw [List.lookup_cons, beq_self_eq_true] at hl
      cases hl
  | cons c cs ih =>
    cases ds with
    | nil =>
      have hl := h c.1
      rw [List.lookup_cons, beq_self_eq_true] at hl
      cases hl
    | cons d ds =>
      obtain ⟨j, a⟩ := c
      obtain ⟨k, b⟩ := d
      rw [List.map_cons, List.pairwise_cons] at hc hd
      have hcs : ∀ p ∈ cs, compare j p.1 = .lt := fun p hp => hc.1 p.1 (List.mem_map_of_mem hp)
      have hds : ∀ p ∈ ds, compare k p.1 = .lt := fun p hp => hd.1 p.1 (List.mem_map_of_mem hp)
      cases hjk : compare j k with
      | lt =>
        -- the first name of the one would be missing in the other
        have hnone : ((k, b) :: ds).lookup j = none := lookup_of_lt fun p hp => by
          rcases List.mem_cons.1 hp with rfl | hp
          · exact hjk
          · exact Std.TransCmp.lt_trans hjk (hds p hp)
        rw [← h j, List.lookup_cons, beq_self_eq_true] at hnone
        cases hnone
      | gt =>
        have hnone : ((j, a) :: cs).lookup k = none := lookup_of_lt fun p hp => by
          have hkj : compare k j = .lt := Std.OrientedCmp.lt_of_gt hjk
          rcases List.mem_cons.1 hp with rfl | hp
          · exact hkj
          · exact Std.TransCmp.lt_trans hkj (hcs p hp)
        rw [h k, List.lookup_cons, beq_self_eq_true] at hnone
        cases hnone
      | eq =>
        obtain rfl : j = k := Std.LawfulEqCmp.eq_of_compare hjk
        have hab : a = b := by simpa [List.lookup_cons] using h j
        subst hab
        congr 1
        refine ih hc.2 hd.2 fun name => ?_
        by_cases hn : name = j
        · rw [hn, lookup_of_lt hcs, lookup_of_lt hds]
        · have hb : (name == j) = false := beq_eq_false_iff_ne.2 hn
          simpa [List.lookup_cons, hb] using h name

theorem ownOver_assoc (a b c : Option ChannelConfig) : ownOver (ownOver a b) c = ownOver a (ownOver b c) := by
  cases c with
  | none => rfl
  | some c =>
    cases b with
    | none => simp [ownOver, ChannelConfig.overlay_standard]
    | some b => simp [ownOver, ChannelConfig.overlay_assoc]

theorem overlay_assoc {a b c : Config} (ha : a.Ordered) (hb : b.Ordered) (hc : c.Ordered) :
    (a.overlay b).overlay c = a.overlay (b.overlay c) := by
  have hbc := ordered_overlay hb c
  have hchannels : ((a.overlay b).overlay c).channels = (a.overlay (b.overlay c)).channels := by
    refine eq_of_lookup (ordered_overlay (ordered_overlay ha b) c) (ordered_overlay ha _) fun name => ?_
    rw [lookup_overlay hc, lookup_overlay hb, lookup_overlay hbc, lookup_overlay hc, ownOver_assoc]
  exact (mk.injEq ..).mpr
    ⟨overlaid_assoc standard.debug a.debug b.debug c.debug, ChannelConfig.overlay_assoc .., hchannels⟩

theorem standard_overlay (c : Config) : c.overlay standard = c :=
  (mk.injEq ..).mpr ⟨standard_overlaid standard.debug c.debug, c.channel.standard_overlay, rfl⟩

def layered (layers : List Config) : Config := layers.foldl overlay standard

theorem ordered_foldl_overlay {c : Config} (h : c.Ordered) (layers : List Config) :
    (layers.foldl overlay c).Ordered := by
  induction layers generalizing c with
  | nil => exact h
  | cons l ls ih => exact ih (ordered_overlay h l)

theorem ordered_layered (layers : List Config) : (layered layers).Ordered :=
  ordered_foldl_overlay ordered_standard layers

theorem layered_adjacent {front back : List Config} {a b : Config} (ha : a.Ordered) (hb : b.Ordered) :
    layered (front ++ a :: b :: back) = layered (front ++ a.overlay b :: back) := by
  have h := overlay_assoc (ordered_layered front) ha hb
  rw [layered] at h
  simp only [layered, List.foldl_append, List.foldl_cons, h]

theorem debug_layered (layers : List Config) :
    (layered layers).debug = topmost standard.debug (layers.map debug) := by
  have hfold (c : Config) :
      (layers.foldl overlay c).debug = (layers.map debug).foldl (overlaid standard.debug) c.debug := by
    induction layers generalizing c with
    | nil => rfl
    | cons l ls ih => exact ih (c.overlay l)
  rw [layered, hfold, foldl_overlaid]
  rfl

theorem channel_layered (layers : List Config) :
    (layered layers).channel = .topmost (layers.map channel) := by
  have hfold (c : Config) :
      (layers.foldl overlay c).channel = (layers.map channel).foldl ChannelConfig.overlay c.channel := by
    induction layers generalizing c with
    | nil => rfl
    | cons l ls ih => exact ih (c.overlay l)
  rw [layered, hfold]
  exact ChannelConfig.foldl_overlay _

def tablesOf (name : String) (layers : List Config) : List ChannelConfig :=
  layers.filterMap fun l => l.channels.lookup name

theorem lookup_layered {layers : List Config} (h : ∀ l ∈ layers, l.Ordered) (name : String) :
    (layered layers).channels.lookup name =
      if tablesOf name layers = [] then none else some (.topmost (tablesOf name layers)) := by
  have hfold (c : Config) : (layers.foldl overlay c).channels.lookup name =
      if tablesOf name layers = [] then c.channels.lookup name
      else some ((tablesOf name layers).foldl ChannelConfig.overlay ((c.channels.lookup name).getD .standard)) := by
    induction layers generalizing c with
    | nil => rfl
    | cons l ls ih =>
      have hrest := ih (fun k hk => h k (List.mem_cons_of_mem l hk)) (c.overlay l)
      rw [lookup_overlay (h l List.mem_cons_self)] at hrest
      rw [List.foldl_cons, hrest]
      cases hl : l.channels.lookup name with
      | none =>
        have htables : tablesOf name (l :: ls) = tablesOf name ls := List.filterMap_cons_none hl
        rw [htables]
        rfl
      | some own =>
        have htables : tablesOf name (l :: ls) = own :: tablesOf name ls := List.filterMap_cons_some hl
        rw [htables, if_neg (List.cons_ne_nil _ _)]
        split
        · rename_i hn
          rw [hn]
          rfl
        · rfl
  rw [layered, hfold]
  exact if_congr Iff.rfl rfl (congrArg some (ChannelConfig.foldl_overlay _))

/-- The variables that stand for truth values hold such, where they are set. -/
def Readable (environment : Environment) : Prop :=
  ∀ name ∈ ["EVMUX_DEBUG", "EVMUX_DELETE_RECORDINGS_ON_ABORT"], ∀ text ∈ environment.lookup name,
    (boolOfText? text).isSome = true

instance (environment : Environment) : Decidable (Readable environment) :=
  inferInstanceAs (Decidable (∀ name ∈ ["EVMUX_DEBUG", "EVMUX_DELETE_RECORDINGS_ON_ABORT"],
    ∀ text ∈ environment.lookup name, (boolOfText? text).isSome = true))

def told (environment : Environment) (name : String) (unset : Bool) : Bool :=
  ((environment.lookup name).bind boolOfText?).getD unset

theorem boolVariable_eq_ok {environment : Environment} {name : String}
    (h : ∀ text, environment.lookup name = some text → (boolOfText? text).isSome = true) (unset : Bool) :
    boolVariable environment name unset = .ok (told environment name unset) := by
  rw [boolVariable, told]
  cases hl : environment.lookup name with
  | none => rfl
  | some text =>
    obtain ⟨b, hb⟩ := Option.isSome_iff_exists.1 (h text hl)
    simp [hb]

theorem fileVariable_eq (environment : Environment) (name : String) (unset : FileName) :
    fileVariable environment name unset = ((environment.lookup name).map FileName.mk).getD unset := by
  rw [fileVariable]
  cases environment.lookup name <;> rfl

/-- Where each part of the configuration comes from. -/
structure Resolves (layers : List Config) (environment : Environment) (c : Config) : Prop where
  debug : c.debug = told environment "EVMUX_DEBUG" (topmost standard.debug (layers.map Config.debug))
  inputLog : c.channel.inputLog = ((environment.lookup "EVMUX_RECORD_INPUT_FILE").map FileName.mk).getD
    (topmost standard.channel.inputLog (layers.map fun l => l.channel.inputLog))
  outputLog : c.channel.outputLog = ((environment.lookup "EVMUX_RECORD_OUTPUT_FILE").map FileName.mk).getD
    (topmost standard.channel.outputLog (layers.map fun l => l.channel.outputLog))
  deleteOnAbort : c.channel.deleteOnAbort = told environment "EVMUX_DELETE_RECORDINGS_ON_ABORT"
    (topmost standard.channel.deleteOnAbort (layers.map fun l => l.channel.deleteOnAbort))
  ordered : c.Ordered
  channels : ∀ name, (c.channels.lookup name).isSome = true ↔
    ∃ l ∈ layers, (l.channels.lookup name).isSome = true
  own : ∀ name own, c.channels.lookup name = some own → own = .topmost (tablesOf name layers)

theorem resolves_layered {layers : List Config} (h : ∀ l ∈ layers, l.Ordered) {environment : Environment}
    (readable : Readable environment) :
    ∃ c, (layered layers).overlayEnvironment environment = .ok c ∧ Resolves layers environment c := by
  have hdebug := boolVariable_eq_ok (readable "EVMUX_DEBUG" (by simp)) (layered layers).debug
  have hdelete := boolVariable_eq_ok (readable "EVMUX_DELETE_RECORDINGS_ON_ABORT" (by simp))
    (layered layers).channel.deleteOnAbort
  refine ⟨_, by rw [overlayEnvironment, hdebug, hdelete]; rfl, ?_⟩
  have hlookup := fun name => lookup_layered h name
  refine ⟨?_, ?_, ?_, ?_, ordered_layered layers, fun name => ?_, fun name own ho => ?_⟩
  · dsimp only
    rw [debug_layered]
  · dsimp only
    rw [fileVariable_eq, channel_layered]
    simp only [ChannelConfig.topmost, List.map_map]
    rfl
  · dsimp only
    rw [fileVariable_eq, channel_layered]
    simp only [ChannelConfig.topmost, List.map_map]
    rfl
  · dsimp only
    rw [channel_layered]
    simp only [ChannelConfig.topmost, List.map_map]
    rfl
  · dsimp only
    rw [hlookup name]
    have hnil : tablesOf name layers = [] ↔ ¬ ∃ l ∈ layers, (l.channels.lookup name).isSome = true := by
      rw [tablesOf, List.filterMap_eq_nil_iff]
      constructor
      · rintro hall ⟨l, hm, hs⟩
        rw [hall l hm] at hs
        cases hs
      · exact fun hno l hm => Option.not_isSome_iff_eq_none.1 fun hs => hno ⟨l, hm, hs⟩
    split
    · rename_i hn
      exact iff_of_false (by simp) (hnil.1 hn)
    · rename_i hn
      exact iff_of_true rfl (not_not.1 (mt hnil.2 hn))
  · dsimp only at ho
    rw [hlookup name] at ho
    split at ho
    · cases ho
    · exact (Option.some.inj ho).symm

/-- Where a channel has a log of its own that counts; else it gets the shared one under its own name, if there is
one. -/
structure LogFrom (name : String) (own : Option FileName) (shared log : FileName) : Prop where
  ofOwn : ∀ f, own = some f → f.isEmpty = false → log = f
  ofShared : (∀ f, own = some f → f.isEmpty = true) → shared.isEmpty = false → log = shared.qualified name
  ofNothing : (∀ f, own = some f → f.isEmpty = true) → shared.isEmpty = true → log.isEmpty = true

structure ForChannel (c : Config) (name : String) : Prop where
  inputLog : LogFrom name ((c.channels.lookup name).map ChannelConfig.inputLog) c.channel.inputLog
    (c.forChannel name).inputLog
  outputLog : LogFrom name ((c.channels.lookup name).map ChannelConfig.outputLog) c.channel.outputLog
    (c.forChannel name).outputLog
  deleteOnAbort : (c.forChannel name).deleteOnAbort = false ↔
    c.channel.deleteOnAbort = false ∨ ∃ own, c.channels.lookup name = some own ∧ own.deleteOnAbort = false

theorem eq_empty_iff (f : FileName) : f = ⟨""⟩ ↔ f.isEmpty = true := by
  obtain ⟨text⟩ := f
  simp [FileName.isEmpty]

theorem logFrom_overlaid (name : String) (own : Option FileName) (shared : FileName) :
    LogFrom name own shared (overlaid ⟨""⟩ (if shared.isEmpty then shared else shared.qualified name)
      (own.getD ⟨""⟩)) := by
  have hover : ∀ lower : FileName, (∀ f, own = some f → f.isEmpty = true) →
      overlaid ⟨""⟩ lower (own.getD ⟨""⟩) = lower := by
    intro lower h
    cases own with
    | none => exact standard_overlaid _ lower
    | some f => rw [Option.getD_some, (eq_empty_iff f).2 (h f rfl), standard_overlaid]
  refine ⟨fun f hf hne => ?_, fun h hs => ?_, fun h hs => ?_⟩
  · rw [hf, Option.getD_some, overlaid, if_neg fun he => by simp [(eq_empty_iff f).1 he] at hne]
  · rw [hover _ h, if_neg (by simp [hs])]
  · rw [hover _ h, if_pos hs]
    exact hs

theorem forChannel_holds (c : Config) (name : String) : c.ForChannel name := by
  have hown : c.forChannel name = ChannelConfig.overlay
      { c.channel with
        inputLog := if c.channel.inputLog.isEmpty then c.channel.inputLog else c.channel.inputLog.qualified name
        outputLog := if c.channel.outputLog.isEmpty then c.channel.outputLog else c.channel.outputLog.qualified name }
      ((c.channels.lookup name).getD .standard) := by
    rw [forChannel]
    cases c.channels.lookup name with
    | none => exact (ChannelConfig.standard_overlay _).symm
    | some own => rfl
  have hlog (log : ChannelConfig → FileName) (hs : log .standard = ⟨""⟩) :
      log ((c.channels.lookup name).getD .standard) = ((c.channels.lookup name).map log).getD ⟨""⟩ := by
    cases c.channels.lookup name with
    | none => exact hs
    | some own => rfl
  refine ⟨?_, ?_, ?_⟩
  · rw [hown, ChannelConfig.overlay_eq, hlog ChannelConfig.inputLog rfl]
    exact logFrom_overlaid name _ _
  · rw [hown, ChannelConfig.overlay_eq, hlog ChannelConfig.outputLog rfl]
    exact logFrom_overlaid name _ _
  · rw [hown, ChannelConfig.overlay_eq]
    cases c.channels.lookup name with
    | none => simp [overlaid, ChannelConfig.standard]
    | some own => cases hd : own.deleteOnAbort <;> simp [overlaid, ChannelConfig.standard, hd]

def layerOf (fs : FileSystem) : Option FileName → Except ConfigError (List Config)
  | none => .ok []
  | some f => (readFile fs f).map fun c => [c]

def layersOf (fs : FileSystem) (s : Sources) : Except ConfigError (List Config) :=
  (layerOf fs (if s.skipGlobal || !fs.isThere s.globalFile then none else some s.globalFile)).bind fun below =>
    (layerOf fs s.file).map (below ++ ·)

theorem loadGlobal_eq (fs : FileSystem) (s : Sources) : loadGlobal fs s =
    (layerOf fs (if s.skipGlobal || !fs.isThere s.globalFile then none else some s.globalFile)).map layered := by
  rw [loadGlobal]
  split
  · rfl
  · cases hr : readFile fs s.globalFile <;> simp only [layerOf, hr] <;> rfl

theorem loadFile_eq (fs : FileSystem) (s : Sources) (below : List Config) : loadFile fs s (layered below) =
    (layerOf fs s.file).map fun above => layered (below ++ above) := by
  simp only [layered, List.foldl_append]
  rw [loadFile]
  cases s.file with
  | none => rfl
  | some f => cases hr : readFile fs f <;> simp only [layerOf, hr] <;> rfl

theorem load_eq_layered (fs : FileSystem) (s : Sources) :
    load fs s = (layersOf fs s).bind fun layers =>
      (layered layers).overlayEnvironment (if s.skipEnvironment then [] else s.environment) := by
  have hlast (c : Config) : (if s.skipEnvironment then .ok c else c.overlayEnvironment s.environment) =
      c.overlayEnvironment (if s.skipEnvironment then [] else s.environment) := by
    split <;> rfl
  simp only [load_eq, hlast]
  rw [layersOf, loadGlobal_eq]
  cases layerOf fs (if s.skipGlobal || !fs.isThere s.globalFile then none else some s.globalFile) with
  | error e => rfl
  | ok below =>
    simp only [Except.map, Except.bind]
    rw [loadFile_eq]
    cases layerOf fs s.file <;> rfl

theorem ordered_readFile {fs : FileSystem} {f : FileName} {c : Config} (h : readFile fs f = .ok c) : c.Ordered := by
  unfold readFile at h
  split at h
  · cases h
  · split at h
    · cases h
    · split at h
      · cases h
      · rename_i hc
        cases h
        exact ordered_ofToml? hc

theorem ordered_layerOf {fs : FileSystem} {f : Option FileName} {layers : List Config}
    (h : layerOf fs f = .ok layers) : ∀ l ∈ layers, l.Ordered := by
  cases f with
  | none =>
    cases h
    exact fun l hl => nomatch hl
  | some f =>
    rw [layerOf] at h
    cases hr : readFile fs f with
    | error e =>
      rw [hr] at h
      cases h
    | ok c =>
      rw [hr] at h
      cases h
      exact fun l hl => List.mem_singleton.1 hl ▸ ordered_readFile hr

theorem ordered_layersOf {fs : FileSystem} {s : Sources} {layers : List Config} (h : layersOf fs s = .ok layers) :
    ∀ l ∈ layers, l.Ordered := by
  rw [layersOf] at h
  generalize hg : (if s.skipGlobal || !fs.isThere s.globalFile then none else some s.globalFile) = g at h
  cases hbelow : layerOf fs g with
  | error e =>
    rw [hbelow] at h
    cases h
  | ok below =>
    cases habove : layerOf fs s.file with
    | error e =>
      simp only [hbelow, habove, Except.bind, Except.map] at h
      cases h
    | ok above =>
      simp only [hbelow, habove, Except.bind, Except.map] at h
      cases h
      exact fun l hl => (List.mem_append.1 hl).elim (ordered_layerOf hbelow l) (ordered_layerOf habove l)

/-- Files that are laid over the standard configuration, and the environment over all of them: where each setting
comes from, for the whole and for every channel. Laying over each other may be done in any grouping, and what is
loaded is a run of such layers. -/
theorem layers_resolve :
    (∀ (layers : List Config) (environment : Environment), (∀ l ∈ layers, l.Ordered) → Readable environment →
        ∃ c, (layered layers).overlayEnvironment environment = .ok c ∧ Resolves layers environment c ∧
          ∀ name, c.ForChannel name) ∧
      (∀ a b c : Config, a.Ordered → b.Ordered → c.Ordered →
        (a.overlay b).overlay c = a.overlay (b.overlay c)) ∧
      (∀ c : Config, c.Ordered → standard.overlay c = c ∧ c.overlay standard = c) ∧
      (∀ (front back : List Config) (a b : Config), a.Ordered → b.Ordered →
        layered (front ++ a :: b :: back) = layered (front ++ a.overlay b :: back)) ∧
      ∀ (fs : FileSystem) (s : Sources),
        load fs s = (layersOf fs s).bind (fun layers =>
          (layered layers).overlayEnvironment (if s.skipEnvironment then [] else s.environment)) ∧
        ∀ layers, layersOf fs s = .ok layers → ∀ l ∈ layers, l.Ordered := by
  refine ⟨fun layers environment h readable => ?_, fun _ _ _ => overlay_assoc,
    fun c h => ⟨overlay_standard h, standard_overlay c⟩, fun _ _ _ _ => layered_adjacent,
    fun fs s => ⟨load_eq_layered fs s, fun layers => ordered_layersOf⟩⟩
  obtain ⟨c, hc, hr⟩ := resolves_layered h readable
  exact ⟨c, hc, hr, forChannel_holds c⟩

def lowerLayer : Config :=
  ⟨true, ⟨⟨"log/in.jsonl"⟩, ⟨"out"⟩, true⟩,
    [("a", ⟨⟨""⟩, ⟨"a.out"⟩, true⟩), ("b", ⟨⟨"b.in"⟩, ⟨""⟩, false⟩)]⟩

def upperLayer : Config :=
  ⟨false, ⟨⟨""⟩, ⟨"all.out"⟩, true⟩, [("b", ⟨⟨""⟩, ⟨"b.out"⟩, true⟩), ("c", .standard)]⟩

def toldLayers : Environment := [("EVMUX_DEBUG", "Off"), ("EVMUX_RECORD_INPUT_FILE", "log/env.jsonl")]

theorem layers_resolve_two :
    ∃ c, (layered [lowerLayer, upperLayer]).overlayEnvironment toldLayers = .ok c ∧
      c.debug = false ∧ c.channel.outputLog = ⟨"all.out"⟩ ∧
      c.channels.lookup "b" = some ⟨⟨"b.in"⟩, ⟨"b.out"⟩, false⟩ ∧
      (c.forChannel "b").inputLog = ⟨"b.in"⟩ ∧ (c.forChannel "b").deleteOnAbort = false ∧
      (c.forChannel "c").inputLog = ⟨"log/env.c.jsonl"⟩ ∧
      layered [lowerLayer, upperLayer, lowerLayer] = layered [lowerLayer.overlay upperLayer, lowerLayer] := by
  obtain ⟨hresolve, -, -, hadjacent, -⟩ := layers_resolve
  obtain ⟨c, hc, hr, hf⟩ := hresolve [lowerLayer, upperLayer] toldLayers (by decide) (by decide)
  have htable (name : String) (h : ∃ l ∈ [lowerLayer, upperLayer], (l.channels.lookup name).isSome = true) :
      c.channels.lookup name = some (.topmost (tablesOf name [lowerLayer, upperLayer])) := by
    obtain ⟨own, ho⟩ := Option.isSome_iff_exists.1 ((hr.channels name).2 h)
    rw [ho, hr.own name own ho]
  have hb := htable "b" ⟨lowerLayer, by decide, by decide⟩
  have hc' := htable "c" ⟨upperLayer, by decide, by decide⟩
  have hinput : c.channel.inputLog = ⟨"log/env.jsonl"⟩ := hr.inputLog
  refine ⟨c, hc, hr.debug, hr.outputLog, hb, ?_, ?_, ?_, hadjacent [] _ _ _ (by decide) (by decide)⟩
  · exact (hf "b").inputLog.ofOwn ⟨"b.in"⟩ (by rw [hb]; rfl) (by decide)
  · exact (hf "b").deleteOnAbort.2 (.inr ⟨_, hb, by decide⟩)
  · have hnone : ∀ f ∈ (c.channels.lookup "c").map ChannelConfig.inputLog, f.isEmpty = true := by
      rw [hc']
      decide
    rw [(hf "c").inputLog.ofShared hnone (by rw [hinput]; decide), hinput]
    decide

end Config
end EventHub
