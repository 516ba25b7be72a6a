import EventHub.Proofs.Hub.Passage
import EventHub.Proofs.System.Outlet
set_option autoImplicit false

namespace EventHub

variable {kind : ChannelKind} {logs : Option FileName × Option FileName} {fetched posted : List Event}

namespace Channel

structure Records (c : Channel) (fs : FileSystem) (kind : ChannelKind)
    (logs : Option FileName × Option FileName) (fetched posted : List Event) : Prop where
  isOpen : c.isOpen = true
  kind : c.kind = kind
  logs : c.recorder.logs = logs
  keeps : c.recorder.Keeps fs (System.logBytes fetched) (System.logBytes posted)

theorem ofRecorder_eq_ok {c d : Channel} {α : Type} {r : Except RecordingError α × Recorder × FileSystem}
    {fs' : FileSystem} (h : c.ofRecorder r = (.ok (), d, fs')) :
    ∃ a, r = (.ok a, d.recorder, fs') ∧ d.isOpen = c.isOpen ∧ d.kind = c.kind := by
  obtain ⟨e | a, r, fs⟩ := r
  · cases h
  · cases h
    exact ⟨a, rfl, rfl, rfl⟩

theorem recording_of_ofRecorder {c : Channel} {α : Type} {r : Except RecordingError α × Recorder × FileSystem}
    {err : ChannelError} (h : (c.ofRecorder r).1 = .error err) : ∃ cause, err = .recording cause := by
  obtain ⟨e | a, r, fs⟩ := r
  · cases h
    exact ⟨e, rfl⟩
  · cases h

theorem Records.recordPost {c d : Channel} {fs fs' : FileSystem} {e : Event}
    (h : c.Records fs kind logs fetched posted) (hp : c.recordPost fs e = (.ok (), d, fs')) :
    d.Records fs' kind logs fetched (posted ++ [e]) := by
  rw [Channel.recordPost, if_pos h.isOpen] at hp
  obtain ⟨u, hr, ho, hk⟩ := ofRecorder_eq_ok hp
  obtain ⟨hkeeps, hmarks⟩ := h.keeps.recordOutput hr
  rw [← System.logBytes_append] at hkeeps
  exact ⟨ho.trans h.isOpen, hk.trans h.kind, (Recorder.logs_of_marks hmarks).trans h.logs, hkeeps⟩

theorem Records.recordFetch {c d : Channel} {fs fs' : FileSystem} {e : Event}
    (h : c.Records fs kind logs fetched posted) (hp : c.recordFetch fs e = (.ok (), d, fs')) :
    d.Records fs' kind logs (fetched ++ [e]) posted := by
  obtain ⟨u, hr, ho, hk⟩ := ofRecorder_eq_ok hp
  obtain ⟨hkeeps, hmarks⟩ := h.keeps.recordInput hr
  rw [← System.logBytes_append] at hkeeps
  exact ⟨ho.trans h.isOpen, hk.trans h.kind, (Recorder.logs_of_marks hmarks).trans h.logs, hkeeps⟩

theorem Records.flush {c d : Channel} {fs fs' : FileSystem} (h : c.Records fs kind logs fetched posted)
    (hp : c.flush fs = (.ok (), d, fs')) : d.Records fs' kind logs fetched posted := by
  obtain ⟨u, hr, ho, hk⟩ := ofRecorder_eq_ok hp
  obtain ⟨hkeeps, hmarks⟩ := h.keeps.flush hr
  exact ⟨ho.trans h.isOpen, hk.trans h.kind, (Recorder.logs_of_marks hmarks).trans h.logs, hkeeps⟩

theorem Records.close {c d : Channel} {fs fs' : FileSystem} (h : c.Records fs kind logs fetched posted)
    (hp : c.close fs = (.ok (), d, fs')) :
    (∀ f, logs.1 = some f → fs'.read f = .ok (System.logBytes fetched)) ∧
      ∀ f, logs.2 = some f → fs'.read f = .ok (System.logBytes posted) := by
  rw [Channel.close, if_pos h.isOpen] at hp
  obtain ⟨files, hr, -, -⟩ := ofRecorder_eq_ok hp
  obtain ⟨hi, ho⟩ := h.keeps.finish hr
  have hl := h.logs
  rw [Recorder.logs] at hl
  subst hl
  constructor
  · intro f hf
    obtain ⟨s, hs, rfl⟩ := Option.map_eq_some_iff.1 hf
    exact hi s hs
  · intro f hf
    obtain ⟨s, hs, rfl⟩ := Option.map_eq_some_iff.1 hf
    exact ho s hs

end Channel

namespace System

def Records (s : System) (channel : Nat) (kind : ChannelKind) (logs : Option FileName × Option FileName)
    (fetched posted : List Event) : Prop :=
  ∃ c, s.channels[channel]? = some c ∧ c.Records s.files kind logs fetched posted

theorem changeChannel_of_getElem? {s : System} {channel : Nat} {c : Channel}
    (hc : s.channels[channel]? = some c) (change : Channel → FileSystem → Channel.Outcome) :
    s.changeChannel channel change =
      ((change c s.files).1,
       { s with
         files := (change c s.files).2.2
         channels := s.channels.set channel (change c s.files).2.1 }) := by
  rw [changeChannel, hc]

theorem Records.changeChannel {s t : System} {channel : Nat} {fetched' posted' : List Event}
    (h : s.Records channel kind logs fetched posted) {change : Channel → FileSystem → Channel.Outcome}
    (hk : ∀ c d fs', c.Records s.files kind logs fetched posted → change c s.files = (.ok (), d, fs') →
      d.Records fs' kind logs fetched' posted')
    (hc : s.changeChannel channel change = (.ok (), t)) : t.Records channel kind logs fetched' posted' := by
  obtain ⟨c, hget, hrec⟩ := h
  rw [changeChannel_of_getElem? hget] at hc
  generalize hr : change c s.files = r at hc
  obtain ⟨result, d, fs'⟩ := r
  cases hc
  exact ⟨d, List.getElem?_set_self (List.getElem?_eq_some_iff.1 hget).1, hk c d fs' hrec hr⟩

theorem Records.recording {s t : System} {channel : Nat} {err : ChannelError}
    (h : s.Records channel kind logs fetched posted) {change : Channel → FileSystem → Channel.Outcome}
    (hk : ∀ c, c.isOpen = true → (change c s.files).1 = .error err → ∃ cause, err = .recording cause)
    (hc : s.changeChannel channel change = (.error err, t)) : ∃ cause, err = .recording cause := by
  obtain ⟨c, hget, hrec⟩ := h
  rw [changeChannel_of_getElem? hget] at hc
  exact hk c hrec.isOpen (congrArg Prod.fst hc)

theorem Records.congr {s t : System} {channel : Nat} (h : s.Records channel kind logs fetched posted)
    (hc : t.channels = s.channels) (hf : t.files = s.files) : t.Records channel kind logs fetched posted := by
  rw [Records, hc, hf]
  exact h

theorem Records.sameOutsideHubs {s t : System} {channel : Nat} (h : s.Records channel kind logs fetched posted)
    (he : SameOutsideHubs s t) : t.Records channel kind logs fetched posted := h.congr he.channels he.files

theorem Records.post {s : System} {channel : Nat} (h : s.Records channel kind logs fetched posted) (e : Event)
    (fine : ¬ (Note.posted channel e (s.post channel e).1).RecordingFailed channel) :
    (s.post channel e).2.Records channel kind logs fetched
      (posted ++ (Note.posted channel e (s.post channel e).1).postedOn channel) := by
  have hfst : (s.post channel e).1 = (s.changeChannel channel fun c fs => c.recordPost fs e).1 := by
    rw [post_eq]
  have hcongr := channels_post s channel e
  have hfiles := files_post s channel e
  rw [hfst] at fine ⊢
  generalize hr : (s.changeChannel channel fun c fs => c.recordPost fs e) = r at fine hcongr hfiles ⊢
  obtain ⟨err | u, t⟩ := r
  · obtain ⟨cause, rfl⟩ := h.recording (fun c ho he => by
      rw [Channel.recordPost, if_pos ho] at he
      exact Channel.recording_of_ofRecorder he) hr
    exact absurd rfl fine
  · have ht := h.changeChannel (fun c d fs' hc hd => hc.recordPost hd) hr
    have hp : (Note.posted channel e (.ok u)).postedOn channel = [e] := if_pos rfl
    rw [hp]
    exact ht.congr hcongr hfiles

theorem Records.flush {s : System} {channel : Nat} (h : s.Records channel kind logs fetched posted)
    (fine : ¬ (Note.changed channel (s.changeChannel channel Channel.flush).1).RecordingFailed channel) :
    (s.changeChannel channel Channel.flush).2.Records channel kind logs fetched posted := by
  generalize hr : s.changeChannel channel Channel.flush = r at fine ⊢
  obtain ⟨err | u, t⟩ := r
  · obtain ⟨cause, rfl⟩ := h.recording (fun c _ he => Channel.recording_of_ofRecorder he) hr
    exact absurd rfl fine
  · exact h.changeChannel (fun c d fs' hc hd => hc.flush hd) hr

theorem fetchedBy_of_quiet {channel : Nat} {c : Call} {p : Progress}
    (quiet : ∀ e, p ≠ .returned (.fetched (.delivered e))) :
    (Note.ofCall c p.reply?).fetchedBy channel = [] := by
  cases p with
  | asleep point => rfl
  | returned r =>
    rw [Progress.reply?, Note.ofCall, Note.fetchedBy.eq_def]
    split
    · rename_i heq
      cases heq
      exact absurd rfl (quiet _)
    · rfl

theorem Records.ran {s t : System} {channel : Nat} {mask : Mask} {mode : WaitMode} {reply : Option Reply}
    (h : s.Records channel kind logs fetched posted)
    (hr : Ran s (.fetchFrom channel mask mode) reply t)
    (fine : ¬ (Note.ofCall (.fetchFrom channel mask mode) reply).RecordingFailed channel) :
    t.Records channel kind logs
      (fetched ++ (Note.ofCall (.fetchFrom channel mask mode) reply).fetchedBy channel) posted := by
  cases hr with
  | stayed _ still =>
    rw [show (Note.ofCall (.fetchFrom channel mask mode) none).fetchedBy channel = [] from rfl,
      List.append_nil]
    exact h.sameOutsideHubs still.toSameOutsideHubs
  | went s' _ resumed before after =>
    have h' := h.sameOutsideHubs before.toSameOutsideHubs
    have hf := fetched_advance s' channel mask mode resumed
    generalize s'.advance resumed (.fetchFrom channel mask mode) = r at hf fine after ⊢
    obtain ⟨p, u⟩ := r
    dsimp only at hf fine after ⊢
    cases hf with
    | nothing _ _ sameOutsideHubs quiet _ =>
      rw [fetchedBy_of_quiet quiet, List.append_nil]
      exact (h'.sameOutsideHubs sameOutsideHubs).sameOutsideHubs after.toSameOutsideHubs
    | recorded c hub sink outlet mask' mode' resumed' e _ there opened kind answer ok =>
      have hasked := h'.sameOutsideHubs (sameOutsideHubs_askHub s' hub ⟨mask', mode', sink, true⟩ resumed')
      have hn : (Note.ofCall (.fetchFrom channel mask mode)
          (Progress.returned (.fetched (.delivered e))).reply?).fetchedBy channel = [e] := if_pos rfl
      rw [hn]
      exact (hasked.changeChannel (fun c d fs' hc hd => hc.recordFetch hd) ok).sameOutsideHubs after.toSameOutsideHubs
    | failed hub ask resumed' e err _ error =>
      have hasked := h'.sameOutsideHubs (sameOutsideHubs_askHub s' hub ask resumed')
      obtain ⟨cause, rfl⟩ := hasked.recording (fun c _ he => Channel.recording_of_ofRecorder he) error
      exact absurd rfl fine

theorem Records.fetches {s : System} {channel : Nat} (h : s.Records channel kind logs fetched posted)
    {m : HubMove} (hm : m.Fetches s channel) (fine : ¬ (m.step s).1.RecordingFailed channel) :
    (m.step s).2.Records channel kind logs (fetched ++ (m.step s).1.fetchedBy channel)
      (posted ++ (m.step s).1.postedOn channel) := by
  cases m with
  | call c =>
    obtain ⟨mask, mode, rfl⟩ := hm
    rw [HubMove.step, postedOn_ofCall, List.append_nil]
    exact h.ran (ran_start s _) fine
  | resume handle =>
    obtain ⟨p, mask, mode, hp, hc⟩ := hm
    rw [HubMove.step, hp] at fine ⊢
    dsimp only at fine ⊢
    have hr := ran_resume s p
    rw [hc] at hr fine ⊢
    rw [postedOn_ofCall, List.append_nil]
    exact h.ran hr fine
  | _ => exact hm.elim

theorem Records.leavesChannel {s t : System} {channel : Nat} {note : Note}
    (h : s.Records channel kind logs fetched posted) (ha : LeavesChannel channel s note t)
    (hs : ∀ c, s.channels[channel]? = some c → c.recorder.Spared s.files t.files) :
    t.Records channel kind logs (fetched ++ note.fetchedBy channel) (posted ++ note.postedOn channel) := by
  obtain ⟨c, hget, hrec⟩ := h
  obtain ⟨d, hd, hkind, hopen, hr⟩ := ha.stays.channel c hget
  rw [ha.fetched, ha.posted, List.append_nil, List.append_nil]
  refine ⟨d, hd, hopen.trans hrec.isOpen, hkind.trans hrec.kind, ?_, ?_⟩
  · rw [hr, hrec.logs]
  · rw [hr]
    exact hrec.keeps.spared (hs c hget)

theorem Records.step {s : System} {channel : Nat} (h : s.Records channel kind logs fetched posted) {m : Move}
    (stays : ¬ m.OpensOrCloses channel) (fine : ¬ (m.step s).1.RecordingFailed channel)
    (alone : ¬ m.UsesRecordings s channel → ∀ c, s.channels[channel]? = some c →
      c.recorder.Spared s.files (m.step s).2.files) :
    (m.step s).2.Records channel kind logs (fetched ++ (m.step s).1.fetchedBy channel)
      (posted ++ (m.step s).1.postedOn channel) := by
  by_cases hu : m.UsesRecordings s channel
  · -- the channel itself writes
    cases m with
    | onHubs m => exact h.fetches hu fine
    | flush c =>
      have hc : c = channel := hu
      subst hc
      simp only [Move.step, Note.fetchedBy, Note.postedOn, List.append_nil]
      exact h.flush fine
    | post c e =>
      have hc : c = channel := hu
      subst hc
      have hn : (Move.step s (.post c e)).1.fetchedBy c = [] := rfl
      rw [hn, List.append_nil]
      exact h.post e fine
    | _ => exact hu.elim
  · -- somebody else moves, and the logs are spared by assumption
    exact h.leavesChannel (leavesChannel_step stays hu) (alone hu)

/-- An event is queued in the hub of a channel, and this is the name that the channel's sink gives it. -/
def Offers (s : System) (channel : Nat) (e : Event) : Prop :=
  ∃ hub sink outlet canonical, s.kindOf channel = some (.ofHub hub sink outlet) ∧
    ∃ entry ∈ (s.hubAt hub).queue, IsOwner (s.hubAt hub).sinks entry.event.id sink canonical ∧
      e = { entry.event with id := canonical }

/-- What a hub hands out was queued, and goes out under the name that its owner gives it. -/
theorem Coherent.owner_of_askHub {s : System} (hs : s.Coherent) {hub sink : Nat} {mask : Mask}
    {mode : WaitMode} {resumed : Bool} {e : Event}
    (h : (s.askHub hub ⟨mask, mode, sink, true⟩ resumed).1 = .answer (.delivered e)) :
    ∃ entry ∈ (s.hubAt hub).queue, ∃ canonical, IsOwner (s.hubAt hub).sinks entry.event.id sink canonical ∧
      e = { entry.event with id := canonical } := by
  have o := Hub.dispatch_outcome (hs hub) (s.flagAt (s.flagOfHub hub)) ⟨mask, mode, sink, true⟩ resumed
  rw [askHub_fst] at h
  rw [h] at o
  generalize ((s.hubAt hub).dispatch (s.flagAt (s.flagOfHub hub)) ⟨mask, mode, sink, true⟩ resumed).2 = t at o
  generalize hp : Hub.Pause.answer (.delivered e) = p at o
  cases o with
  | closed stopped => cases hp
  | idle running refused =>
    have ht := Hub.idlePause_takes ⟨mask, mode, sink, true⟩ ((s.flagAt (s.flagOfHub hub)).clear (s.hubAt hub).bit)
    rw [← hp] at ht
    cases ht
  | taken lost head rest owner canonical found wanted take =>
    cases hp
    refine ⟨head, ?_, canonical, ?_, rfl⟩
    · rw [found.queue]
      simp
    · have ho := Hub.route_eq_some_iff.1 found.owner
      rw [wanted.1] at ho
      exact ho
  | shown lost head rest owner canonical found wanted take => cases take
  | held lost head rest owner canonical found unwanted insists fresh => cases hp
  | sentAway lost head rest owner canonical found unwanted yields => cases hp

theorem CoherentAndIdle.offers_ran {s t : System} (hs : s.CoherentAndIdle) {channel : Nat} {mask : Mask}
    {mode : WaitMode}
    {reply : Option Reply} (h : Ran s (.fetchFrom channel mask mode) reply t) {e : Event}
    (he : e ∈ (Note.ofCall (.fetchFrom channel mask mode) reply).fetchedBy channel) : s.Offers channel e := by
  cases h with
  | stayed _ still => cases he
  | went s' _ resumed before after =>
    have hf := fetched_advance s' channel mask mode resumed
    generalize s'.advance resumed (.fetchFrom channel mask mode) = r at hf he
    obtain ⟨p, u⟩ := r
    dsimp only at hf he
    cases hf with
    | nothing _ _ sameOutsideHubs quiet _ =>
      rw [fetchedBy_of_quiet quiet] at he
      cases he
    | recorded c hub sink outlet mask' mode' resumed' e' _ there opened hkind answer ok =>
      have hn : (Note.ofCall (.fetchFrom channel mask mode)
          (Progress.returned (.fetched (.delivered e'))).reply?).fetchedBy channel = [e'] := if_pos rfl
      rw [hn] at he
      obtain rfl := List.mem_singleton.1 he
      have hcoherent := hs.coherent.of_hubs before.hubs
      obtain ⟨entry, hentry, canonical, howner, heq⟩ := hcoherent.owner_of_askHub answer
      have hk := kindOf_of_getElem? there
      rw [hkind, kindOf_congr before.channels] at hk
      rw [hubAt_congr before.hubs] at hentry howner
      exact ⟨hub, sink, outlet, canonical, hk, entry, hentry, howner, heq⟩
    | failed hub ask resumed' e' err _ error => cases he

theorem CoherentAndIdle.offers_step {s : System} (hs : s.CoherentAndIdle) {m : Move} {channel : Nat} {e : Event}
    (he : e ∈ (m.step s).1.fetchedBy channel) : s.Offers channel e := by
  cases m with
  | onHubs m =>
    rw [Move.step] at he
    have hm := hubStep_step s m
    generalize m.step s = r at hm he
    obtain ⟨note, t⟩ := r
    cases hm with
    | quiet _ _ => cases he
    | published hub e' taken _ _ => cases he
    | called c reply _ _ other =>
      have he : e ∈ (Note.ofCall c reply).fetchedBy channel := he
      rw [fetchedBy_ofCall (other channel)] at he
      cases he
    | fetched fetching mask mode reply _ _ ran =>
      by_cases hf : fetching = channel
      · subst hf
        exact hs.offers_ran ran he
      · have he : e ∈ (Note.ofCall (.fetchFrom fetching mask mode) reply).fetchedBy channel := he
        rw [fetchedBy_ofCall] at he
        · cases he
        · intro mask' mode' heq
          cases heq
          exact hf rfl
  | _ => cases he

theorem OpenRun.records {s t : System} {channel : Nat} {run : List RunStep} (hr : OpenRun channel s run t)
    (h : s.Records channel kind logs fetched posted) :
    t.Records channel kind logs (fetched ++ fetchedBy channel run) (posted ++ postedOn channel run) := by
  induction hr generalizing fetched posted with
  | done s => simpa [fetchedBy, postedOn] using h
  | move s m run t stays fine alone rest ih =>
    -- what the step adds to the logs stands before what the rest of the run adds
    have hs := ih (h.step stays fine alone)
    rw [List.append_assoc, List.append_assoc] at hs
    exact hs

theorem OpenRun.each {s t : System} {channel : Nat} {run : List RunStep} (hr : OpenRun channel s run t)
    (hs : s.CoherentAndIdle) (h : s.Records channel kind logs fetched posted) :
    ∀ g ∈ run, g.before.CoherentAndIdle ∧ g.before.kindOf channel = some kind ∧
      ∃ m : Move, m.step g.before = (g.note, g.after) := by
  induction hr generalizing fetched posted with
  | done s => simp
  | move s m run t stays fine alone rest ih =>
    intro g hg
    rcases List.mem_cons.1 hg with rfl | hg
    · obtain ⟨c, hc, hrec⟩ := h
      refine ⟨hs, ?_, m, rfl⟩
      rw [kindOf_of_getElem? hc, hrec.kind]
    · exact ih (hs.step m) (h.step stays fine alone) g hg

theorem CoherentAndIdle.records_init {s₀ s : System} (hs : s₀.CoherentAndIdle) {channel : Nat}
    (there : channel < s₀.channels.length) {config : ChannelConfig}
    (opened : Move.step s₀ (.init channel config) = (.changed channel (.ok ()), s))
    (apart : ∀ c, s.channels[channel]? = some c → c.recorder.Apart s.files) :
    ∃ kind, s.Records channel kind (config.input?, config.output?) [] [] := by
  have hget := List.getElem?_eq_getElem there
  rw [Move.step, changeChannel_of_getElem? hget] at opened
  have ht := hs.idleIfClosed _ (List.getElem_mem there)
  generalize hr : s₀.channels[channel].init s₀.files config = r at opened
  obtain ⟨result, d, fs'⟩ := r
  cases opened
  have hd := List.getElem?_set_self (a := d) there
  obtain ⟨ho, gs, hstart⟩ := Channel.init_eq_ok ht hr
  obtain ⟨hkeeps, hlogs⟩ := Recorder.keeps_start hstart (apart d hd)
  exact ⟨d.kind, d, hd, ho, rfl, hlogs, hkeeps⟩

theorem OpenRun.outletOf {s t : System} {channel : Nat} {run : List RunStep} (hr : OpenRun channel s run t)
    (hs : s.CoherentAndIdle) (h : s.Records channel kind logs fetched posted) :
    ∀ g ∈ run, g.before.outletOf channel = s.outletOf channel := by
  intro g hg
  have hkind : s.kindOf channel = some kind := by
    obtain ⟨c, hc, hrec⟩ := h
    rw [kindOf_of_getElem? hc, hrec.kind]
  exact outletOf_congr ((hr.each hs h g hg).2.1.trans hkind.symm)

theorem Records.closed {t u : System} {channel : Nat} (h : t.Records channel kind logs fetched posted)
    (hc : Move.step t (.close channel) = (.changed channel (.ok ()), u)) :
    (∀ f, logs.1 = some f → u.files.read f = .ok (logBytes fetched)) ∧
      ∀ f, logs.2 = some f → u.files.read f = .ok (logBytes posted) := by
  obtain ⟨c, hget, hrec⟩ := h
  rw [Move.step, changeChannel_of_getElem? hget] at hc
  generalize hr : c.close t.files = r at hc
  obtain ⟨result, d, fs'⟩ := r
  cases hc
  exact hrec.close hr

/-- What is left of a run in which a channel was open: each log is read back as what went through, each posted event
was sent on, and each fetched event came from the hub under the name of its sink. -/
structure RoundTripLaws (channel : Nat) (config : ChannelConfig) (s : System) (run : List RunStep) (u : System) :
    Prop where
  output : ∀ f, config.output? = some f →
    Log.read u.files f = .ok ((postedOn channel run).map fun e => (Record.ofEvent e).kept)
  input : ∀ f, config.input? = some f →
    Log.read u.files f = .ok ((fetchedBy channel run).map fun e => (Record.ofEvent e).kept)
  handed : ∀ g ∈ run, ∀ e ∈ g.note.postedOn channel, ∀ outlet, s.outletOf channel = some outlet →
    g.before.SendsOn outlet e g.after
  collected : ∀ id, s.outletOf channel = some (.collector id) → id < s.collectors.length →
    (∀ g ∈ run, ∀ other, other ≠ channel → g.before.outletOf other = some (.collector id) →
      g.note.postedOn other = []) →
    u.collected id = s.collected id ++ postedOn channel run
  offered : ∀ g ∈ run, ∀ e ∈ g.note.fetchedBy channel, g.before.Offers channel e

theorem read_logBytes {fs : FileSystem} {f : FileName} {es : List Event}
    (plain : ∀ e ∈ es, (Record.ofEvent e).Plain) (h : fs.read f = .ok (logBytes es)) :
    Log.read fs f = .ok (es.map fun e => (Record.ofEvent e).kept) := by
  have hp : ∀ r ∈ es.map Record.ofEvent, r.Returns := by
    intro r hr
    obtain ⟨e, he, rfl⟩ := List.mem_map.1 hr
    exact (plain e he).returns
  rw [Log.read_of_returns hp h, List.map_map]
  rfl

/-- The only one who posts with this outlet sends whatever the collector is sent. -/
theorem sentTo_eq_postedOn {s : System} {channel id : Nat} {note : Note}
    (ho : s.outletOf channel = some (.collector id))
    (alone : ∀ other, other ≠ channel → s.outletOf other = some (.collector id) →
      note.postedOn other = []) : note.sentTo s id = note.postedOn channel := by
  cases note with
  | posted c e outcome =>
    cases outcome with
    | error err => rfl
    | ok u =>
      by_cases hc : c = channel
      · subst hc
        rw [Note.sentTo, if_pos ho, Note.postedOn, if_pos rfl]
      · rw [Note.sentTo, Note.postedOn, if_neg hc, if_neg]
        intro hs
        have hn := alone c hc hs
        rw [Note.postedOn, if_pos rfl] at hn
        cases hn
  | _ => rfl

theorem hands_step {s : System} {m : Move} {channel : Nat} {e : Event} {outlet : Outlet}
    (ho : s.outletOf channel = some outlet) (he : e ∈ (m.step s).1.postedOn channel) :
    SendsOn s outlet e (m.step s).2 := by
  cases m with
  | onHubs m =>
    rw [Move.step, postedOn_stepOnHubs] at he
    cases he
  | post c e' =>
    have hr : (s.post c e').1 = .ok () ∧ c = channel ∧ e = e' := by
      rw [Move.step] at he
      dsimp only at he
      generalize (s.post c e').1 = r at he ⊢
      cases r with
      | error err => cases he
      | ok u =>
        rw [Note.postedOn] at he
        split at he
        · rename_i hc
          exact ⟨rfl, hc, List.mem_singleton.1 he⟩
        · cases he
    obtain ⟨hok, rfl, rfl⟩ := hr
    exact hands_post hok ho
  | _ => cases he

/-- Whatever is done from the opening of a channel to its closing, as long as its recordings do not fail and
nobody else touches its logs: they are read back as what went through the channel, and what was posted was
sent on. -/
theorem recording_round_trip {files : FileSystem} {s₀ s t u : System} {channel : Nat}
    {config : ChannelConfig} {run : List RunStep} (possible : Possible files s₀)
    (there : channel < s₀.channels.length)
    (opened : Move.step s₀ (.init channel config) = (.changed channel (.ok ()), s))
    (apart : ∀ c, s.channels[channel]? = some c → c.recorder.Apart s.files)
    (openRun : OpenRun channel s run t)
    (closed : Move.step t (.close channel) = (.changed channel (.ok ()), u))
    (plain : ∀ e ∈ postedOn channel run ++ fetchedBy channel run, (Record.ofEvent e).Plain) :
    RoundTripLaws channel config s run u := by
  obtain ⟨kind, hstart⟩ := possible.coherentAndIdle.records_init there opened apart
  have hregular : s.CoherentAndIdle := by
    have h := possible.coherentAndIdle.step (.init channel config)
    rw [opened] at h
    exact h
  have heach := openRun.each hregular hstart
  have hend := openRun.records hstart
  rw [List.nil_append, List.nil_append] at hend
  obtain ⟨hin, hout⟩ := hend.closed closed
  have houtlet := openRun.outletOf hregular hstart
  refine ⟨?_, ?_, ?_, ?_, ?_⟩
  · intro f hf
    exact read_logBytes (fun e he => plain e (List.mem_append_left _ he)) (hout f hf)
  · intro f hf
    exact read_logBytes (fun e he => plain e (List.mem_append_right _ he)) (hin f hf)
  · intro g hg e he outlet ho
    obtain ⟨-, -, m, hm⟩ := heach g hg
    have h := hands_step (m := m) ((houtlet g hg).trans ho) (by rw [hm]; exact he)
    rw [hm] at h
    exact h
  · intro id ho hl alone
    have hclose : u.collectors = t.collectors :=
      (congrArg (fun r => r.2.collectors) closed).symm.trans (collectors_changeChannel t channel Channel.close)
    rw [collected_congr hclose]
    exact openRun.collected hl fun g hg =>
      sentTo_eq_postedOn ((houtlet g hg).trans ho) (alone g hg)
  · intro g hg e he
    obtain ⟨hreg, -, m, hm⟩ := heach g hg
    exact hreg.offers_step (m := m) (by rw [hm]; exact he)

def nullEvent : Event := ⟨anEvent.id, some .null, .data, none⟩

def opening : List Move :=
  [.onHubs .makeFlag, .onHubs (.makeHub "h" 0), .onHubs (.addSink 0 ⟨some⟩), .makeCollector false,
   .makeHubChannel "c" 0 0 (.collector 0), .onHubs (.publish 0 nullEvent)]

def twoLogs : ChannelConfig := ⟨⟨"in.log"⟩, ⟨"out.log"⟩, true⟩

def inputStream : Stream := ⟨⟨"in.log"⟩, true, .onto ⟨.file 0, 0⟩, 0⟩

def outputStream : Stream := ⟨⟨"out.log"⟩, true, .onto ⟨.file 1, 0⟩, 0⟩

def beforeOpening : System := (empty .fresh).ran opening

def afterOpening : System := (Move.step beforeOpening (.init 0 twoLogs)).2

def movesThroughRefusal : List Move :=
  [.onHubs (.call (.fetchFrom 0 .any .noWait)), .onHubs (.publish 0 nullEvent), .flush 0, .post 0 nullEvent]

theorem recorder_afterOpening :
    afterOpening.channels[0]?.map Channel.recorder = some ⟨some inputStream, some outputStream⟩ := by
  rfl

theorem placeOf?_afterOpening (name : String) (h : name ∈ ["in.log", "in.log.tmp", "out.log", "out.log.tmp"]) :
    afterOpening.files.placeOf? ⟨name⟩ = some ["tmp", "work", name] := by
  simp only [List.mem_cons, List.not_mem_nil, or_false] at h
  rcases h with rfl | rfl | rfl | rfl
  · rfl
  · rfl
  · rfl
  · rfl

theorem apart_afterOpening (c : Channel) (hc : afterOpening.channels[0]? = some c) :
    c.recorder.Apart afterOpening.files := by
  have hr := recorder_afterOpening
  rw [hc] at hr
  have hr : c.recorder = ⟨some inputStream, some outputStream⟩ := Option.some.inj hr
  rw [hr]
  refine ⟨?_, ?_, ?_⟩
  · intro s hs
    cases hs
    refine ⟨0, ["tmp", "work", "in.log.tmp"], rfl, by decide, ⟨⟨["tmp", "work"], _, rfl, rfl, by decide⟩, rfl⟩, ?_⟩
    rfl
  · intro s hs
    cases hs
    refine ⟨1, ["tmp", "work", "out.log.tmp"], rfl, by decide, ⟨⟨["tmp", "work"], _, rfl, rfl, by decide⟩, rfl⟩, ?_⟩
    rfl
  · intro s t hs ht
    cases hs
    cases ht
    refine ⟨by decide, ?_⟩
    intro f hf g hg
    have hf : f = ⟨"in.log.tmp"⟩ ∨ f = ⟨"in.log"⟩ := by
      rcases List.mem_cons.1 hf with rfl | hf
      · exact .inl rfl
      · exact .inr (List.mem_singleton.1 hf)
    have hg : g = ⟨"out.log.tmp"⟩ ∨ g = ⟨"out.log"⟩ := by
      rcases List.mem_cons.1 hg with rfl | hg
      · exact .inl rfl
      · exact .inr (List.mem_singleton.1 hg)
    rcases hf with rfl | rfl <;> rcases hg with rfl | rfl <;>
      exact FileSystem.separate_of_places (placeOf?_afterOpening _ (by decide))
        (placeOf?_afterOpening _ (by decide)) ⟨by decide, by decide⟩

theorem spared_refl (r : Recorder) (fs : FileSystem) : r.Spared fs fs :=
  fun _ _ => ⟨rfl, rfl, fun _ _ => rfl, fun _ _ h => h, fun _ _ => rfl⟩

theorem openRun_afterOpening :
    OpenRun 0 afterOpening (afterOpening.runSteps movesThroughRefusal) (afterOpening.ran movesThroughRefusal) := by
  refine .move _ _ _ _ id id (fun h => absurd ⟨.any, .noWait, rfl⟩ h) ?_
  refine .move _ _ _ _ id id (fun _ c _ => spared_refl c.recorder _) ?_
  refine .move _ _ _ _ id id (fun h => absurd rfl h) ?_
  refine .move _ _ _ _ id id (fun h => absurd rfl h) ?_
  exact .done _

theorem recording_round_trip_throughRefusal :
    ∃ run u, RoundTripLaws 0 twoLogs afterOpening run u ∧ postedOn 0 run = [nullEvent] ∧
      fetchedBy 0 run = [nullEvent] ∧ u.collected 0 = [nullEvent] := by
  have hposted : postedOn 0 (afterOpening.runSteps movesThroughRefusal) = [nullEvent] := rfl
  have hfetched : fetchedBy 0 (afterOpening.runSteps movesThroughRefusal) = [nullEvent] := rfl
  have hplain : (Record.ofEvent nullEvent).Plain := by
    intro v hv
    cases hv
    exact ⟨trivial, trivial⟩
  have hcollected : (afterOpening.ran movesThroughRefusal).collected 0 = [nullEvent] := rfl
  refine ⟨_, (Move.step (afterOpening.ran movesThroughRefusal) (.close 0)).2, ?_, hposted, hfetched,
    (collected_congr (collectors_changeChannel _ 0 Channel.close) 0).trans hcollected⟩
  have hopened : Move.step beforeOpening (.init 0 twoLogs) = (.changed 0 (.ok ()), afterOpening) :=
    Prod.ext rfl rfl
  have hclosed : (Move.step (afterOpening.ran movesThroughRefusal) (.close 0)).1 = .changed 0 (.ok ()) := rfl
  refine recording_round_trip (Possible.start.ran opening) (by decide) hopened apart_afterOpening
    openRun_afterOpening (Prod.ext hclosed rfl) ?_
  rw [hposted, hfetched]
  intro e he
  rcases List.mem_cons.1 he with rfl | he
  · exact hplain
  · rw [List.mem_singleton.1 he]
    exact hplain

end System
end EventHub
