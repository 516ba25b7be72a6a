import EventHub.Proofs.System.Effect
import EventHub.Proofs.System.OpenRun
import EventHub.Session.Run
set_option autoImplicit false

/-!
What a session does to its system are moves, so whatever holds of all possible systems holds of a session's.
-/
namespace EventHub

theorem Channel.close_of_isOpen {c : Channel} (h : c.isOpen = true) (fs : FileSystem) :
    (c.close fs).2.1 = { c with isOpen := false, recorder := .idle } := by
  have hi := finish_idle c.recorder fs
  rw [close, if_pos h]
  generalize c.recorder.finish fs = r at hi
  obtain ⟨_ | _, recorder, fs'⟩ := r
  · exact congrArg (fun recorder => { c with isOpen := false, recorder := recorder }) hi
  · exact congrArg (fun recorder => { c with isOpen := false, recorder := recorder }) hi

/-- The answer that a session gives where a move lets something be seen. -/
def Note.answer? : Note → Option (Except SessionError Answer)
  | .quiet => none
  | .published _ _ taken => some (.ok (.yes taken))
  | .returned _ r => some (Session.ofReply r)
  | .changed _ outcome => some ((outcome.map fun _ => .ok).mapError .channel)
  | .posted _ _ outcome => some ((outcome.map fun _ => .ok).mapError .channel)

namespace System

def answers (s : System) (ms : List Move) : List (Except SessionError Answer) :=
  (s.runSteps ms).filterMap fun g => g.note.answer?

theorem answers_cons (s : System) (m : Move) (ms : List Move) :
    s.answers (m :: ms) = (m.step s).1.answer?.toList ++ (m.step s).2.answers ms := by
  rw [answers, runSteps, List.filterMap_cons]
  cases (m.step s).1.answer? <;> rfl

theorem answers_append (s : System) (ms ns : List Move) :
    s.answers (ms ++ ns) = s.answers ms ++ (s.ran ms).answers ns := by
  induction ms generalizing s with
  | nil => rfl
  | cons m ms ih => rw [List.cons_append, answers_cons, answers_cons, ih, List.append_assoc, ran]

theorem answers_singleton (s : System) (m : Move) : s.answers [m] = (m.step s).1.answer?.toList := by
  rw [answers_cons]
  exact List.append_nil _

theorem wokenUnder_of_find? {s : System} {p : Sleeper} (h : s.sleepers.find? Sleeper.awake = some p) :
    s.wokenUnder p.handle = some p := by
  obtain ⟨hp, as, bs, hs, ha⟩ := List.find?_eq_some_iff_append.1 h
  refine List.find?_eq_some_iff_append.2 ⟨by simp [hp], as, bs, hs, fun q hq => ?_⟩
  have hq' : q.awake = false := by simpa using ha q hq
  simp [hq']

def resumptions (handles : List Nat) : List Move := handles.map fun handle => .onHubs (.resume handle)

theorem resumptions_cons (handle : Nat) (handles : List Nat) :
    resumptions (handle :: handles) = .onHubs (.resume handle) :: resumptions handles := rfl

theorem settleWithin_woken {s : System} {p : Sleeper} (hp : s.sleepers.find? Sleeper.awake = some p) (fuel : Nat) :
    settleWithin (fuel + 1) s =
      (((s.resume p).1.map fun r => (p.handle, r)).toList ++ (settleWithin fuel (s.resume p).2).1,
       (settleWithin fuel (s.resume p).2).2) := by
  rw [settleWithin, hp]
  dsimp only
  generalize s.resume p = r
  obtain ⟨_ | r, t⟩ := r <;> rfl

theorem settleWithin_ran (fuel : Nat) (s : System) :
    ∃ handles, (settleWithin fuel s).2 = s.ran (resumptions handles) ∧
      s.answers (resumptions handles) = (settleWithin fuel s).1.map fun r => Session.ofReply r.2 := by
  induction fuel generalizing s with
  | zero => exact ⟨[], rfl, rfl⟩
  | succ fuel ih =>
    cases hp : s.sleepers.find? Sleeper.awake with
    | none =>
      rw [settleWithin, hp]
      exact ⟨[], rfl, rfl⟩
    | some p =>
      have hstep : Move.step s (.onHubs (.resume p.handle)) = (.ofCall p.call (s.resume p).1, (s.resume p).2) := by
        rw [Move.step, HubMove.step, wokenUnder_of_find? hp]
      obtain ⟨handles, ht, ha⟩ := ih (s.resume p).2
      refine ⟨p.handle :: handles, ?_, ?_⟩
      · rw [settleWithin_woken hp, ht, resumptions_cons, ran, hstep]
      · rw [settleWithin_woken hp, resumptions_cons, answers_cons, hstep, ha, List.map_append]
        cases (s.resume p).1 <;> rfl

theorem settle_ran (s : System) :
    ∃ handles, s.settle.2 = s.ran (resumptions handles) ∧
      (s.settle.1.map fun r => Session.ofReply r.2).Perm (s.answers (resumptions handles)) := by
  obtain ⟨handles, ht, ha⟩ := settleWithin_ran s.settleBound s
  refine ⟨handles, ht, ?_⟩
  rw [ha]
  exact (List.mergeSort_perm _ _).map _

end System

namespace Session

/-- Names of flags and hubs lead to what is there. -/
structure WellNamed (s : Session) : Prop where
  flags : ∀ n ∈ s.flags, n.2 < s.system.flags.length
  hubs : ∀ n ∈ s.hubs, n.2 < s.system.hubs.length

theorem wellNamed_empty (files : FileSystem) : (empty files).WellNamed :=
  ⟨fun _ hn => absurd hn List.not_mem_nil, fun _ hn => absurd hn List.not_mem_nil⟩

theorem mem_of_find {α : Type} {kind : Named} {key : String} {names : List (String × α)} {a : α}
    (h : find kind key names = .ok a) : (key, a) ∈ names := by
  unfold find at h
  split at h
  · rename_i hl
    cases h
    obtain ⟨as, bs, rfl, -⟩ := List.lookup_eq_some_iff.1 hl
    exact List.mem_append_right as List.mem_cons_self
  · cases h

theorem mem_name {α : Type} {key : String} {a : α} {names : List (String × α)} {n : String × α}
    (h : n ∈ name key a names) : n ∈ names ∨ n.2 = a := by
  rcases List.mem_cons.1 h with rfl | h
  · exact .inr rfl
  · exact .inl (List.mem_filter.1 h).1

theorem WellNamed.flagId {s : Session} (hs : s.WellNamed) {key : String} {id : Nat} (h : s.flagId key = .ok id) :
    id < s.system.flags.length := hs.flags _ (mem_of_find h)

theorem WellNamed.hubId {s : Session} (hs : s.WellNamed) {key : String} {id : Nat} (h : s.hubId key = .ok id) :
    id < s.system.hubs.length := hs.hubs _ (mem_of_find h)

/-- Between two states of a session the system made the moves; what got a name meanwhile is there. -/
structure MovesTo (s : Session) (ms : List Move) (t : Session) : Prop where
  system : t.system = s.system.ran ms
  flags : ∀ n ∈ t.flags, n ∈ s.flags ∨ n.2 < t.system.flags.length
  hubs : ∀ n ∈ t.hubs, n ∈ s.hubs ∨ n.2 < t.system.hubs.length

variable {s t u : Session} {ms ns : List Move}

theorem MovesTo.of_names (system : t.system = s.system.ran ms) (flags : t.flags = s.flags) (hubs : t.hubs = s.hubs) :
    MovesTo s ms t :=
  ⟨system, fun _ hn => .inl (flags ▸ hn), fun _ hn => .inl (hubs ▸ hn)⟩

theorem MovesTo.refl (s : Session) : MovesTo s [] s := .of_names rfl rfl rfl

theorem MovesTo.trans (h : MovesTo s ms t) (k : MovesTo t ns u) : MovesTo s (ms ++ ns) u where
  system := by rw [System.ran_append, ← h.system, k.system]
  flags n hn := by
    have hl := System.length_flags_ran t.system ns
    rw [← k.system] at hl
    rcases k.flags n hn with hn | hn
    · exact (h.flags n hn).imp_right fun hn => Nat.lt_of_lt_of_le hn hl
    · exact .inr hn
  hubs n hn := by
    have hl := System.length_hubs_ran t.system ns
    rw [← k.system] at hl
    rcases k.hubs n hn with hn | hn
    · exact (h.hubs n hn).imp_right fun hn => Nat.lt_of_lt_of_le hn hl
    · exact .inr hn

theorem MovesTo.wellNamed (h : MovesTo s ms t) (hs : s.WellNamed) : t.WellNamed where
  flags n hn := by
    have hl := System.length_flags_ran s.system ms
    rw [← h.system] at hl
    exact (h.flags n hn).elim (fun hn => Nat.lt_of_lt_of_le (hs.flags n hn) hl) id
  hubs n hn := by
    have hl := System.length_hubs_ran s.system ms
    rw [← h.system] at hl
    exact (h.hubs n hn).elim (fun hn => Nat.lt_of_lt_of_le (hs.hubs n hn) hl) id

/-- What was asked of a session was done by moves, and if they let anything be seen, that is the answer. -/
inductive Performed (s : Session) (r : Result) : Prop where
  | done (ms : List Move) (moves : MovesTo s ms r.2) (answer : ∀ a ∈ s.system.answers ms, a = r.1)

theorem performed_still (s : Session) (a : Except SessionError Answer) : Performed s (a, s) :=
  .done [] (.refl s) fun _ ha => absurd ha List.not_mem_nil

theorem performed_shown {r : Result} (m : Move) {n : Note} (step : m.step s.system = (n, r.2.system))
    (flags : r.2.flags = s.flags) (hubs : r.2.hubs = s.hubs) (shown : n.answer? = some r.1) : Performed s r := by
  refine .done [m] (.of_names (congrArg Prod.snd step).symm flags hubs) fun a ha => ?_
  rw [System.answers_singleton, step] at ha
  exact Option.some.inj ((Option.mem_toList.1 ha).symm.trans shown)

/-- A move of which nothing is seen leaves it to the session what it answers. -/
theorem performed_quiet {r : Result} (m : Move) (step : m.step s.system = (.quiet, r.2.system))
    (flags : r.2.flags = s.flags) (hubs : r.2.hubs = s.hubs) : Performed s r := by
  refine .done [m] (.of_names (congrArg Prod.snd step).symm flags hubs) fun a ha => ?_
  rw [System.answers_singleton, step] at ha
  exact absurd ha List.not_mem_nil

theorem performed_files (r : Result) (files : FileSystem) (system : r.2.system = { s.system with files := files })
    (flags : r.2.flags = s.flags) (hubs : r.2.hubs = s.hubs) : Performed s r :=
  performed_quiet (.disturb files) (congrArg (Prod.mk Note.quiet) system.symm) flags hubs

theorem performed_tryThen {α : Type} {first : Except SessionError α} {next : α → Result}
    (h : ∀ a, first = .ok a → Performed s (next a)) : Performed s (s.tryThen first next) := by
  unfold tryThen
  split
  · exact performed_still s _
  · exact h _ rfl

theorem Performed.after {r : Result} (h : MovesTo s ms t) (quiet : s.system.answers ms = [])
    (k : Performed t r) : Performed s r := by
  obtain ⟨ns, moves, answer⟩ := k
  refine .done (ms ++ ns) (h.trans moves) fun a ha => answer a ?_
  rw [h.system]
  rwa [System.answers_append, quiet] at ha

theorem performed_call (s : Session) (maySleep : Bool) (c : Call) : Performed s (s.call maySleep c) := by
  have hs : Move.step s.system (.onHubs (.call c)) =
      (.ofCall c (s.system.start c).2.1.reply?, (s.system.start c).2.2) := rfl
  rw [call]
  generalize s.system.start c = r at hs
  obtain ⟨handle, _ | _, system⟩ := r
  · exact performed_shown _ hs rfl rfl rfl
  · exact performed_quiet _ hs rfl rfl

theorem performed_onChannel (s : Session) (key : String)
    {change : Channel → FileSystem → Except ChannelError Unit × Channel × FileSystem} {m : Nat → Move}
    (hm : ∀ id, (m id).step s.system =
      (.changed id (s.system.changeChannel id change).1, (s.system.changeChannel id change).2)) :
    Performed s (s.onChannel key change) := by
  refine performed_tryThen fun id _ => ?_
  have hs := hm id
  generalize s.system.changeChannel id change = r at hs
  obtain ⟨_ | _, system⟩ := r
  · exact performed_shown _ hs rfl rfl rfl
  · exact performed_shown _ hs rfl rfl rfl

theorem performed_onRecorder (s : Session) (key : String)
    (change : Recorder → FileSystem → Except RecordingError Answer × Recorder × FileSystem) :
    Performed s (s.onRecorder key change) := by
  refine performed_tryThen fun r _ => ?_
  exact performed_files _ (change r s.system.files).2.2 rfl rfl rfl

theorem performed_keepStream (s : Session) (key : String) (r : Except RecordingError Unit × Stream × FileSystem)
    (answer : Stream → Answer) : Performed s (s.keepStream key r answer) := by
  obtain ⟨_ | _, stream, files⟩ := r
  · exact performed_files _ files rfl rfl rfl
  · exact performed_files _ files rfl rfl rfl

theorem performed_onFiles (s : Session) (r : Except OsError Unit × FileSystem) : Performed s (s.onFiles r) :=
  performed_files _ r.2 rfl rfl rfl

theorem performed_startStream (s : Session) (key : String) (file : FileName) (temporary : Bool) :
    Performed s (s.startStream key file temporary) := by
  unfold startStream
  split
  · rename_i files _
    exact performed_files _ files rfl rfl rfl
  · rename_i stream files _
    exact performed_files _ (Recorder.dropOptional (s.streams.lookup key) files) rfl rfl rfl

theorem movesTo_addFlag (s : Session) (key : String) :
    MovesTo s [.onHubs .makeFlag]
      { s.withSystem s.system.addFlag.2 with flags := name key s.system.addFlag.1 s.flags } where
  system := rfl
  flags n hn := by
    refine (mem_name hn).imp_right fun h => ?_
    rw [h]
    simp [withSystem, System.addFlag]
  hubs _ hn := .inl hn

theorem performed_makeFlag (s : Session) (key : String) : Performed s (s.makeFlag key) :=
  .done _ (movesTo_addFlag s key) fun _ ha => absurd ha List.not_mem_nil

theorem performed_addHub {flag : Nat} (there : flag < s.system.flags.length) (key : String)
    (a : Except SessionError Answer) :
    Performed s (a, { s.withSystem (s.system.addHub key flag).2 with
      hubs := name key (s.system.addHub key flag).1 s.hubs }) := by
  refine .done [.onHubs (.makeHub key flag)] ⟨?_, fun _ hn => .inl hn, fun n hn => ?_⟩ fun _ ha =>
    absurd ha List.not_mem_nil
  · exact (if_pos there).symm
  · refine (mem_name hn).imp_right fun h => ?_
    rw [h]
    simp [withSystem, System.addHub]

theorem WellNamed.performed_makeHub (hs : s.WellNamed) (key : String) (flag : Option String) :
    Performed s (s.makeHub key flag) := by
  cases flag with
  | some flagKey => exact performed_tryThen fun flag hf => performed_addHub (hs.flagId hf) key _
  | none =>
    refine .after (movesTo_addFlag s (ownFlagName key)) rfl ?_
    exact performed_addHub (by simp [withSystem, System.addFlag]) key _

theorem movesTo_optionalOutletOf {text : Option OutletText} {outlet : Option Outlet}
    (h : s.optionalOutletOf text = .ok (outlet, t)) : ∃ ms, MovesTo s ms t ∧ s.system.answers ms = [] := by
  cases text with
  | none =>
    cases h
    exact ⟨[], .refl s, rfl⟩
  | some text =>
    cases text with
    | hub key =>
      rw [optionalOutletOf, outletOf] at h
      cases hid : s.hubId key with
      | error e =>
        rw [hid] at h
        cases h
      | ok id =>
        rw [hid] at h
        cases h
        exact ⟨[], .refl s, rfl⟩
    | collector key accepts =>
      cases h
      exact ⟨[.makeCollector accepts], .of_names rfl rfl rfl, rfl⟩

theorem WellNamed.performed_makeChannel (hs : s.WellNamed) (key : String) (kind : ChannelText)
    (outlet : Option OutletText) : Performed s (s.makeChannel key kind outlet) := by
  refine performed_tryThen fun r hr => ?_
  obtain ⟨outlet, t⟩ := r
  obtain ⟨ms, moves, quiet⟩ := movesTo_optionalOutletOf hr
  refine .after moves quiet ?_
  cases kind with
  | plain => exact performed_quiet (.makeChannel key outlet) rfl rfl rfl
  | bare => exact performed_quiet (.makeBareChannel key) rfl rfl rfl
  | ofHub hubKey sink =>
    refine performed_tryThen fun hub hh => ?_
    have there := (moves.wellNamed hs).hubId hh
    exact performed_quiet (.makeHubChannel key hub sink (outlet.getD (.hub hub)))
      (congrArg (Prod.mk Note.quiet) (if_pos there)) rfl rfl

theorem performed_post (s : Session) (id : Nat) (e : Event) :
    Performed s
      (match s.system.post id e with
       | (.error err, system) => (.error (.channel err), s.withSystem system)
       | (.ok (), system) => (.ok .ok, s.withSystem system)) := by
  have hs : Move.step s.system (.post id e) = (.posted id e (s.system.post id e).1, (s.system.post id e).2) := rfl
  generalize s.system.post id e = r at hs
  obtain ⟨_ | _, system⟩ := r
  · exact performed_shown _ hs rfl rfl rfl
  · exact performed_shown _ hs rfl rfl rfl

theorem performed_attach {flag : Nat} (there : flag < s.system.flags.length) (id : Nat) (asynchronous : Bool) :
    Performed s
      (match s.system.attach id flag asynchronous with
       | (.error err, system) => (.error (.channel err), s.withSystem system)
       | (.ok bit, system) => (.ok (.bit bit), s.withSystem system)) := by
  have hs : Move.step s.system (.attach id flag asynchronous) = (.quiet, (s.system.attach id flag asynchronous).2) := by
    rw [Move.step, if_pos there]
  generalize s.system.attach id flag asynchronous = r at hs
  obtain ⟨_ | _, system⟩ := r
  · exact performed_quiet _ hs rfl rfl
  · exact performed_quiet _ hs rfl rfl

theorem WellNamed.performed (hs : s.WellNamed) (c : Command) : Performed s (s.perform c) := by
  cases c with
  | makeFlag key => exact performed_makeFlag s key
  | addSource key asynchronous =>
    exact performed_tryThen fun id _ => performed_quiet (.onHubs (.addSource id asynchronous)) rfl rfl rfl
  | raise key bit => exact performed_tryThen fun id _ => performed_quiet (.onHubs (.raise id bit)) rfl rfl rfl
  | clear key bit => exact performed_tryThen fun id _ => performed_quiet (.onHubs (.clear id bit)) rfl rfl rfl
  | flagState key => exact performed_tryThen fun id _ => performed_still s _
  | waitForFlag key => exact performed_tryThen fun id _ => performed_call s true _
  | makeHub key flag => exact hs.performed_makeHub key flag
  | hubState key =>
    refine performed_tryThen fun id _ => ?_
    split <;> exact performed_still s _
  | addSink key text =>
    refine performed_tryThen fun id _ => performed_tryThen fun sink _ => ?_
    exact performed_quiet (.onHubs (.addSink id sink)) rfl rfl rfl
  | isBound key text => exact performed_tryThen fun id _ => performed_tryThen fun p _ => performed_still s _
  | publish key text =>
    refine performed_tryThen fun id _ => performed_tryThen fun e _ => ?_
    exact performed_shown (.onHubs (.publish id e)) rfl rfl rfl rfl
  | notify key => exact performed_tryThen fun id _ => performed_quiet (.onHubs (.notify id)) rfl rfl rfl
  | stop key => exact performed_tryThen fun id _ => performed_quiet (.onHubs (.stop id)) rfl rfl rfl
  | ask key maskText modeText sink take =>
    refine performed_tryThen fun id _ => performed_tryThen fun m _ => performed_tryThen fun w _ => ?_
    exact performed_call s _ _
  | probe key maskText sink =>
    refine performed_tryThen fun id _ => performed_tryThen fun m _ => ?_
    exact performed_shown (.onHubs (.probe id m sink)) rfl rfl rfl rfl
  | makeChannel key kind outlet => exact hs.performed_makeChannel key kind outlet
  | init key config => exact performed_onChannel s key (m := fun id => .init id config) fun _ => rfl
  | close key => exact performed_onChannel s key (m := .close) fun _ => rfl
  | abort key => exact performed_onChannel s key (m := .abort) fun _ => rfl
  | flush key => exact performed_onChannel s key (m := .flush) fun _ => rfl
  | post key text => exact performed_tryThen fun id _ => performed_tryThen fun e _ => performed_post s id e
  | attach key flagKey asynchronous =>
    refine performed_tryThen fun id _ => performed_tryThen fun flag hf => ?_
    exact performed_attach (hs.flagId hf) id asynchronous
  | fetch key maskText modeText =>
    refine performed_tryThen fun id _ => performed_tryThen fun m _ => performed_tryThen fun w _ => ?_
    exact performed_call s _ _
  | waitOn key modeText =>
    exact performed_tryThen fun id _ => performed_tryThen fun w _ => performed_call s _ _
  | hasEvent key maskText =>
    refine performed_tryThen fun id _ => performed_tryThen fun m _ => ?_
    exact performed_quiet (.hasEvent id m) rfl rfl rfl
  | isChannelBound key text => exact performed_tryThen fun id _ => performed_tryThen fun p _ => performed_still s _
  | raiseOwn key => exact performed_tryThen fun id _ => performed_quiet (.raiseOwn id) rfl rfl rfl
  | clearOwn key => exact performed_tryThen fun id _ => performed_quiet (.clearOwn id) rfl rfl rfl
  | channelState key =>
    refine performed_tryThen fun id _ => ?_
    split <;> exact performed_still s _
  | collected key => exact performed_tryThen fun id _ => performed_still s _
  | makeRecorder key => exact performed_files _ _ rfl rfl rfl
  | startRecorder key config => exact performed_onRecorder s key fun r fs => okAfter (r.start fs config)
  | recordInput key text =>
    exact performed_tryThen fun _ _ => performed_tryThen fun e _ => performed_onRecorder s key _
  | recordOutput key text =>
    exact performed_tryThen fun _ _ => performed_tryThen fun e _ => performed_onRecorder s key _
  | flushRecorder key => exact performed_onRecorder s key fun r fs => okAfter (r.flush fs)
  | finishRecorder key =>
    exact performed_onRecorder s key fun r fs => ((r.finish fs).1.map .files, (r.finish fs).2)
  | discardRecorder key => exact performed_onRecorder s key fun r fs => okAfter (r.discard fs)
  | recorderState key => exact performed_tryThen fun r _ => performed_still s _
  | startStream key file temporary => exact performed_startStream s key file temporary
  | append key text =>
    exact performed_tryThen fun stream _ => performed_tryThen fun e _ => performed_keepStream s key _ _
  | streamWritten key => exact performed_tryThen fun stream _ => performed_still s _
  | flushStream key => exact performed_tryThen fun stream _ => performed_keepStream s key _ _
  | finishStream key =>
    exact performed_tryThen fun stream _ => performed_files _ (stream.finish s.system.files).2 rfl rfl rfl
  | discardStream key =>
    exact performed_tryThen fun stream _ => performed_files _ (stream.discard s.system.files).2 rfl rfl rfl
  | save file content => exact performed_onFiles s (s.system.files.save file content)
  | makeDirectory file => exact performed_onFiles s (s.system.files.makeDirectories file)
  | remove file => exact performed_onFiles s (s.system.files.removeAll file)
  | list => exact performed_still s _
  | tree => exact performed_still s _
  | read file =>
    rw [perform]
    split <;> exact performed_still s _
  | readLog file =>
    rw [perform]
    split <;> exact performed_still s _

theorem movesTo_settle (s : Session) :
    ∃ handles, MovesTo s (System.resumptions handles) (s.withSystem s.system.settle.2) ∧
      (s.system.settle.1.map fun r => ofReply r.2).Perm (s.system.answers (System.resumptions handles)) := by
  obtain ⟨handles, ht, ha⟩ := System.settle_ran s.system
  exact ⟨handles, .of_names ht rfl rfl, ha⟩

/-- A channel that is let go of is closed, and then the files are put as they are when nothing is finished. -/
theorem movesTo_releaseChannel (s : Session) (id : Nat) : ∃ ms, MovesTo s ms (s.releaseChannel id) := by
  unfold releaseChannel
  split
  · exact ⟨[], .refl s⟩
  · rename_i c hc
    split
    · rename_i hopen
      have ho : c.isOpen = true := by
        simp only [Bool.and_eq_true] at hopen
        exact hopen.1.1
      refine ⟨[.close id, .disturb (c.recorder.drop s.system.files)], .of_names ?_ rfl rfl⟩
      rw [← Channel.close_of_isOpen ho s.system.files]
      simp only [System.ran, Move.step, System.changeChannel, hc]
      rfl
    · exact ⟨[], .refl s⟩

theorem movesTo_foldl (change : Session → Nat → Session) (hc : ∀ s id, ∃ ms, MovesTo s ms (change s id))
    (ids : List Nat) (s : Session) : ∃ ms, MovesTo s ms (ids.foldl change s) := by
  induction ids generalizing s with
  | nil => exact ⟨[], .refl s⟩
  | cons id ids ih =>
    obtain ⟨ms, h⟩ := hc s id
    obtain ⟨ns, k⟩ := ih (change s id)
    exact ⟨ms ++ ns, h.trans k⟩

theorem movesTo_release (s : Session) : ∃ ms, MovesTo s ms s.release :=
  movesTo_foldl releaseChannel movesTo_releaseChannel _ s

/-- A command is carried out by moves, then those who were woken go on, then what no name leads to is let go
of. What the moves let be seen is the answer, and what those who go on are answered is what was woken. -/
structure Carried (s : Session) (c : Command) (ms : List Move) (handles : List Nat) (ns : List Move) : Prop where
  moves : MovesTo s (ms ++ System.resumptions handles ++ ns) (s.run c).2
  answer : ∀ a ∈ s.system.answers ms, a = (s.run c).1.result
  woke : ((s.run c).1.woke.map Prod.snd).Perm ((s.system.ran ms).answers (System.resumptions handles))

theorem run_eq (s : Session) (c : Command) :
    s.run c =
      let t := (s.perform c).2
      (⟨(s.perform c).1, t.system.settle.1.map fun r => (t.numberOf r.1, ofReply r.2)⟩,
       (t.withSystem t.system.settle.2).release) := rfl

theorem WellNamed.carried (hs : s.WellNamed) (c : Command) : ∃ ms handles ns, Carried s c ms handles ns := by
  obtain ⟨ms, performed, answer⟩ := hs.performed c
  obtain ⟨handles, settled, woke⟩ := movesTo_settle (s.perform c).2
  obtain ⟨ns, released⟩ := movesTo_release ((s.perform c).2.withSystem (s.perform c).2.system.settle.2)
  refine ⟨ms, handles, ns, (performed.trans settled).trans released, answer, ?_⟩
  rw [← performed.system, run_eq, List.map_map]
  exact woke

def runAll (s : Session) (cs : List Command) : Session := cs.foldl (fun s c => (s.run c).2) s

theorem WellNamed.runAll (hs : s.WellNamed) (cs : List Command) : ∃ ms, MovesTo s ms (s.runAll cs) := by
  induction cs generalizing s with
  | nil => exact ⟨[], .refl s⟩
  | cons c cs ih =>
    obtain ⟨ms, handles, ns, carried⟩ := hs.carried c
    obtain ⟨ms', rest⟩ := ih (carried.moves.wellNamed hs)
    exact ⟨_, carried.moves.trans rest⟩

/-- Whatever commands a session is given, what is proved of every possible system holds of its own. -/
theorem possible_runAll (files : FileSystem) (cs : List Command) :
    System.Possible files ((empty files).runAll cs).system := by
  obtain ⟨ms, moves⟩ := (wellNamed_empty files).runAll cs
  rw [moves.system]
  exact System.Possible.start.ran ms

end Session
end EventHub
