import EventHub.Proofs.Recording.Ending
import EventHub.Proofs.System.Lifecycle
import EventHub.Proofs.System.RoundTrip
set_option autoImplicit false

namespace EventHub

open FileSystem (Untouched)

variable {fs fs' : FileSystem} {f g : FileName} {h k : LogPlaces}

def namesOf (f g : FileName) : List FileName := [f, Stream.temporaryName f, g, Stream.temporaryName g]

theorem OwnLogs.untouched (own : OwnLogs fs f g h k) (alone : ∀ name ∈ namesOf f g, Untouched name fs fs') :
    Works fs f g h k fs' ∧ Works fs g f k h fs' ∧ SameLogs f g fs fs' := by
  have hplaces : ∀ p ∈ h.places ++ k.places, FileSystem.SameAt p fs fs' := by
    intro p hp
    simp only [LogPlaces.places, List.cons_append, List.nil_append, List.mem_cons, List.not_mem_nil, or_false] at hp
    rcases hp with rfl | rfl | rfl | rfl
    · exact (alone f (by simp [namesOf])).place _ own.input.final.placeOf?
    · exact (alone (Stream.temporaryName f) (by simp [namesOf])).place _ own.input.temporary.placeOf?
    · exact (alone g (by simp [namesOf])).place _ own.output.final.placeOf?
    · exact (alone (Stream.temporaryName g) (by simp [namesOf])).place _ own.output.temporary.placeOf?
  have own' : OwnLogs fs' f g h k := own.spared (fun name hn => (alone name hn).target) hplaces
  refine ⟨⟨own', fun p hp => hplaces p (List.mem_append_right _ hp)⟩,
    ⟨own'.symm, fun p hp => hplaces p (List.mem_append_left _ hp)⟩, ?_, ?_⟩
  · exact own.read_input own' (hplaces _ (by simp [LogPlaces.places]))
  · exact own.symm.read_input own'.symm (hplaces _ (by simp [LogPlaces.places]))

namespace Channel

variable {c d : Channel} {input output : Bytes}

structure Logged (c : Channel) (fs : FileSystem) (f g : FileName) (h k : LogPlaces) (input output : Bytes) :
    Prop where
  own : OwnLogs fs f g h k
  idleIfClosed : c.IdleIfClosed
  runs : c.isOpen = true → c.recorder.Runs fs f g h k input output

theorem logged_of_closed (own : OwnLogs fs f g h k) (ht : c.IdleIfClosed) (ho : c.isOpen = false) :
    c.Logged fs f g h k input output :=
  ⟨own, ht, fun h => by rw [ho] at h; cases h⟩

theorem logged_of_open (hr : c.recorder.Runs fs f g h k input output) (ho : c.isOpen = true) :
    c.Logged fs f g h k input output :=
  ⟨hr.own, idleIfClosed_of_isOpen ho, fun _ => hr⟩

theorem Logged.untouched (hc : c.Logged fs f g h k input output)
    (alone : ∀ name ∈ namesOf f g, Untouched name fs fs') (ho : d.isOpen = c.isOpen)
    (hr : d.recorder = c.recorder) : d.Logged fs' f g h k input output ∧ SameLogs f g fs fs' := by
  obtain ⟨hw, hw', hsame⟩ := hc.own.untouched alone
  refine ⟨⟨hw.own, fun hd => hr.trans (hc.idleIfClosed (ho.symm.trans hd)), fun hd => ?_⟩, hsame⟩
  rw [hr]
  exact (hc.runs (ho.symm.trans hd)).spared hw hw'

/-- A post is recorded, unless the channel is closed; then nothing happens. -/
theorem Logged.recordPost {posted : List Event} {e : Event}
    (hc : c.Logged fs f g h k input (System.logBytes posted)) (channel : Nat)
    (fine : ∀ cause, (c.recordPost fs e).1 ≠ .error (.recording cause)) :
    (c.recordPost fs e).2.1.Logged (c.recordPost fs e).2.2 f g h k input
        (System.logBytes (posted ++ (Note.posted channel e (c.recordPost fs e).1).postedOn channel)) ∧
      SameLogs f g fs (c.recordPost fs e).2.2 := by
  cases ho : c.isOpen with
  | false =>
    rw [recordPost_of_closed ho]
    have hn : (Note.posted channel e (.error (.closed c.name))).postedOn channel = [] := rfl
    rw [hn, List.append_nil]
    exact ⟨hc, rfl, rfl⟩
  | true =>
    generalize hp : c.recordPost fs e = r at fine
    obtain ⟨err | u, d, gs⟩ := r
    · rw [Channel.recordPost, if_pos ho] at hp
      obtain ⟨cause, rfl⟩ := recording_of_ofRecorder (congrArg Prod.fst hp)
      exact absurd rfl (fine cause)
    · rw [Channel.recordPost, if_pos ho] at hp
      obtain ⟨v, hr, hopen, -⟩ := ofRecorder_eq_ok hp
      obtain ⟨hruns, hsame⟩ := (hc.runs ho).recordOutput hr
      rw [← System.logBytes_append] at hruns
      rw [show (Note.posted channel e (.ok u)).postedOn channel = [e] from if_pos rfl]
      exact ⟨logged_of_open hruns (hopen.trans ho), hsame⟩

theorem Logged.recordFetch {fetched : List Event} {e : Event}
    (hc : c.Logged fs f g h k (System.logBytes fetched) output) (ho : c.isOpen = true)
    (hp : c.recordFetch fs e = (.ok (), d, fs')) :
    d.Logged fs' f g h k (System.logBytes (fetched ++ [e])) output ∧ SameLogs f g fs fs' := by
  obtain ⟨v, hr, hopen, -⟩ := ofRecorder_eq_ok hp
  obtain ⟨hruns, hsame⟩ := (hc.runs ho).recordInput hr
  rw [← System.logBytes_append] at hruns
  exact ⟨logged_of_open hruns (hopen.trans ho), hsame⟩

theorem files_ofRecorder (c : Channel) {α : Type} (r : Except RecordingError α × Recorder × FileSystem) :
    (c.ofRecorder r).2.2 = r.2.2 := by
  obtain ⟨e | a, r, fs⟩ := r
  · rfl
  · rfl

theorem Logged.flush (hc : c.Logged fs f g h k input output) :
    (c.flush fs).2.1.Logged (c.flush fs).2.2 f g h k input output ∧ SameLogs f g fs (c.flush fs).2.2 := by
  cases ho : c.isOpen with
  | false =>
    have hidle : c.flush fs = (.ok (), c, fs) := by
      obtain ⟨name, kind, isOpen, binding, recorder⟩ := c
      obtain rfl : recorder = .idle := hc.idleIfClosed ho
      rfl
    rw [hidle]
    exact ⟨hc, rfl, rfl⟩
  | true =>
    obtain ⟨hruns, hsame⟩ := (hc.runs ho).flush
    rw [Channel.flush, files_ofRecorder]
    refine ⟨logged_of_open ?_ ((isOpen_ofRecorder c _).trans ho), hsame⟩
    rw [recorder_ofRecorder]
    exact hruns

structure Closes (c : Channel) (fs : FileSystem) (f g : FileName) (input output : Bytes) (a b : Stream) :
    Prop extends Recorder.Finishes fs f g input output a b where
  recorder : c.recorder = ⟨some a, some b⟩
  close : c.close fs =
    ((firstFailure (a.finish fs).1 (b.finish (a.finish fs).2).1).mapError .recording,
     { c with isOpen := false, recorder := .idle }, (b.finish (a.finish fs).2).2)

structure Aborts (c : Channel) (fs : FileSystem) (f g : FileName) (a b : Stream) :
    Prop extends Recorder.Discards fs f g a b where
  recorder : c.recorder = ⟨some a, some b⟩
  abort : c.abort fs =
    ((firstFailure (a.discard fs).1 (b.discard (a.discard fs).2).1).mapError .recording,
     { c with isOpen := false, recorder := .idle }, (b.discard (a.discard fs).2).2)
  gone : (c.abort fs).1 = .ok () → (c.abort fs).2.2.isThere (Stream.temporaryName f) = false ∧
    (c.abort fs).2.2.isThere (Stream.temporaryName g) = false

theorem Logged.closes (hc : c.Logged fs f g h k input output) (ho : c.isOpen = true) :
    ∃ a b, c.Closes fs f g input output a b ∧ OwnLogs (c.close fs).2.2 f g h k := by
  obtain ⟨a, ha, -⟩ := (hc.runs ho).input
  obtain ⟨b, hb, -⟩ := (hc.runs ho).output
  obtain ⟨own, hfin⟩ := (hc.runs ho).finishes ha hb
  obtain ⟨files, heq⟩ := Recorder.finish_eq ha hb fs
  have hclose : c.close fs =
      ((firstFailure (a.finish fs).1 (b.finish (a.finish fs).2).1).mapError .recording,
       { c with isOpen := false, recorder := .idle }, (b.finish (a.finish fs).2).2) := by
    rw [Channel.close, if_pos ho, heq]
    generalize firstFailure (a.finish fs).1 (b.finish (a.finish fs).2).1 = r
    cases r with
    | error e => rfl
    | ok u => rfl
  refine ⟨a, b, ⟨hfin, ?_, hclose⟩, ?_⟩
  · rw [← ha, ← hb]
  · rw [hclose]
    exact own

theorem firstFailure_eq_ok {ε α : Type} {a : Except ε Unit} {b : Except ε Unit} {wrap : ε → α}
    (h : (firstFailure a b).mapError wrap = .ok ()) : a = .ok () ∧ b = .ok () := by
  cases a with
  | error e => cases h
  | ok u =>
    cases b with
    | error e => cases h
    | ok v => exact ⟨rfl, rfl⟩

theorem Logged.aborts (hc : c.Logged fs f g h k input output) (ho : c.isOpen = true) :
    ∃ a b, c.Aborts fs f g a b ∧ OwnLogs (c.abort fs).2.2 f g h k := by
  obtain ⟨a, ha, -⟩ := (hc.runs ho).input
  obtain ⟨b, hb, -⟩ := (hc.runs ho).output
  obtain ⟨own, hdis⟩ := (hc.runs ho).discards ha hb
  have habort : c.abort fs =
      ((firstFailure (a.discard fs).1 (b.discard (a.discard fs).2).1).mapError .recording,
       { c with isOpen := false, recorder := .idle }, (b.discard (a.discard fs).2).2) := by
    rw [abort_of_open ho, Recorder.discard_eq ha hb]
    generalize firstFailure (a.discard fs).1 (b.discard (a.discard fs).2).1 = r
    cases r with
    | error e => rfl
    | ok u => rfl
  refine ⟨a, b, ⟨hdis, ?_, habort, fun hok => ?_⟩, ?_⟩
  · rw [← ha, ← hb]
  · rw [habort] at hok ⊢
    obtain ⟨hfirst, hsecond⟩ := firstFailure_eq_ok hok
    exact ⟨hdis.input hfirst, hdis.output hsecond⟩
  · rw [habort]
    exact own

theorem Logged.own_close (hc : c.Logged fs f g h k input output) : OwnLogs (c.close fs).2.2 f g h k := by
  cases ho : c.isOpen with
  | false =>
    rw [close_of_closed ho]
    exact hc.own
  | true =>
    obtain ⟨a, b, -, own⟩ := hc.closes ho
    exact own

/-- Opening a channel again closes it first. What is begun then is not seen. -/
theorem Logged.init (hc : c.Logged fs f g h k input output) :
    (c.init fs ⟨f, g, true⟩).2.1.Logged (c.init fs ⟨f, g, true⟩).2.2 f g h k [] [] ∧
      SameLogs f g (c.close fs).2.2 (c.init fs ⟨f, g, true⟩).2.2 := by
  have own := hc.own_close
  have ht := hc.idleIfClosed.init fs ⟨f, g, true⟩
  have hclosed := c.isOpen_close fs
  cases hc.idleIfClosed.opens fs ⟨f, g, true⟩ with
  | refused e closed unstarted =>
    rw [unstarted] at ht ⊢
    exact ⟨logged_of_closed own ht hclosed, rfl, rfl⟩
  | started closed idle opened =>
    rw [opened] at ht ⊢
    generalize hs : Recorder.idle.start (c.close fs).2.2 ⟨f, g, true⟩ = started at ht ⊢
    obtain ⟨r, recorder, gs⟩ := started
    obtain ⟨own', hsame, hruns⟩ := Recorder.start_runs own hs
    cases r with
    | error e => exact ⟨logged_of_closed own' ht hclosed, hsame⟩
    | ok u => exact ⟨logged_of_open (hruns rfl) rfl, hsame⟩

end Channel

structure LogBook where
  fetched : List Event
  posted : List Event
  input : Except OsError Bytes
  output : Except OsError Bytes

namespace LogBook

/-- A channel is closed. If finishing a log goes through, all that was recorded is found in it. -/
def close (l : LogBook) (c : Channel) (fs : FileSystem) : LogBook :=
  match c.recorder with
  | ⟨some a, some b⟩ =>
    { l with
      input := if a.goesThrough fs then .ok (System.logBytes l.fetched) else l.input
      output := if b.goesThrough (a.finish fs).2 then .ok (System.logBytes l.posted) else l.output }
  | _ => l

def begin (l : LogBook) : LogBook := { l with fetched := [], posted := [] }

def enter (l : LogBook) (channel : Nat) (note : Note) : LogBook :=
  { l with fetched := l.fetched ++ note.fetchedBy channel, posted := l.posted ++ note.postedOn channel }

end LogBook

def Note.AppendFailed (channel : Nat) : Note → Prop
  | posted c _ (.error (.recording _)) => c = channel
  | returned (.fetchFrom c _ _) (.channelError (.recording _)) => c = channel
  | _ => False

namespace System

/-- The runs of a channel that is opened with two logs which nobody else uses, and again with the same ones
however often. The files may refuse anything except appending a record. -/
inductive Logging (channel : Nat) (f g : FileName) (h k : LogPlaces) : System → LogBook → Prop where
  | start (files : FileSystem) (s : System) (c : Channel) (possible : Possible files s)
      (there : s.channels[channel]? = some c) (closed : c.isOpen = false) (own : OwnLogs s.files f g h k) :
      Logging channel f g h k s ⟨[], [], s.files.read f, s.files.read g⟩
  | opened (s : System) (l : LogBook) (c : Channel) (before : Logging channel f g h k s l)
      (there : s.channels[channel]? = some c) :
      Logging channel f g h k ((Move.init channel ⟨f, g, true⟩).step s).2 (l.close c s.files).begin
  | closed (s : System) (l : LogBook) (c : Channel) (before : Logging channel f g h k s l)
      (there : s.channels[channel]? = some c) :
      Logging channel f g h k ((Move.close channel).step s).2 (l.close c s.files)
  | aborted (s : System) (l : LogBook) (before : Logging channel f g h k s l) :
      Logging channel f g h k ((Move.abort channel).step s).2 l
  | moved (s : System) (l : LogBook) (m : Move) (before : Logging channel f g h k s l)
      (stays : ¬ m.OpensOrCloses channel) (fine : ¬ (m.step s).1.AppendFailed channel)
      (alone : ¬ m.UsesRecordings s channel → ∀ name ∈ namesOf f g, Untouched name s.files (m.step s).2.files) :
      Logging channel f g h k (m.step s).2 (l.enter channel (m.step s).1)

def Logged (s : System) (channel : Nat) (f g : FileName) (h k : LogPlaces) (l : LogBook) : Prop :=
  ∃ c, s.channels[channel]? = some c ∧
    c.Logged s.files f g h k (logBytes l.fetched) (logBytes l.posted) ∧
    s.files.read f = l.input ∧ s.files.read g = l.output

variable {s t : System} {channel : Nat} {l l' : LogBook} {c : Channel}

theorem Logged.congr (hs : s.Logged channel f g h k l) (hc : t.channels = s.channels)
    (hf : t.files = s.files) : t.Logged channel f g h k l := by
  rw [Logged, hc, hf]
  exact hs

theorem Logged.sameOutsideHubs (hs : s.Logged channel f g h k l) (he : SameOutsideHubs s t) :
    t.Logged channel f g h k l := hs.congr he.channels he.files

theorem logged_changeChannel (there : s.channels[channel]? = some c)
    {change : Channel → FileSystem → Channel.Outcome}
    (hd : (change c s.files).2.1.Logged (change c s.files).2.2 f g h k (logBytes l'.fetched)
      (logBytes l'.posted))
    (hi : (change c s.files).2.2.read f = l'.input) (ho : (change c s.files).2.2.read g = l'.output) :
    (s.changeChannel channel change).2.Logged channel f g h k l' := by
  rw [changeChannel_of_getElem? there]
  exact ⟨_, List.getElem?_set_self (List.getElem?_eq_some_iff.1 there).1, hd, hi, ho⟩

theorem Logged.of_there (hs : s.Logged channel f g h k l) (there : s.channels[channel]? = some c) :
    c.Logged s.files f g h k (logBytes l.fetched) (logBytes l.posted) ∧
      s.files.read f = l.input ∧ s.files.read g = l.output := by
  obtain ⟨d, hd, hlogged⟩ := hs
  rw [there] at hd
  cases hd
  exact hlogged

theorem Logged.post (hs : s.Logged channel f g h k l) (e : Event)
    (fine : ¬ (Note.posted channel e (s.post channel e).1).AppendFailed channel) :
    (s.post channel e).2.Logged channel f g h k
      (l.enter channel (Note.posted channel e (s.post channel e).1)) := by
  obtain ⟨c, there, hc, hi, ho⟩ := hs
  have hfst : (s.post channel e).1 = (c.recordPost s.files e).1 := by
    rw [post_eq, changeChannel_of_getElem? there]
  rw [hfst] at fine ⊢
  have hfine : ∀ cause, (c.recordPost s.files e).1 ≠ .error (.recording cause) := by
    intro cause hr
    rw [hr] at fine
    exact fine rfl
  have hr := hc.recordPost channel hfine
  have hlogged : (s.changeChannel channel fun c fs => c.recordPost fs e).2.Logged channel f g h k
      (l.enter channel (Note.posted channel e (c.recordPost s.files e).1)) := by
    have hfetched : l.fetched ++ (Note.posted channel e (c.recordPost s.files e).1).fetchedBy channel =
        l.fetched := List.append_nil _
    rw [LogBook.enter, hfetched]
    exact logged_changeChannel there hr.1 (hr.2.input.trans hi) (hr.2.output.trans ho)
  exact hlogged.congr (channels_post s channel e) (files_post s channel e)

theorem Logged.flush (hs : s.Logged channel f g h k l) :
    (s.changeChannel channel Channel.flush).2.Logged channel f g h k l := by
  obtain ⟨c, there, hc, hi, ho⟩ := hs
  obtain ⟨hd, hsame⟩ := hc.flush
  exact logged_changeChannel there hd (hsame.input.trans hi) (hsame.output.trans ho)

theorem enter_of_leavesChannel {note : Note} (posted : note.postedOn channel = [])
    (fetched : note.fetchedBy channel = []) :
    l.enter channel note = l := by
  rw [LogBook.enter, posted, fetched, List.append_nil, List.append_nil]

/-- What the others do leaves the logs alone. -/
theorem Logged.leavesChannel {note : Note} (hs : s.Logged channel f g h k l) (ha : LeavesChannel channel s note t)
    (alone : ∀ name ∈ namesOf f g, Untouched name s.files t.files) :
    t.Logged channel f g h k (l.enter channel note) := by
  obtain ⟨c, there, hc, hi, ho⟩ := hs
  obtain ⟨d, hd, -, hopen, hrecorder⟩ := ha.stays.channel c there
  obtain ⟨hlogged, hsame⟩ := hc.untouched alone hopen hrecorder
  rw [enter_of_leavesChannel ha.posted ha.fetched]
  exact ⟨d, hd, hlogged, hsame.input.trans hi, hsame.output.trans ho⟩

theorem Logged.recorded {e : Event} (hs : s.Logged channel f g h k l) (there : s.channels[channel]? = some c)
    (opened : c.isOpen = true)
    (ok : (s.changeChannel channel fun c fs => c.recordFetch fs e) = (.ok (), t)) :
    t.Logged channel f g h k { l with fetched := l.fetched ++ [e] } := by
  obtain ⟨hc, hi, ho⟩ := hs.of_there there
  rw [changeChannel_of_getElem? there] at ok
  generalize hrec : c.recordFetch s.files e = r at ok
  obtain ⟨result, d, gs⟩ := r
  cases ok
  obtain ⟨hd, hsame⟩ := hc.recordFetch opened hrec
  exact ⟨d, List.getElem?_set_self (List.getElem?_eq_some_iff.1 there).1, hd, hsame.input.trans hi,
    hsame.output.trans ho⟩

theorem Logged.ran {mask : Mask} {mode : WaitMode} {reply : Option Reply} (hs : s.Logged channel f g h k l)
    (hr : Ran s (.fetchFrom channel mask mode) reply t)
    (fine : ¬ (Note.ofCall (.fetchFrom channel mask mode) reply).AppendFailed channel) :
    t.Logged channel f g h k (l.enter channel (Note.ofCall (.fetchFrom channel mask mode) reply)) := by
  have hposted := postedOn_ofCall channel (.fetchFrom channel mask mode) reply
  cases hr with
  | stayed _ still =>
    rw [enter_of_leavesChannel hposted rfl]
    exact hs.sameOutsideHubs still.toSameOutsideHubs
  | went s' _ resumed before after =>
    have hs' := hs.sameOutsideHubs before.toSameOutsideHubs
    have hf := fetched_advance s' channel mask mode resumed
    generalize s'.advance resumed (.fetchFrom channel mask mode) = r at hf fine after hposted ⊢
    obtain ⟨p, u⟩ := r
    dsimp only at hf fine after hposted ⊢
    cases hf with
    | nothing _ _ sameOutsideHubs quiet _ =>
      rw [enter_of_leavesChannel hposted (fetchedBy_of_quiet quiet)]
      exact (hs'.sameOutsideHubs sameOutsideHubs).sameOutsideHubs after.toSameOutsideHubs
    | recorded c hub sink outlet mask' mode' resumed' e _ there opened kind answer ok =>
      have hasked := hs'.sameOutsideHubs (sameOutsideHubs_askHub s' hub ⟨mask', mode', sink, true⟩ resumed')
      have hchannels := channels_askHub s' hub ⟨mask', mode', sink, true⟩ resumed'
      have hthere := (congrArg (·[channel]?) hchannels).trans there
      have hn : (Note.ofCall (.fetchFrom channel mask mode)
          (Progress.returned (.fetched (.delivered e))).reply?).fetchedBy channel = [e] := if_pos rfl
      rw [LogBook.enter, hposted, hn, List.append_nil]
      exact (hasked.recorded hthere opened ok).sameOutsideHubs after.toSameOutsideHubs
    | failed hub ask resumed' e err _ error =>
      obtain ⟨c, hthere, -⟩ := hs'.sameOutsideHubs (sameOutsideHubs_askHub s' hub ask resumed')
      rw [changeChannel_of_getElem? hthere] at error
      obtain ⟨cause, rfl⟩ := Channel.recording_of_ofRecorder (congrArg Prod.fst error)
      exact absurd rfl fine

theorem Logged.fetches (hs : s.Logged channel f g h k l) {m : HubMove} (hm : m.Fetches s channel)
    (fine : ¬ (m.step s).1.AppendFailed channel) :
    (m.step s).2.Logged channel f g h k (l.enter channel (m.step s).1) := by
  cases m with
  | call c =>
    obtain ⟨mask, mode, rfl⟩ := hm
    exact hs.ran (ran_start s _) fine
  | resume handle =>
    obtain ⟨p, mask, mode, hp, hc⟩ := hm
    rw [HubMove.step, hp] at fine ⊢
    dsimp only at fine ⊢
    have hr := ran_resume s p
    rw [hc] at hr fine ⊢
    exact hs.ran hr fine
  | _ => exact hm.elim

theorem Logged.move (hs : s.Logged channel f g h k l) {m : Move} (stays : ¬ m.OpensOrCloses channel)
    (fine : ¬ (m.step s).1.AppendFailed channel)
    (alone : ¬ m.UsesRecordings s channel → ∀ name ∈ namesOf f g, Untouched name s.files (m.step s).2.files) :
    (m.step s).2.Logged channel f g h k (l.enter channel (m.step s).1) := by
  by_cases hu : m.UsesRecordings s channel
  · cases m with
    | onHubs m => exact hs.fetches hu fine
    | flush c =>
      obtain rfl : c = channel := hu
      rw [Move.step, enter_of_leavesChannel rfl rfl]
      exact hs.flush
    | post c e =>
      obtain rfl : c = channel := hu
      exact hs.post e fine
    | _ => exact hu.elim
  · exact hs.leavesChannel (leavesChannel_step stays hu) (alone hu)

theorem Logged.read_close (hs : s.Logged channel f g h k l) (there : s.channels[channel]? = some c) :
    (c.close s.files).2.2.read f = (l.close c s.files).input ∧
      (c.close s.files).2.2.read g = (l.close c s.files).output := by
  obtain ⟨hc, hi, ho⟩ := hs.of_there there
  cases hopen : c.isOpen with
  | false =>
    rw [Channel.close_of_closed hopen, LogBook.close, hc.idleIfClosed hopen]
    exact ⟨hi, ho⟩
  | true =>
    obtain ⟨a, b, hcloses, -⟩ := hc.closes hopen
    rw [hcloses.close, LogBook.close, hcloses.recorder]
    exact ⟨hcloses.input.read hi, hcloses.output.read (hcloses.between.trans ho)⟩

theorem Logged.close (hs : s.Logged channel f g h k l) (there : s.channels[channel]? = some c) :
    (s.changeChannel channel Channel.close).2.Logged channel f g h k (l.close c s.files) := by
  obtain ⟨hi, ho⟩ := hs.read_close there
  obtain ⟨hc, -, -⟩ := hs.of_there there
  exact logged_changeChannel there
    (Channel.logged_of_closed hc.own_close (hc.idleIfClosed.close s.files) (c.isOpen_close s.files)) hi ho

theorem Logged.init (hs : s.Logged channel f g h k l) (there : s.channels[channel]? = some c) :
    (s.changeChannel channel fun c fs => c.init fs ⟨f, g, true⟩).2.Logged channel f g h k
      (l.close c s.files).begin := by
  obtain ⟨hi, ho⟩ := hs.read_close there
  obtain ⟨hlogged, hsame⟩ := (hs.of_there there).1.init
  exact logged_changeChannel there hlogged (hsame.input.trans hi) (hsame.output.trans ho)

theorem Logged.abort (hs : s.Logged channel f g h k l) :
    (s.changeChannel channel Channel.abort).2.Logged channel f g h k l := by
  obtain ⟨c, there, hc, hi, ho⟩ := hs
  cases hopen : c.isOpen with
  | false =>
    rw [changeChannel_unchanged there (Channel.abort_of_closed hopen s.files)]
    exact ⟨c, there, hc, hi, ho⟩
  | true =>
    obtain ⟨a, b, haborts, own⟩ := hc.aborts hopen
    have hsame := haborts.unseen
    rw [show (b.discard (a.discard s.files).2).2 = (c.abort s.files).2.2 by rw [haborts.abort]] at hsame
    exact logged_changeChannel there
      (Channel.logged_of_closed own (hc.idleIfClosed.abort s.files) (c.isOpen_abort s.files))
      (hsame.input.trans hi) (hsame.output.trans ho)

theorem Logging.logged (run : Logging channel f g h k s l) : s.Logged channel f g h k l := by
  induction run with
  | start files s c possible there closed own =>
    have htidy := possible.coherentAndIdle.idleIfClosed c (List.mem_of_getElem? there)
    exact ⟨c, there, Channel.logged_of_closed own htidy closed, rfl, rfl⟩
  | opened s l c _ there ih => exact ih.init there
  | closed s l c _ there ih => exact ih.close there
  | aborted s l _ ih => exact ih.abort
  | moved s l m _ stays fine alone ih => exact ih.move stays fine alone

/-- Each log is found as the book says. What closing, opening or aborting the channel would now make of the logs
depends for each of them on its own recording alone. -/
structure SeenWhole (s : System) (c : Channel) (f g : FileName) (l : LogBook) : Prop where
  input : s.files.read f = l.input
  output : s.files.read g = l.output
  closing : c.isOpen = true →
    ∃ a b, c.Closes s.files f g (logBytes l.fetched) (logBytes l.posted) a b
  opens : c.Opens s.files ⟨f, g, true⟩
  begun : SameLogs f g (c.close s.files).2.2 (c.init s.files ⟨f, g, true⟩).2.2
  aborting : c.isOpen = true → ∃ a b, c.Aborts s.files f g a b
  idle : c.isOpen = false → c.abort s.files = (.ok (), c, s.files)

theorem logs_seen_whole (run : Logging channel f g h k s l) (there : s.channels[channel]? = some c) :
    s.SeenWhole c f g l := by
  obtain ⟨hc, hi, ho⟩ := run.logged.of_there there
  refine ⟨hi, ho, fun hopen => ?_, hc.idleIfClosed.opens _ _, hc.init.2, fun hopen => ?_,
    fun hopen => Channel.abort_of_closed hopen _⟩
  · obtain ⟨a, b, hcloses, -⟩ := hc.closes hopen
    exact ⟨a, b, hcloses⟩
  · obtain ⟨a, b, haborts, -⟩ := hc.aborts hopen
    exact ⟨a, b, haborts⟩

def newChannel : System :=
  (empty { FileSystem.fresh with refusals := [none, none, some ⟨0, .busy⟩] }).ran [.makeChannel "c" none]

def logPlacesOf (name : String) : LogPlaces := ⟨["tmp", "work", name], ["tmp", "work", name ++ ".tmp"]⟩

def halfClosed : System :=
  newChannel.ran [.init 0 ⟨⟨"in.log"⟩, ⟨"out.log"⟩, true⟩, .post 0 nullEvent, .close 0]

theorem ownLogs_newChannel :
    OwnLogs newChannel.files ⟨"in.log"⟩ ⟨"out.log"⟩ (logPlacesOf "in.log") (logPlacesOf "out.log") := by
  have hvacant : ∀ p ∈ (logPlacesOf "in.log").places ++ (logPlacesOf "out.log").places,
      newChannel.files.nodeAt? p = none := by decide
  refine ⟨⟨⟨_, _, rfl, rfl⟩, ⟨_, _, rfl, rfl⟩, ?_, rfl⟩, ⟨⟨_, _, rfl, rfl⟩, ⟨_, _, rfl, rfl⟩, ?_, rfl⟩, ?_, ?_, ?_⟩
  · intro node hn
    rw [hvacant _ (by decide)] at hn
    cases hn
  · intro node hn
    rw [hvacant _ (by decide)] at hn
    cases hn
  · unfold FileSystem.Apart
    decide
  · intro p hp id hn
    rw [hvacant p hp] at hn
    cases hn
  · intro p hp q hq id hn
    rw [hvacant p hp] at hn
    cases hn

theorem logging_halfClosed :
    ∃ l c, Logging 0 ⟨"in.log"⟩ ⟨"out.log"⟩ (logPlacesOf "in.log") (logPlacesOf "out.log") halfClosed l ∧
      halfClosed.channels[0]? = some c ∧ l.input = .error .notFound ∧
      l.output = .ok (logBytes [nullEvent]) := by
  have hnew : Logging 0 ⟨"in.log"⟩ ⟨"out.log"⟩ (logPlacesOf "in.log") (logPlacesOf "out.log") newChannel _ :=
    .start _ _ _ (Possible.start.ran _) rfl rfl ownLogs_newChannel
  have hopened := Logging.opened _ _ _ hnew rfl
  have hposted := Logging.moved _ _ (.post 0 nullEvent) hopened id id fun h => absurd rfl h
  exact ⟨_, _, .closed _ _ _ hposted rfl, rfl, rfl, rfl⟩

theorem logs_seen_whole_besideRefusedRenaming :
    ∃ l c, halfClosed.SeenWhole c ⟨"in.log"⟩ ⟨"out.log"⟩ l ∧ l.input = .error .notFound ∧
      l.output = .ok (logBytes [nullEvent]) := by
  obtain ⟨l, c, run, there, hi, ho⟩ := logging_halfClosed
  exact ⟨l, c, logs_seen_whole run there, hi, ho⟩

/-- To abort a channel that is closed already does nothing, so a temporary file that closing it has left stays. -/
theorem abort_keeps_temporary :
    (∃ l, Logging 0 ⟨"in.log"⟩ ⟨"out.log"⟩ (logPlacesOf "in.log") (logPlacesOf "out.log") halfClosed l) ∧
      ((Move.abort 0).step halfClosed).1 = .changed 0 (.ok ()) ∧
      ((Move.abort 0).step halfClosed).2.files.isThere (Stream.temporaryName ⟨"in.log"⟩) = true := by
  obtain ⟨l, c, run, -⟩ := logging_halfClosed
  exact ⟨⟨l, run⟩, rfl, rfl⟩

end System
end EventHub
