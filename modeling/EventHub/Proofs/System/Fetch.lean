import EventHub.Proofs.Hub.Look
import EventHub.Proofs.System.Frame
set_option autoImplicit false

/-!
Fetching through a channel. The hub lets go of an event before the channel records it, so an event that
cannot be recorded is neither handed out nor queued any more.
-/
namespace EventHub.System

theorem askHub_look (s : System) (hub : Nat) {ask : Ask} (ht : ask.take = true) (resumed : Bool) :
    (s.askHub hub ask.look resumed).1 = (s.askHub hub ask resumed).1 ∧
      ∀ e, (s.askHub hub ask resumed).1 = .answer (.delivered e) →
        Hub.Took e ((s.askHub hub ask.look resumed).2.hubAt hub)
          ((s.askHub hub ask resumed).2.hubAt hub) := by
  obtain ⟨hp, hb⟩ := Hub.dispatch_look (s.hubAt hub) (s.flagAt (s.flagOfHub hub)) ht resumed
  rw [askHub_fst, askHub_fst, hubAt_askHub, hubAt_askHub, if_pos rfl, if_pos rfl]
  refine ⟨hp, fun e he => ?_⟩
  rw [he] at hb
  exact hb

theorem files_askHub (s : System) (hub : Nat) (ask : Ask) (resumed : Bool) :
    (s.askHub hub ask resumed).2.files = s.files := by
  have h : ∀ change : Hub → Flag → (Hub.Pause × Bool) × Hub × Flag,
      (s.changeHub hub (Hub.Pause.answer (.pending .closed), false) change).2.files = s.files := by
    intro change
    unfold changeHub
    split <;> rfl
  rw [askHub_eq]
  dsimp only
  split
  · exact h _
  · exact h _

theorem advance_fetchFrom {s : System} {channel : Nat} {c : Channel} {hub sink : Nat} {outlet : Outlet}
    (hc : s.channels[channel]? = some c) (ho : c.isOpen = true) (hk : c.kind = .ofHub hub sink outlet)
    (mask : Mask) (mode : WaitMode) (resumed : Bool) :
    s.advance resumed (.fetchFrom channel mask mode) =
      let r := s.askHub hub ⟨mask, mode, sink, true⟩ resumed
      match r.2.pausePoint hub r.1 with
      | .inl fetch => r.2.deliver channel fetch
      | .inr point => (.asleep point, r.2) := by
  rw [advance, hc]
  dsimp only
  rw [if_pos ho]
  split
  · rename_i heq
    rw [hk] at heq
    cases heq
    rfl
  · rename_i hother
    exact absurd hk (hother hub sink outlet)

theorem deliver_delivered {s : System} {channel : Nat} {c : Channel} (hc : s.channels[channel]? = some c)
    (e : Event) :
    (s.deliver channel (.delivered e)).1 =
        (match (c.recordFetch s.files e).1 with
        | .error err => .returned (.channelError err)
        | .ok () => .returned (.fetched (.delivered e))) ∧
      ∀ id, (s.deliver channel (.delivered e)).2.hubAt id = s.hubAt id := by
  rw [deliver, changeChannel, hc]
  dsimp only
  generalize c.recordFetch s.files e = r
  obtain ⟨err | u, c, fs⟩ := r
  · exact ⟨rfl, fun _ => rfl⟩
  · exact ⟨rfl, fun _ => rfl⟩

/-- A fetch through an open channel fails just if there was an event to hand out and it could not be
recorded. Whoever had only looked would still see the event in front, and not counted as delivered; the
fetch that failed has taken it away and counted it. -/
theorem failed_fetch_loses_event {s : System} {channel : Nat} {c : Channel} {hub sink : Nat}
    {outlet : Outlet} (hc : s.channels[channel]? = some c) (ho : c.isOpen = true)
    (hk : c.kind = .ofHub hub sink outlet) (mask : Mask) (mode : WaitMode) (resumed : Bool)
    (err : ChannelError) :
    let fetched := s.advance resumed (.fetchFrom channel mask mode)
    let looked := s.askHub hub ⟨mask, mode, sink, false⟩ resumed
    (fetched.1 = .returned (.channelError err) ↔
      ∃ e, looked.1 = .answer (.delivered e) ∧ (c.recordFetch s.files e).1 = .error err) ∧
    (fetched.1 = .returned (.channelError err) →
      ∃ e, looked.1 = .answer (.delivered e) ∧
        Hub.Took e (looked.2.hubAt hub) (fetched.2.hubAt hub)) := by
  intro fetched looked
  have hlook : (⟨mask, mode, sink, true⟩ : Ask).look = ⟨mask, mode, sink, false⟩ := rfl
  obtain ⟨hl, htook⟩ := s.askHub_look hub (show (⟨mask, mode, sink, true⟩ : Ask).take = true from rfl) resumed
  rw [hlook] at hl htook
  have hfetched : fetched = _ := advance_fetchFrom hc ho hk mask mode resumed
  have hc' : (s.askHub hub ⟨mask, mode, sink, true⟩ resumed).2.channels[channel]? = some c := by
    rw [channels_askHub]
    exact hc
  rw [hfetched, show looked.1 = _ from hl]
  dsimp only
  cases hp : (s.askHub hub ⟨mask, mode, sink, true⟩ resumed).1 with
  | onQueue => simp [pausePoint]
  | onFlag => simp [pausePoint]
  | answer fetch =>
    cases fetch with
    | pending st => simp [pausePoint, deliver]
    | delivered e =>
      obtain ⟨hd, hh⟩ := deliver_delivered hc' e
      rw [files_askHub] at hd
      simp only [pausePoint, hd, hh]
      cases hr : (c.recordFetch s.files e).1 with
      | error err' => simpa [hr] using fun _ => htook e hp
      | ok u => simp [hr]

theorem write_full {w : Writer} {fs : FileSystem} {bytes : Bytes} (hn : w.handle.node = .device true)
    (hr : fs.refusals = []) (hp : w.pending.length = Writer.capacity) (hb : 0 < bytes.length) :
    ∃ w' fs', w.write fs bytes = (.error .noSpace, w', fs') := by
  have hpos : 0 < Writer.capacity := by decide
  have he : w.pending.isEmpty = false := by
    cases hw : w.pending with
    | nil =>
      rw [hw, List.length_nil] at hp
      omega
    | cons b bs => rfl
  rw [Writer.write, if_pos (by omega)]
  simp [Writer.flush, FileSystem.write, he, FileSystem.nextRefusal, hr, hn]

def fullBuffer : Bytes := List.replicate Writer.capacity 0x20

/-- Its recorder writes to a device that is full, and has collected so much that the next record has to be
passed on. -/
def fullChannel : Channel :=
  ⟨"c", .ofHub 0 0 (.hub 0), true, none,
   ⟨some ⟨⟨"/dev/full"⟩, false, ⟨⟨.device true, 0⟩, fullBuffer⟩, 0⟩, none⟩⟩

def anEvent : Event := ⟨⟨"a", by decide⟩, none, .data, none⟩

def onFullDevice : System :=
  { empty .fresh with
    flags := [(Flag.empty.addSource true).2.raise 0]
    hubs := [({ (Hub.make "h" .empty).1 with sinks := [⟨some⟩], queue := [⟨0, anEvent⟩], nextSeq := 1 }, 0)]
    channels := [fullChannel] }

theorem recordFetch_fullChannel :
    (fullChannel.recordFetch onFullDevice.files anEvent).1 =
      .error (.recording (.writeFailed ⟨"/dev/full"⟩ .noSpace)) := by
  have hline : 0 < (Text.toUtf8 (Record.ofEvent anEvent).line).length := by decide
  obtain ⟨w, fs, hw⟩ := write_full (w := ⟨⟨.device true, 0⟩, fullBuffer⟩) (show _ = Node.device true from rfl)
    (show onFullDevice.files.refusals = [] from rfl) List.length_replicate hline
  simp only [Channel.recordFetch, Recorder.recordInput, fullChannel, Recorder.appendOptional,
    Stream.append, hw]
  rfl

theorem failed_fetch_loses_event_onFullDevice :
    ∃ e err, (onFullDevice.advance false (.fetchFrom 0 .any .noWait)).1 = .returned (.channelError err) ∧
      Hub.Took e ((onFullDevice.askHub 0 ⟨.any, .noWait, 0, false⟩ false).2.hubAt 0)
        ((onFullDevice.advance false (.fetchFrom 0 .any .noWait)).2.hubAt 0) := by
  have hc : onFullDevice.channels[0]? = some fullChannel := rfl
  have hk : fullChannel.kind = .ofHub 0 0 (.hub 0) := rfl
  have h := failed_fetch_loses_event hc rfl hk .any .noWait false
    (.recording (.writeFailed ⟨"/dev/full"⟩ .noSpace))
  have hl : (onFullDevice.askHub 0 ⟨.any, .noWait, 0, false⟩ false).1 = .answer (.delivered anEvent) := by
    rfl
  have hf := h.1.2 ⟨anEvent, hl, recordFetch_fullChannel⟩
  obtain ⟨e, -, ht⟩ := h.2 hf
  exact ⟨e, _, hf, ht⟩

end EventHub.System
