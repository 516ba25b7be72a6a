import EventHub.Proofs.Hub.Passage
import EventHub.Proofs.System.Coherent
import EventHub.Proofs.System.Moves
import Mathlib.Data.List.Forall2
import Mathlib.Data.List.Induction
set_option autoImplicit false

namespace EventHub

namespace Note

def accepted (id : Nat) : Note → List Event
  | published hub e true => if hub = id then [e] else []
  | _ => []

def handed (id : Nat) : Note → List (Ask × Event)
  | returned (.askHub hub ask) (.fetched (.delivered e)) => if hub = id then [(ask, e)] else []
  | _ => []

end Note

namespace System

structure HubsOnly (s : System) : Prop where
  channels : s.channels = []
  coherent : s.Coherent

theorem HubsOnly.congr {s t : System} (hs : s.HubsOnly) (hc : t.channels = s.channels)
    (hh : ∀ id, t.hubAt id = s.hubAt id) : t.HubsOnly :=
  ⟨hc.trans hs.channels, hs.coherent.congr hh⟩

theorem hubsOnly_empty (files : FileSystem) : (empty files).HubsOnly := ⟨rfl, coherent_empty files⟩

theorem HubsOnly.addHub {s : System} (hs : s.HubsOnly) (name : String) (flag : Nat) :
    (s.addHub name flag).2.HubsOnly where
  channels := hs.channels
  coherent := hs.coherent.addHub name flag

theorem HubsOnly.addSink {s : System} (hs : s.HubsOnly) (hub : Nat) (sink : Sink) :
    (s.addSink hub sink).2.HubsOnly where
  channels := (channels_changeHub s hub 0 _).trans hs.channels
  coherent := hs.coherent.addSink hub sink

theorem HubsOnly.publish {s : System} (hs : s.HubsOnly) (hub : Nat) (e : Event) :
    (s.publish hub e).2.HubsOnly where
  channels := (channels_publish s hub e).trans hs.channels
  coherent := hs.coherent.publish hub e

theorem HubsOnly.stop {s : System} (hs : s.HubsOnly) (hub : Nat) : (s.stop hub).HubsOnly where
  channels := (channels_stop s hub).trans hs.channels
  coherent := hs.coherent.stop hub

theorem HubsOnly.askHub {s : System} (hs : s.HubsOnly) (hub : Nat) (ask : Ask) (resumed : Bool) :
    (s.askHub hub ask resumed).2.HubsOnly where
  channels := (channels_askHub s hub ask resumed).trans hs.channels
  coherent := hs.coherent.askHub hub ask resumed

/-- The books of a hub for a step in which this was seen. -/
structure Booked (id : Nat) (s : System) (note : Note) (t : System) (gone : List Removal) : Prop where
  passage : Hub.Passage (s.hubAt id) (t.hubAt id) (note.accepted id) gone
  handed : gone.filterMap Removal.taker = note.handed id

theorem Booked.still {id : Nat} {s t : System} {note : Note} (hq : (t.hubAt id).queue = (s.hubAt id).queue)
    (hd : (t.hubAt id).delivered = (s.hubAt id).delivered)
    (hp : (t.hubAt id).dropped = (s.hubAt id).dropped) (ha : note.accepted id = [])
    (hh : note.handed id = []) : Booked id s note t [] where
  passage := ha ▸ .still hq hd hp
  handed := hh.symm

theorem Booked.of_eq {id : Nat} {s t : System} {note : Note} (he : t.hubAt id = s.hubAt id)
    (ha : note.accepted id = []) (hh : note.handed id = []) : Booked id s note t [] := by
  apply Booked.still _ _ _ ha hh
  all_goals rw [he]

theorem booked_addHub (s : System) (name : String) (flag id : Nat) :
    Booked id s .quiet (s.addHub name flag).2 [] := by
  by_cases ho : id = s.hubs.length
  · have hn := hubAt_of_le (Nat.le_of_eq ho.symm)
    apply Booked.still _ _ _ rfl rfl
    all_goals
      rw [hubAt_addHub, if_pos ho, hn]
      rfl
  · exact .of_eq (by rw [hubAt_addHub, if_neg ho]) rfl rfl

theorem booked_addSink (s : System) (hub : Nat) (sink : Sink) (id : Nat) :
    Booked id s .quiet (s.addSink hub sink).2 [] := by
  by_cases ho : id = hub ∧ hub < s.hubs.length
  · apply Booked.still _ _ _ rfl rfl
    all_goals
      rw [hubAt_addSink, if_pos ho, ho.1]
      rfl
  · exact .of_eq (by rw [hubAt_addSink, if_neg ho]) rfl rfl

theorem booked_publish (s : System) (hub : Nat) (e : Event) (id : Nat) :
    Booked id s (.published hub e (s.publish hub e).1) (s.publish hub e).2 [] := by
  by_cases ho : id = hub
  · subst ho
    have hp := Hub.Passage.publish (s.hubAt id) (s.flagAt (s.flagOfHub id)) e
    refine ⟨?_, rfl⟩
    rw [hubAt_publish, if_pos rfl, publish_fst]
    cases ht : ((s.hubAt id).publish (s.flagAt (s.flagOfHub id)) e).1 with
    | true => simpa [ht, Note.accepted] using hp
    | false => simpa [ht, Note.accepted] using hp
  · refine .of_eq (by rw [hubAt_publish, if_neg ho]) ?_ rfl
    cases (s.publish hub e).1 with
    | true => simp [Note.accepted, Ne.symm ho]
    | false => rfl

theorem booked_stop (s : System) (hub id : Nat) : Booked id s .quiet (s.stop hub) [] := by
  by_cases ho : id = hub
  · subst ho
    refine ⟨?_, rfl⟩
    rw [hubAt_stop, if_pos rfl]
    exact Hub.Passage.stop _ _
  · exact .of_eq (by rw [hubAt_stop, if_neg ho]) rfl rfl

/-- Asking a hub removes what the call takes and what nobody wants. -/
theorem HubsOnly.passage_askHub {s : System} (hs : s.HubsOnly) (hub : Nat) (ask : Ask) (resumed : Bool)
    (id : Nat) :
    ∃ gone, Hub.Passage (s.hubAt id) ((s.askHub hub ask resumed).2.hubAt id) [] gone ∧
      gone.filterMap Removal.taker =
        if hub = id then (s.askHub hub ask resumed).1.takes ask else [] := by
  by_cases ho : id = hub
  · subst ho
    have o := Hub.dispatch_outcome (hs.coherent id) (s.flagAt (s.flagOfHub id)) ask resumed
    obtain ⟨gone, hp, ht⟩ := o.passage
    refine ⟨gone, ?_, ?_⟩
    · rw [hubAt_askHub, if_pos rfl]
      exact hp
    · rw [askHub_fst, if_pos rfl]
      exact ht
  · refine ⟨[], ?_, by simp [Ne.symm ho]⟩
    rw [hubAt_askHub, if_neg ho]
    exact .still rfl rfl rfl

theorem takes_look {ask : Ask} (h : ask.take = false) (p : Hub.Pause) : p.takes ask = [] := by
  cases p with
  | answer fetch =>
    cases fetch with
    | delivered e => simp [Hub.Pause.takes, h]
    | pending st => rfl
  | onQueue => rfl
  | onFlag => rfl

theorem HubsOnly.booked_probe {s : System} (hs : s.HubsOnly) (hub : Nat) (mask : Mask) (sink id : Nat) :
    ∃ gone, Booked id s
      (.returned (.askHub hub ⟨mask, .noWait, sink, false⟩) (.status (s.probe hub mask sink).1))
      (s.probe hub mask sink).2 gone := by
  obtain ⟨gone, hp, ht⟩ := hs.passage_askHub hub ⟨mask, .noWait, sink, false⟩ false id
  refine ⟨gone, probe_snd s hub mask sink ▸ hp, ?_⟩
  rw [ht, takes_look rfl, ite_self]
  rfl

theorem handed_askHub (s : System) (hub : Nat) (ask : Ask) (resumed : Bool) (id : Nat) :
    (Note.ofCall (.askHub hub ask) (s.advance resumed (.askHub hub ask)).1.reply?).handed id =
      if hub = id then (s.askHub hub ask resumed).1.takes ask else [] := by
  rw [advance]
  cases hp : (s.askHub hub ask resumed).1 with
  | answer fetch =>
    cases ht : ask.take with
    | true =>
      cases fetch with
      | delivered e => simp [hp, pausePoint, Progress.reply?, Note.ofCall, Note.handed, ht, Hub.Pause.takes]
      | pending st => simp [hp, pausePoint, Progress.reply?, Note.ofCall, Note.handed, Hub.Pause.takes]
    | false =>
      rw [takes_look ht, ite_self]
      simp [hp, pausePoint, Progress.reply?, Note.ofCall, Note.handed]
  | onQueue => simp [hp, pausePoint, Progress.reply?, Note.ofCall, Note.handed, Hub.Pause.takes]
  | onFlag => simp [hp, pausePoint, Progress.reply?, Note.ofCall, Note.handed, Hub.Pause.takes]

theorem HubsOnly.booked_advance {s : System} (hs : s.HubsOnly) (resumed : Bool) (c : Call) (id : Nat) :
    (s.advance resumed c).2.HubsOnly ∧
      ∃ gone, Booked id s (Note.ofCall c (s.advance resumed c).1.reply?) (s.advance resumed c).2 gone := by
  cases c with
  | waitForFlag flag =>
    have hn : (s.advance resumed (.waitForFlag flag)).2 = s := by
      rw [advance]
      split <;> rfl
    rw [hn]
    refine ⟨hs, [], .of_eq rfl ?_ ?_⟩
    all_goals cases (s.advance resumed (.waitForFlag flag)).1 <;> rfl
  | askHub hub ask =>
    have hn : (s.advance resumed (.askHub hub ask)).2 = (s.askHub hub ask resumed).2 := by
      rw [advance]
      dsimp only
      split <;> rfl
    rw [hn]
    obtain ⟨gone, hp, ht⟩ := hs.passage_askHub hub ask resumed id
    refine ⟨hs.askHub hub ask resumed, gone, ?_, ?_⟩
    · have ha : (Note.ofCall (.askHub hub ask)
          (s.advance resumed (.askHub hub ask)).1.reply?).accepted id = [] := by
        cases (s.advance resumed (.askHub hub ask)).1 <;> rfl
      rw [ha]
      exact hp
    · rw [handed_askHub, ht]
  | fetchFrom channel mask mode =>
    have hn : s.advance resumed (.fetchFrom channel mask mode) =
        (.returned (.fetched (.pending .closed)), s) := by
      simp [advance, hs.channels]
    rw [hn]
    exact ⟨hs, [], .of_eq rfl rfl rfl⟩
  | waitOnChannel channel mode =>
    have hn : s.advance resumed (.waitOnChannel channel mode) = (.returned (.status .closed), s) := by
      simp [advance, hs.channels]
    rw [hn]
    exact ⟨hs, [], .of_eq rfl rfl rfl⟩

theorem HubsOnly.booked_start {s : System} (hs : s.HubsOnly) (c : Call) (id : Nat) :
    (s.start c).2.2.HubsOnly ∧
      ∃ gone, Booked id s (Note.ofCall c (s.start c).2.1.reply?) (s.start c).2.2 gone := by
  have hn : HubsOnly { s with handles := s.handles + 1 } := hs.congr rfl fun _ => rfl
  obtain ⟨hh, gone, hp, ht⟩ := hn.booked_advance false c id
  rw [start]
  split
  · rename_i heq
    rw [heq] at hh hp ht
    exact ⟨hh, gone, hp, ht⟩
  · rename_i heq
    rw [heq] at hh hp ht
    exact ⟨hh.congr rfl fun _ => rfl, gone, hp, ht⟩

theorem HubsOnly.booked_resume {s : System} (hs : s.HubsOnly) (p : Sleeper) (id : Nat) :
    (s.resume p).2.HubsOnly ∧
      ∃ gone, Booked id s (Note.ofCall p.call (s.resume p).1) (s.resume p).2 gone := by
  have hn : (s.replace { p with awake := false }).HubsOnly := hs.congr rfl fun _ => rfl
  obtain ⟨hh, gone, hp, ht⟩ := hn.booked_advance true p.call id
  rw [resume]
  split
  · split
    · rename_i heq
      rw [heq] at hh hp ht
      exact ⟨hh.congr rfl fun _ => rfl, gone, hp, ht⟩
    · rename_i heq
      rw [heq] at hh hp ht
      exact ⟨hh.congr rfl fun _ => rfl, gone, hp, ht⟩
  · exact ⟨hn, [], .of_eq rfl rfl rfl⟩

theorem HubsOnly.booked_step {s : System} (hs : s.HubsOnly) (m : HubMove) (id : Nat) :
    (m.step s).2.HubsOnly ∧ ∃ gone, Booked id s (m.step s).1 (m.step s).2 gone := by
  cases m with
  | makeFlag => exact ⟨hs.congr rfl fun _ => rfl, [], .of_eq rfl rfl rfl⟩
  | addSource flag asynchronous => exact ⟨hs.congr rfl fun _ => rfl, [], .of_eq rfl rfl rfl⟩
  | raise flag bit =>
    exact ⟨hs.congr (channels_raise s flag bit) (hubAt_raise s flag bit), [],
      .of_eq (hubAt_raise s flag bit id) rfl rfl⟩
  | clear flag bit => exact ⟨hs.congr rfl fun _ => rfl, [], .of_eq rfl rfl rfl⟩
  | makeHub name flag =>
    rw [HubMove.step]
    split
    · exact ⟨hs.addHub name flag, [], booked_addHub s name flag id⟩
    · exact ⟨hs, [], .of_eq rfl rfl rfl⟩
  | addSink hub sink => exact ⟨hs.addSink hub sink, [], booked_addSink s hub sink id⟩
  | publish hub e => exact ⟨hs.publish hub e, [], booked_publish s hub e id⟩
  | notify hub =>
    exact ⟨hs.congr (channels_notify s hub) (hubAt_notify s hub), [],
      .of_eq (hubAt_notify s hub id) rfl rfl⟩
  | stop hub => exact ⟨hs.stop hub, [], booked_stop s hub id⟩
  | probe hub mask sink =>
    refine ⟨?_, hs.booked_probe hub mask sink id⟩
    rw [HubMove.step, probe_snd]
    exact hs.askHub hub _ false
  | call c => exact hs.booked_start c id
  | resume handle =>
    rw [HubMove.step]
    split
    · exact ⟨hs, [], .of_eq rfl rfl rfl⟩
    · exact hs.booked_resume _ id

theorem HubsOnly.after {s : System} (hs : s.HubsOnly) (ms : List HubMove) : (s.after ms).HubsOnly := by
  induction ms generalizing s with
  | nil => exact hs
  | cons m ms ih => exact ih (hs.booked_step m 0).1

end System

namespace Hub

/-- The books of a hub at one moment, over all that came in and all that left. -/
structure Books (h : Hub) (came : List Event) (gone : List Removal) : Prop where
  balance : came = gone.map Removal.event ++ h.events
  delivered : h.delivered = gone.countP Removal.isTaken
  dropped : h.dropped = gone.countP (fun r => !r.isTaken)

theorem books_absent : absent.Books [] [] := ⟨rfl, rfl, rfl⟩

theorem Books.append {h h' : Hub} {came new : List Event} {gone more : List Removal}
    (b : h.Books came gone) (p : Passage h h' new more) : h'.Books (came ++ new) (gone ++ more) where
  balance := by
    rw [b.balance, List.append_assoc, p.balance, List.map_append, List.append_assoc]
  delivered := by rw [p.delivered, b.delivered, List.countP_append]
  dropped := by rw [p.dropped, b.dropped, List.countP_append]

theorem Books.total {h : Hub} {came : List Event} {gone : List Removal} (b : h.Books came gone) :
    h.delivered + h.dropped + h.queue.length = came.length := by
  rw [b.delivered, b.dropped, ← length_events]
  exact length_of_balance b.balance

end Hub

def Event.Renames (renamed original : Event) : Prop := renamed = { original with id := renamed.id }

theorem sublist_takers (gone : List Removal) (q : Ask × Event → Bool)
    (hp : ∀ r ∈ gone, ∃ sinks, r.Proper sinks) :
    List.SublistForall₂ Event.Renames (((gone.filterMap Removal.taker).filter q).map Prod.snd)
      (gone.map Removal.event) := by
  induction gone with
  | nil => exact .nil
  | cons r gone ih =>
    have ih := ih fun r hr => hp r (List.mem_cons_of_mem _ hr)
    cases ht : r.taker with
    | none =>
      rw [List.filterMap_cons_none ht]
      exact .cons_right ih
    | some taker =>
      rw [List.filterMap_cons_some ht, List.filter_cons]
      split
      · obtain ⟨sinks, hr⟩ := hp r List.mem_cons_self
        obtain ⟨ask, e⟩ := taker
        rw [Removal.Proper, ht] at hr
        obtain ⟨canonical, -, -, rfl⟩ := hr
        exact .cons rfl ih
      · exact .cons_right ih

namespace System

/-- The books of a hub over a run, with what left its queue in each move. -/
structure Ledger (s : System) (ms : List HubMove) (id : Nat) (gone : List (List Removal)) : Prop where
  length : gone.length = ms.length
  books : ∀ n ≤ ms.length, ((s.after (ms.take n)).hubAt id).Books
    ((s.notes (ms.take n)).flatMap (Note.accepted id)) (gone.take n).flatten
  handed : gone.map (List.filterMap Removal.taker) = (s.notes ms).map (Note.handed id)
  proper : ∀ (n : Nat) (g : List Removal), gone[n]? = some g → ∀ r ∈ g,
    r.Proper ((s.after (ms.take n)).hubAt id).sinks

theorem ledger_nil (files : FileSystem) (id : Nat) : (empty files).Ledger [] id [] where
  length := rfl
  books n _ := by
    rw [List.take_nil, List.take_nil]
    exact Hub.books_absent
  handed := rfl
  proper n g hg := by cases hg

theorem Ledger.snoc {s : System} {ms : List HubMove} {id : Nat} {gone : List (List Removal)} {m : HubMove}
    {g : List Removal} (l : s.Ledger ms id gone)
    (b : Booked id (s.after ms) (m.step (s.after ms)).1 (m.step (s.after ms)).2 g) :
    s.Ledger (ms ++ [m]) id (gone ++ [g]) where
  length := by rw [List.length_append, List.length_append, l.length]; rfl
  books n hn := by
    rw [List.length_append, List.length_singleton] at hn
    -- only one prefix is new, the whole run
    rcases Nat.lt_or_ge ms.length n with h | h
    · have hend := l.books ms.length (Nat.le_refl _)
      rw [List.take_length, ← l.length, List.take_length] at hend
      have hm : (ms ++ [m]).take n = ms ++ [m] := List.take_of_length_le (by simp; omega)
      have hg : (gone ++ [g]).take n = gone ++ [g] :=
        List.take_of_length_le (by simp [l.length]; omega)
      rw [hm, hg, after_append, notes_append, List.flatMap_append, List.flatten_append]
      simpa [after, notes] using hend.append b.passage
    · rw [List.take_append_of_le_length h, List.take_append_of_le_length (l.length.symm ▸ h)]
      exact l.books n h
  handed := by
    rw [List.map_append, l.handed, notes_append, List.map_append, notes, List.map_singleton, b.handed]
    rfl
  proper n h hg r hr := by
    rcases Nat.lt_or_ge n gone.length with hn | hn
    · rw [List.getElem?_append_left hn] at hg
      rw [List.take_append_of_le_length (l.length ▸ Nat.le_of_lt hn)]
      exact l.proper n h hg r hr
    · rw [List.getElem?_append_right hn, List.getElem?_singleton] at hg
      split at hg
      · rename_i hz
        cases hg
        have hl : n = ms.length := by
          rw [← l.length]
          omega
        rw [hl, List.take_left]
        exact b.passage.proper r hr
      · cases hg

theorem exists_ledger (files : FileSystem) (ms : List HubMove) (id : Nat) :
    ∃ gone, (empty files).Ledger ms id gone := by
  induction ms using List.reverseRecOn with
  | nil => exact ⟨[], ledger_nil files id⟩
  | append_singleton ms m ih =>
    obtain ⟨gone, l⟩ := ih
    have hs := (hubsOnly_empty files).after ms
    obtain ⟨-, g, b⟩ := hs.booked_step m id
    exact ⟨gone ++ [g], l.snoc b⟩

/-- What a hub hands out, to the calls of one kind or to all, comes in the order of publication. -/
theorem Ledger.fifo {s : System} {ms : List HubMove} {id : Nat} {gone : List (List Removal)}
    (l : s.Ledger ms id gone) (q : Ask × Event → Bool) :
    List.SublistForall₂ Event.Renames
      ((((s.notes ms).flatMap (Note.handed id)).filter q).map Prod.snd)
      ((s.notes ms).flatMap (Note.accepted id)) := by
  have hb := l.books ms.length (Nat.le_refl _)
  rw [List.take_length, ← l.length, List.take_length] at hb
  have ht : (s.notes ms).flatMap (Note.handed id) = gone.flatten.filterMap Removal.taker := by
    rw [List.flatMap, ← l.handed, List.filterMap_flatten]
  rw [hb.balance, ht]
  have hs := sublist_takers gone.flatten q (by
    intro r hr
    obtain ⟨g, hg, hr⟩ := List.mem_flatten.1 hr
    obtain ⟨n, hn⟩ := List.getElem?_of_mem hg
    exact ⟨_, l.proper n g hn r hr⟩)
  obtain ⟨es, he, hsub⟩ := List.sublistForall₂_iff.1 hs
  exact List.sublistForall₂_iff.2 ⟨es, he, hsub.trans (List.sublist_append_left _ _)⟩

/-- Every hub keeps its books, whatever is done with it and in whatever order its sleepers go on: at every
moment what it took in is what it handed out or threw away, in order, followed by what it holds; each
delivery is the removal of one event, made for its owner; and no consumer sees events out of order. -/
theorem delivery_ledger (files : FileSystem) (ms : List HubMove) (id : Nat) :
    ∃ gone, (empty files).Ledger ms id gone ∧
      (∀ n ≤ ms.length,
        let h := ((empty files).after (ms.take n)).hubAt id
        h.delivered + h.dropped + h.queue.length =
          (((empty files).notes (ms.take n)).flatMap (Note.accepted id)).length) ∧
      ∀ sink : Nat, List.SublistForall₂ Event.Renames
        (((((empty files).notes ms).flatMap (Note.handed id)).filter fun p => p.1.sink = sink).map Prod.snd)
        (((empty files).notes ms).flatMap (Note.accepted id)) := by
  obtain ⟨gone, l⟩ := exists_ledger files ms id
  exact ⟨gone, l, fun n hn => (l.books n hn).total, fun sink => l.fifo _⟩

end System
end EventHub
