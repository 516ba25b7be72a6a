import EventHub.Proofs.Hub.Ledger
import EventHub.Proofs.System.Effect
set_option autoImplicit false

/-!
Bound events. Sinks are only ever added behind those that are there, so the first sink that takes an id stays the
first. An event that somebody takes when it comes in is therefore never thrown away, and goes to nobody else.
-/
namespace EventHub

theorem IsOwner.unique {sinks : List Sink} {id c d : Path} {i j : Nat} (h : IsOwner sinks id i c)
    (k : IsOwner sinks id j d) : i = j ∧ c = d := by
  have hi : Hub.routeFrom 0 id sinks = some (i, c) := Hub.routeFrom_eq_some_iff.2 ⟨i, (Nat.zero_add i).symm, h⟩
  have hj : Hub.routeFrom 0 id sinks = some (j, d) := Hub.routeFrom_eq_some_iff.2 ⟨j, (Nat.zero_add j).symm, k⟩
  rw [hi] at hj
  cases hj
  exact ⟨rfl, rfl⟩

/-- What leaves for good has no owner, and what is taken goes to its owner. -/
theorem Removal.Proper.taken {sinks : List Sink} {r : Removal} {sink : Nat} {canonical : Path}
    (h : r.Proper sinks) (owner : IsOwner sinks r.event.id sink canonical) :
    ∃ ask : Ask, r = ⟨r.event, some (ask, { r.event with id := canonical })⟩ ∧
      ask.Wants sink canonical := by
  obtain ⟨event, taker⟩ := r
  cases taker with
  | none =>
    obtain ⟨s, hs, ht⟩ := owner.takes
    have hrefuses : s.accept event.id = none := h s (List.mem_of_getElem? hs)
    rw [hrefuses] at ht
    cases ht
  | some taker =>
    obtain ⟨ask, e⟩ := taker
    obtain ⟨c, hc, hm, he⟩ := h
    obtain ⟨hsink, rfl⟩ := hc.unique owner
    exact ⟨ask, by rw [he], hsink.symm, hm⟩

/-- What becomes of the event at a place among those that came in, once these have left and those are queued: it
waits, or a call took it for this sink under this name. -/
inductive Kept (gone : List Removal) (queued : List Event) (place : Nat) (e : Event) (sink : Nat)
    (canonical : Path) : Prop where
  | waits (left : gone.length ≤ place) (there : queued[place - gone.length]? = some e)
  | taken (ask : Ask) (wanted : ask.Wants sink canonical)
      (left : gone[place]? = some ⟨e, some (ask, { e with id := canonical })⟩)

theorem kept_of_balance {came queued : List Event} {gone : List Removal} {place : Nat} {e : Event} {sink : Nat}
    {canonical : Path} (balance : came = gone.map Removal.event ++ queued) (he : came[place]? = some e)
    (owner : ∀ r, gone[place]? = some r → ∃ sinks, r.Proper sinks ∧ IsOwner sinks e.id sink canonical) :
    Kept gone queued place e sink canonical := by
  rw [balance] at he
  rcases Nat.lt_or_ge place gone.length with hl | hl
  · have hr : gone[place]? = some gone[place] := List.getElem?_eq_getElem hl
    have hevent : gone[place].event = e := by
      rw [List.getElem?_append_left (by simpa using hl), List.getElem?_map, hr] at he
      exact Option.some.inj he
    obtain ⟨sinks, hp, ho⟩ := owner _ hr
    obtain ⟨ask, heq, hw⟩ := hp.taken (hevent ▸ ho)
    refine .taken ask hw ?_
    rw [hr, heq, hevent]
  · refine .waits hl ?_
    rwa [List.getElem?_append_right (by simpa using hl), List.length_map] at he

namespace Hub

theorem Outcome.sinks {h : Hub} {flag : Flag} {ask : Ask} {scanned woke : Bool} {p : Pause} {t : Turn}
    (o : Outcome h flag ask scanned woke p t) : t.hub.sinks = h.sinks := by cases o <;> rfl

structure Traffic (h h' : Hub) (new : List Event) (gone : List Removal) : Prop where
  balance : h.events ++ new = gone.map Removal.event ++ h'.events
  delivered : h'.delivered = h.delivered + gone.countP Removal.isTaken
  dropped : h'.dropped = h.dropped + gone.countP (fun r => !r.isTaken)

theorem Passage.traffic {h h' : Hub} {new : List Event} {gone : List Removal} (p : Passage h h' new gone) :
    Traffic h h' new gone := ⟨p.balance, p.delivered, p.dropped⟩

theorem Traffic.trans {h h' h'' : Hub} {new more : List Event} {gone lost : List Removal}
    (a : Traffic h h' new gone) (b : Traffic h' h'' more lost) : Traffic h h'' (new ++ more) (gone ++ lost) where
  balance := by
    rw [← List.append_assoc, a.balance, List.append_assoc, b.balance, List.map_append, List.append_assoc]
  delivered := by rw [b.delivered, a.delivered, List.countP_append, Nat.add_assoc]
  dropped := by rw [b.dropped, a.dropped, List.countP_append, Nat.add_assoc]

end Hub

namespace System

theorem Becomes.route {s t : System} {m : Move} {id : Nat} (hb : Becomes s m id t) (hc : (s.hubAt id).Coherent)
    {p : Path} {o : Nat × Path} (h : (s.hubAt id).route p = some o) : (t.hubAt id).route p = some o := by
  have hsame {h' : Hub} (hs : h'.sinks = (s.hubAt id).sinks) : h'.route p = some o := by
    rw [Hub.route, hs]
    exact h
  cases hb with
  | kept _ _ hub =>
    rw [hub]
    exact h
  | made _ new =>
    -- nobody was bound to a hub that was not there
    rw [hubAt_of_le (Nat.le_of_eq new.symm)] at h
    cases h
  | joined _ sink hub =>
    rw [hub]
    exact Hub.route_addSink sink h
  | published _ e hub =>
    rw [hub]
    refine hsame ?_
    unfold Hub.publish
    split <;> rfl
  | stopped _ _ hub =>
    rw [hub]
    refine hsame ?_
    unfold Hub.stop
    split <;> rfl
  | asked _ ask resumed hub =>
    rw [hub]
    exact hsame (Hub.dispatch_outcome hc _ ask resumed).sinks

theorem Possible.route_ran {files : FileSystem} {s : System} (hs : Possible files s) (ms : List Move) {id : Nat}
    {p : Path} {o : Nat × Path} (h : (s.hubAt id).route p = some o) : ((s.ran ms).hubAt id).route p = some o := by
  induction ms generalizing s with
  | nil => exact h
  | cons m ms ih =>
    exact ih (.move s m hs) ((becomes_step s m id).route (hs.coherentAndIdle.coherent id) h)

theorem after_eq_ran (s : System) (ms : List HubMove) : s.after ms = s.ran (ms.map .onHubs) := by
  induction ms generalizing s with
  | nil => rfl
  | cons m ms ih => exact ih (m.step s).2

theorem possible_after (files : FileSystem) (ms : List HubMove) : Possible files ((empty files).after ms) :=
  after_eq_ran (empty files) ms ▸ possible_ran files _

theorem Becomes.passage {s t : System} {m : Move} {id : Nat} (hb : Becomes s m id t)
    (hc : (s.hubAt id).Coherent) : ∃ new gone, Hub.Passage (s.hubAt id) (t.hubAt id) new gone ∧
      (t.hubAt id).nextSeq = (s.hubAt id).nextSeq + new.length ∧ new.length ≤ 1 := by
  cases hb with
  | kept _ _ hub => exact ⟨[], [], hub ▸ .still rfl rfl rfl, by rw [hub]; rfl, Nat.zero_le 1⟩
  | made _ new name flag hub =>
    rw [hubAt_of_le (Nat.le_of_eq new.symm), hub]
    exact ⟨[], [], .still rfl rfl rfl, rfl, Nat.zero_le 1⟩
  | joined _ sink hub =>
    rw [hub]
    exact ⟨[], [], .still rfl rfl rfl, rfl, Nat.zero_le 1⟩
  | published _ e hub =>
    rw [hub]
    refine ⟨_, _, Hub.Passage.publish _ _ e, ?_⟩
    unfold Hub.publish
    split
    · exact ⟨rfl, Nat.le_refl 1⟩
    · exact ⟨rfl, Nat.zero_le 1⟩
  | stopped _ _ hub =>
    rw [hub]
    refine ⟨[], [], Hub.Passage.stop _ _, ?_, Nat.zero_le 1⟩
    unfold Hub.stop
    split <;> rfl
  | asked _ ask resumed hub =>
    have o := Hub.dispatch_outcome hc (s.flagAt (s.flagOfHub id)) ask resumed
    obtain ⟨gone, hp, -⟩ := o.passage
    rw [hub]
    exact ⟨[], gone, hp, o.queue_suffix.2, Nat.zero_le 1⟩

/-- No number that a hub keeps runs ahead of the moves, so numbers of sixty-four bits do for as many moves. -/
theorem counters_ran (files : FileSystem) (ms : List Move) (id : Nat) :
    let h := ((empty files).ran ms).hubAt id
    h.delivered + h.dropped + h.queue.length = h.nextSeq ∧ h.nextSeq ≤ ms.length := by
  induction ms using List.reverseRecOn with
  | nil => exact ⟨rfl, Nat.le_refl 0⟩
  | append_singleton ms m ih =>
    obtain ⟨htotal, hle⟩ := ih
    obtain ⟨new, gone, hp, hseq, hnew⟩ := (becomes_step ((empty files).ran ms) m id).passage
      ((possible_ran files ms).coherentAndIdle.coherent id)
    have hstep := hp.total
    simp only [ran_append, ran, List.length_append, List.length_singleton]
    omega

/-- What came into a hub over a run and what left it. Whatever left did so as the sinks said that were there at the
moment. -/
structure Account (s : System) (ms : List Move) (id : Nat) (new : List Event) (gone : List Removal) : Prop where
  traffic : Hub.Traffic (s.hubAt id) ((s.ran ms).hubAt id) new gone
  proper : ∀ r ∈ gone, ∃ before after, ms = before ++ after ∧ r.Proper ((s.ran before).hubAt id).sinks

theorem Possible.exists_account {files : FileSystem} {s : System} (hs : Possible files s) (ms : List Move)
    (id : Nat) : ∃ new gone, s.Account ms id new gone := by
  induction ms generalizing s with
  | nil => exact ⟨[], [], (Hub.Passage.still rfl rfl rfl).traffic, fun r hr => by cases hr⟩
  | cons m ms ih =>
    obtain ⟨new, gone, p, -⟩ := (becomes_step s m id).passage (hs.coherentAndIdle.coherent id)
    obtain ⟨more, lost, a⟩ := ih (.move s m hs)
    refine ⟨new ++ more, gone ++ lost, p.traffic.trans a.traffic, fun r hr => ?_⟩
    rcases List.mem_append.1 hr with hr | hr
    · exact ⟨[], m :: ms, rfl, p.proper r hr⟩
    · obtain ⟨before, after, rfl, hp⟩ := a.proper r hr
      exact ⟨m :: before, after, rfl, hp⟩

theorem Account.kept {files : FileSystem} {s : System} {ms : List Move} {id : Nat} {new : List Event}
    {gone : List Removal} (a : s.Account ms id new gone) (hs : Possible files s) {place : Nat} {e : Event}
    {sink : Nat} {canonical : Path} (he : (s.hubAt id).events[place]? = some e)
    (owner : IsOwner (s.hubAt id).sinks e.id sink canonical) :
    Kept gone ((s.ran ms).hubAt id).events place e sink canonical := by
  refine kept_of_balance a.traffic.balance ?_ fun r hr => ?_
  · rw [List.getElem?_append_left (List.getElem?_eq_some_iff.1 he).1]
    exact he
  · obtain ⟨before, after, -, hp⟩ := a.proper r (List.mem_of_getElem? hr)
    exact ⟨_, hp, Hub.route_eq_some_iff.1 (hs.route_ran before (Hub.route_eq_some_iff.2 owner))⟩

/-- What left a hub after some moves of a run was refused or wanted by sinks that were there later. -/
theorem Ledger.proper_later {s : System} {ms rest : List HubMove} {id : Nat} {gone : List (List Removal)}
    (l : s.Ledger (ms ++ rest) id gone) {place : Nat}
    (hplace : ((s.notes ms).flatMap (Note.accepted id)).length ≤ place) {r : Removal}
    (hr : gone.flatten[place]? = some r) :
    ∃ later, r.Proper (((s.after ms).after later).hubAt id).sinks := by
  have hb := (l.books ms.length (by simp)).balance
  rw [List.take_left] at hb
  have hlen : (gone.take ms.length).flatten.length ≤ place := by
    have h := congrArg List.length hb
    rw [List.length_append, List.length_map] at h
    omega
  rw [← List.take_append_drop ms.length gone, List.flatten_append, List.getElem?_append_right hlen] at hr
  obtain ⟨g, hg, hm⟩ := List.mem_flatten.1 (List.mem_of_getElem? hr)
  obtain ⟨n, hn⟩ := List.getElem?_of_mem hg
  rw [List.getElem?_drop] at hn
  have hp := l.proper _ g hn r hm
  rw [List.take_append, List.take_of_length_le (Nat.le_add_right _ _), after_append] at hp
  exact ⟨_, hp⟩

theorem Ledger.kept {files : FileSystem} {ms rest : List HubMove} {id : Nat} {e : Event}
    {gone : List (List Removal)} (l : (empty files).Ledger (ms ++ .publish id e :: rest) id gone)
    (accepted : (((empty files).after ms).publish id e).1 = true) {sink : Nat} {canonical : Path}
    (owner : IsOwner (((empty files).after ms).hubAt id).sinks e.id sink canonical) :
    Kept gone.flatten (((empty files).after (ms ++ .publish id e :: rest)).hubAt id).events
      (((empty files).notes ms).flatMap (Note.accepted id)).length e sink canonical := by
  have hb := (l.books (ms ++ .publish id e :: rest).length (Nat.le_refl _)).balance
  rw [List.take_length, ← l.length, List.take_length] at hb
  refine kept_of_balance hb ?_ fun r hr => ?_
  · rw [notes_append, List.flatMap_append, List.getElem?_append_right (Nat.le_refl _), Nat.sub_self, notes,
      List.flatMap_cons]
    simp [HubMove.step, accepted, Note.accepted]
  · obtain ⟨later, hp⟩ := l.proper_later (Nat.le_refl _) hr
    refine ⟨_, hp, Hub.route_eq_some_iff.1 ?_⟩
    rw [after_eq_ran]
    exact (possible_after files ms).route_ran _ (Hub.route_eq_some_iff.2 owner)

theorem Ledger.returned {s : System} {ms : List HubMove} {id : Nat} {gone : List (List Removal)}
    (l : s.Ledger ms id gone) {place : Nat} {r : Removal} {ask : Ask} {e : Event}
    (hr : gone.flatten[place]? = some r) (ht : r.taker = some (ask, e)) :
    .returned (.askHub id ask) (.fetched (.delivered e)) ∈ s.notes ms := by
  have hm : (ask, e) ∈ gone.flatten.filterMap Removal.taker :=
    List.mem_filterMap.2 ⟨r, List.mem_of_getElem? hr, ht⟩
  rw [List.filterMap_flatten, l.handed, ← List.flatMap_def, List.mem_flatMap] at hm
  obtain ⟨note, hnote, hh⟩ := hm
  unfold Note.handed at hh
  split at hh
  · split at hh
    · rename_i hub _ _ _ hid
      cases List.mem_singleton.1 hh
      subst hid
      exact hnote
    · cases hh
  · cases hh

/-- Whoever is bound stays bound, to the same sink under the same name. An event that comes in when its id is bound
is never thrown away, whatever is done afterwards: it waits in the queue until a call takes it, and that one asks for
the sink that was the first to take the id when the event came in. The first part is about all that can be done with
a system, the second about the calls of the hub itself, which return what they take. -/
theorem bound_event_kept (files : FileSystem) :
    (∀ (s : System) (id : Nat), Possible files s → ∀ ms : List Move,
        (∀ p, (s.hubAt id).isBound p = true → ((s.ran ms).hubAt id).isBound p = true) ∧
        (∀ p sink canonical, IsOwner (s.hubAt id).sinks p sink canonical →
          IsOwner ((s.ran ms).hubAt id).sinks p sink canonical) ∧
        (∃ new gone, s.Account ms id new gone) ∧
        ∀ new gone, s.Account ms id new gone → ∀ place e sink canonical,
          (s.hubAt id).events[place]? = some e → IsOwner (s.hubAt id).sinks e.id sink canonical →
            Kept gone ((s.ran ms).hubAt id).events place e sink canonical) ∧
      ∀ (ms rest : List HubMove) (id : Nat) (e : Event),
        let s := (empty files).after ms
        let came := ((empty files).notes ms).flatMap (Note.accepted id)
        let run := ms ++ .publish id e :: rest
        (s.hubAt id).isBound e.id = true → (s.publish id e).1 = true →
          ∃ sink canonical, IsOwner (s.hubAt id).sinks e.id sink canonical ∧
            (∃ gone, (empty files).Ledger run id gone) ∧
            ∀ gone, (empty files).Ledger run id gone →
              Kept gone.flatten (((empty files).after run).hubAt id).events came.length e sink canonical ∧
              ∀ r ask taken, gone.flatten[came.length]? = some r → r.taker = some (ask, taken) →
                .returned (.askHub id ask) (.fetched (.delivered taken)) ∈ (empty files).notes run := by
  constructor
  · intro s id hs ms
    refine ⟨fun p hb => ?_, fun p sink canonical ho => ?_, hs.exists_account ms id,
      fun new gone a place e sink canonical he ho => a.kept hs he ho⟩
    · obtain ⟨o, ho⟩ := Option.isSome_iff_exists.1 hb
      exact Option.isSome_iff_exists.2 ⟨o, hs.route_ran ms ho⟩
    · exact Hub.route_eq_some_iff.1 (hs.route_ran ms (Hub.route_eq_some_iff.2 ho))
  · intro ms rest id e s came run hb accepted
    obtain ⟨⟨sink, canonical⟩, ho⟩ := Option.isSome_iff_exists.1 hb
    have owner : IsOwner (s.hubAt id).sinks e.id sink canonical := Hub.route_eq_some_iff.1 ho
    refine ⟨sink, canonical, owner, exists_ledger files run id, fun gone l => ⟨l.kept accepted owner, ?_⟩⟩
    exact fun r ask taken hr ht => l.returned hr ht

/-- Before the event comes in, the second sink is the first that takes it, and it writes its own name. -/
def boundBefore : List HubMove :=
  [.makeFlag, .makeHub "h" 0, .addSink 0 (.ofDepth 2 none), .addSink 0 (.ofDepth 1 (some ⟨"z", by decide⟩))]

def boundAfter : List HubMove :=
  [.addSink 0 ⟨some⟩, .call (.askHub 0 ⟨.any, .noWait, 2, true⟩), .call (.askHub 0 ⟨.any, .noWait, 1, true⟩)]

theorem bound_event_kept_renamed :
    (((((empty .fresh).after boundBefore).ran (boundAfter.map .onHubs)).hubAt 0).isBound anEvent.id = true) ∧
      ∃ (gone : List (List Removal)) (ask : Ask),
        (empty .fresh).Ledger (boundBefore ++ .publish 0 anEvent :: boundAfter) 0 gone ∧ ask.sink = 1 ∧
        gone.flatten[0]? = some ⟨anEvent, some (ask, { anEvent with id := ⟨"z.a", by decide⟩ })⟩ ∧
        .returned (.askHub 0 ask) (.fetched (.delivered { anEvent with id := ⟨"z.a", by decide⟩ })) ∈
          (empty .fresh).notes (boundBefore ++ .publish 0 anEvent :: boundAfter) := by
  obtain ⟨hstays, hevents⟩ := bound_event_kept .fresh
  obtain ⟨sink, canonical, owner, ⟨gone, l⟩, hkept⟩ :=
    hevents boundBefore boundAfter 0 anEvent (by decide) (by decide)
  obtain ⟨rfl, rfl⟩ := owner.unique (Hub.route_eq_some_iff.1 (by decide) :
    IsOwner (((empty .fresh).after boundBefore).hubAt 0).sinks anEvent.id 1 ⟨"z.a", by decide⟩)
  obtain ⟨hk, hreturned⟩ := hkept gone l
  refine ⟨(hstays _ 0 (possible_after .fresh boundBefore) _).1 _ (by decide), gone, ?_⟩
  cases hk with
  | waits left there =>
    have hnone : (((empty .fresh).after (boundBefore ++ .publish 0 anEvent :: boundAfter)).hubAt 0).events = [] := by
      decide
    rw [hnone] at there
    cases there
  | taken ask wanted left => exact ⟨ask, l, wanted.1.symm, left, hreturned _ ask _ left rfl⟩

end System
end EventHub
