import EventHub.Proofs.Hub.Ledger
import EventHub.Proofs.Mask
import EventHub.Proofs.System.AtOnce
set_option autoImplicit false

/-!
Asking round after round. Each consumer asks in turn for whatever there is, without waiting. The event in front is
thrown away by the first who asks or taken by its owner when its turn comes, so every round moves something, and in
as many rounds as there are events all of them are where they belong.
-/
namespace EventHub

def Ask.poll (sink : Nat) : Ask := ⟨.any, .noWait, sink, true⟩

def IsRound (sinks : List Sink) (round : List Nat) : Prop := ∀ k < sinks.length, k ∈ round

/-- What becomes of events, one after the other: those that no sink takes are thrown away, and each of the others is
given to its owner under the owner's name for it. -/
inductive Dealt (sinks : List Sink) : List Event → List (Nat × Event) → Prop where
  | nil : Dealt sinks [] []
  | dropped (e : Event) (es : List Event) (given : List (Nat × Event)) (refused : ∀ s ∈ sinks, s.accept e.id = none)
      (rest : Dealt sinks es given) : Dealt sinks (e :: es) given
  | delivered (e : Event) (es : List Event) (given : List (Nat × Event)) (sink : Nat) (canonical : Path)
      (owner : IsOwner sinks e.id sink canonical) (rest : Dealt sinks es given) :
      Dealt sinks (e :: es) ((sink, { e with id := canonical }) :: given)

variable {sinks : List Sink} {es gone more : List Event} {given givenMore : List (Nat × Event)}

theorem Dealt.append (h : Dealt sinks gone given) (k : Dealt sinks more givenMore) :
    Dealt sinks (gone ++ more) (given ++ givenMore) := by
  induction h with
  | nil => exact k
  | dropped e es given refused _ ih => exact .dropped e _ _ refused ih
  | delivered e es given sink canonical owner _ ih => exact .delivered e _ _ sink canonical owner ih

def Removal.given? (r : Removal) : Option (Nat × Event) := r.taker.map fun p => (p.1.sink, p.2)

theorem dealt_of_proper {rs : List Removal} (h : ∀ r ∈ rs, r.Proper sinks) :
    Dealt sinks (rs.map Removal.event) (rs.filterMap Removal.given?) := by
  induction rs with
  | nil => exact .nil
  | cons r rs ih =>
    have hr := h r List.mem_cons_self
    have ih := ih fun q hq => h q (List.mem_cons_of_mem r hq)
    obtain ⟨event, taker⟩ := r
    cases taker with
    | none => exact .dropped event _ _ hr ih
    | some taker =>
      obtain ⟨ask, e⟩ := taker
      obtain ⟨canonical, owner, -, he⟩ := hr
      replace he : e = { event with id := canonical } := he
      subst he
      exact .delivered event _ _ ask.sink canonical owner ih

namespace Hub

/-- What is left of a hub after some questions: events in front are gone, and each of them to where it belongs. -/
structure Polled (h : Hub) (gone : List Event) (given : List (Nat × Event)) (h' : Hub) : Prop where
  rules : h.SameRules h'
  events : h.events = gone ++ h'.events
  dealt : Dealt h.sinks gone given
  delivered : h'.delivered = h.delivered + given.length
  dropped : h'.dropped + given.length = h.dropped + gone.length

variable {h h' h'' : Hub}

theorem Polled.refl (h : Hub) : h.Polled [] [] h := ⟨.refl h, rfl, .nil, rfl, rfl⟩

theorem Polled.trans (a : h.Polled gone given h') (b : h'.Polled more givenMore h'') :
    h.Polled (gone ++ more) (given ++ givenMore) h'' where
  rules := a.rules.trans b.rules
  events := by rw [a.events, b.events, List.append_assoc]
  dealt := a.dealt.append (a.rules.sinks ▸ b.dealt)
  delivered := by rw [b.delivered, a.delivered, List.length_append, Nat.add_assoc]
  dropped := by
    have := a.dropped
    have := b.dropped
    simp only [List.length_append]
    omega

theorem Passage.polled {rs : List Removal} (p : Passage h h' [] rs) (rules : h.SameRules h') :
    h.Polled (rs.map Removal.event) (rs.filterMap Removal.given?) h' := by
  have htaken : (rs.filterMap Removal.given?).length = rs.countP Removal.isTaken := by
    rw [List.length_filterMap_eq_countP]
    refine List.countP_congr fun r _ => ?_
    simp [Removal.given?, Removal.isTaken]
  have hall := List.length_eq_countP_add_countP Removal.isTaken (l := rs)
  simp only [Bool.not_eq_true, Bool.decide_eq_false] at hall
  refine ⟨rules, ?_, dealt_of_proper p.proper, ?_, ?_⟩
  · rw [← p.balance, List.append_nil]
  · rw [p.delivered, htaken]
  · rw [p.dropped, htaken, List.length_map]
    omega

/-- The event in front is nobody's, or this sink's. -/
def MovesFront (h : Hub) (k : Nat) : Prop :=
  ∃ e es, h.events = e :: es ∧ (h.route e.id = none ∨ ∃ canonical, h.route e.id = some (k, canonical))

theorem MovesFront.congr {k : Nat} (f : h.MovesFront k) (rules : h.SameRules h') (he : h'.events = h.events) :
    h'.MovesFront k := by
  obtain ⟨e, es, hevents, hroute⟩ := f
  refine ⟨e, es, he.trans hevents, ?_⟩
  rwa [route, rules.sinks]

theorem exists_movesFront (peopled : h.sinks ≠ []) (hne : h.events ≠ []) : ∃ k < h.sinks.length, h.MovesFront k := by
  obtain ⟨e, es, he⟩ := List.exists_cons_of_ne_nil hne
  cases ho : h.route e.id with
  | none => exact ⟨0, List.length_pos_iff.2 peopled, e, es, he, .inl ho⟩
  | some o =>
    obtain ⟨k, canonical⟩ := o
    exact ⟨k, (route_eq_some_iff.1 ho).lt, e, es, he, .inr ⟨canonical, ho⟩⟩

/-- Whoever polls moves the event in front if it is nobody's or the poller's. -/
theorem Outcome.shorter {flag : Flag} {sink : Nat} {scanned woke : Bool} {p : Pause} {t : Turn}
    (o : Outcome h flag (.poll sink) scanned woke p t) (running : h.running = true) (movesFront : h.MovesFront sink) :
    t.hub.events.length < h.events.length := by
  obtain ⟨e, es, he, movable⟩ := movesFront
  have hlen : h.queue.length = es.length + 1 := by
    rw [← List.length_map Entry.event, ← events, he, List.length_cons]
  simp only [events, List.length_map]
  cases o with
  | closed stopped => rw [running] at stopped; cases stopped
  | idle => simp only [shed, List.length_nil]; omega
  | taken lost head rest owner canonical found =>
    simp only [shed, found.queue, List.length_append, List.length_cons]
    omega
  | shown _ _ _ _ _ _ _ take => cases take
  | held _ _ _ _ _ _ _ insists => cases insists
  | sentAway lost head rest owner canonical found unwanted =>
    cases lost with
    | cons e lost =>
      simp only [facing, shed, found.queue, List.length_append, List.length_cons]
      omega
    | nil =>
      -- nothing was lost, so the event in front is the poller's, who would have taken it
      have hhead : head.event = e := by
        rw [events, found.queue] at he
        exact (List.cons.inj he).1
      have howner := found.owner
      rw [hhead] at howner
      rcases movable with hnone | ⟨theirs, hsome⟩
      · rw [hnone] at howner; cases howner
      · rw [hsome] at howner
        cases howner
        exact absurd ⟨rfl, Mask.any_accepts _⟩ unwanted

end Hub

namespace System

variable {files : FileSystem} {s : System} {hub : Nat}

def polls (hub : Nat) (ks : List Nat) : List HubMove := ks.map fun k => .call (.askHub hub (.poll k))

def handedOut (hub : Nat) (notes : List Note) : List (Nat × Event) :=
  (notes.flatMap (Note.handed hub)).map fun p => (p.1.sink, p.2)

def PolledBy (s : System) (hub : Nat) (ks : List Nat) (gone : List Event) : Prop :=
  (s.hubAt hub).Polled gone (handedOut hub (s.notes (polls hub ks))) ((s.after (polls hub ks)).hubAt hub)

theorem polls_append (hub : Nat) (ks ls : List Nat) : polls hub (ks ++ ls) = polls hub ks ++ polls hub ls :=
  List.map_append

theorem handedOut_append (hub : Nat) (ns ms : List Note) :
    handedOut hub (ns ++ ms) = handedOut hub ns ++ handedOut hub ms := by
  rw [handedOut, List.flatMap_append, List.map_append]
  rfl

theorem PolledBy.append {ks ls : List Nat} (h : s.PolledBy hub ks gone)
    (k : (s.after (polls hub ks)).PolledBy hub ls more) : s.PolledBy hub (ks ++ ls) (gone ++ more) := by
  rw [PolledBy, polls_append, notes_append, after_append, handedOut_append]
  exact Hub.Polled.trans h k

theorem handed_pauseReply (hub sink : Nat) (p : Hub.Pause) :
    (Note.ofCall (.askHub hub (.poll sink)) (pauseReply? (.poll sink) p)).handed hub = p.takes (.poll sink) := by
  cases p with
  | answer fetch =>
    cases fetch with
    | delivered e => simp [pauseReply?, Ask.poll, Ask.reply, Note.ofCall, Note.handed, Hub.Pause.takes]
    | pending st => rfl
  | onQueue => rfl
  | onFlag => rfl

theorem Attained.poll (h : Attained files s) (running : (s.hubAt hub).running = true) (k : Nat) :
    ∃ gone, s.PolledBy hub [k] gone ∧ ((s.hubAt hub).MovesFront k → gone ≠ []) := by
  obtain ⟨due, hs⟩ := h.bitInvariant
  have hafter : (s.after (polls hub [k])).hubAt hub =
      ((s.hubAt hub).dispatch (s.flagAt (s.flagOfHub hub)) (.poll k) false).2.hub :=
    congrArg Prod.fst (hubAndFlag_start hs.coherent (lt_of_running running) (.poll k))
  have o := Hub.dispatch_outcome (hs.coherent hub) (s.flagAt (s.flagOfHub hub)) (.poll k) false
  obtain ⟨rs, hpassage, htaken⟩ := o.passage
  have hgiven : handedOut hub (s.notes (polls hub [k])) = rs.filterMap Removal.given? := by
    rw [← handed_pauseReply hub k, ← reply?_start] at htaken
    rw [show Removal.given? = fun r => r.taker.map fun p => (p.1.sink, p.2) from rfl, ← List.map_filterMap, htaken]
    simp [handedOut, polls, notes, HubMove.step]
  have hpolled := hpassage.polled o.sameRules
  rw [← hgiven, ← hafter] at hpolled
  refine ⟨rs.map Removal.event, hpolled, fun movesFront hnil => ?_⟩
  have hshorter := o.shorter running movesFront
  have hevents := hpolled.events
  rw [hnil, List.nil_append] at hevents
  rw [hevents, hafter] at hshorter
  exact Nat.lt_irrefl _ hshorter

/-- Of some polls one after the other, the first that can move the event in front does so. -/
theorem Attained.polled (h : Attained files s) (running : (s.hubAt hub).running = true) (ks : List Nat) :
    ∃ gone, s.PolledBy hub ks gone ∧ ∀ k ∈ ks, (s.hubAt hub).MovesFront k → gone ≠ [] := by
  induction ks generalizing s with
  | nil => exact ⟨[], .refl _, fun _ hk => absurd hk List.not_mem_nil⟩
  | cons j ks ih =>
    obtain ⟨first, hfirst, hmoves⟩ := h.poll running j
    obtain ⟨later, hlater, hmoved⟩ := ih (h.after (polls hub [j])) (hfirst.rules.running.trans running)
    refine ⟨first ++ later, hfirst.append hlater, fun k hk movesFront hnil => ?_⟩
    -- the first left everything in its place, so whoever comes next finds the same in front
    obtain ⟨rfl, hrest⟩ := List.append_eq_nil_iff.1 hnil
    rcases List.mem_cons.1 hk with rfl | hk
    · exact hmoves movesFront rfl
    · exact hmoved k hk (movesFront.congr hfirst.rules hfirst.events.symm) hrest

theorem Attained.round (h : Attained files s) (running : (s.hubAt hub).running = true)
    (peopled : (s.hubAt hub).sinks ≠ []) {round : List Nat} (hround : IsRound (s.hubAt hub).sinks round) :
    ∃ gone, s.PolledBy hub round gone ∧ ((s.hubAt hub).events ≠ [] → gone ≠ []) := by
  obtain ⟨gone, hpolled, hmoves⟩ := h.polled running round
  refine ⟨gone, hpolled, fun hne => ?_⟩
  obtain ⟨k, hk, movesFront⟩ := Hub.exists_movesFront peopled hne
  exact hmoves k (hround k hk) movesFront

theorem Attained.rounds (h : Attained files s) (running : (s.hubAt hub).running = true)
    (peopled : (s.hubAt hub).sinks ≠ []) {rounds : List (List Nat)}
    (hrounds : ∀ round ∈ rounds, IsRound (s.hubAt hub).sinks round) :
    ∃ gone, s.PolledBy hub rounds.flatten gone ∧
      (((s.after (polls hub rounds.flatten)).hubAt hub).events = [] ∨ rounds.length ≤ gone.length) := by
  induction rounds generalizing s with
  | nil => exact ⟨[], .refl _, .inr (Nat.le_refl 0)⟩
  | cons round rounds ih =>
    obtain ⟨first, hfirst, hmoves⟩ := h.round running peopled (hrounds round List.mem_cons_self)
    have hsinks := hfirst.rules.sinks
    obtain ⟨later, hlater, hends⟩ := ih (h.after (polls hub round)) (hfirst.rules.running.trans running)
      (hsinks ▸ peopled) (fun r hr => hsinks ▸ hrounds r (List.mem_cons_of_mem round hr))
    refine ⟨first ++ later, hfirst.append hlater, ?_⟩
    by_cases hne : (s.hubAt hub).events = []
    · have hempty := (hfirst.append hlater).events
      rw [hne] at hempty
      exact .inl (List.append_eq_nil_iff.1 hempty.symm).2
    · rw [List.flatten_cons, polls_append, after_append]
      refine hends.imp_right fun hle => ?_
      have hpos := List.length_pos_iff.2 (hmoves hne)
      simp only [List.length_cons, List.length_append]
      omega

/-- As long as anything is queued, every round moves something, whatever was done before; and in as many rounds as
there are events all of them are given to their owners, each once and in the order in which they came, or thrown away
if they have none. -/
theorem rounds_empty_queue (attained : Attained files s) (running : (s.hubAt hub).running = true)
    (peopled : (s.hubAt hub).sinks ≠ []) :
    (∀ round, IsRound (s.hubAt hub).sinks round → (s.hubAt hub).queue ≠ [] →
      ∃ gone ≠ [], s.PolledBy hub round gone) ∧
    ∀ rounds : List (List Nat), (∀ round ∈ rounds, IsRound (s.hubAt hub).sinks round) →
      (s.hubAt hub).queue.length ≤ rounds.length →
      ((s.after (polls hub rounds.flatten)).hubAt hub).queue = [] ∧
        s.PolledBy hub rounds.flatten (s.hubAt hub).events := by
  constructor
  · intro round hround hne
    obtain ⟨gone, hpolled, hmoves⟩ := attained.round running peopled hround
    exact ⟨gone, hmoves (mt List.map_eq_nil_iff.1 hne), hpolled⟩
  · intro rounds hrounds henough
    obtain ⟨gone, hpolled, hends⟩ := attained.rounds running peopled hrounds
    have hempty : ((s.after (polls hub rounds.flatten)).hubAt hub).events = [] := by
      refine hends.elim id fun hle => List.length_eq_zero_iff.1 ?_
      have hlength := congrArg List.length hpolled.events
      rw [List.length_append, Hub.events, List.length_map] at hlength
      omega
    have hgone := hpolled.events
    rw [hempty, List.append_nil] at hgone
    exact ⟨List.map_eq_nil_iff.1 hempty, hgone ▸ hpolled⟩

/-- A hub with two consumers, the second of whom writes its own name before the ids that it takes. The event in front is
nobody's, the next is the second's, and the last, the first's, is put behind it by a publish that has not yet raised the
hub's bit. -/
def threeQueued : List Piece :=
  [.whole (.onHubs .makeFlag), .whole (.onHubs (.makeHub "h" 0)),
   .whole (.onHubs (.addSink 0 (.ofMask ofFirst none))),
   .whole (.onHubs (.addSink 0 (.ofDepth 1 (some ⟨"second", by decide⟩)))),
   .whole (.onHubs (.publish 0 (.named ⟨"lone.talk", by decide⟩))),
   .whole (.onHubs (.publish 0 (.named ⟨"beat", by decide⟩))),
   .put 0 (.named ⟨"a.last", by decide⟩)]

theorem rounds_empty_queue_threeQueued :
    let s := threeQueued.foldl Piece.step (empty .fresh)
    let polled := polls 0 [0, 1, 0, 1, 0, 1]
    (s.hubAt 0).queue.length = 3 ∧ ((s.after (polls 0 [0, 1])).hubAt 0).queue.length = 1 ∧
      ((s.after polled).hubAt 0).queue = [] ∧
      (handedOut 0 (s.notes polled)).map (fun p => (p.1, p.2.id.text)) = [(1, "second.beat"), (0, "a.last")] ∧
      s.PolledBy 0 [0, 1, 0, 1, 0, 1] (s.hubAt 0).events := by
  intro s polled
  have hs : Attained .fresh s := Attained.start.through threeQueued
  have hround : IsRound (s.hubAt 0).sinks [0, 1] := by
    intro k hk
    have hk : k < 2 := hk
    simp only [List.mem_cons, List.not_mem_nil]
    omega
  have hrounds : ∀ round ∈ [[0, 1], [0, 1], [0, 1]], IsRound (s.hubAt 0).sinks round := by
    intro round hmem
    simp only [List.mem_cons, List.not_mem_nil, or_false, or_self] at hmem
    exact hmem ▸ hround
  have h := rounds_empty_queue hs (show (s.hubAt 0).running = true by decide) (List.cons_ne_nil _ _)
  obtain ⟨hempty, hpolled⟩ := h.2 [[0, 1], [0, 1], [0, 1]] hrounds (by decide)
  exact ⟨by decide, by decide +kernel, hempty, by decide +kernel, hpolled⟩

end System
end EventHub
