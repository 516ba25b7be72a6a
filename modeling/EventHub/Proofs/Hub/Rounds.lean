import EventHub.Hub.Dispatch
import EventHub.Proofs.Flag.History
set_option autoImplicit false

/-!
The loop of a call, with the branches that guard it. A round of the loop looks for the head of the queue in three
places more than a turn does, and would go round again without one; and it is ready for a flag that refuses a wait.
None of this is ever met: a call that finds some entries queued has gone round once for each of them, and once more,
when it answers or lets go of the queue. While it holds the queue others can do a few things to its hub, and they
change nothing about it.
-/
namespace EventHub.Hub

/-- Where a round ends: with a pause, by dropping the head, for want of a head, or before a flag that refuses. -/
inductive Round where
  | pauses (p : Pause) (t : Turn)
  | drops (t : Turn)
  | noHeadToRoute (t : Turn)
  | noHeadToDrop (t : Turn)
  | noHeadToHandOut (t : Turn)
  | barred (t : Turn)

namespace Round

def step : Round → Step
  | pauses p t => .pause p t
  | drops t => .again t
  | noHeadToRoute t => .again t
  | noHeadToDrop t => .again t
  | noHeadToHandOut t => .again t
  | barred t => .pause (.answer (.pending .error)) t

def next? (r : Round) : Option Turn :=
  match r.step with
  | .again t => some t
  | .pause _ _ => none

/-- With an empty queue. Before a call waits for the flag it lets go of the queue, and others may act on the flag once
more. -/
def ofEmpty (mode : WaitMode) (late : List Flag.Act) (t : Turn) : Round :=
  let t := { t with flag := t.flag.clear t.hub.bit }
  if t.flag.isRaised then
    match mode with
    | .block => pauses .onQueue t
    | .noWait | .wait => pauses (.answer (.pending .outOfSeq)) t
  else
    match mode with
    | .noWait => pauses (.answer (.pending .wait)) t
    | .block => pauses .onQueue t
    | .wait =>
      let t := { t with flag := t.flag.after late }
      match t.flag.wait with
      | .ok _ => pauses .onFlag t
      | .error _ => barred t

def ofOwner (ask : Ask) (fromCache : Bool) (a : Assignment) (t : Turn) : Round :=
  if a.sink = ask.sink ∧ ask.mask.accepts a.canonical then
    let head? := t.hub.queue.head?
    let t :=
      if ask.take then { t with hub := { t.hub with cached := none, queue := t.hub.queue.tail }, woke := true } else t
    match head? with
    | none => noHeadToHandOut t
    | some head =>
      let fetch := Fetch.delivered { head.event with id := a.canonical }
      let t := if ask.take then { t with hub := { t.hub with delivered := t.hub.delivered + 1 } } else t
      pauses (.answer fetch) t
  else if ask.mode = .block ∧ fromCache = false then pauses .onQueue t
  else pauses (.answer (.pending .outOfSeq)) t

def ofHead (ask : Ask) (t : Turn) : Round :=
  match t.hub.queue.head? with
  | none => noHeadToRoute t
  | some head =>
    match t.hub.route head.event.id with
    | some (sink, canonical) =>
      let a : Assignment := ⟨head.seq, sink, canonical⟩
      ofOwner ask false a { t with hub := { t.hub with cached := some a } }
    | none =>
      match t.hub.queue with
      | [] => noHeadToDrop { t with woke := true }
      | _ :: rest =>
        drops { t with hub := { t.hub with queue := rest, dropped := t.hub.dropped + 1 }, woke := true }

end Round

def round (ask : Ask) (late : List Flag.Act) (t : Turn) : Round :=
  if t.hub.running then
    let t := { t with hub := t.hub.forgetStale }
    if t.hub.queue.isEmpty then .ofEmpty ask.mode late { t with scanned := true }
    else
      let fromCache := t.hub.cached.isSome && !t.scanned
      let t := { t with scanned := true }
      match t.hub.cached with
      | some a => .ofOwner ask fromCache a t
      | none => .ofHead ask t
  else .pauses (.answer (.pending .closed)) t

/-- What others may do to a hub while a call holds its queue: let sinks join, stop it, and act on its flag, before a
round and late in it, when the call already waits for the flag. -/
structure Interference where
  sinks : List Sink
  stopped : Bool
  before : List Flag.Act
  late : List Flag.Act

namespace Interference

def nothing : Interference := ⟨[], false, [], []⟩

def on (m : Interference) (t : Turn) : Turn :=
  { t with
    hub := { t.hub with sinks := t.hub.sinks ++ m.sinks, running := t.hub.running && !m.stopped }
    flag := t.flag.after m.before }

theorem nothing_on (t : Turn) : nothing.on t = t := by
  simp [on, nothing, Flag.after]

end Interference

/-- The rounds of a call until it pauses, with what others do in each of them; no more rounds than interferences are
given. -/
def rounds (ask : Ask) : List Interference → Turn → List Round
  | [], _ => []
  | m :: ms, t =>
    let r := round ask m.late (m.on t)
    r :: match r.next? with
      | some t => rounds ask ms t
      | none => []

variable {ask : Ask} {mode : WaitMode} {late : List Flag.Act} {t u : Turn} {r : Round}

inductive Round.Regular (t : Turn) : Round → Prop where
  | pauses (p : Pause) (u : Turn) (sound : p ≠ .answer (.pending .error)) : Regular t (.pauses p u)
  | drops (u : Turn) (head : Entry) (queue : t.hub.queue = head :: u.hub.queue) (flag : u.flag = t.flag) :
      Regular t (.drops u)

theorem queue_forgetStale (h : Hub) : h.forgetStale.queue = h.queue := by
  unfold forgetStale
  split
  · split <;> rfl
  · rfl
  · rfl

theorem Round.regular_ofEmpty (ha : t.flag.asyncCount ≠ 0) : Regular u (ofEmpty mode late t) := by
  have hwait (f : Flag) (e : FlagError) (hf : f.wait = .error e) : f.asyncCount = 0 := (Flag.wait_eq_error_iff.1 hf).2
  unfold ofEmpty
  dsimp only
  split
  · cases mode with
    | block => exact .pauses _ _ nofun
    | noWait => exact .pauses _ _ nofun
    | wait => exact .pauses _ _ nofun
  · cases mode with
    | noWait => exact .pauses _ _ nofun
    | block => exact .pauses _ _ nofun
    | wait =>
      dsimp only
      split
      · exact .pauses _ _ nofun
      · rename_i e he
        have hclear : (t.flag.clear t.hub.bit).asyncCount ≠ 0 := by rw [Flag.asyncCount_clear]; exact ha
        exact absurd (hwait _ e he) (Flag.asyncCount_after_ne hclear late)

theorem Round.regular_ofOwner {fromCache : Bool} {a : Assignment} (hq : t.hub.queue ≠ []) :
    Regular u (ofOwner ask fromCache a t) := by
  obtain ⟨head, rest, hq⟩ := List.exists_cons_of_ne_nil hq
  rw [ofOwner]
  split
  · rw [hq]
    exact .pauses _ _ nofun
  · split
    · exact .pauses _ _ nofun
    · exact .pauses _ _ nofun

theorem Round.regular_ofHead (hq : t.hub.queue ≠ []) (hu : u.hub.queue = t.hub.queue) (hf : u.flag = t.flag) :
    Regular u (ofHead ask t) := by
  obtain ⟨head, rest, hq'⟩ := List.exists_cons_of_ne_nil hq
  rw [ofHead, hq']
  dsimp only [List.head?_cons]
  split
  · exact regular_ofOwner (t := { t with hub := { t.hub with cached := some _ } }) hq
  · exact .drops _ head (hu.trans hq') hf.symm

/-- No round comes to where it has no head, nor to where the flag refuses. -/
theorem regular_round (ha : t.flag.asyncCount ≠ 0) : Round.Regular t (round ask late t) := by
  have hs := queue_forgetStale t.hub
  rw [round]
  split
  · dsimp only
    split
    · exact Round.regular_ofEmpty ha
    · rename_i he
      have hq : t.hub.forgetStale.queue ≠ [] := by simpa using he
      split
      · exact Round.regular_ofOwner (t := ⟨t.hub.forgetStale, t.flag, true, t.woke⟩) hq
      · exact Round.regular_ofHead (t := ⟨t.hub.forgetStale, t.flag, true, t.woke⟩) hq hs.symm rfl
  · exact .pauses _ _ nofun

structure Ends (rs : List Round) (queued : Nat) (p : Pause) (u : Turn) : Prop where
  rounds : ∃ dropping, rs = dropping ++ [.pauses p u] ∧ ∀ r ∈ dropping, ∃ v, r = .drops v
  bound : rs.length ≤ queued + 1
  sound : p ≠ .answer (.pending .error)

theorem asyncCount_meddling {m : Interference} (ha : t.flag.asyncCount ≠ 0) : (m.on t).flag.asyncCount ≠ 0 :=
  Flag.asyncCount_after_ne ha m.before

/-- Whatever others do meanwhile, a call pauses after one round more than entries are queued, at the latest. -/
theorem rounds_end (ask : Ask) (ms : List Interference) (t : Turn) (ha : t.flag.asyncCount ≠ 0)
    (hm : t.hub.queue.length < ms.length) : ∃ p u, Ends (rounds ask ms t) t.hub.queue.length p u := by
  induction ms generalizing t with
  | nil => exact absurd hm (Nat.not_lt_zero _)
  | cons m ms ih =>
    have ha' : (m.on t).flag.asyncCount ≠ 0 := asyncCount_meddling ha
    have hr : Round.Regular (m.on t) (round ask m.late (m.on t)) := regular_round ha'
    rw [rounds]
    revert hr
    generalize round ask m.late (m.on t) = r
    intro hr
    cases hr with
    | pauses p u sound =>
      refine ⟨p, u, ⟨[], rfl, fun r hr => absurd hr List.not_mem_nil⟩, ?_, sound⟩
      exact Nat.succ_le_succ (Nat.zero_le _)
    | drops u head queue flag =>
      have hlen : t.hub.queue.length = u.hub.queue.length + 1 := congrArg List.length queue
      rw [List.length_cons] at hm
      obtain ⟨p, v, ⟨dropping, hrounds, hdrops⟩, bound, sound⟩ := ih u (flag ▸ ha') (by omega)
      refine ⟨p, v, ⟨.drops u :: dropping, ?_, ?_⟩, ?_, sound⟩
      · exact congrArg (List.cons (Round.drops u)) hrounds
      · exact List.forall_mem_cons.2 ⟨⟨u, rfl⟩, hdrops⟩
      · rw [hlen]
        exact Nat.succ_le_succ bound

theorem step_ofEmpty (t : Turn) : (Round.ofEmpty mode [] t).step = waitForEntries mode t := by
  unfold Round.ofEmpty waitForEntries
  dsimp only [Flag.after, List.foldl_nil]
  cases hr : (t.flag.clear t.hub.bit).isRaised with
  | true => cases mode <;> rfl
  | false =>
    cases mode with
    | noWait => rfl
    | block => rfl
    | wait =>
      rw [if_neg Bool.false_ne_true]
      dsimp only
      cases hw : (t.flag.clear t.hub.bit).wait with
      | error e => rfl
      | ok raised =>
        cases raised with
        | false => rfl
        | true =>
          rw [Flag.wait_eq_true_iff.1 hw] at hr
          cases hr

theorem step_ofOwner {fromCache : Bool} {a : Assignment} {head : Entry} {rest : List Entry}
    (hq : t.hub.queue = head :: rest) :
    (Round.ofOwner ask fromCache a t).step = answerHead ask fromCache a head rest t := by
  rw [Round.ofOwner, answerHead]
  split
  · rw [hq]
    cases ask.take <;> rfl
  · split <;> rfl

theorem step_ofHead (t : Turn) {head : Entry} {rest : List Entry} (hq : t.hub.queue = head :: rest) :
    (Round.ofHead ask t).step =
      match t.hub.route head.event.id with
      | some (sink, canonical) =>
        answerHead ask false ⟨head.seq, sink, canonical⟩ head rest
          { t with hub := { t.hub with cached := some ⟨head.seq, sink, canonical⟩ } }
      | none =>
        .again { t with hub := { t.hub with queue := rest, dropped := t.hub.dropped + 1 }, woke := true } := by
  unfold Round.ofHead
  rw [hq]
  dsimp only [List.head?_cons]
  cases t.hub.route head.event.id with
  | none => rfl
  | some owner => exact step_ofOwner (t := { t with hub := { t.hub with cached := some _ } }) hq

/-- Where nobody interferes, a round of the loop is a turn of the call. -/
theorem step_round (ask : Ask) (t : Turn) : (round ask [] t).step = turn ask t := by
  rw [round, turn]
  split
  · dsimp only
    generalize t.hub.forgetStale = h
    obtain ⟨name, bit, running, sinks, queue, nextSeq, cached, delivered, dropped⟩ := h
    cases queue with
    | nil => exact step_ofEmpty _
    | cons head rest =>
      rw [List.isEmpty_cons, if_neg Bool.false_ne_true]
      cases cached with
      | some a => exact step_ofOwner rfl
      | none => exact step_ofHead _ rfl
  · rfl

theorem turns_of_rounds {p : Pause} {dropping : List Round} {fuel : Nat}
    (h : rounds ask (List.replicate fuel .nothing) t = dropping ++ [.pauses p u])
    (hd : ∀ r ∈ dropping, ∃ v, r = .drops v) : turns ask fuel t = some (p, u) := by
  induction dropping generalizing t fuel with
  | nil =>
    cases fuel with
    | zero => cases h
    | succ fuel =>
      rw [List.replicate_succ, rounds, Interference.nothing_on] at h
      rw [turns, ← step_round]
      rw [show round ask [] t = .pauses p u from (List.cons.inj h).1]
      rfl
  | cons r dropping ih =>
    obtain ⟨v, rfl⟩ := hd r List.mem_cons_self
    cases fuel with
    | zero => cases h
    | succ fuel =>
      rw [List.replicate_succ, rounds, Interference.nothing_on] at h
      obtain ⟨hr, ht⟩ := List.cons.inj h
      have hr' : round ask [] t = .drops v := hr
      rw [show Interference.nothing.late = [] from rfl, hr'] at ht
      rw [turns, ← step_round, hr']
      exact ih ht fun r hr => hd r (List.mem_cons_of_mem _ hr)

theorem dispatch_rounds {h : Hub} {flag : Flag} (ha : flag.asyncCount ≠ 0) (ask : Ask) (scanned : Bool) :
    Ends (rounds ask (List.replicate (h.queue.length + 1) .nothing) ⟨h, flag, scanned, false⟩) h.queue.length
      (h.dispatch flag ask scanned).1 (h.dispatch flag ask scanned).2 := by
  obtain ⟨p, u, he⟩ := rounds_end ask (List.replicate (h.queue.length + 1) .nothing) ⟨h, flag, scanned, false⟩ ha
    (by simp)
  obtain ⟨dropping, hrounds, hd⟩ := he.rounds
  have hdispatch : h.dispatch flag ask scanned = (p, u) := by simp [dispatch, turns_of_rounds hrounds hd]
  rw [hdispatch]
  exact he

end EventHub.Hub
