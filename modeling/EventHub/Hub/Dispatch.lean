import EventHub.Hub.Basic
set_option autoImplicit false

/-!
Asking a hub for an event. A call takes turns until it has an answer or goes to sleep, on the queue or on
the flag; every turn but the last drops an event that no sink takes.
-/
namespace EventHub

/-- A question: `take` says whether the event is to be taken away or only looked for. -/
structure Ask where
  mask : Mask
  mode : WaitMode
  sink : Nat
  take : Bool

namespace Hub

/-- Where a call stands. `scanned` says that it looked at the queue before, and `woke` that it woke those
who sleep on the queue. -/
structure Turn where
  hub : Hub
  flag : Flag
  scanned : Bool
  woke : Bool

inductive Pause where
  | answer (fetch : Fetch)
  | onQueue
  | onFlag

inductive Step where
  | again (t : Turn)
  | pause (p : Pause) (t : Turn)

/-- With nothing queued the hub's own bit says nothing any more. Any other bit is news for all but those
who insist on their own event. -/
def waitForEntries (mode : WaitMode) (t : Turn) : Step :=
  let t := { t with flag := t.flag.clear t.hub.bit }
  match mode, t.flag.isRaised with
  | .block, _ => .pause .onQueue t
  | _, true => .pause (.answer (.pending .outOfSeq)) t
  | .noWait, false => .pause (.answer (.pending .wait)) t
  | .wait, false =>
    match t.flag.wait with
    | .ok true => .again t
    | .ok false => .pause .onFlag t
    | .error _ => .pause (.answer (.pending .error)) t

/-- The head goes to the caller if it is the caller's and the mask wants it. An assignment that was there
before the caller looked sends away even those who insist. -/
def answerHead (ask : Ask) (fromCache : Bool) (a : Assignment) (head : Entry) (rest : List Entry)
    (t : Turn) : Step :=
  if a.sink = ask.sink ∧ ask.mask.accepts a.canonical then
    let fetch := Fetch.delivered { head.event with id := a.canonical }
    if ask.take then
      let hub := { t.hub with cached := none, queue := rest, delivered := t.hub.delivered + 1 }
      .pause (.answer fetch) { t with hub := hub, woke := true }
    else .pause (.answer fetch) t
  else if ask.mode = .block ∧ fromCache = false then .pause .onQueue t
  else .pause (.answer (.pending .outOfSeq)) t

def turn (ask : Ask) (t : Turn) : Step :=
  if t.hub.running then
    let fromCache := t.hub.forgetStale.cached.isSome && !t.scanned
    let t := { t with hub := t.hub.forgetStale, scanned := true }
    match t.hub.queue with
    | [] => waitForEntries ask.mode t
    | head :: rest =>
      match t.hub.cached with
      | some a => answerHead ask fromCache a head rest t
      | none =>
        match t.hub.route head.event.id with
        | some (sink, canonical) =>
          let a : Assignment := ⟨head.seq, sink, canonical⟩
          answerHead ask fromCache a head rest { t with hub := { t.hub with cached := some a } }
        | none =>
          .again
            { t with
              hub := { t.hub with queue := rest, dropped := t.hub.dropped + 1 }
              woke := true }
  else .pause (.answer (.pending .closed)) t

def turns (ask : Ask) : Nat → Turn → Option (Pause × Turn)
  | 0, _ => none
  | fuel + 1, t =>
    match turn ask t with
    | .pause p t => some (p, t)
    | .again t => turns ask fuel t

/-- A call from its start, or from its waking with `scanned`, to its next pause. -/
def dispatch (h : Hub) (flag : Flag) (ask : Ask) (scanned : Bool) : Pause × Turn :=
  let t : Turn := ⟨h, flag, scanned, false⟩
  (turns ask (h.queue.length + 1) t).getD (.answer (.pending .error), t)

end Hub
end EventHub
