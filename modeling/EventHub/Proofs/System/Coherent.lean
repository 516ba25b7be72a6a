import EventHub.Proofs.Hub.Outcome
import EventHub.Proofs.System.Frame
set_option autoImplicit false

namespace EventHub.System

def Coherent (s : System) : Prop := ∀ id, (s.hubAt id).Coherent

theorem coherent_empty (files : FileSystem) : (empty files).Coherent :=
  fun _ => Hub.coherent_of_cached_eq_none rfl

theorem Coherent.congr {s t : System} (hs : s.Coherent) (h : ∀ id, t.hubAt id = s.hubAt id) : t.Coherent :=
  fun id => h id ▸ hs id

theorem Coherent.of_hubs {s t : System} (hs : s.Coherent) (h : t.hubs = s.hubs) : t.Coherent :=
  hs.congr (hubAt_congr h)

theorem Coherent.addHub {s : System} (hs : s.Coherent) (name : String) (flag : Nat) :
    (s.addHub name flag).2.Coherent := by
  intro id
  rw [hubAt_addHub]
  split
  · exact Hub.coherent_of_cached_eq_none rfl
  · exact hs id

theorem Coherent.addSink {s : System} (hs : s.Coherent) (hub : Nat) (sink : Sink) :
    (s.addSink hub sink).2.Coherent := by
  intro id
  rw [hubAt_addSink]
  split
  · exact (hs hub).addSink sink
  · exact hs id

theorem Coherent.publish {s : System} (hs : s.Coherent) (hub : Nat) (e : Event) :
    (s.publish hub e).2.Coherent := by
  intro id
  rw [hubAt_publish]
  split
  · exact (hs hub).publish _ e
  · exact hs id

theorem Coherent.stop {s : System} (hs : s.Coherent) (hub : Nat) : (s.stop hub).Coherent := by
  intro id
  rw [hubAt_stop]
  split
  · exact (hs hub).stop _
  · exact hs id

theorem Coherent.askHub {s : System} (hs : s.Coherent) (hub : Nat) (ask : Ask) (resumed : Bool) :
    (s.askHub hub ask resumed).2.Coherent := by
  intro id
  rw [hubAt_askHub]
  split
  · exact (hs hub).dispatch _ ask resumed
  · exact hs id

end EventHub.System
