import Mathlib.Data.List.Pairwise
import EventHub.Proofs.Reach
import EventHub.Proofs.Recording.Stream
set_option autoImplicit false

namespace EventHub

open FileSystem (SameAt SameBut SameFiles Reach Apart)

/-- Where the names of a log lead, its own and the temporary one. -/
structure LogPlaces where
  final : Place
  temporary : Place

def LogPlaces.places (h : LogPlaces) : List Place := [h.final, h.temporary]

structure LogPlaces.Of (h : LogPlaces) (fs : FileSystem) (f : FileName) : Prop where
  final : fs.Leads f h.final
  temporary : fs.Leads (Stream.temporaryName f) h.temporary
  free : fs.Free h.temporary
  bottom : fs.hasEntries h.temporary = false

/-- Four names lead to four places, and no file stands at two of these. -/
structure OwnLogs (fs : FileSystem) (f g : FileName) (h k : LogPlaces) : Prop where
  input : h.Of fs f
  output : k.Of fs g
  apart : (h.places ++ k.places).Pairwise Apart
  known : ∀ p ∈ h.places ++ k.places, ∀ id, fs.nodeAt? p = some (.file id) → id < fs.contents.length
  unique : ∀ p ∈ h.places ++ k.places, ∀ q ∈ h.places ++ k.places, ∀ id,
    fs.nodeAt? p = some (.file id) → fs.nodeAt? q = some (.file id) → p = q

variable {fs fs' gs : FileSystem} {f g : FileName} {h k : LogPlaces} {p q : Place}

instance : Std.Symm Apart := ⟨fun _ _ => Apart.symm⟩

namespace OwnLogs

theorem symm (own : OwnLogs fs f g h k) : OwnLogs fs g f k h where
  input := own.output
  output := own.input
  apart := List.perm_append_comm.pairwise_iff Apart.symm |>.1 own.apart
  known p hp := own.known p (List.perm_append_comm.mem_iff.1 hp)
  unique p hp q hq := own.unique p (List.perm_append_comm.mem_iff.1 hp) q (List.perm_append_comm.mem_iff.1 hq)

theorem apart_of_ne (own : OwnLogs fs f g h k) (hp : p ∈ h.places ++ k.places) (hq : q ∈ h.places ++ k.places)
    (hne : p ≠ q) : Apart p q := own.apart.forall hp hq hne

theorem final_ne_temporary (own : OwnLogs fs f g h k) : h.temporary ≠ h.final := by
  have ha := (List.pairwise_append.1 own.apart).1
  rw [LogPlaces.places, List.pairwise_cons] at ha
  exact (ha.1 h.temporary (by simp)).ne.symm

theorem other_notMem (own : OwnLogs fs f g h k) (hp : p ∈ k.places) : p ∉ h.places :=
  fun hq => ((List.pairwise_append.1 own.apart).2.2 p hq p hp).ne rfl

end OwnLogs

theorem LogPlaces.Of.sameAt (hf : h.Of fs f) (final : fs'.target? f = fs.target? f)
    (temporary : fs'.target? (Stream.temporaryName f) = fs.target? (Stream.temporaryName f))
    (hs : SameAt h.temporary fs fs') : h.Of fs' f where
  final := hf.final.congr final
  temporary := hf.temporary.congr temporary
  free node hn := hf.free node (hs.node ▸ hn)
  bottom := hs.bottom hf.bottom

theorem OwnLogs.spared (own : OwnLogs fs f g h k)
    (names : ∀ name ∈ [f, Stream.temporaryName f, g, Stream.temporaryName g], fs'.target? name = fs.target? name)
    (places : ∀ p ∈ h.places ++ k.places, SameAt p fs fs') : OwnLogs fs' f g h k where
  input := own.input.sameAt (names _ (by simp)) (names _ (by simp)) (places _ (by simp [LogPlaces.places]))
  output := own.output.sameAt (names _ (by simp)) (names _ (by simp)) (places _ (by simp [LogPlaces.places]))
  apart := own.apart
  known p hp id hn := by
    have hn := (places p hp).node ▸ hn
    have hc := (places p hp).content id hn
    rw [List.getElem?_eq_getElem (own.known p hp id hn)] at hc
    exact (List.getElem?_eq_some_iff.1 hc).1
  unique p hp q hq id hpn hqn := own.unique p hp q hq id ((places p hp).node ▸ hpn) ((places q hq).node ▸ hqn)

theorem OwnLogs.sameFiles (own : OwnLogs fs f g h k) (hs : SameFiles fs fs') : OwnLogs fs' f g h k :=
  own.spared (fun name _ => (hs.sameBut 0).target? name) fun p _ => hs.sameAt p

/-- What the recording of the first log may do: the other log is as it was. -/
structure Works (fs : FileSystem) (f g : FileName) (h k : LogPlaces) (fs' : FileSystem) : Prop where
  own : OwnLogs fs' f g h k
  other : ∀ p ∈ k.places, SameAt p fs fs'

theorem OwnLogs.works_sameFiles (own : OwnLogs fs f g h k) (hs : SameFiles fs fs') : Works fs f g h k fs' :=
  ⟨own.sameFiles hs, fun p _ => hs.sameAt p⟩

structure Change (fs : FileSystem) (h : LogPlaces) (id : Nat) (places : List Place) (fs' : FileSystem) : Prop where
  reach : Reach fs id places fs'
  temporary : h.temporary ∈ places
  inside : places ⊆ h.places
  origin : fs.nodeAt? h.temporary = some (.file id) ∨ id = fs.contents.length
  known : id < fs'.contents.length
  once : ∀ p ∈ places, ∀ q ∈ places, fs'.nodeAt? p = some (.file id) → fs'.nodeAt? q = some (.file id) → p = q
  free : fs'.Free h.temporary

namespace Change

variable {id : Nat} {places : List Place}

theorem elsewhere (own : OwnLogs fs f g h k) (c : Change fs h id places fs') (hp : p ∈ h.places ++ k.places)
    (hn : p ∉ places) : fs.nodeAt? p ≠ some (.file id) := by
  intro hfile
  rcases c.origin with ho | ho
  · have he := own.unique p hp h.temporary (by simp [LogPlaces.places]) id hfile ho
    exact hn (he ▸ c.temporary)
  · exact absurd (own.known p hp id hfile) (by omega)

theorem sameAt (own : OwnLogs fs f g h k) (c : Change fs h id places fs') (hp : p ∈ h.places ++ k.places)
    (hn : p ∉ places) : SameAt p fs fs' := by
  refine c.reach.sameAt (fun q hq => ?_) (c.elsewhere own hp hn)
  exact own.apart_of_ne hp (List.mem_append_left _ (c.inside hq)) fun he => hn (he ▸ hq)

theorem works (own : OwnLogs fs f g h k) (c : Change fs h id places fs') : Works fs f g h k fs' := by
  have hother : ∀ p ∈ k.places, p ∉ places := fun p hp hq => own.other_notMem hp (c.inside hq)
  have hsame : ∀ p ∈ k.places, SameAt p fs fs' :=
    fun p hp => c.sameAt own (List.mem_append_right _ hp) (hother p hp)
  have htarget := c.reach.directories.target?
  refine ⟨⟨⟨own.input.final.congr (htarget f), own.input.temporary.congr (htarget _), c.free, ?_⟩, ?_, own.apart,
    ?_, ?_⟩, hsame⟩
  · refine c.reach.entries _ (fun q hq => ?_) own.input.bottom
    by_cases he : h.temporary = q
    · exact he ▸ FileSystem.isInside_self _
    · exact (own.apart_of_ne (by simp [LogPlaces.places]) (List.mem_append_left _ (c.inside hq)) he).isInside
  · exact own.output.sameAt (htarget g) (htarget _) (hsame _ (by simp [LogPlaces.places]))
  · intro p hp other hn
    by_cases hc : p ∈ places
    · obtain rfl := c.reach.file p hc other hn
      exact c.known
    · exact Nat.lt_of_lt_of_le (own.known p hp other (c.reach.node p hc ▸ hn)) c.reach.length
  · intro p hp q hq other hpn hqn
    by_cases hpc : p ∈ places
    · obtain rfl := c.reach.file p hpc other hpn
      by_cases hqc : q ∈ places
      · exact c.once p hpc q hqc hpn hqn
      · exact absurd (c.reach.node q hqc ▸ hqn) (c.elsewhere own hq hqc)
    · by_cases hqc : q ∈ places
      · obtain rfl := c.reach.file q hqc other hqn
        exact absurd (c.reach.node p hpc ▸ hpn) (c.elsewhere own hp hpc)
      · exact own.unique p hp q hq other (c.reach.node p hpc ▸ hpn) (c.reach.node q hqc ▸ hqn)

end Change

/-- A change that stays at the temporary name. -/
theorem OwnLogs.change_of_reach {id : Nat} (own : OwnLogs fs f g h k) (r : Reach fs id [h.temporary] fs')
    (origin : fs.nodeAt? h.temporary = some (.file id) ∨ id = fs.contents.length)
    (known : id < fs'.contents.length) (free : fs'.Free h.temporary) :
    Works fs f g h k fs' ∧ SameAt h.final fs fs' := by
  have c : Change fs h id [h.temporary] fs' :=
    { reach := r
      temporary := by simp
      inside := by simp [LogPlaces.places]
      origin := origin
      known := known
      once := fun p hp q hq _ _ => (List.mem_singleton.1 hp).trans (List.mem_singleton.1 hq).symm
      free := free }
  exact ⟨c.works own, c.sameAt own (by simp [LogPlaces.places]) (by simpa using own.final_ne_temporary.symm)⟩

namespace Stream

structure Runs (s : Stream) (fs : FileSystem) (f : FileName) (h : LogPlaces) (bytes : Bytes) : Prop where
  final : s.final = f
  temporary : s.temporary = true
  keeps : ∃ id, s.Lies fs id h.temporary ∧ s.writer.Holds fs id bytes

variable {s s' : Stream} {bytes bytes' : Bytes}

theorem Runs.file (hs : s.Runs fs f h bytes) : s.file = temporaryName f := by
  rw [Stream.file, hs.temporary, hs.final]
  rfl

theorem Runs.beside (hs : s.Runs fs g k bytes) (own : OwnLogs fs f g h k) (w : Works fs f g h k fs') :
    s.Runs fs' g k bytes := by
  obtain ⟨id, hl, hb⟩ := hs.keeps
  have hsame := w.other k.temporary (by simp [LogPlaces.places])
  have hc : fs'.content id = fs.content id := by
    rw [FileSystem.content, FileSystem.content, hsame.content id hl.file.node]
  have ht := own.output.temporary.target? w.own.output.temporary
  have hl' : s.Lies fs' id k.temporary := hl.sameAt (hs.file ▸ ht) hsame
  refine ⟨hs.final, hs.temporary, id, hl', hl'.known, ?_, hc.symm ▸ hb.bytes⟩
  rw [FileSystem.endOf, hc]
  exact hb.handle

theorem Runs.grows (hs : s.Runs fs f h bytes) (own : OwnLogs fs f g h k)
    (hg : ∀ id, s.writer.Holds fs id bytes → Grows s fs id bytes' s' fs') :
    s'.Runs fs' f h bytes' ∧ Works fs f g h k fs' ∧ SameAt h.final fs fs' := by
  obtain ⟨id, hl, hb⟩ := hs.keeps
  have hg := hg id hb
  have hnode := (hl.grows hg).file.node
  obtain ⟨hw, hsame⟩ := own.change_of_reach (hg.sameBut.reach hl.file.node) (.inl hl.file.node) hg.holds.known
    fun node hn => ⟨id, by rw [hnode] at hn; cases hn; rfl⟩
  exact ⟨⟨hg.final.trans hs.final, hg.temporary.trans hs.temporary, id, hl.grows hg, hg.holds⟩, hw, hsame⟩

theorem Runs.append {r : Record} (hs : s.Runs fs f h bytes) (own : OwnLogs fs f g h k)
    (ha : s.append fs r = (.ok (), s', fs')) :
    s'.Runs fs' f h (bytes ++ r.bytes) ∧ Works fs f g h k fs' ∧ SameAt h.final fs fs' :=
  hs.grows own fun _ hb => append_grows hb ha

theorem Runs.flush (hs : s.Runs fs f h bytes) (own : OwnLogs fs f g h k) :
    (s.flush fs).2.1.Runs (s.flush fs).2.2 f h bytes ∧ Works fs f g h k (s.flush fs).2.2 ∧
      SameAt h.final fs (s.flush fs).2.2 :=
  hs.grows own fun _ hb => (flush_grows hb rfl).1

end Stream
end EventHub
