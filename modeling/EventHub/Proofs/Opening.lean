import Mathlib.Data.List.DropRight
import Mathlib.Tactic.ByContra
import EventHub.Proofs.Reach
set_option autoImplicit false

namespace EventHub

namespace Text

theorem splitOn_append_of_notMem {α : Type} [DecidableEq α] {sep : α} {ds : List α} (h : sep ∉ ds) (cs : List α) :
    ∃ init last, splitOn sep cs = init ++ [last] ∧ splitOn sep (cs ++ ds) = init ++ [last ++ ds] := by
  induction cs with
  | nil => exact ⟨[], [], rfl, splitOn_of_notMem h⟩
  | cons c cs ih =>
    obtain ⟨init, last, hs, ha⟩ := ih
    by_cases hc : c = sep
    · subst hc
      exact ⟨[] :: init, last, by rw [splitOn_cons_sep, hs]; rfl, by rw [List.cons_append, splitOn_cons_sep, ha]; rfl⟩
    · rw [List.cons_append, splitOn_cons_ne hc, splitOn_cons_ne hc]
      cases init with
      | nil => exact ⟨[], c :: last, by simp [hs], by simp [ha]⟩
      | cons p ps => exact ⟨(c :: p) :: ps, last, by simp [hs], by simp [ha]⟩

end Text

namespace FileSystem

variable {fs gs fs' : FileSystem} {f : FileName} {p q : Place} {h : Handle}

def Denotes (fs : FileSystem) (f : FileName) (p : Place) : Prop :=
  ∃ directory name, fs.target? f = some (.entry directory name false) ∧ directory ++ [name] = p ∧
    name.utf8ByteSize ≤ nameLimit

theorem Denotes.congr (hd : fs.Denotes f p) (ht : fs'.target? f = fs.target? f) : fs'.Denotes f p := by
  rw [Denotes, ht]
  exact hd

theorem Denotes.find (hd : fs.Denotes f p) :
    fs.find f = match fs.nodeAt? p with
      | none => .error .notFound
      | some node => .ok node := by
  obtain ⟨directory, name, ht, rfl, hn⟩ := hd
  rw [FileSystem.find, locate_of_target? ht]
  simp only [bind, Except.bind, entryNode, if_neg (Nat.not_lt.2 hn)]
  cases fs.nodeAt? (directory ++ [name]) with
  | none => rfl
  | some node => cases node <;> rfl

theorem Denotes.isThere (hd : fs.Denotes f p) : fs.isThere f = false ↔ fs.nodeAt? p = none := by
  rw [FileSystem.isThere, hd.find]
  cases fs.nodeAt? p <;> simp [Except.toOption]

theorem Denotes.find_eq_ok (hd : fs.Denotes f p) {node : Node} :
    fs.find f = .ok node ↔ fs.nodeAt? p = some node := by
  rw [hd.find]
  cases fs.nodeAt? p <;> simp

/-- What is found under a name and is no directory stands where the name says. -/
theorem denotes_of_find {node : Node} (hf : fs.find f = .ok node) (hn : node ≠ .directory) : ∃ p, fs.Denotes f p := by
  rw [FileSystem.find] at hf
  cases hl : fs.locate f with
  | error e => simp [hl, bind, Except.bind] at hf
  | ok target =>
    have ht : fs.target? f = some target := by
      rw [target?, hl]
      rfl
    rw [hl] at hf
    cases target with
    | passed place =>
      cases hf
      exact absurd rfl hn
    | entry directory name slash =>
      simp only [bind, Except.bind, entryNode] at hf
      split at hf
      · cases hf
      · rename_i node? hentry
        split at hentry
        · cases hentry
        · rename_i hlimit
          cases hentry
          split at hf
          · cases hf
          · cases hf
            exact absurd rfl hn
          · cases slash with
            | true => cases hf
            | false => exact ⟨directory ++ [name], directory, name, ht, rfl, Nat.le_of_not_lt hlimit⟩

theorem find_of_stays {node : Node} (hf : fs.find f = .ok node) (hn : node ≠ .directory)
    (ht : fs'.target? f = fs.target? f)
    (hstays : ∀ p, fs.Denotes f p → fs.nodeAt? p = some node → fs'.nodeAt? p = some node) :
    fs'.find f = .ok node := by
  obtain ⟨p, hd⟩ := denotes_of_find hf hn
  exact (hd.congr ht).find_eq_ok.2 (hstays p hd (hd.find_eq_ok.1 hf))

def shown (fs : FileSystem) : Node → Bytes
  | .file id => fs.content id
  | _ => []

theorem read_eq_ok {bytes : Bytes} :
    fs.read f = .ok bytes ↔ ∃ node, fs.find f = .ok node ∧ node ≠ .directory ∧ fs.shown node = bytes := by
  rw [FileSystem.read]
  cases fs.find f with
  | error e =>
    constructor
    · intro h
      cases h
    · rintro ⟨node, h, -⟩
      cases h
  | ok node =>
    cases node with
    | directory =>
      constructor
      · intro h
        cases h
      · rintro ⟨node, h, hn, -⟩
        cases h
        exact absurd rfl hn
    | file _ | device _ =>
      constructor
      · intro h
        cases h
        exact ⟨_, rfl, fun h => (by cases h), rfl⟩
      · rintro ⟨node, h, -, hs⟩
        cases h
        cases hs
        rfl

/-- What stood at a place that was opened for writing: nothing, a file, which is emptied, or a device. -/
inductive Opens (fs : FileSystem) (p : Place) : Handle → FileSystem → Prop where
  | made (free : fs.nodeAt? p = none) :
      Opens fs p ⟨.file fs.contents.length, 0⟩
        { fs.setNode p (.file fs.contents.length) with contents := fs.contents ++ [[]] }
  | emptied (id : Nat) (there : fs.nodeAt? p = some (.file id)) : Opens fs p ⟨.file id, 0⟩ (fs.setContent id [])
  | device (full : Bool) (there : fs.nodeAt? p = some (.device full)) : Opens fs p ⟨.device full, 0⟩ fs

theorem opens_of_create (hc : fs.create f = (.ok h, fs')) :
    ∃ p, fs.Denotes f p ∧ Opens fs.nextRefusal.2 p h fs' := by
  have hs := (sameFiles_nextRefusal fs).sameBut 0
  rw [create] at hc
  generalize fs.nextRefusal = next at hc hs
  obtain ⟨r, gs⟩ := next
  cases r with
  | some r => cases hc
  | none =>
    dsimp only at hc hs
    cases hl : gs.locate f with
    | error e => simp [hl] at hc
    | ok target =>
      have ht : fs.target? f = some target := by
        rw [← hs.target? f, target?, hl]
        rfl
      rw [hl] at hc
      cases target with
      | passed place => cases hc
      | entry directory name slash =>
        cases slash with
        | true => cases hc
        | false =>
          by_cases hn : nameLimit < name.utf8ByteSize
          · simp [entryNode, hn] at hc
          · refine ⟨directory ++ [name], ⟨directory, name, ht, rfl, Nat.le_of_not_lt hn⟩, ?_⟩
            simp only [Bool.false_eq_true, if_false, entryNode, if_neg hn] at hc
            cases hnode : gs.nodeAt? (directory ++ [name]) with
            | none =>
              simp only [hnode] at hc
              cases hc
              exact .made hnode
            | some node =>
              simp only [hnode] at hc
              cases node with
              | directory => cases hc
              | file id => cases hc; exact .emptied id hnode
              | device full => cases hc; exact .device full hnode

/-- What has become of the files since something at this place was opened; with `stays` what was opened is still
there, otherwise it was removed. -/
structure OpenedAt (fs : FileSystem) (p : Place) (stays : Prop) (fs' : FileSystem) : Prop where
  target : ∀ g, fs'.target? g = fs.target? g
  others : ∀ q ≠ p, fs'.nodeAt? q = fs.nodeAt? q
  there : stays → fs.nodeAt? p ≠ none → fs'.nodeAt? p = fs.nodeAt? p
  new : fs.nodeAt? p = none → (fs'.nodeAt? p = none ↔ ¬stays)
  content : ∀ id, fs'.content id = if fs.nodeAt? p = some (.file id) then [] else fs.content id
  regular : fs'.nodeAt? p ≠ some .directory

theorem Opens.openedAt (ho : Opens fs p h fs') : OpenedAt fs p True fs' := by
  cases ho with
  | made free =>
    have hr := reach_addFile free
    have hp := nodeAt?_setNode fs p (.file fs.contents.length) p
    rw [if_pos rfl] at hp
    refine ⟨hr.directories.target?, fun q hq => hr.node q (by simpa using hq), fun _ hn => absurd free hn, ?_, ?_, ?_⟩
    · exact fun _ => iff_of_false (fun he => by cases hp.symm.trans he) (not_not_intro trivial)
    · intro id
      rw [content_of_append_nil rfl, free, if_neg nofun]
    · exact fun he => by cases hp.symm.trans he
  | emptied id there =>
    have hb := sameBut_setContent fs id []
    refine ⟨hb.target?, fun q _ => hb.nodeAt? q, fun _ _ => hb.nodeAt? p, ?_, ?_, ?_⟩
    · exact fun hn => by cases there.symm.trans hn
    · intro other
      rw [content_setContent_nil, there]
      simp [eq_comm]
    · exact fun he => by cases there.symm.trans he
  | device full there =>
    refine ⟨fun _ => rfl, fun _ _ => rfl, fun _ _ => rfl, ?_, ?_, ?_⟩
    · exact fun hn => by cases there.symm.trans hn
    · intro id
      rw [there, if_neg nofun]
    · exact fun he => by cases there.symm.trans he

theorem content_congr (hc : fs'.contents = fs.contents) (id : Nat) : fs'.content id = fs.content id := by
  rw [content, content, hc]

theorem OpenedAt.before {stays : Prop} (hs : SameFiles fs gs) (ho : OpenedAt gs p stays fs') :
    OpenedAt fs p stays fs' := by
  have hb := hs.sameBut 0
  refine ⟨fun g => (ho.target g).trans (hb.target? g), fun q hq => (ho.others q hq).trans (hb.nodeAt? q), ?_, ?_, ?_,
    ho.regular⟩
  · rw [← hb.nodeAt? p]
    exact ho.there
  · rw [← hb.nodeAt? p]
    exact ho.new
  · intro id
    rw [ho.content, hb.nodeAt? p, content_congr hs.contents]

theorem OpenedAt.after {stays : Prop} (ho : OpenedAt fs p stays gs) (hs : SameFiles gs fs') :
    OpenedAt fs p stays fs' := by
  have hb := hs.sameBut 0
  refine ⟨fun g => (hb.target? g).trans (ho.target g), fun q hq => (hb.nodeAt? q).trans (ho.others q hq), ?_, ?_, ?_,
    ?_⟩
  · rw [hb.nodeAt? p]
    exact ho.there
  · rw [hb.nodeAt? p]
    exact ho.new
  · intro id
    rw [content_congr hs.contents, ho.content]
  · rw [hb.nodeAt? p]
    exact ho.regular

theorem OpenedAt.dropNode (ho : OpenedAt fs p True gs) : OpenedAt fs p False (gs.dropNode p) := by
  have hdirectories : SameDirectories gs (gs.dropNode p) := by
    refine ⟨rfl, fun q => ?_⟩
    rw [nodeAt?_dropNode]
    split
    · rename_i hq
      exact iff_of_false nofun (hq ▸ ho.regular)
    · rfl
  have hp : (gs.dropNode p).nodeAt? p = none := by rw [nodeAt?_dropNode, if_pos rfl]
  refine ⟨fun g => (hdirectories.target? g).trans (ho.target g), ?_, False.elim, ?_, ho.content, ?_⟩
  · intro q hq
    rw [nodeAt?_dropNode, if_neg hq]
    exact ho.others q hq
  · exact fun _ => iff_of_true hp not_false
  · rw [hp]
    exact nofun

structure Undone (fs fs' : FileSystem) (log : FileName) : Prop where
  nothingNew : ∀ p, fs.nodeAt? p = none → fs'.nodeAt? p = none
  unchanged : ∀ bytes, fs.read log = .ok bytes → fs'.read log = .ok bytes

theorem SameFiles.undone {log : FileName} (hs : SameFiles fs fs') : fs.Undone fs' log := by
  have hb := hs.sameBut 0
  refine ⟨fun p hp => (hb.nodeAt? p).trans hp, fun bytes hr => ?_⟩
  obtain ⟨node, hf, hn, hshown⟩ := read_eq_ok.1 hr
  refine read_eq_ok.2 ⟨node, find_of_stays hf hn (hb.target? log) fun p _ hp => (hb.nodeAt? p).trans hp, hn, ?_⟩
  rw [← hshown]
  cases node with
  | directory => rfl
  | device full => rfl
  | file id => exact content_congr hs.contents id

theorem OpenedAt.stands {stays : Prop} (ho : OpenedAt fs p stays fs') (hs : stays) :
    ∃ node, fs'.nodeAt? p = some node := by
  rw [← Option.ne_none_iff_exists']
  cases hp : fs.nodeAt? p with
  | none => exact fun hn => (ho.new hp).1 hn hs
  | some node =>
    rw [ho.there hs (by rw [hp]; exact nofun), hp]
    exact nofun

/-- A new file that stays is left behind, and so is an emptied one that is found under the name. -/
theorem OpenedAt.undone_iff {stays : Prop} {log : FileName} (ho : OpenedAt fs p stays fs')
    (hlog : fs.Denotes log p → (∃ node, fs.nodeAt? p = some node) → stays) :
    fs.Undone fs' log ↔ ¬(fs.nodeAt? p = none ∧ stays ∨
      ∃ id, fs.nodeAt? p = some (.file id) ∧ fs.find log = .ok (.file id) ∧ fs.content id ≠ []) := by
  -- what is found under the name is not what was removed
  have hfind : ∀ node, fs.find log = .ok node → node ≠ .directory → fs'.find log = .ok node := by
    refine fun node hf hn => find_of_stays hf hn (ho.target log) fun q hd hnode => ?_
    by_cases hq : q = p
    · subst hq
      rw [ho.there (hlog hd ⟨node, hnode⟩) (by rw [hnode]; exact nofun), hnode]
    · rw [ho.others q hq, hnode]
  constructor
  · rintro ⟨hnew, hread⟩ (⟨hfree, hs⟩ | ⟨id, hp, hf, hc⟩)
    · exact (ho.new hfree).1 (hnew p hfree) hs
    · have hbefore := hread (fs.content id) (read_eq_ok.2 ⟨_, hf, nofun, rfl⟩)
      have hafter : fs'.read log = .ok (fs'.content id) := read_eq_ok.2 ⟨_, hfind _ hf nofun, nofun, rfl⟩
      rw [ho.content, if_pos hp] at hafter
      exact hc (Except.ok.inj (hbefore.symm.trans hafter))
  · rw [not_or]
    rintro ⟨hfree, hemptied⟩
    constructor
    · intro q hq
      by_cases hqp : q = p
      · subst hqp
        exact (ho.new hq).2 fun hs => hfree ⟨hq, hs⟩
      · rw [ho.others q hqp, hq]
    · intro bytes hr
      obtain ⟨node, hf, hn, hshown⟩ := read_eq_ok.1 hr
      refine read_eq_ok.2 ⟨node, hfind node hf hn, hn, ?_⟩
      rw [← hshown]
      cases node with
      | directory => rfl
      | device full => rfl
      | file id =>
        rw [shown, shown, ho.content]
        split
        · rename_i hp
          by_contra hne
          exact hemptied ⟨id, hp, hf, fun he => hne he.symm⟩
        · rfl

def refuses (fs : FileSystem) (n : Nat) : Bool := (fs.refusals[n]?.join).isSome

theorem nextRefusal_fst (fs : FileSystem) : fs.nextRefusal.1.isSome = fs.refuses 0 := by
  rw [nextRefusal, refuses]
  cases fs.refusals <;> rfl

theorem refuses_nextRefusal (fs : FileSystem) (n : Nat) : fs.nextRefusal.2.refuses n = fs.refuses (n + 1) := by
  rw [nextRefusal, refuses, refuses]
  cases h : fs.refusals <;> simp [h]

theorem Opens.refusals (ho : Opens fs p h fs') : fs'.refusals = fs.refusals := by
  cases ho <;> rfl

theorem refuses_create (fs : FileSystem) (f : FileName) (n : Nat) :
    (fs.create f).2.refuses n = fs.refuses (n + 1) := by
  have hn := refuses_nextRefusal fs n
  rw [create]
  generalize fs.nextRefusal = next at hn
  obtain ⟨r, gs⟩ := next
  cases r with
  | some r => exact hn
  | none =>
    dsimp only at hn ⊢
    split
    · exact hn
    · exact hn
    · split
      · exact hn
      split <;> exact hn

/-- What was opened at a place is taken away from there, unless that is refused. -/
theorem OpenedAt.remove (ho : OpenedAt fs p True gs) (hd : gs.Denotes f p)
    (hthere : ∃ node, gs.nodeAt? p = some node) :
    OpenedAt fs p (gs.refuses 0 = true) (gs.remove f).2 := by
  have hs := sameFiles_nextRefusal gs
  rw [← nextRefusal_fst, FileSystem.remove, attempt]
  generalize gs.nextRefusal = next at hs ⊢
  obtain ⟨r, gs'⟩ := next
  have ho' := ho.after hs
  cases r with
  | some r => simpa using ho'
  | none =>
    obtain ⟨directory, name, ht, rfl, hn⟩ := hd.congr ((hs.sameBut 0).target? f)
    obtain ⟨node, hnode⟩ := hthere
    have hnode' : gs'.nodeAt? (directory ++ [name]) = some node := ((hs.sameBut 0).nodeAt? _).trans hnode
    have hremoved : gs'.checkedRemove f = .ok (gs'.dropNode (directory ++ [name])) := by
      rw [checkedRemove, locate_of_target? ht]
      simp only [bind, Except.bind, entryNode, if_neg (Nat.not_lt.2 hn), hnode']
      cases node with
      | directory => exact absurd hnode' ho'.regular
      | file id => rfl
      | device full => rfl
    simpa [hremoved] using ho'.dropNode

theorem reading_of_pieces {directories : List String} {last : String}
    (hp : f.pieces.map String.ofList = directories ++ [last]) (hne : last ≠ "") (hdot : ¬(last = "." ∨ last = "..")) :
    reading f = (directories, some (last, false)) := by
  have hkept : ((directories ++ [last]).reverse.dropWhile (· == "")).reverse = directories ++ [last] := by
    rw [List.reverse_concat, List.dropWhile_cons_of_neg (by simpa using hne), List.reverse_cons, List.reverse_reverse]
  rw [reading]
  simp only [hp, hkept, List.getLast?_concat, if_neg hdot, List.dropLast_concat, bne_self_eq_false]

theorem pieces_of_reading {directories : List String} {last : String}
    (h : reading f = (directories, some (last, false))) : f.pieces.map String.ofList = directories ++ [last] := by
  rw [reading] at h
  generalize f.pieces.map String.ofList = pieces at h ⊢
  have hprefix : (pieces.reverse.dropWhile (· == "")).reverse <+: pieces := List.rdropWhile_prefix _ _
  generalize (pieces.reverse.dropWhile (· == "")).reverse = kept at h hprefix
  cases hl : kept.getLast? with
  | none => simp [hl] at h
  | some name =>
    simp only [hl] at h
    split at h
    · cases h
    · simp only [Prod.mk.injEq, Option.some.injEq, bne_eq_false_iff_eq] at h
      obtain ⟨rfl, rfl, hlen⟩ := h
      rw [← hprefix.eq_of_length hlen]
      exact (List.dropLast_append_getLast? _ hl).symm

theorem reading_of_target? {directory : Place} {name : String} {slash : Bool}
    (ht : fs.target? f = some (.entry directory name slash)) : (reading f).2 = some (name, slash) := by
  rw [target?_eq] at ht
  split at ht
  · cases ht
  · obtain ⟨place, -, he⟩ := Option.map_eq_some_iff.1 ht
    cases hr : (reading f).2 with
    | none =>
      rw [hr] at he
      cases he
    | some last =>
      rw [hr] at he
      cases he
      rfl

end FileSystem

end EventHub
