import EventHub.Toml.Quoted
import EventHub.Toml.Scalar
set_option autoImplicit false

namespace EventHub.Toml

theorem isTextChar_of_not_isControl {c : Char} (hc : isControl c = false) (hn : c ≠ '\n') :
    isTextChar c = true := by
  by_cases ht : c = '\t'
  · simp [isTextChar, ht]
  · simp [isControl, hn, ht] at hc
    simp [isTextChar, hc]

structure Unescapes (read : List Char → Option (List Char × List Char)) : Prop where
  scalar : ∀ a b c d cs, read ('\\' :: 'u' :: a :: b :: c :: d :: cs) =
    (scalar? [a, b, c, d]).bind fun x => consTo x (read cs)
  short : ∀ e x cs, escaped? e = some x → read ('\\' :: e :: cs) = consTo x (read cs)
  plain : ∀ c cs, isTextChar c = true → c ≠ '"' → c ≠ '\\' → read (c :: cs) = consTo c (read cs)

theorem ne_of_escaped? {e x : Char} (h : escaped? e = some x) :
    e ≠ 'u' ∧ e ≠ 'U' ∧ isGap e = false ∧ e ≠ '\n' ∧ e ≠ '\r' := by
  have hne : ∀ d : Char, escaped? d = none → e ≠ d := by
    rintro d hd rfl
    rw [h] at hd
    cases hd
  refine ⟨hne _ rfl, hne _ rfl, ?_, hne _ rfl, hne _ rfl⟩
  simp [isGap, hne ' ' rfl, hne '\t' rfl]

theorem unescapes_readBasic : Unescapes readBasic where
  scalar a b c d cs := by rw [readBasic]
  short e x cs h := by
    obtain ⟨hu, hU, -⟩ := ne_of_escaped? h
    simp [readBasic, hu, hU, h]
  plain c cs ht hq hb := by
    rw [readBasic.eq_def]
    simp [ht, hb]

theorem unescapes_readLongBasic : Unescapes (readLongBasic false) where
  scalar a b c d cs := by rw [readLongBasic]
  short e x cs h := by
    obtain ⟨hu, hU, hg, hn, hr⟩ := ne_of_escaped? h
    have hjoin : startsNewline (e :: cs) = false := by
      simp [startsNewline, skipGaps, hg, newline?, hn, hr]
    simp [readLongBasic, hu, hU, h, hjoin]
  plain c cs ht hq hb := by
    have hr : c ≠ '\r' := by
      rintro rfl
      exact absurd ht (by decide)
    rw [readLongBasic.eq_def]
    simp [ht, hb, hq, hr]

theorem scalar?_control : ∀ n < 0x80,
    scalar? ['0', '0', hexDigitUpper (n / 16), hexDigitUpper n] = some (Char.ofNat n) := by decide

theorem Unescapes.read_escapeChar {read : List Char → Option (List Char × List Char)} (h : Unescapes read)
    (long : Bool) (hl : long = true → ∀ cs, read ('\n' :: cs) = consTo '\n' (read cs)) {c : Char}
    (hq : c ≠ '"') (cs : List Char) : read (escapeChar long c ++ cs) = consTo c (read cs) := by
  unfold escapeChar
  split
  · subst c; exact h.short 'b' _ cs rfl
  split
  · subst c; exact h.short 't' _ cs rfl
  split
  · subst c
    cases long with
    | true => exact hl rfl cs
    | false => exact h.short 'n' _ cs rfl
  split
  · subst c; exact h.short 'f' _ cs rfl
  split
  · subst c; exact h.short 'r' _ cs rfl
  split
  · subst c; exact h.short '\\' _ cs rfl
  rename_i hn _ _ hb
  split
  · rename_i hctl
    have hlt : c.toNat < 0x80 := by
      simp [isControl] at hctl
      omega
    have hs := scalar?_control c.toNat hlt
    rw [Char.ofNat_toNat] at hs
    simpa [hs] using h.scalar '0' '0' (hexDigitUpper (c.toNat / 16)) (hexDigitUpper c.toNat) cs
  · rename_i hctl
    exact h.plain c cs (isTextChar_of_not_isControl (by simpa using hctl) hn) hq hb

theorem readBasic_escape (cs rest : List Char) (run : Nat) :
    readBasic (escape false run cs ++ '"' :: rest) = some (cs, rest) := by
  induction cs generalizing run with
  | nil => simp [escape, readBasic]
  | cons c cs ih =>
    rw [escape]
    split
    · subst c
      have hs := unescapes_readBasic.short '"' '"' (escape false 0 cs ++ '"' :: rest) rfl
      simp [hs, ih, consTo]
    · rename_i hq
      rw [List.append_assoc, unescapes_readBasic.read_escapeChar false (by simp) hq, ih]
      rfl

theorem readLiteral_append {cs : List Char} (rest : List Char)
    (h : ∀ c ∈ cs, c ≠ '\x27' ∧ isTextChar c = true) :
    readLiteral (cs ++ '\x27' :: rest) = some (cs, rest) := by
  induction cs with
  | nil => simp [readLiteral]
  | cons c cs ih =>
    obtain ⟨hq, ht⟩ := h c List.mem_cons_self
    rw [List.cons_append, readLiteral, if_neg hq, if_pos ht, ih fun d hd => h d (List.mem_cons_of_mem c hd)]
    rfl

/-- What a reader of long strings makes of the quotes in them: three in a row end a string. -/
structure Closes (q : Char) (read : List Char → Option (List Char × List Char)) : Prop where
  close : ∀ cs, read (q :: q :: q :: cs) = some (lastQuotes q cs)
  quote : ∀ cs, ¬ [q, q] <+: cs → read (q :: cs) = consTo q (read cs)

/-- A text that stands for a string, where so many quotes were written just before it. A quote stands for
itself unless there are two already; everything else begins the count anew. -/
inductive Spells (q : Char) (read : List Char → Option (List Char × List Char)) :
    Nat → List Char → List Char → Prop where
  | done (run : Nat) : Spells q read run [] []
  | quote {run : Nat} {cs text : List Char} :
    run < 2 → Spells q read (run + 1) cs text → Spells q read run (q :: cs) (q :: text)
  | piece {run : Nat} {c d : Char} {cs text : List Char} (piece : List Char) :
    d ≠ q → (∀ t, read (d :: piece ++ t) = consTo c (read t)) → Spells q read 0 cs text →
      Spells q read run (c :: cs) (d :: piece ++ text)

theorem lastQuotes_replicate {q : Char} {run : Nat} {rest : List Char} (hrun : run ≤ 2)
    (hr : rest.head? ≠ some q) : lastQuotes q (List.replicate run q ++ rest) = (List.replicate run q, rest) := by
  have hne : ∀ c cs, rest = c :: cs → c ≠ q := by
    rintro c cs rfl rfl
    exact hr rfl
  obtain rfl | rfl | rfl : run = 0 ∨ run = 1 ∨ run = 2 := by omega
  · match rest, hne with
    | [], _ => rfl
    | [c], hne => simp [lastQuotes, hne c [] rfl]
    | c :: d :: cs, hne => simp [lastQuotes, hne c (d :: cs) rfl]
  · match rest, hne with
    | [], _ => simp [lastQuotes]
    | c :: cs, hne => simp [lastQuotes, hne c cs rfl]
  · simp [lastQuotes, List.replicate_succ]

def consAll (cs : List Char) (r : Option (List Char × List Char)) : Option (List Char × List Char) :=
  r.map fun (s, rest) => (cs ++ s, rest)

variable {q : Char} {read : List Char → Option (List Char × List Char)}

theorem Closes.read_replicate (h : Closes q read) {run : Nat} (hrun : run ≤ 2) {d : Char} (hd : d ≠ q)
    (cs : List Char) :
    read (List.replicate run q ++ d :: cs) = consAll (List.replicate run q) (read (d :: cs)) := by
  have hone : read (q :: d :: cs) = consTo q (read (d :: cs)) := h.quote _ (by simp [Ne.symm hd])
  obtain rfl | rfl | rfl : run = 0 ∨ run = 1 ∨ run = 2 := by omega
  · simp [consAll]
  · exact hone
  · have htwo : read (q :: q :: d :: cs) = consTo q (read (q :: d :: cs)) := h.quote _ (by simp [Ne.symm hd])
    simp [List.replicate_succ, htwo, hone, consTo, consAll, Function.comp_def]

/-- The quotes that were written before a text are kept together with it, because only what follows them
tells whether they close the string. -/
theorem Closes.read_spells (h : Closes q read) {run : Nat} {cs text rest : List Char}
    (ht : Spells q read run cs text) (hrun : run ≤ 2) (hr : rest.head? ≠ some q) :
    read (List.replicate run q ++ text ++ [q, q, q] ++ rest) = some (List.replicate run q ++ cs, rest) := by
  induction ht with
  | done run =>
    have hclose := h.close (List.replicate run q ++ rest)
    rw [lastQuotes_replicate hrun hr] at hclose
    have hmove : List.replicate run q ++ [] ++ [q, q, q] ++ rest =
        q :: q :: q :: (List.replicate run q ++ rest) := by
      rw [List.append_nil, show [q, q, q] = List.replicate 3 q from rfl, List.replicate_append_replicate,
        Nat.add_comm, ← List.replicate_append_replicate, List.append_assoc]
      rfl
    rw [hmove, hclose, List.append_nil]
  | @quote run cs text hlt _ ih =>
    have hmove : ∀ t, List.replicate run q ++ q :: t = List.replicate (run + 1) q ++ t := by
      intro t
      rw [List.replicate_succ', List.append_assoc, List.singleton_append]
    rw [hmove, hmove]
    exact ih hlt
  | @piece run c d cs text piece hd hp _ ih =>
    have hnext := ih (Nat.zero_le 2)
    simp only [List.replicate_zero, List.nil_append] at hnext
    have hread := h.read_replicate hrun hd (piece ++ text ++ [q, q, q] ++ rest)
    have hpiece := hp (text ++ [q, q, q] ++ rest)
    simp only [List.append_assoc, List.cons_append] at hnext hread hpiece ⊢
    rw [hread, hpiece, hnext]
    rfl

theorem closes_readLongBasic : Closes '"' (readLongBasic false) where
  close cs := by rw [readLongBasic]
  quote cs h := by
    have hne : ∀ t, cs ≠ '"' :: '"' :: t := by
      rintro t rfl
      exact h ⟨t, rfl⟩
    rw [readLongBasic.eq_def]
    split
    · rename_i heq; cases heq
    · rename_i heq; cases heq; exact absurd rfl (hne _)
    · rename_i heq; cases heq
    · rename_i heq; cases heq
    · rename_i heq; cases heq
    · rename_i heq; cases heq
    · rename_i heq
      cases heq
      rw [if_neg (by simp), if_pos (by decide)]

theorem closes_readLongLiteral : Closes '\x27' readLongLiteral where
  close cs := by rw [readLongLiteral]
  quote cs h := by
    have hne : ∀ t, cs ≠ '\x27' :: '\x27' :: t := by
      rintro t rfl
      exact h ⟨t, rfl⟩
    rw [readLongLiteral.eq_def]
    split
    · rename_i heq; cases heq
    · rename_i heq; cases heq; exact absurd rfl (hne _)
    · rename_i heq; cases heq
    · rename_i heq
      cases heq
      rw [if_pos (by decide)]

theorem readLongBasic_newline (cs : List Char) :
    readLongBasic false ('\n' :: cs) = consTo '\n' (readLongBasic false cs) := by
  simp [readLongBasic]

theorem escapeChar_eq_cons (long : Bool) {c : Char} (hq : c ≠ '"') :
    ∃ d piece, escapeChar long c = d :: piece ∧ d ≠ '"' := by
  unfold escapeChar
  repeat' split
  all_goals exact ⟨_, _, rfl, by first | decide | exact hq⟩

theorem spells_escape (cs : List Char) (run : Nat) :
    Spells '"' (readLongBasic false) run cs (escape true run cs) := by
  induction cs generalizing run with
  | nil => exact .done run
  | cons c cs ih =>
    rw [escape]
    split
    · subst c
      split
      · rename_i hrun
        exact .quote (by simpa using hrun) (ih (run + 1))
      · exact .piece ['"'] (by decide) (fun t => unescapes_readLongBasic.short '"' '"' t rfl) (ih 0)
    · rename_i hq
      obtain ⟨d, piece, he, hd⟩ := escapeChar_eq_cons true hq
      have hp := unescapes_readLongBasic.read_escapeChar true (fun _ => readLongBasic_newline) hq
      rw [he] at hp ⊢
      exact .piece piece hd hp (ih 0)

theorem le_longestRun (q : Char) (run : Nat) (cs : List Char) : run ≤ longestRun q run cs := by
  induction cs generalizing run with
  | nil => exact Nat.le_refl run
  | cons c cs ih =>
    rw [longestRun]
    split
    · have := ih (run + 1)
      omega
    · omega

theorem readLongLiteral_cons {c : Char} (hc : c ≠ '\x27') (ht : isControl c = false) (t : List Char) :
    readLongLiteral (c :: t) = consTo c (readLongLiteral t) := by
  have hr : c ≠ '\r' := by
    rintro rfl
    exact absurd ht (by decide)
  have htext : c = '\n' ∨ isTextChar c = true := by
    by_cases hn : c = '\n'
    · exact .inl hn
    · exact .inr (isTextChar_of_not_isControl ht hn)
  rw [readLongLiteral.eq_def]
  simp [hc, hr, htext]

theorem spells_self {cs : List Char} (hc : ∀ c ∈ cs, isControl c = false) (run : Nat)
    (hrun : longestRun '\x27' run cs ≤ 2) : Spells '\x27' readLongLiteral run cs cs := by
  induction cs generalizing run with
  | nil => exact .done run
  | cons c cs ih =>
    have hcs : ∀ d ∈ cs, isControl d = false := fun d hd => hc d (List.mem_cons_of_mem c hd)
    rw [longestRun] at hrun
    split at hrun
    · subst c
      have := le_longestRun '\x27' (run + 1) cs
      exact .quote (by omega) (ih hcs (run + 1) hrun)
    · rename_i hq
      exact .piece [] hq (readLongLiteral_cons hq (hc c List.mem_cons_self)) (ih hcs 0 (by omega))

theorem hexDigitUpper_ne_newline : ∀ n < 0x80, '\n' ≠ hexDigitUpper (n / 16) ∧ '\n' ≠ hexDigitUpper n := by
  decide

theorem newline_notMem_escapeChar {c : Char} (h : c ≠ '\n') (long : Bool) : '\n' ∉ escapeChar long c := by
  unfold escapeChar
  rw [if_neg h]
  split
  · decide
  split
  · decide
  split
  · decide
  split
  · decide
  split
  · decide
  split
  · rename_i hctl
    have hlt : c.toNat < 0x80 := by
      simp [isControl] at hctl
      omega
    simp [hexDigitUpper_ne_newline c.toNat hlt]
  · simpa using Ne.symm h

theorem newline_notMem_escape (long : Bool) {cs : List Char} (h : '\n' ∉ cs) (run : Nat) :
    '\n' ∉ escape long run cs := by
  induction cs generalizing run with
  | nil => simp [escape]
  | cons c cs ih =>
    rw [List.mem_cons, not_or] at h
    rw [escape]
    split
    · split
      · simp [ih h.2]
      · simp [ih h.2]
    · simp [newline_notMem_escapeChar (Ne.symm h.1), ih h.2]

theorem newline?_append {cs : List Char} (h : '\n' ∉ cs) {d : Char} (hd : d ≠ '\n' ∧ d ≠ '\r')
    (rest : List Char) : newline? (cs ++ d :: rest) = none := by
  match cs, h with
  | [], _ => simp [newline?, hd]
  | [c], h =>
    simp at h
    simp [newline?, hd, Ne.symm h]
  | c :: e :: cs, h =>
    simp at h
    simp [newline?, Ne.symm h.1, Ne.symm h.2.1]

theorem dropFirstNewline_betweenLong {q : Char} (hq : q ≠ '\n' ∧ q ≠ '\r') {cs inside : List Char}
    (h : '\n' ∉ cs → '\n' ∉ inside) (rest : List Char) :
    dropFirstNewline ((if cs.contains '\n' then ['\n'] else []) ++ inside ++ [q, q, q] ++ rest) =
      inside ++ [q, q, q] ++ rest := by
  by_cases hc : '\n' ∈ cs
  · simp [dropFirstNewline, hc, newline?]
  · have hn := newline?_append (h hc) hq (q :: q :: rest)
    simp [dropFirstNewline, hc, hn]

def Unquoted (rest : List Char) : Prop := rest.head? ≠ some '"' ∧ rest.head? ≠ some '\x27'

theorem readString_basic {cs : List Char} (h : ¬ ['"', '"'] <+: cs) : readString ('"' :: cs) = readBasic cs := by
  have hne : ∀ t, cs ≠ '"' :: '"' :: t := by
    rintro t rfl
    exact h ⟨t, rfl⟩
  rw [readString.eq_def]
  split
  · rename_i heq; cases heq; exact absurd rfl (hne _)
  · rename_i heq; cases heq; rfl
  · rename_i heq; cases heq
  · rename_i heq; cases heq
  · rename_i hother _ _; exact absurd rfl (hother cs)

theorem readString_literal {cs : List Char} (h : ¬ ['\x27', '\x27'] <+: cs) :
    readString ('\x27' :: cs) = readLiteral cs := by
  have hne : ∀ t, cs ≠ '\x27' :: '\x27' :: t := by
    rintro t rfl
    exact h ⟨t, rfl⟩
  rw [readString.eq_def]
  split
  · rename_i heq; cases heq
  · rename_i heq; cases heq
  · rename_i heq; cases heq; exact absurd rfl (hne _)
  · rename_i heq; cases heq; rfl
  · rename_i hother; exact absurd rfl (hother cs)

/-- What stands between single quotes never begins with one, so it is not taken for a long string. -/
theorem not_prefix_of_head? {q : Char} {inside rest : List Char} (hi : inside.head? ≠ some q)
    (hr : rest.head? ≠ some q) : ¬ [q, q] <+: inside ++ q :: rest := by
  rintro ⟨t, ht⟩
  cases inside with
  | nil =>
    obtain ⟨-, hrest⟩ := List.cons.inj ht
    exact hr (by rw [← hrest]; rfl)
  | cons c cs =>
    obtain ⟨hq, -⟩ := List.cons.inj ht
    exact hi (by rw [hq]; rfl)

theorem head?_escape (cs : List Char) (run : Nat) : (escape false run cs).head? ≠ some '"' := by
  cases cs with
  | nil => simp [escape]
  | cons c cs =>
    rw [escape]
    split
    · simp
    · rename_i hq
      obtain ⟨d, piece, he, hd⟩ := escapeChar_eq_cons false hq
      simp [he, hd]

theorem readString_between_escape (cs : List Char) {rest : List Char} (hr : Unquoted rest) :
    readString (between quoteMark (escape false 0 cs) ++ rest) = some (cs, rest) := by
  have h := readString_basic (not_prefix_of_head? (head?_escape cs 0) hr.1)
  rw [readBasic_escape] at h
  simpa [between, quoteMark] using h

theorem readString_betweenLong_escape (cs : List Char) {rest : List Char} (hr : Unquoted rest) :
    readString (betweenLong longQuoteMark cs (escape true 0 cs) ++ rest) = some (cs, rest) := by
  have hdrop := dropFirstNewline_betweenLong (show '"' ≠ '\n' ∧ '"' ≠ '\r' by decide)
    (fun h : '\n' ∉ cs => newline_notMem_escape true h 0) rest
  have hread := closes_readLongBasic.read_spells (spells_escape cs 0) (Nat.zero_le 2) hr.1
  simp only [List.replicate_zero, List.nil_append] at hread
  rw [← hdrop] at hread
  simpa [betweenLong, longQuoteMark, readString] using hread

theorem readString_betweenLong_self {cs : List Char} (hc : ∀ c ∈ cs, isControl c = false)
    (hrun : longestRun '\x27' 0 cs ≤ 2) {rest : List Char} (hr : Unquoted rest) :
    readString (betweenLong longApostrophe cs cs ++ rest) = some (cs, rest) := by
  have hdrop := dropFirstNewline_betweenLong (show '\x27' ≠ '\n' ∧ '\x27' ≠ '\r' by decide)
    (id : '\n' ∉ cs → '\n' ∉ cs) rest
  have hread := closes_readLongLiteral.read_spells (spells_self hc 0 hrun) (Nat.zero_le 2) hr.2
  simp only [List.replicate_zero, List.nil_append] at hread
  rw [← hdrop] at hread
  simpa [betweenLong, longApostrophe, readString] using hread

theorem readString_between_self {cs : List Char} (hc : ∀ c ∈ cs, c ≠ '\x27' ∧ isTextChar c = true)
    {rest : List Char} (hr : Unquoted rest) : readString (between apostrophe cs ++ rest) = some (cs, rest) := by
  have hhead : cs.head? ≠ some '\x27' := fun h => (hc _ (List.mem_of_head? h)).1 rfl
  have h := readString_literal (not_prefix_of_head? hhead hr.2)
  rw [readLiteral_append rest hc] at h
  simpa [between, apostrophe] using h

theorem readString_quoted (cs : List Char) {rest : List Char} (hr : Unquoted rest) :
    readString (quoted cs ++ rest) = some (cs, rest) := by
  unfold quoted
  dsimp only
  split
  · exact readString_between_escape cs hr
  split
  · rename_i h
    simp only [Bool.and_eq_true, Bool.not_eq_true', List.any_eq_false, Bool.not_eq_true,
      List.contains_eq_mem, decide_eq_false_iff_not] at h
    obtain ⟨⟨hctl, hq⟩, hn⟩ := h
    refine readString_between_self (fun c hc => ⟨?_, ?_⟩) hr
    · rintro rfl
      exact hq hc
    · exact isTextChar_of_not_isControl (hctl c hc) fun he => hn (he ▸ hc)
  split
  · exact readString_betweenLong_escape cs hr
  split
  · rename_i h
    simp only [Bool.and_eq_true, Bool.not_eq_true', List.any_eq_false, Bool.not_eq_true,
      decide_eq_true_eq] at h
    exact readString_betweenLong_self h.1 h.2 hr
  split
  · exact readString_betweenLong_escape cs hr
  · exact readString_between_escape cs hr

theorem readKeyPart_between_escape (cs rest : List Char) :
    readKeyPart (between quoteMark (escape false 0 cs) ++ rest) = some (cs, rest) := by
  have h := readBasic_escape cs rest 0
  simpa [between, quoteMark, readKeyPart] using h

def EndsKey (rest : List Char) : Prop := ∀ c, rest.head? = some c → isBareChar c = false

theorem readBare_append {cs rest : List Char} (hne : cs ≠ []) (hc : ∀ c ∈ cs, isBareChar c = true)
    (hr : EndsKey rest) : readBare (cs ++ rest) = some (cs, rest) := by
  have htake : rest.takeWhile isBareChar = [] := by
    cases rest with
    | nil => rfl
    | cons c cs => simp [hr c rfl]
  have hdrop : rest.dropWhile isBareChar = rest := by
    cases rest with
    | nil => rfl
    | cons c cs => simp [hr c rfl]
  simp [readBare, List.takeWhile_append_of_pos hc, List.dropWhile_append_of_pos hc, htake, hdrop, hne]

theorem ne_of_isBareChar {c d : Char} (hc : isBareChar c = true) (hd : isBareChar d = false) : c ≠ d := by
  rintro rfl
  rw [hc] at hd
  cases hd

theorem readKeyPart_bare {cs rest : List Char} (hne : cs ≠ []) (hc : ∀ c ∈ cs, isBareChar c = true)
    (hr : EndsKey rest) : readKeyPart (cs ++ rest) = some (cs, rest) := by
  have h := readBare_append hne hc hr
  cases cs with
  | nil => exact absurd rfl hne
  | cons c cs =>
    have hq : c ≠ '"' := ne_of_isBareChar (hc c List.mem_cons_self) (by decide)
    have hl : c ≠ '\x27' := ne_of_isBareChar (hc c List.mem_cons_self) (by decide)
    rw [List.cons_append] at h ⊢
    simp [readKeyPart, hq, hl, h]

theorem isBareKey_iff {cs : List Char} :
    isBareKey cs = true ↔ cs ≠ [] ∧ ∀ c ∈ cs, isBareChar c = true := by
  simp [isBareKey, isBareChar]

theorem quotedKey_of_isBareKey {cs : List Char} (h : isBareKey cs = true) : quotedKey cs = cs := by
  simp [quotedKey, h]

theorem readKeyPart_quotedKey (cs : List Char) {rest : List Char} (hr : EndsKey rest) :
    readKeyPart (quotedKey cs ++ rest) = some (cs, rest) := by
  unfold quotedKey
  dsimp only
  split
  · rename_i h
    obtain ⟨hne, hc⟩ := isBareKey_iff.1 h
    exact readKeyPart_bare hne hc hr
  split
  · exact readKeyPart_between_escape cs rest
  split
  · rename_i h
    simp only [Bool.and_eq_true, Bool.not_eq_true', List.any_eq_false, Bool.or_eq_true, beq_iff_eq,
      List.contains_eq_mem, decide_eq_false_iff_not, not_or, Bool.not_eq_true] at h
    obtain ⟨hctl, hq⟩ := h
    have hread : readLiteral (cs ++ '\x27' :: rest) = some (cs, rest) := by
      refine readLiteral_append rest fun c hc => ⟨?_, ?_⟩
      · rintro rfl
        exact hq hc
      · exact isTextChar_of_not_isControl (hctl c hc).1 (hctl c hc).2
    simpa [between, apostrophe, readKeyPart] using hread
  · exact readKeyPart_between_escape cs rest

structure Begins (c : Char) : Prop where
  gap : isGap c = false
  marks : c ≠ '#' ∧ c ≠ '[' ∧ c ≠ '\x7b'
  newline : c ≠ '\n' ∧ c ≠ '\r'

theorem begins_of_isBareChar {c : Char} (h : isBareChar c = true) : Begins c where
  gap := by simp [isGap, ne_of_isBareChar h (show isBareChar ' ' = false by decide),
    ne_of_isBareChar h (show isBareChar '\t' = false by decide)]
  marks := ⟨ne_of_isBareChar h (by decide), ne_of_isBareChar h (by decide), ne_of_isBareChar h (by decide)⟩
  newline := ⟨ne_of_isBareChar h (by decide), ne_of_isBareChar h (by decide)⟩

theorem quoted_eq_cons (cs : List Char) : ∃ c t, quoted cs = c :: t ∧ (c = '"' ∨ c = '\x27') := by
  unfold quoted
  dsimp only
  repeat' split
  all_goals exact ⟨_, _, rfl, by decide⟩

theorem quotedKey_eq_cons (cs : List Char) : ∃ c t, quotedKey cs = c :: t ∧ Begins c := by
  unfold quotedKey
  dsimp only
  split
  · rename_i h
    obtain ⟨hne, hc⟩ := isBareKey_iff.1 h
    cases cs with
    | nil => exact absurd rfl hne
    | cons c cs => exact ⟨c, cs, rfl, begins_of_isBareChar (hc c List.mem_cons_self)⟩
  repeat' split
  all_goals exact ⟨_, _, rfl, by decide, by decide, by decide⟩

end EventHub.Toml
