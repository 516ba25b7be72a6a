import EventHub.Binary64
import EventHub.Json.Tree
import EventHub.Toml.Item
set_option autoImplicit false

namespace EventHub.Toml

open Json (digitValue digitsValue hexDigitsValue?)

def isGap (c : Char) : Bool := c == ' ' || c == '\t'

def skipGaps (cs : List Char) : List Char := cs.dropWhile isGap

def isTextChar (c : Char) : Bool := c == '\t' || (0x20 ≤ c.toNat && c.toNat != 0x7F)

def newline? : List Char → Option (List Char)
  | '\n' :: cs => some cs
  | '\r' :: '\n' :: cs => some cs
  | _ => none

/-- The end of a line or of the text, with blanks and a comment before it. -/
def lineEnd? (cs : List Char) : Option (List Char) :=
  let cs := match skipGaps cs with
    | '#' :: cs => cs.dropWhile isTextChar
    | cs => cs
  if cs.isEmpty then some [] else newline? cs

def skipVoid : Bool → List Char → Option (List Char)
  | _, '\r' :: '\n' :: cs => skipVoid false cs
  | comment, c :: cs =>
    if c = '\n' then skipVoid false cs
    else if comment then if isTextChar c then skipVoid true cs else none
    else if isGap c then skipVoid false cs
    else if c = '#' then skipVoid true cs
    else some (c :: cs)
  | comment, [] => if comment then none else some []

def escaped? : Char → Option Char
  | 'b' => some '\x08'
  | 't' => some '\t'
  | 'n' => some '\n'
  | 'f' => some '\x0c'
  | 'r' => some '\r'
  | '"' => some '"'
  | '\\' => some '\\'
  | _ => none

def scalar? (digits : List Char) : Option Char :=
  (hexDigitsValue? digits).bind fun n => if n.isValidChar then some (Char.ofNat n) else none

def consTo (c : Char) (r : Option (List Char × List Char)) : Option (List Char × List Char) :=
  r.map fun (s, rest) => (c :: s, rest)

def readBasic : List Char → Option (List Char × List Char)
  | [] => none
  | '"' :: cs => some ([], cs)
  | '\\' :: 'u' :: a :: b :: c :: d :: cs =>
    (scalar? [a, b, c, d]).bind fun x => consTo x (readBasic cs)
  | '\\' :: 'U' :: a :: b :: c :: d :: e :: f :: g :: h :: cs =>
    (scalar? [a, b, c, d, e, f, g, h]).bind fun x => consTo x (readBasic cs)
  | '\\' :: e :: cs => (escaped? e).bind fun x => consTo x (readBasic cs)
  | c :: cs => if isTextChar c && c != '\\' then consTo c (readBasic cs) else none

def readLiteral : List Char → Option (List Char × List Char)
  | [] => none
  | c :: cs =>
    if c = '\x27' then some ([], cs)
    else if isTextChar c then consTo c (readLiteral cs)
    else none

/-- Up to two quotes before the closing three belong to the string. -/
def lastQuotes (q : Char) : List Char → List Char × List Char
  | a :: b :: cs => if a = q then if b = q then ([q, q], cs) else ([q], b :: cs) else ([], a :: b :: cs)
  | [a] => if a = q then ([q], []) else ([], [a])
  | [] => ([], [])

def startsNewline (cs : List Char) : Bool := (newline? (skipGaps cs)).isSome

/-- A string of many lines up to its closing double quotes. After a backslash at the end of a line
everything is left out up to the next character that is no blank. -/
def readLongBasic : Bool → List Char → Option (List Char × List Char)
  | _, [] => none
  | _, '"' :: '"' :: '"' :: cs => some (lastQuotes '"' cs)
  | joining, '\r' :: '\n' :: cs =>
    if joining then readLongBasic true cs else consTo '\n' (readLongBasic false cs)
  | _, '\\' :: 'u' :: a :: b :: c :: d :: cs =>
    (scalar? [a, b, c, d]).bind fun x => consTo x (readLongBasic false cs)
  | _, '\\' :: 'U' :: a :: b :: c :: d :: e :: f :: g :: h :: cs =>
    (scalar? [a, b, c, d, e, f, g, h]).bind fun x => consTo x (readLongBasic false cs)
  | _, '\\' :: e :: cs =>
    if startsNewline (e :: cs) then readLongBasic true (e :: cs)
    else (escaped? e).bind fun x => consTo x (readLongBasic false cs)
  | joining, c :: cs =>
    if joining && (isGap c || c == '\n') then readLongBasic true cs
    else if c = '\n' ∨ (isTextChar c ∧ c ≠ '\\') then consTo c (readLongBasic false cs)
    else none

def readLongLiteral : List Char → Option (List Char × List Char)
  | [] => none
  | '\x27' :: '\x27' :: '\x27' :: cs => some (lastQuotes '\x27' cs)
  | '\r' :: '\n' :: cs => consTo '\n' (readLongLiteral cs)
  | c :: cs => if c = '\n' ∨ isTextChar c then consTo c (readLongLiteral cs) else none

def dropFirstNewline (cs : List Char) : List Char := (newline? cs).getD cs

def readString : List Char → Option (List Char × List Char)
  | '"' :: '"' :: '"' :: cs => readLongBasic false (dropFirstNewline cs)
  | '"' :: cs => readBasic cs
  | '\x27' :: '\x27' :: '\x27' :: cs => readLongLiteral (dropFirstNewline cs)
  | '\x27' :: cs => readLiteral cs
  | _ => none

def isBareChar (c : Char) : Bool := c.isAlphanum || c == '_' || c == '-'

def readBare (cs : List Char) : Option (List Char × List Char) :=
  let key := cs.takeWhile isBareChar
  if key.isEmpty then none else some (key, cs.dropWhile isBareChar)

def readKeyPart : List Char → Option (List Char × List Char)
  | '"' :: cs => readBasic cs
  | '\x27' :: cs => readLiteral cs
  | cs => readBare cs

def readKeyParts : Nat → List Char → Option (List String × List Char)
  | 0, _ => none
  | fuel + 1, cs =>
    (readKeyPart (skipGaps cs)).bind fun (part, cs) =>
      match skipGaps cs with
      | '.' :: cs =>
        (readKeyParts fuel cs).map fun (parts, rest) => (String.ofList part :: parts, rest)
      | cs => some ([String.ofList part], cs)

/-- The number of parts or of nested brackets that is too large. -/
def depthLimit : Nat := 80

def readKey (cs : List Char) : Option (List String × List Char) :=
  (readKeyParts (cs.length + 1) cs).bind fun (parts, rest) =>
    if parts.length < depthLimit then some (parts, rest) else none

/-- Digits, among them single underscores that each stand between two of them. -/
def readGroupsTail (isDigit : Char → Bool) : List Char → List Char × List Char
  | [] => ([], [])
  | '_' :: d :: cs =>
    if isDigit d then
      let (ds, rest) := readGroupsTail isDigit cs
      (d :: ds, rest)
    else ([], '_' :: d :: cs)
  | d :: cs =>
    if isDigit d then
      let (ds, rest) := readGroupsTail isDigit cs
      (d :: ds, rest)
    else ([], d :: cs)

def readGroups (isDigit : Char → Bool) : List Char → Option (List Char × List Char)
  | d :: cs =>
    if isDigit d then
      let (ds, rest) := readGroupsTail isDigit cs
      some (d :: ds, rest)
    else none
  | [] => none

def readSign : List Char → Bool × List Char
  | '-' :: cs => (true, cs)
  | '+' :: cs => (false, cs)
  | cs => (false, cs)

def readWhole : List Char → Option (List Char × List Char)
  | '0' :: cs => some (['0'], cs)
  | cs => readGroups Char.isDigit cs

def readFraction : List Char → Option (Option (List Char) × List Char)
  | '.' :: cs => (readGroups Char.isDigit cs).map fun (ds, rest) => (some ds, rest)
  | cs => some (none, cs)

def readExponent : List Char → Option (Option Int × List Char)
  | 'e' :: cs | 'E' :: cs =>
    let (negative, cs) := readSign cs
    (readGroups Char.isDigit cs).map fun (ds, rest) =>
      (some (if negative then -(digitsValue ds : Int) else (digitsValue ds : Int)), rest)
  | cs => some (none, cs)

/-- Whether a decimal is beyond the greatest double. Far from it the place of the first digit tells. -/
def isTooLarge (digits : List Char) (exponent : Int) : Bool :=
  let significant := digits.dropWhile (· == '0')
  let lead := exponent + (significant.length : Int)
  if significant.isEmpty ∨ lead < 300 then false
  else if 320 < lead then true
  else
    let ratio : Nat × Nat := match exponent with
      | .ofNat k => (digitsValue significant * Nat.pow 10 k, 1)
      | .negSucc k => (digitsValue significant, Nat.pow 10 (k + 1))
    (Magnitude.ofRatio ratio).isNone

def taken (cs rest : List Char) : List Char := cs.take (cs.length - rest.length)

def integer? (n : Int) : Option Item :=
  if -(Nat.pow 2 63 : Int) ≤ n ∧ n < (Nat.pow 2 63 : Int) then some (.integer n) else none

/-- Infinite values have to be asked for by name, except for the negative one. -/
def readDecimal (cs : List Char) : Option (Item × List Char) := do
  let (negative, unsigned) := readSign cs
  let (whole, rest) ← readWhole unsigned
  let (fraction, rest) ← readFraction rest
  let (exponent, rest) ← readExponent rest
  if fraction.isNone && exponent.isNone then
    let n := (digitsValue whole : Int)
    let item ← integer? (if negative then -n else n)
    some (item, rest)
  else
    let part := fraction.getD []
    if !negative && isTooLarge (whole ++ part) (exponent.getD 0 - (part.length : Int)) then none
    else some (.float (taken cs rest), rest)

def radixDigits (base : Nat) (c : Char) : Bool :=
  match Json.hexValue? c with
  | some v => v < base
  | none => false

def readRadix (base : Nat) (cs : List Char) : Option (Item × List Char) :=
  (readGroups (radixDigits base) cs).bind fun (ds, rest) =>
    let n := ds.foldl (fun n c => n * base + (Json.hexValue? c).getD 0) 0
    (integer? (n : Int)).map fun item => (item, rest)

def readNamedFloat (cs : List Char) : Option (Item × List Char) :=
  match (readSign cs).2 with
  | 'i' :: 'n' :: 'f' :: rest => some (.float (taken cs rest), rest)
  | 'n' :: 'a' :: 'n' :: rest => some (.float (taken cs rest), rest)
  | _ => none

def readNumber : List Char → Option (Item × List Char)
  | '0' :: 'x' :: cs => readRadix 16 cs
  | '0' :: 'o' :: cs => readRadix 8 cs
  | '0' :: 'b' :: cs => readRadix 2 cs
  | cs =>
    match readNamedFloat cs with
    | some r => some r
    | none => readDecimal cs

def readFixed (count low high : Nat) (cs : List Char) : Option (Nat × List Char) :=
  let digits := cs.take count
  let n := digitsValue digits
  if digits.length = count ∧ digits.all Char.isDigit ∧ low ≤ n ∧ n ≤ high then some (n, cs.drop count)
  else none

def expect (c : Char) : List Char → Option (List Char)
  | d :: cs => if d = c then some cs else none
  | [] => none

def isLeapYear (y : Nat) : Bool := (y % 4 == 0 && y % 100 != 0) || y % 400 == 0

def daysOfMonth (y m : Nat) : Nat :=
  if m = 2 then if isLeapYear y then 29 else 28
  else if m = 4 ∨ m = 6 ∨ m = 9 ∨ m = 11 then 30
  else 31

def readDate (cs : List Char) : Option (List Char) := do
  let (year, cs) ← readFixed 4 0 9999 cs
  let (month, cs) ← readFixed 2 1 12 (← expect '-' cs)
  let (_, cs) ← readFixed 2 1 (daysOfMonth year month) (← expect '-' cs)
  some cs

def readSecondPart : List Char → List Char
  | '.' :: d :: cs => if d.isDigit then cs.dropWhile Char.isDigit else '.' :: d :: cs
  | cs => cs

def readTime (cs : List Char) : Option (List Char) := do
  let (_, cs) ← readFixed 2 0 23 cs
  let (_, cs) ← readFixed 2 0 59 (← expect ':' cs)
  let (_, cs) ← readFixed 2 0 60 (← expect ':' cs)
  some (readSecondPart cs)

def readClock (cs : List Char) : Option (List Char) := do
  let (_, cs) ← readFixed 2 0 23 cs
  let (_, cs) ← readFixed 2 0 59 (← expect ':' cs)
  some cs

def readOffset : List Char → Option (List Char)
  | 'Z' :: cs | 'z' :: cs => some cs
  | '+' :: cs | '-' :: cs => readClock cs
  | cs => some cs

def readTimeAfter : List Char → Option (List Char)
  | 'T' :: cs | 't' :: cs | ' ' :: cs => (readTime cs).bind readOffset
  | _ => none

/-- A date, a date with a time, or a time. What follows a date and is no time is left. -/
def readMoment (cs : List Char) : Option (Item × List Char) :=
  match readDate cs with
  | some rest =>
    let rest := (readTimeAfter rest).getD rest
    some (.moment (taken cs rest), rest)
  | none => (readTime cs).map fun rest => (.moment (taken cs rest), rest)

end EventHub.Toml
