set_option autoImplicit false

/-!
JSON texts as they are written: numbers keep their digits, objects keep the order of their fields and the
repeated ones, and a string whose escapes form no text is still a string. What a reader of values makes
of them is decided later, so a part that nobody asks for only has to be well formed.
-/
namespace EventHub.Json

/-- A number as written: `-12.50e-3` has the whole digits `12`, the fraction `50` and the exponent `-3`. -/
structure Numeral where
  negative : Bool
  whole : List Char
  fraction : Option (List Char)
  exponent : Option Int
  deriving DecidableEq, Repr

/-- A string is none if its escapes hold half of a surrogate pair without the other half. -/
inductive Tree where
  | null
  | bool (b : Bool)
  | number (n : Numeral)
  | string (s : Option String)
  | array (items : List Tree)
  | object (fields : List (Option String × Tree))

def isGap (c : Char) : Bool := c == ' ' || c == '\t' || c == '\n' || c == '\r'

def skipGaps (cs : List Char) : List Char := cs.dropWhile isGap

def digitValue (c : Char) : Nat := c.toNat - '0'.toNat

def digitsValue (cs : List Char) : Nat := cs.foldl (fun n c => n * 10 + digitValue c) 0

def readDigits (cs : List Char) : Option (List Char × List Char) :=
  let digits := cs.takeWhile Char.isDigit
  if digits.isEmpty then none else some (digits, cs.dropWhile Char.isDigit)

def readWhole (cs : List Char) : Option (List Char × List Char) :=
  match readDigits cs with
  | some ('0' :: _ :: _, _) => none
  | r => r

def readFraction : List Char → Option (Option (List Char) × List Char)
  | '.' :: cs => (readDigits cs).map fun (digits, rest) => (some digits, rest)
  | cs => some (none, cs)

def readSignedDigits : List Char → Option (Int × List Char)
  | '-' :: cs => (readDigits cs).map fun (digits, rest) => (-(digitsValue digits : Int), rest)
  | '+' :: cs => (readDigits cs).map fun (digits, rest) => ((digitsValue digits : Int), rest)
  | cs => (readDigits cs).map fun (digits, rest) => ((digitsValue digits : Int), rest)

def readExponent : List Char → Option (Option Int × List Char)
  | 'e' :: cs | 'E' :: cs => (readSignedDigits cs).map fun (e, rest) => (some e, rest)
  | cs => some (none, cs)

def readUnsigned (negative : Bool) (cs : List Char) : Option (Numeral × List Char) := do
  let (whole, cs) ← readWhole cs
  let (fraction, cs) ← readFraction cs
  let (exponent, cs) ← readExponent cs
  some (⟨negative, whole, fraction, exponent⟩, cs)

def Numeral.read : List Char → Option (Numeral × List Char)
  | '-' :: cs => readUnsigned true cs
  | cs => readUnsigned false cs

def hexValue? (c : Char) : Option Nat :=
  if c.isDigit then some (c.toNat - '0'.toNat)
  else if 'a' ≤ c ∧ c ≤ 'f' then some (c.toNat - 'a'.toNat + 10)
  else if 'A' ≤ c ∧ c ≤ 'F' then some (c.toNat - 'A'.toNat + 10)
  else none

def hexDigitsValue? (cs : List Char) : Option Nat :=
  cs.foldlM (fun n c => (hexValue? c).map (n * 16 + ·)) 0

def escaped? : Char → Option Char
  | '"' => some '"'
  | '\\' => some '\\'
  | '/' => some '/'
  | 'b' => some '\x08'
  | 'f' => some '\x0c'
  | 'n' => some '\n'
  | 'r' => some '\r'
  | 't' => some '\t'
  | _ => none

/-- The code units of a string up to its closing quote. Characters written plainly count as one unit,
whatever their code point; `\u` escapes are units of sixteen bits. -/
def readUnits : List Char → Option (List Nat × List Char)
  | [] => none
  | '"' :: cs => some ([], cs)
  | '\\' :: 'u' :: a :: b :: c :: d :: cs =>
    (hexDigitsValue? [a, b, c, d]).bind fun u =>
      (readUnits cs).map fun (units, rest) => (u :: units, rest)
  | '\\' :: e :: cs =>
    (escaped? e).bind fun c => (readUnits cs).map fun (units, rest) => (c.toNat :: units, rest)
  | c :: cs =>
    if c.toNat < 0x20 ∨ c = '\\' then none
    else (readUnits cs).map fun (units, rest) => (c.toNat :: units, rest)

def isHighHalf (u : Nat) : Bool := 0xD800 ≤ u && u ≤ 0xDBFF
def isLowHalf (u : Nat) : Bool := 0xDC00 ≤ u && u ≤ 0xDFFF

def pairChar (high low : Nat) : Char := Char.ofNat (0x10000 + (high - 0xD800) * 0x400 + (low - 0xDC00))

def textOfUnits? : List Nat → Option (List Char)
  | [] => some []
  | [u] => if isHighHalf u || isLowHalf u then none else some [Char.ofNat u]
  | u :: v :: us =>
    if isHighHalf u then
      if isLowHalf v then (textOfUnits? us).map (pairChar u v :: ·) else none
    else if isLowHalf u then none
    else (textOfUnits? (v :: us)).map (Char.ofNat u :: ·)

def readText (cs : List Char) : Option (Option String × List Char) :=
  (readUnits cs).map fun (units, rest) => ((textOfUnits? units).map String.ofList, rest)

mutual

def Tree.read : Nat → List Char → Option (Tree × List Char)
  | 0, _ => none
  | fuel + 1, cs =>
    match skipGaps cs with
    | 'n' :: 'u' :: 'l' :: 'l' :: cs => some (.null, cs)
    | 't' :: 'r' :: 'u' :: 'e' :: cs => some (.bool true, cs)
    | 'f' :: 'a' :: 'l' :: 's' :: 'e' :: cs => some (.bool false, cs)
    | '"' :: cs => (readText cs).map fun (s, rest) => (.string s, rest)
    | '[' :: cs =>
      match skipGaps cs with
      | ']' :: rest => some (.array [], rest)
      | cs => (readItems fuel cs).map fun (items, rest) => (.array items, rest)
    | '\x7b' :: cs =>
      match skipGaps cs with
      | '\x7d' :: rest => some (.object [], rest)
      | cs => (readFields fuel cs).map fun (fields, rest) => (.object fields, rest)
    | cs => (Numeral.read cs).map fun (n, rest) => (.number n, rest)

def readItems : Nat → List Char → Option (List Tree × List Char)
  | 0, _ => none
  | fuel + 1, cs =>
    (Tree.read fuel cs).bind fun (item, cs) =>
      match skipGaps cs with
      | ',' :: cs => (readItems fuel cs).map fun (items, rest) => (item :: items, rest)
      | ']' :: rest => some ([item], rest)
      | _ => none

def readFields : Nat → List Char → Option (List (Option String × Tree) × List Char)
  | 0, _ => none
  | fuel + 1, cs =>
    match skipGaps cs with
    | '"' :: cs =>
      (readText cs).bind fun (key, cs) =>
        match skipGaps cs with
        | ':' :: cs =>
          (Tree.read fuel cs).bind fun (value, cs) =>
            match skipGaps cs with
            | ',' :: cs => (readFields fuel cs).map fun (fields, rest) => ((key, value) :: fields, rest)
            | '\x7d' :: rest => some ([(key, value)], rest)
            | _ => none
        | _ => none
    | _ => none

end

/-- Every bracket costs two steps and stands for a character, so this many steps are enough. -/
def readBound (cs : List Char) : Nat := 2 * cs.length + 2

def Tree.ofText? (cs : List Char) : Option Tree :=
  (Tree.read (readBound cs) cs).bind fun (t, rest) =>
    if (skipGaps rest).isEmpty then some t else none

end EventHub.Json
