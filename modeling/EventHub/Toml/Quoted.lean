import EventHub.Json.Value
set_option autoImplicit false

namespace EventHub.Toml

/-- Controls that cannot be written as they are; the tab and the end of a line are no such. -/
def isControl (c : Char) : Bool :=
  c != '\t' && c != '\n' && (decide (c.toNat < 0x20) || c.toNat == 0x7F)

def longestRun (q : Char) : Nat → List Char → Nat
  | run, [] => run
  | run, c :: cs => if c = q then longestRun q (run + 1) cs else max run (longestRun q 0 cs)

def hexDigitUpper (n : Nat) : Char := (Json.hexDigit n).toUpper

def escapeChar (long : Bool) (c : Char) : List Char :=
  if c = '\x08' then ['\\', 'b']
  else if c = '\t' then ['\\', 't']
  else if c = '\n' then if long then ['\n'] else ['\\', 'n']
  else if c = '\x0c' then ['\\', 'f']
  else if c = '\r' then ['\\', 'r']
  else if c = '\\' then ['\\', '\\']
  else if isControl c then ['\\', 'u', '0', '0', hexDigitUpper (c.toNat / 16), hexDigitUpper c.toNat]
  else [c]

/-- The inside of double quotes. In a long string two quotes in a row may stand as they are; the count
begins anew after everything that is escaped. -/
def escape (long : Bool) : Nat → List Char → List Char
  | _, [] => []
  | run, c :: cs =>
    if c = '"' then
      if long && run < 2 then '"' :: escape long (run + 1) cs
      else '\\' :: '"' :: escape long 0 cs
    else escapeChar long c ++ escape long 0 cs

def quoteMark : List Char := ['"']
def longQuoteMark : List Char := ['"', '"', '"']
def apostrophe : List Char := ['\x27']
def longApostrophe : List Char := ['\x27', '\x27', '\x27']

def between (mark inside : List Char) : List Char := mark ++ inside ++ mark

/-- A long string that has several lines begins on a line of its own. -/
def betweenLong (mark cs inside : List Char) : List Char :=
  mark ++ (if cs.contains '\n' then ['\n'] else []) ++ inside ++ mark

def quoted (cs : List Char) : List Char :=
  let controls := cs.any isControl
  let newline := cs.contains '\n'
  if !controls && !cs.contains '\\' && !cs.contains '"' && !newline then
    between quoteMark (escape false 0 cs)
  else if !controls && !cs.contains '\x27' && !newline then between apostrophe cs
  else if !controls && !cs.contains '\\' && longestRun '"' 0 cs ≤ 2 then
    betweenLong longQuoteMark cs (escape true 0 cs)
  else if !controls && longestRun '\x27' 0 cs ≤ 2 then betweenLong longApostrophe cs cs
  else if newline then betweenLong longQuoteMark cs (escape true 0 cs)
  else between quoteMark (escape false 0 cs)

def isBareKey (cs : List Char) : Bool :=
  !cs.isEmpty && cs.all fun c => c.isAlphanum || c == '_' || c == '-'

def quotedKey (cs : List Char) : List Char :=
  let controls := cs.any fun c => isControl c || c == '\n'
  if isBareKey cs then cs
  else if !controls && !cs.contains '\\' && !cs.contains '"' then between quoteMark (escape false 0 cs)
  else if !controls && !cs.contains '\x27' then between apostrophe cs
  else between quoteMark (escape false 0 cs)

end EventHub.Toml
