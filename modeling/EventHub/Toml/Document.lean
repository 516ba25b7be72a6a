import EventHub.Toml.Scalar
set_option autoImplicit false

namespace EventHub.Toml

mutual

/-- A value with fewer than so many brackets around any part of it. -/
def readItem : Nat → Nat → List Char → Option (Item × List Char)
  | 0, _, _ => none
  | fuel + 1, depth, cs =>
    match cs with
    | 't' :: 'r' :: 'u' :: 'e' :: rest => some (.bool true, rest)
    | 'f' :: 'a' :: 'l' :: 's' :: 'e' :: rest => some (.bool false, rest)
    | '[' :: cs =>
      match depth with
      | 0 => none
      | depth + 1 =>
        match skipVoid false cs with
        | none => none
        | some (']' :: rest) => some (.array [], rest)
        | some cs => (readItems fuel depth cs).map fun (items, rest) => (.array items, rest)
    | '\x7b' :: cs =>
      match depth with
      | 0 => none
      | depth + 1 =>
        match skipGaps cs with
        | '\x7d' :: rest => some (.table .closed [], rest)
        | cs =>
          (readPairs fuel depth cs).bind fun (pairs, rest) =>
            (inlineTable? pairs).map fun item => (item, rest)
    | cs =>
      match readString cs with
      | some (s, rest) => some (.string (String.ofList s), rest)
      | none =>
        match readMoment cs with
        | some r => some r
        | none => readNumber cs

def readItems : Nat → Nat → List Char → Option (List Item × List Char)
  | 0, _, _ => none
  | fuel + 1, depth, cs =>
    (readItem fuel depth cs).bind fun (item, cs) =>
      match skipVoid false cs with
      | some (']' :: rest) => some ([item], rest)
      | some (',' :: cs) =>
        match skipVoid false cs with
        | some (']' :: rest) => some ([item], rest)
        | some cs => (readItems fuel depth cs).map fun (items, rest) => (item :: items, rest)
        | none => none
      | _ => none

def readPairs : Nat → Nat → List Char → Option (List (List String × Item) × List Char)
  | 0, _, _ => none
  | fuel + 1, depth, cs =>
    (readKey cs).bind fun (key, cs) =>
      match cs with
      | '=' :: cs =>
        (readItem fuel depth (skipGaps cs)).bind fun (item, cs) =>
          match skipGaps cs with
          | ',' :: cs => (readPairs fuel depth cs).map fun (pairs, rest) => ((key, item) :: pairs, rest)
          | '\x7d' :: rest => some ([(key, item)], rest)
          | _ => none
      | _ => none

end

/-- A value: every bracket costs two steps and stands for a character. -/
def readValue (cs : List Char) : Option (Item × List Char) :=
  readItem (2 * cs.length + 2) (depthLimit - 1) cs

def readLine (cs : List Char) : Option (Option Statement × List Char) :=
  match skipGaps cs with
  | [] => some (none, [])
  | '[' :: '[' :: cs =>
    (readKey cs).bind fun (path, cs) =>
      match cs with
      | ']' :: ']' :: cs => (lineEnd? cs).map fun rest => (some (.element path), rest)
      | _ => none
  | '[' :: cs =>
    (readKey cs).bind fun (path, cs) =>
      match cs with
      | ']' :: cs => (lineEnd? cs).map fun rest => (some (.table path), rest)
      | _ => none
  | cs =>
    match lineEnd? cs with
    | some rest => some (none, rest)
    | none =>
      (readKey cs).bind fun (path, cs) =>
        match cs with
        | '=' :: cs =>
          (readValue (skipGaps cs)).bind fun (item, cs) =>
            (lineEnd? cs).map fun rest => (some (.pair path item), rest)
        | _ => none

def readLines : Nat → List Char → Option (List Statement)
  | 0, _ => none
  | fuel + 1, cs =>
    if cs.isEmpty then some []
    else (readLine cs).bind fun (statement, rest) =>
      (readLines fuel rest).map (statement.toList ++ ·)

def dropMark : List Char → List Char
  | c :: cs => if c.toNat = 0xFEFF then cs else c :: cs
  | [] => []

/-- The top table of a text. Every line is a character at least. -/
def ofText? (text : String) : Option Fields :=
  let cs := dropMark text.toList
  (readLines (cs.length + 1) cs).bind fieldsOf?

end EventHub.Toml
