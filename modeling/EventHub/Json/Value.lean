import EventHub.Decimal
import EventHub.Json.Tree
set_option autoImplicit false

namespace EventHub.Json

inductive Value where
  | null
  | bool (b : Bool)
  | int (n : Int)
  | float (x : Binary64)
  | string (s : String)
  | array (items : List Value)
  | object (fields : List (String × Value))
  deriving Inhabited

def wordLimit : Nat := Nat.pow 2 64 - 1

def takeDigits (n : Nat) : List Char → Nat × List Char
  | [] => (n, [])
  | c :: cs =>
    let longer := n * 10 + digitValue c
    if longer ≤ wordLimit then takeDigits longer cs else (n, c :: cs)

/-- The significant digits that are kept and the power of ten that they are to be multiplied by. -/
def Numeral.scaled (n : Numeral) : Nat × Int :=
  let (whole, left) := takeDigits 0 n.whole
  let fraction := n.fraction.getD []
  let (all, unused) := takeDigits whole fraction
  (all, (left.length : Int) - ((fraction.length : Int) - (unused.length : Int)) + n.exponent.getD 0)

def Numeral.float? (n : Numeral) : Option Value :=
  (Magnitude.ofDecimal? n.scaled.1 n.scaled.2).map fun m => .float ⟨n.negative, m⟩

/-- An integer without fraction and exponent, if it is one of sixty-four bits with or without sign;
there is no negative zero among them. -/
def Numeral.int? (n : Numeral) : Option Int :=
  if n.fraction.isSome || n.exponent.isSome then none
  else
    let m := digitsValue n.whole
    if n.negative then if m = 0 ∨ Nat.pow 2 63 < m then none else some (-(m : Int))
    else if m ≤ wordLimit then some (m : Int) else none

/-- None for numbers beyond the greatest double. -/
def Numeral.value? (n : Numeral) : Option Value :=
  match n.int? with
  | some i => some (.int i)
  | none => n.float?

/-- Puts a field at its place among the fields; the later of two with one key stays. -/
def putField {α : Type} (key : String) (value : α) : List (String × α) → List (String × α)
  | [] => [(key, value)]
  | (k, v) :: fields =>
    match compare key k with
    | .lt => (key, value) :: (k, v) :: fields
    | .eq => (key, value) :: fields
    | .gt => (k, v) :: putField key value fields

theorem lookup_putField_self {α : Type} (key : String) (value : α) (fields : List (String × α)) :
    (putField key value fields).lookup key = some value := by
  induction fields with
  | nil => simp [putField]
  | cons f fs ih =>
    obtain ⟨k, v⟩ := f
    rw [putField]
    split
    · simp
    · simp
    · rename_i h
      have hne : (key == k) = false := by
        rw [beq_eq_false_iff_ne]; rintro rfl
        simp [Std.ReflCmp.compare_self] at h
      rw [List.lookup_cons, hne]
      exact ih

theorem lookup_putField_of_ne {α : Type} {key other : String} (value : α) (h : other ≠ key)
    (fields : List (String × α)) : (putField key value fields).lookup other = fields.lookup other := by
  have hk : (other == key) = false := beq_eq_false_iff_ne.2 h
  induction fields with
  | nil => rw [putField, List.lookup_cons, hk]
  | cons f fs ih =>
    obtain ⟨k, v⟩ := f
    rw [putField]
    split
    · rw [List.lookup_cons, hk]
    · rename_i he
      have : key = k := Std.LawfulEqCmp.eq_of_compare he
      subst this
      rw [List.lookup_cons, hk, List.lookup_cons, hk]
    · rw [List.lookup_cons, List.lookup_cons, ih]

mutual

def Value.ofTree? (depth : Nat) : Tree → Option Value
  | .null => some .null
  | .bool b => some (.bool b)
  | .number n => n.value?
  | .string s => s.map .string
  | .array items =>
    match depth with
    | 0 => none
    | depth + 1 => (valuesOfTrees? depth items).map .array
  | .object fields =>
    match depth with
    | 0 => none
    | depth + 1 => (fieldsOfTrees? depth fields []).map .object

def valuesOfTrees? (depth : Nat) : List Tree → Option (List Value)
  | [] => some []
  | t :: ts => (Value.ofTree? depth t).bind fun v => (valuesOfTrees? depth ts).map (v :: ·)

def fieldsOfTrees? (depth : Nat) :
    List (Option String × Tree) → List (String × Value) → Option (List (String × Value))
  | [], done => some done
  | (key, t) :: fields, done =>
    key.bind fun k =>
      (Value.ofTree? depth t).bind fun v => fieldsOfTrees? depth fields (putField k v done)

end

def nestingLimit : Nat := 127

def Value.ofText? (cs : List Char) : Option Value :=
  (Tree.ofText? cs).bind (Value.ofTree? nestingLimit)

def hexDigit (n : Nat) : Char := (Nat.toDigits 16 (n % 16)).headD '0'

def escapeChar (c : Char) : List Char :=
  if c = '"' then ['\\', '"']
  else if c = '\\' then ['\\', '\\']
  else if c = '\x08' then ['\\', 'b']
  else if c = '\t' then ['\\', 't']
  else if c = '\n' then ['\\', 'n']
  else if c = '\x0c' then ['\\', 'f']
  else if c = '\r' then ['\\', 'r']
  else if c.toNat < 0x20 then ['\\', 'u', '0', '0', hexDigit (c.toNat / 16), hexDigit c.toNat]
  else [c]

def quote (s : String) : List Char := '"' :: (s.toList.flatMap escapeChar ++ ['"'])

def intText (n : Int) : List Char :=
  if n < 0 then '-' :: Nat.toDigits 10 n.natAbs else Nat.toDigits 10 n.natAbs

/-- Doubles of sixteen whole digits or fewer, and those from a hundred-thousandth upwards, are written
without an exponent. -/
def floatLayout : Decimal.Layout := ⟨-5, 15⟩

mutual

def Value.text : Value → List Char
  | .null => "null".toList
  | .bool true => "true".toList
  | .bool false => "false".toList
  | .int n => intText n
  | .float x => Decimal.text floatLayout x
  | .string s => quote s
  | .array items => '[' :: (itemsText items ++ [']'])
  | .object fields => '\x7b' :: (fieldsText fields ++ ['\x7d'])

def itemsText : List Value → List Char
  | [] => []
  | [v] => v.text
  | v :: w :: vs => v.text ++ ',' :: itemsText (w :: vs)

def fieldsText : List (String × Value) → List Char
  | [] => []
  | [(k, v)] => quote k ++ ':' :: v.text
  | (k, v) :: f :: fs => quote k ++ ':' :: (v.text ++ ',' :: fieldsText (f :: fs))

end

def Value.print (v : Value) : String := String.ofList v.text

mutual

/-- Equality, except that zeros of either sign are the same. -/
def Value.same : Value → Value → Bool
  | .null, .null => true
  | .bool a, .bool b => a == b
  | .int a, .int b => a == b
  | .float a, .float b => a == b || (a.magnitude.isZero && b.magnitude.isZero)
  | .string a, .string b => a == b
  | .array as, .array bs => itemsSame as bs
  | .object as, .object bs => fieldsSame as bs
  | _, _ => false

def itemsSame : List Value → List Value → Bool
  | [], [] => true
  | a :: as, b :: bs => a.same b && itemsSame as bs
  | _, _ => false

def fieldsSame : List (String × Value) → List (String × Value) → Bool
  | [], [] => true
  | (j, a) :: as, (k, b) :: bs => j == k && a.same b && fieldsSame as bs
  | _, _ => false

end

instance : BEq Value := ⟨Value.same⟩

end EventHub.Json
