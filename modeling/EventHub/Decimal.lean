import EventHub.Binary64
set_option autoImplicit false

/-!
Decimal text of doubles: the fewest digits that round back to the double, of those the ones nearest to
it, laid out with a decimal point near the units and with an exponent far from them.
-/
namespace EventHub.Decimal

structure Scaled where
  digits : Nat
  exponent : Int
  deriving DecidableEq, Repr

def Scaled.toRatio (s : Scaled) : Nat × Nat :=
  match s.exponent with
  | .ofNat k => (s.digits * Nat.pow 10 k, 1)
  | .negSucc k => (s.digits, Nat.pow 10 (k + 1))

def ratioLt (a b : Nat × Nat) : Bool := decide (a.1 * b.2 < b.1 * a.2)

/-- The exponent of the first digit of a positive ratio. The estimate is off by one at most, because
`1233 / 4096` differs from the logarithm of two by less than one in two hundred thousand. -/
def leadingExponent (r : Nat × Nat) : Int :=
  let guess := (Magnitude.ratioLog2 r * 1233).fdiv 4096
  if ratioLt r (Scaled.toRatio ⟨1, guess⟩) then guess - 1
  else if ratioLt r (Scaled.toRatio ⟨1, guess + 1⟩) then guess
  else guess + 1

def gridFloor (r : Nat × Nat) : Int → Nat
  | .ofNat k => r.1 / (r.2 * Nat.pow 10 k)
  | .negSucc k => r.1 * Nat.pow 10 (k + 1) / r.2

/-- Whether a decimal rounds to the double; the ends of the interval do if the significand is even. -/
def roundsTo (m : Magnitude) (s : Scaled) : Bool :=
  let ends := m.roundingEnds
  let r := s.toRatio
  if m.significand % 2 = 0 then !ratioLt r ends.1 && !ratioLt ends.2 r
  else ratioLt ends.1 r && ratioLt r ends.2

/-- Whether the lower of two neighbours on a grid is nearer to the ratio; a tie goes to the even one. -/
def lowerIsNearer (r : Nat × Nat) (low : Scaled) : Bool :=
  let twice : Nat × Nat := (2 * r.1, r.2)
  let middle := Scaled.toRatio ⟨2 * low.digits + 1, low.exponent⟩
  ratioLt twice middle || (!ratioLt middle twice && low.digits % 2 == 0)

def onGrid? (m : Magnitude) (exponent : Int) : Option Scaled :=
  let r := m.toRatio
  let low : Scaled := ⟨gridFloor r exponent, exponent⟩
  let high : Scaled := ⟨low.digits + 1, exponent⟩
  match roundsTo m low, roundsTo m high with
  | true, true => some (if lowerIsNearer r low then low else high)
  | true, false => some low
  | false, true => some high
  | false, false => none

/-- The first grid that holds a hit, from one digit up to the seventeen that always suffice. -/
def shortest (m : Magnitude) : Scaled :=
  let lead := leadingExponent m.toRatio
  ((List.range 17).findSome? fun (n : Nat) => onGrid? m (lead - (n : Int))).getD ⟨0, 0⟩

def dropTrailingZeros (cs : List Char) : List Char :=
  (cs.reverse.dropWhile (· == '0')).reverse

structure Layout where
  plainFrom : Int
  plainTo : Int

def layDigits (l : Layout) (lead : Int) (digits : List Char) : List Char :=
  if l.plainFrom ≤ lead ∧ lead ≤ l.plainTo then
    match lead with
    | .ofNat k =>
      let whole := digits.take (k + 1)
      let part := digits.drop (k + 1)
      whole ++ List.replicate (k + 1 - whole.length) '0' ++ '.' :: (if part.isEmpty then ['0'] else part)
    | .negSucc k => '0' :: '.' :: (List.replicate k '0' ++ digits)
  else
    let fraction := digits.drop 1
    digits.take 1 ++ (if fraction.isEmpty then [] else '.' :: fraction)
      ++ 'e' :: (if lead < 0 then '-' else '+') :: Nat.toDigits 10 lead.natAbs

def magnitudeText (l : Layout) (m : Magnitude) : List Char :=
  if m.isZero then ['0', '.', '0']
  else
    let s := shortest m
    let digits := Nat.toDigits 10 s.digits
    layDigits l (s.exponent + (digits.length : Int) - 1) (dropTrailingZeros digits)

def text (l : Layout) (x : Binary64) : List Char :=
  if x.negative then '-' :: magnitudeText l x.magnitude else magnitudeText l x.magnitude

end EventHub.Decimal
