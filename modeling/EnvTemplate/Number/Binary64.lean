import EnvTemplate.Text

/-!
Double precision numbers as exact values.  A finite number is its sign, an integer of at most 53 bits
and a power of two; `ofDecimal` takes the number nearest to a decimal, and `shortest?` finds the
decimal with the fewest digits that is read back as the same number.
-/
namespace EnvTemplate

/-- A double precision number.  A finite one is the integer `mantissa` times two to the `exponent`. -/
inductive Binary64
  | nan
  | infinite (negative : Bool)
  | finite (negative : Bool) (mantissa : Nat) (exponent : Int)
  deriving DecidableEq

namespace Binary64

def minExponent : Int := -1074

def maxExponent : Int := 971

def mantissaBits : Nat := 52

def roundDiv (num den : Nat) : Nat :=
  let quotient := num / den
  let rest := num % den
  if 2 * rest < den then quotient
  else if den < 2 * rest then quotient + 1
  else quotient + quotient % 2

def scaledRound (num den : Nat) (exponent : Int) : Nat :=
  roundDiv (num * Nat.pow 2 (-exponent).toNat) (den * Nat.pow 2 exponent.toNat)

/-- The finite number nearest to a positive quotient, or an infinity beyond the largest. -/
def ofQuotient (negative : Bool) (num den : Nat) : Binary64 :=
  let top := (num.log2 : Int) - den.log2 - mantissaBits
  let isSmall := num * Nat.pow 2 (-top).toNat < den * Nat.pow 2 (top.toNat + mantissaBits)
  let exponent := max minExponent (if isSmall then top - 1 else top)
  let mantissa := scaledRound num den exponent
  let (mantissa, exponent) :=
    if mantissa = Nat.pow 2 (mantissaBits + 1) then (Nat.pow 2 mantissaBits, exponent + 1)
    else (mantissa, exponent)
  if maxExponent < exponent then infinite negative else finite negative mantissa exponent

/-- The number nearest to `digits * 10 ^ exponent`.  Decimals of more than 400 places on either side
of the point are beyond the largest or below the smallest number. -/
def ofDecimal (negative : Bool) (digits : Nat) (exponent : Int) : Binary64 :=
  let magnitude := (Nat.toDigits 10 digits).length + exponent
  if digits = 0 ∨ magnitude < -400 then finite negative 0 minExponent
  else if 400 < magnitude then infinite negative
  else ofQuotient negative (digits * Nat.pow 10 exponent.toNat) (Nat.pow 10 (-exponent).toNat)

/-- A positive finite number and the bounds of what rounds to it, all three over `unit`, which is a
quarter of the weight of the mantissa's last bit.  The bounds belong to it when `closed` holds. -/
structure Neighbourhood where
  value : Nat
  low : Nat
  high : Nat
  /-- The exponent of two of the unit. -/
  unit : Int
  closed : Bool

/-- The neighbourhood of a mantissa and an exponent.  Below a power of two the numbers are twice as
dense. -/
def neighbourhood (mantissa : Nat) (exponent : Int) : Neighbourhood where
  value := 4 * mantissa
  low := 4 * mantissa - if mantissa = Nat.pow 2 mantissaBits ∧ minExponent < exponent then 1 else 2
  high := 4 * mantissa + 2
  unit := exponent - 2
  closed := mantissa % 2 == 0

namespace Neighbourhood

/-- The multiple of ten to the `place` nearest to a value among those read back as it, the greater
of two equally near ones. -/
def onGrid? (n : Neighbourhood) (place : Int) : Option Nat :=
  let scale := Nat.pow 2 n.unit.toNat * Nat.pow 10 (-place).toNat
  let step := Nat.pow 2 (-n.unit).toNat * Nat.pow 10 place.toNat
  let value := n.value * scale
  let within (k : Nat) : Bool :=
    if n.closed then n.low * scale ≤ k * step && k * step ≤ n.high * scale
    else n.low * scale < k * step && k * step < n.high * scale
  let below := value / step
  let isBelow := within below
  let isAbove := within (below + 1)
  if isBelow && isAbove then
    some (if value - below * step < (below + 1) * step - value then below else below + 1)
  else if isBelow then some below
  else if isAbove then some (below + 1)
  else none

def topPlace : Nat := 309

/-- The decimal with the fewest digits that reads back as a value: an integer and the place of its
last digit. -/
def shortest? (n : Neighbourhood) : Option (Nat × Int) :=
  (List.range (2 * topPlace + 40)).findSome? fun (i : Nat) =>
    let place : Int := (topPlace : Int) - i
    (n.onGrid? place).map (·, place)

end Neighbourhood

/-- The digits of an integer with a decimal point before the last `-place` of them, or followed by
`place` zeros. -/
def positional (digits : Nat) (place : Int) : Text :=
  let text := Nat.toDigits 10 digits
  if 0 ≤ place then text ++ List.replicate place.toNat '0'
  else
    let fraction := (-place).toNat
    if fraction < text.length then
      text.take (text.length - fraction) ++ '.' :: text.drop (text.length - fraction)
    else '0' :: '.' :: (List.replicate (fraction - text.length) '0' ++ text)

/-- The text of a number: the fewest digits that read back, never with an exponent. -/
def text : Binary64 → Text
  | nan => ['N', 'a', 'N']
  | infinite negative => (if negative then ['-'] else []) ++ ['i', 'n', 'f']
  | finite negative mantissa exponent =>
    let (digits, place) :=
      if mantissa = 0 then (0, 0)
      else (neighbourhood mantissa exponent).shortest?.getD (mantissa, exponent)
    (if negative then ['-'] else []) ++ positional digits place

end Binary64
end EnvTemplate
