import BeliefNet.Probability.Basic
import BeliefNet.Decimal.Text
import BeliefNet.Binary64.Basic

/-!
# From probabilities to decimals, doubles and text

* `Probability.toDecimal?` keeps 28 places and rounds what lies below them;
  there is no result for a number below all of them or above every decimal.
* `Probability.toBinary64` is the nearest double.
* `Probability.text` is the decimal if there is one, and otherwise the scaled
  form.
* `Decimal.toBinary64` is the double of a table entry.
-/

namespace BeliefNet

namespace Probability

/-- `d * 10 ^ exponent` as a decimal, if it is one. -/
def place? (d : Decimal) (exponent : Int) : Option Decimal :=
  let scale := d.scale - exponent
  if 0 ≤ scale then
    Decimal.ofParts? d.coefficient scale.toNat
  else if -scale ≤ Decimal.maxScale then
    Decimal.ofParts? (d.coefficient * tenPow (-scale).toNat) 0
  else
    none

/-- The number as a decimal. Places beyond the 28th are rounded, a half away
from zero. -/
def toDecimal? (p : Probability) : Option Decimal :=
  if p.isZero then
    some .zero
  else if p.mantissa.scale - p.exponent ≤ Decimal.maxScale then
    place? p.mantissa p.exponent
  else if p.exponent < -Decimal.maxScale then
    none
  else
    let places := (Decimal.maxScale + p.exponent).toNat
    place? (p.mantissa.round .awayFromZero places).trim p.exponent

/-- The nearest double. -/
def toBinary64 (p : Probability) : Binary64 :=
  if p.isZero then
    .zero
  else
    .ofScaled p.mantissa.negative p.mantissa.digits (p.exponent - p.mantissa.scale)

/-- The decimal, or the scaled form of a number that is none. -/
def text (p : Probability) : String :=
  match p.toDecimal? with
  | some d => d.text
  | none => p.mantissa.text ++ "e" ++ toString p.exponent

instance : ToString Probability := ⟨text⟩

end Probability

namespace Decimal

/-- The double of a decimal. A fraction is computed in doubles, as the sum of
its integer part and the quotient of its digits, and then rounded to the places
of the decimal. -/
def toBinary64 (d : Decimal) : Binary64 :=
  let n := d.digits
  let power := Binary64.nearest false (tenPow d.scale) 1
  let whole := Binary64.nearest false (n / tenPow d.scale) 1
  let fraction := (Binary64.nearest false (n % tenPow d.scale) 1).div power
  let magnitude :=
    if n % tenPow d.scale = 0 then
      whole
    else
      ((whole.add fraction).mul power).roundToInteger.div power
  Binary64.ofMagnitude d.negative magnitude.magnitude

end Decimal

end BeliefNet
