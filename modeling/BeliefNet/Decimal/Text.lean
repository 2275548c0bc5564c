import BeliefNet.Decimal.Basic

/-!
# Decimals as text

A decimal is written in plain notation with exactly as many places as its
scale. Reading takes an optional sign, digits and an optional point, and
rounds a fraction that is longer than a decimal has room for. An exponent may
follow, which moves the point of the decimal that has been read.

* `Decimal.text` writes.
* `Decimal.parse?` reads; `Decimal.parsePlain?` does without an exponent.
* `Reader` is the state of the pass over the digits.
-/

namespace BeliefNet.Decimal

/-- `digits` digits of `n`, with zeros in front. -/
def paddedDigits (digits n : Nat) : List Char :=
  (Nat.toDigits 10 n).leftpad digits '0'

/-- Plain notation: a sign if negative, the integer part, and the fraction
with its zeros. -/
def text (d : Decimal) : String :=
  let whole := d.digits / tenPow d.scale
  let fraction := d.digits % tenPow d.scale
  let sign := if d.negative then ['-'] else []
  let tail := if d.scale = 0 then [] else '.' :: paddedDigits d.scale fraction
  String.ofList (sign ++ Nat.toDigits 10 whole ++ tail)

instance : ToString Decimal := ⟨text⟩

/-- The value of a decimal digit. -/
def digit? (c : Char) : Option Nat :=
  if c.isDigit then some (c.toNat - '0'.toNat) else none

/-- What has been read of an unsigned decimal. -/
structure Reader where
  /-- The digits so far, as one number. -/
  digits : Nat := 0
  /-- How many of them stand after the point. -/
  scale : Nat := 0
  /-- The point has been read. -/
  afterPoint : Bool := false
  /-- A digit has been read. -/
  hasDigit : Bool := false

namespace Reader

/-- The parts of the number with the first digit that has no room, `digit`,
rounded in. A carry out of 96 bits gives up one place; an integer has none to
give up. -/
def rounded (r : Reader) (digit : Nat) : Option (Nat × Nat) :=
  if digit < 5 then
    some (r.digits, r.scale)
  else if r.digits + 1 < twoPow 96 then
    some (r.digits + 1, r.scale)
  else if r.scale = 0 then
    none
  else
    some ((r.digits + 5) / 10, r.scale - 1)

/-- Digits that are not rounded in may follow, and underscores. -/
def isIgnorable (rest : List Char) : Bool :=
  rest.all fun c => c.isDigit || c == '_'

/-- The least value of the digits without the last one at which underscores
behind the last place are skipped: 64 bits have no room for a digit more, 255
being left as a margin. -/
def wideDigits : Nat := (twoPow 64 - 1) / 10 - 255

/-- The first digit behind the last place. Underscores before it are skipped in
a wide number; in others one that stands there counts as the digit 0. -/
def nextDigit (r : Reader) (rest : List Char) : Nat :=
  let unread := if wideDigits ≤ r.digits / 10 then rest.dropWhile (· == '_') else rest
  (unread.head?.bind digit?).getD 0

/-- Reads on: digits while they have room, one point, and underscores after
the first digit, which are skipped. The first decimal digit that has no room is
rounded in. -/
def run (r : Reader) : List Char → Option (Nat × Nat)
  | [] => if r.hasDigit then some (r.digits, r.scale) else none
  | c :: rest =>
    if r.scale = maxScale then
      if isIgnorable (c :: rest) then r.rounded (r.nextDigit (c :: rest)) else none
    else
      match digit? c with
      | some digit =>
        if r.digits * 10 + digit < twoPow 96 then
          run { r with
            digits := r.digits * 10 + digit
            scale := if r.afterPoint then r.scale + 1 else r.scale
            hasDigit := true } rest
        else if r.afterPoint && isIgnorable rest then
          r.rounded digit
        else
          none
      | none =>
        if c = '.' ∧ r.afterPoint = false then
          run { r with afterPoint := true } rest
        else if c = '_' ∧ r.hasDigit = true then
          run r rest
        else
          none

end Reader

/-- Reads a decimal in plain notation; a zero has no sign. -/
def parsePlain? : List Char → Option Decimal
  | '-' :: rest => (Reader.run {} rest).bind fun (n, scale) => ofParts? (-(n : Int)) scale
  | '+' :: rest => (Reader.run {} rest).bind fun (n, scale) => ofParts? n scale
  | rest => (Reader.run {} rest).bind fun (n, scale) => ofParts? n scale

/-- Reads digits, at least one, behind an optional plus sign. -/
def parseCount? (s : List Char) : Option Nat :=
  let digits := match s with
    | '+' :: rest => rest
    | rest => rest
  if digits.isEmpty then none else digits.foldlM (fun n c => (digit? c).map (n * 10 + ·)) 0

/-- Moves the point by the number of places that an exponent says. -/
def applyExponent? (d : Decimal) : List Char → Option Decimal
  | '-' :: rest => (parseCount? rest).bind d.shiftRight?
  | rest => (parseCount? rest).bind d.shiftLeft?

/-- The letter before an exponent. -/
def isExponentMark (c : Char) : Bool := c == 'e' || c == 'E'

/-- Reads a decimal in plain or in scientific notation. -/
def parse? (s : String) : Option Decimal :=
  let plain := s.toList.takeWhile (!isExponentMark ·)
  match s.toList.dropWhile (!isExponentMark ·) with
  | [] => parsePlain? plain
  | _ :: exponent => (parsePlain? plain).bind (·.applyExponent? exponent)

end BeliefNet.Decimal
