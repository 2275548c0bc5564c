import BeliefNet.Decimal.Text
import BeliefNet.Binary64.Shortest

/-!
# Doubles as text

Three forms are in use. The plain form of messages and answers never has an
exponent; the form of JSON documents has one for values that are very large or
very small, and marks integers as fractions; the form of tables has a fixed
number of places.

* `Binary64.text` is the plain form, `Binary64.document` that of documents;
  both are a `Layout` of the shortest digits.
* `Binary64.fixed` is the form of tables.
* `Binary64.parse?` reads a decimal literal as the nearest double.
-/

namespace BeliefNet.Binary64

/-- How shortest digits are laid out. -/
structure Layout where
  /-- Which of two equally near candidates is taken. -/
  tie : TieRule
  /-- Whether a value `0.d1 d2 ... * 10 ^ point` is written without an
  exponent. -/
  isPlain : Int → Bool
  /-- What follows an integer that is written without an exponent. -/
  integerTail : List Char

/-- Digits with the point in its place, and zeros up to it. -/
def Digits.plain (d : Digits) (integerTail : List Char) : List Char :=
  if d.point ≤ 0 then
    '0' :: '.' :: (List.replicate (-d.point).toNat '0' ++ d.digits)
  else if d.digits.length ≤ d.point.toNat then
    d.digits ++ List.replicate (d.point.toNat - d.digits.length) '0' ++ integerTail
  else
    d.digits.take d.point.toNat ++ '.' :: d.digits.drop d.point.toNat

/-- One digit before the point, and a signed exponent. -/
def Digits.scientific (d : Digits) : List Char :=
  let exponent := d.point - 1
  let fraction := match d.digits.drop 1 with
    | [] => []
    | rest => '.' :: rest
  d.digits.take 1 ++ fraction ++ 'e' :: (if exponent < 0 then '-' else '+') ::
    Nat.toDigits 10 exponent.natAbs

/-- A finite value in a layout. The sign of a zero is kept. -/
def Layout.write (layout : Layout) (x : Binary64) : String :=
  let sign := if x.isNegative then ['-'] else []
  let body :=
    if x.magnitude = 0 then
      '0' :: layout.integerTail
    else
      let digits := x.shortest layout.tie
      if layout.isPlain digits.point then digits.plain layout.integerTail else digits.scientific
  String.ofList (sign ++ body)

/-- The layout of messages and answers: no exponent, ties away from zero. -/
def plainLayout : Layout := ⟨.awayFromZero, fun _ => true, []⟩

/-- The layout of documents: an exponent from `1e+16` up and below `0.00001`,
ties to the even digit, and integers ending in `.0`. -/
def documentLayout : Layout :=
  ⟨.toEven, fun point => decide (-5 < point ∧ point ≤ 16), ['.', '0']⟩

/-- The text of a value that is not finite. -/
def specialText (x : Binary64) : String :=
  if x.isNaN then "NaN" else if x.isNegative then "-inf" else "inf"

/-- The plain form. -/
def text (x : Binary64) : String :=
  if x.isFinite then plainLayout.write x else x.specialText

instance : ToString Binary64 := ⟨text⟩

/-- The form in documents; only a finite value has one. -/
def document? (x : Binary64) : Option String :=
  if x.isFinite then some (documentLayout.write x) else none

/-- The exact value rounded to `places` places, a half to the even digit, with
the sign kept even where the rounded value is zero. -/
def fixed (x : Binary64) (places : Nat) : String :=
  if x.isFinite then
    let (num, den) := x.ratio
    let rounded := roundQuotient .toEven (num * tenPow places) den
    let sign := if x.isNegative then ['-'] else []
    let tail := if places = 0 then [] else
      '.' :: Decimal.paddedDigits places (rounded % tenPow places)
    String.ofList (sign ++ Nat.toDigits 10 (rounded / tenPow places) ++ tail)
  else
    x.specialText

/-- An exponent: an optional sign and digits. -/
def parseExponent? (s : List Char) : Option Int :=
  let digits (rest : List Char) : Option Nat :=
    if rest.isEmpty then none else
      rest.foldlM (fun n c => (Decimal.digit? c).map (n * 10 + ·)) 0
  match s with
  | '-' :: rest => (digits rest).map fun n => -(n : Int)
  | '+' :: rest => (digits rest).map fun n => (n : Int)
  | rest => (digits rest).map fun n => (n : Int)

/-- An unsigned decimal literal as `coefficient * 10 ^ exponent`. -/
def parseLiteral? (s : List Char) : Option (Nat × Int) :=
  let whole := s.takeWhile Char.isDigit
  let rest := s.dropWhile Char.isDigit
  let (fraction, rest) := match rest with
    | '.' :: rest => (rest.takeWhile Char.isDigit, rest.dropWhile Char.isDigit)
    | rest => ([], rest)
  let exponent? := match rest with
    | [] => some 0
    | c :: rest => if c = 'e' ∨ c = 'E' then parseExponent? rest else none
  if whole.isEmpty && fraction.isEmpty then
    none
  else
    exponent?.map fun exponent =>
      ((whole ++ fraction).foldl (fun n c => n * 10 + (c.toNat - '0'.toNat)) 0,
        exponent - fraction.length)

/-- Reads a decimal literal, or the text of a value that is not finite. -/
def parse? (s : String) : Option Binary64 :=
  let (negative, body) := match s.toList with
    | '-' :: rest => (true, rest)
    | '+' :: rest => (false, rest)
    | rest => (false, rest)
  if body = "inf".toList then
    some (infinity negative)
  else if body = "NaN".toList then
    some ⟨nan.bits ||| (if negative then 0x8000000000000000 else 0)⟩
  else
    (parseLiteral? body).map fun (coefficient, exponent) => ofScaled negative coefficient exponent

end BeliefNet.Binary64
