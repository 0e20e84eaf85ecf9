import Famicom.Number.Binary

/-!
# Decimal numerals

Reads the decimal notation of a number and rounds it correctly to a binary format. A numeral is an
optional sign followed by digits with at most one point among them and an optional exponent; at
least one digit is needed before the exponent, and one in it. The words `inf`, `infinity` and `nan`
stand for themselves in any case of letters.

The classes of characters here are ASCII only: no other digit or letter occurs in a numeral.
-/

namespace Famicom.Number

/-- The value of a run of decimal digits, read after `start`. -/
def ofDigits (start : Nat) (digits : List Char) : Nat :=
  digits.foldl (fun n c ↦ 10 * n + (c.toNat - '0'.toNat)) start

/-- The longest run of digits at the front, and the rest. -/
def spanDigits (cs : List Char) : List Char × List Char := cs.span Char.isDigit

/-- The sign in front of a numeral, `true` for minus, and the rest. -/
def spanSign : List Char → Bool × List Char
  | '-' :: cs => (true, cs)
  | '+' :: cs => (false, cs)
  | cs => (false, cs)

/-- A run of digits that is the whole of the text, and not empty. -/
def natural? (cs : List Char) : Option Nat :=
  if cs.isEmpty || !cs.all Char.isDigit then none else some (ofDigits 0 cs)

/-- A whole number with an optional sign. -/
def integer? (cs : List Char) : Option Int :=
  let (negative, digits) := spanSign cs
  (natural? digits).map fun n ↦ if negative then -(n : Int) else n

/-- A whole number that may have a plus sign, but no minus sign. -/
def unsigned? : List Char → Option Nat
  | '+' :: digits => natural? digits
  | digits => natural? digits

/-- The exponent at the end of a numeral: nothing, or `e` and a whole number. -/
def exponent? : List Char → Option Int
  | [] => some 0
  | c :: cs => if c = 'e' || c = 'E' then integer? cs else none

/-- The decimal magnitude `significand · 10 ^ exponent`. -/
structure Decimal where
  significand : Nat
  exponent : Int
  deriving DecidableEq, Repr

/-- Reads an unsigned numeral. -/
def Decimal.parse? (cs : List Char) : Option Decimal :=
  let (whole, rest) := spanDigits cs
  let (part, rest) := match rest with
    | '.' :: rest => spanDigits rest
    | rest => ([], rest)
  if whole.isEmpty && part.isEmpty then none
  else (exponent? rest).map fun e ↦ ⟨ofDigits (ofDigits 0 whole) part, e - part.length⟩

/-- No format of eight bytes or less holds a finite nonzero value outside `10 ^ ±400`. -/
def Decimal.reach : Int := 400

/-- The bits of the nearest value of a binary format. -/
def Decimal.encode (f : BinaryFormat) (x : Decimal) : Nat :=
  let size : Int := (Nat.toDigits 10 x.significand).length + x.exponent
  if x.significand = 0 || size < -reach then 0
  else if reach < size then f.infinity
  else if 0 ≤ x.exponent then f.encode (x.significand * Nat.pow 10 x.exponent.toNat) 1
  else f.encode x.significand (Nat.pow 10 (-x.exponent).toNat)

/-- Reads a numeral or one of the words for special values, and gives its bits. -/
def BinaryFormat.parse? (f : BinaryFormat) (text : String) : Option Nat :=
  let (negative, cs) := spanSign text.toList
  let magnitude? :=
    match String.ofList (cs.map Char.toLower) with
    | "inf" | "infinity" => some f.infinity
    | "nan" => some f.notANumber
    | _ => (Decimal.parse? cs).map (Decimal.encode f)
  magnitude?.map fun bits ↦ if negative then f.signBit + bits else bits

end Famicom.Number
