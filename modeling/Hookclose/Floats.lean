import Hookclose.Json
import Hookclose.Doubles

/-!
What `float` makes of a payload value: the double nearest to an integer or a decimal
numeral, infinities and NaN by name.
-/
namespace Hookclose.Floats

deriving instance DecidableEq for FloatValue

/-- The double nearest to a value, or an infinity where that is beyond the largest. -/
@[irreducible] def nearest (x : ℚ) : FloatValue :=
  if |Doubles.double x| < 2 ^ 1024 then .finite (Doubles.double x) else .infinite (x < 0)

/-! ### Numerals -/

/-- The digits that a text begins with, underscores between them left out, after a number
    of `count` digits. -/
def digitRun (value count : Nat) : List Char → Nat × Nat × List Char
  | [] => (value,count,[])
  | '_' :: c :: rest =>
    match Text.decimal c with
    | some digit => if count = 0 then (value,count,'_' :: c :: rest) else digitRun (10 * value + digit) (count + 1) rest
    | none => (value,count,'_' :: c :: rest)
  | c :: rest =>
    match Text.decimal c with
    | some digit => digitRun (10 * value + digit) (count + 1) rest
    | none => (value,count,c :: rest)

/-- An exponent that is all that is left. -/
def parseExponent : List Char → Option Int
  | [] => some 0
  | mark :: rest =>
    if mark = 'e' ∨ mark = 'E' then
      match rest with
      | '+' :: digits => closed (digitRun 0 0 digits)
      | '-' :: digits => (closed (digitRun 0 0 digits)).map (fun n => -n)
      | digits => closed (digitRun 0 0 digits)
    else none
where
  closed : Nat × Nat × List Char → Option Int
    | (value,count,rest) => if count ≠ 0 ∧ rest = [] then some value else none

/-- The value of an unsigned numeral. -/
def parseDecimal (text : List Char) : Option ℚ :=
  let (whole,digits,rest) := digitRun 0 0 text
  match rest with
  | '.' :: rest =>
    let (value,places,rest) := digitRun 0 0 rest
    if digits + places = 0 then none
    else (parseExponent rest).map (fun power => (whole + value / (10 : ℚ) ^ places) * (10 : ℚ) ^ power)
  | rest => if digits = 0 then none else (parseExponent rest).map (fun power => whole * (10 : ℚ) ^ power)

/-- A number without its sign. -/
def parseUnsigned (negative : Bool) (text : List Char) : Option FloatValue :=
  let name := String.ofList (text.map Char.toLower)
  if name = "inf" ∨ name = "infinity" then some (.infinite negative)
  else if name = "nan" then some .nan
  else (parseDecimal text).map (fun value => nearest (if negative then -value else value))

/-- `float` of a string. -/
def parse (text : String) : Option FloatValue :=
  match ((text.toList.dropWhile Text.isNumeralSpace).reverse.dropWhile Text.isNumeralSpace).reverse with
  | '+' :: rest => parseUnsigned false rest
  | '-' :: rest => parseUnsigned true rest
  | rest => parseUnsigned false rest

example : parse " -1_0.5e1 " = some (.finite (-105)) := by decide +kernel

example : parse "1__0" = none ∧ parse "soon" = none := by decide +kernel

end Hookclose.Floats
