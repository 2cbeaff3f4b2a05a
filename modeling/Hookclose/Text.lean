import Mathlib.Data.List.Basic

/-!
Text as the interpreter treats it: white space, `strip`, `repr`, and the integers
that `int` reads.
-/
namespace Hookclose.Text

/-- `str.isspace` of one character. -/
def isSpace (c : Char) : Bool :=
  let n := c.toNat
  (9 ≤ n && n ≤ 13) || (28 ≤ n && n ≤ 32) || n = 0x85 || n = 0xA0 || n = 0x1680 || (0x2000 ≤ n && n ≤ 0x200A)
    || n = 0x2028 || n = 0x2029 || n = 0x202F || n = 0x205F || n = 0x3000

/-- `str.strip` on the characters of a text. -/
def strip (text : List Char) : List Char :=
  ((text.dropWhile isSpace).reverse.dropWhile isSpace).reverse

/-- The two hexadecimal digits of a control character. -/
def hexPair (n : Nat) : List Char := [Nat.digitChar (n / 16),Nat.digitChar (n % 16)]

/-- One character inside the quotes of a `repr`. -/
def reprChar (quote : Char) (c : Char) : List Char :=
  if c = quote ∨ c = '\\' then ['\\',c]
  else if c = '\n' then ['\\','n']
  else if c = '\r' then ['\\','r']
  else if c = '\t' then ['\\','t']
  else if c.toNat < 32 ∨ c.toNat = 127 then ['\\','x'] ++ hexPair c.toNat
  else [c]

/-- `repr` of a string of printable characters and ASCII controls: single quotes,
    unless the text has a single quote and no double one. -/
def repr (text : String) : String :=
  let quote := if text.toList.contains '\'' && !text.toList.contains '"' then '"' else '\''
  String.ofList ([quote] ++ text.toList.flatMap (reprChar quote) ++ [quote])

/-! ### Integers -/

/-- The characters that stand for zero; nine more digits follow each. -/
def decimalZeros : List Nat :=
  [0x30,0x660,0x6F0,0x7C0,0x966,0x9E6,0xA66,0xAE6,0xB66,0xBE6,0xC66,0xCE6,0xD66,0xDE6,0xE50,0xED0,0xF20,0x1040,0x1090,
   0x17E0,0x1810,0x1946,0x19D0,0x1A80,0x1A90,0x1B50,0x1BB0,0x1C40,0x1C50,0xA620,0xA8D0,0xA900,0xA9D0,0xA9F0,0xAA50,
   0xABF0,0xFF10,0x104A0,0x10D30,0x11066,0x110F0,0x11136,0x111D0,0x112F0,0x11450,0x114D0,0x11650,0x116C0,0x11730,
   0x118E0,0x11950,0x11C50,0x11D50,0x11DA0,0x16A60,0x16AC0,0x16B50,0x1D7CE,0x1D7D8,0x1D7E2,0x1D7EC,0x1D7F6,0x1E140,
   0x1E2F0,0x1E950,0x1FBF0]

/-- `unicodedata.decimal` of one character. -/
def decimal (c : Char) : Option Nat :=
  (decimalZeros.find? (fun first => first ≤ c.toNat && c.toNat ≤ first + 9)).map (fun first => c.toNat - first)

/-- The rest of a numeral that has a digit so far; underscores stand between digits. -/
def numeralFrom (value : Nat) : List Char → Option Nat
  | [] => some value
  | '_' :: c :: rest =>
    match decimal c with
    | some digit => numeralFrom (10 * value + digit) rest
    | none => none
  | c :: rest =>
    match decimal c with
    | some digit => numeralFrom (10 * value + digit) rest
    | none => none

def numeral : List Char → Option Nat
  | [] => none
  | c :: rest =>
    match decimal c with
    | some digit => numeralFrom digit rest
    | none => none

/-- The white space that `int` skips: not the four information separators. -/
def isNumeralSpace (c : Char) : Bool := isSpace c && !(28 ≤ c.toNat && c.toNat ≤ 31)

/-- `int` of a string, of any number of digits. -/
def parseInt (text : String) : Option Int :=
  match ((text.toList.dropWhile isNumeralSpace).reverse.dropWhile isNumeralSpace).reverse with
  | '+' :: rest => (numeral rest).map Int.ofNat
  | '-' :: rest => (numeral rest).map (fun n => -Int.ofNat n)
  | rest => (numeral rest).map Int.ofNat

end Hookclose.Text
