import Hookclose.Dictionaries
import Hookclose.Text
import Mathlib.Data.Rat.Floor

/-!
The dynamic values of a payload: what JSON can hold, as Python objects. A
dictionary is the list of its entries in insertion order.
-/
namespace Hookclose

/-- The value of a float. -/
inductive FloatValue
  | finite (value : ℚ)
  | infinite (negative : Bool)
  | nan

/-- A payload value; a float comes with its `repr`. -/
inductive Json
  | null
  | bool (value : Bool)
  | int (value : Int)
  | float (text : String) (value : FloatValue)
  | str (value : String)
  | list (items : List Json)
  | dict (entries : List (String × Json))

abbrev Dict := List (String × Json)

namespace Json

/-! ### Conversions -/

mutual

/-- `repr` of a value. -/
def repr : Json → String
  | .null => "None"
  | .bool true => "True"
  | .bool false => "False"
  | .int value => toString value
  | .float text _ => text
  | .str value => Text.repr value
  | .list items => "[" ++ ", ".intercalate (reprItems items) ++ "]"
  | .dict entries => "\x7b" ++ ", ".intercalate (reprEntries entries) ++ "\x7d"

def reprItems : List Json → List String
  | [] => []
  | item :: rest => repr item :: reprItems rest

def reprEntries : List (String × Json) → List String
  | [] => []
  | (key,value) :: rest => (Text.repr key ++ ": " ++ repr value) :: reprEntries rest

end

/-- `str` of a value. -/
def toText : Json → String
  | .str value => value
  | other => repr other

/-- The exceptions of `int`. -/
inductive ConversionError
  | valueError
  | typeError
  | overflowError
  deriving DecidableEq, Repr

/-- What `json.loads` raises: on text that is no JSON, and on nesting that is too deep. -/
inductive DecodeError
  | valueError
  | recursionError
  deriving DecidableEq, Repr

/-- `int` of a value; a float is cut off toward zero. -/
def toInt : Json → Except ConversionError Int
  | .bool value => .ok (if value then 1 else 0)
  | .int value => .ok value
  | .float _ (.finite value) => .ok (if value < 0 then ⌈value⌉ else ⌊value⌋)
  | .float _ (.infinite _) => .error .overflowError
  | .float _ .nan => .error .valueError
  | .str value =>
    match Text.parseInt value with
    | some n => .ok n
    | none => .error .valueError
  | .null => .error .typeError
  | .list _ => .error .typeError
  | .dict _ => .error .typeError

end Json

end Hookclose
