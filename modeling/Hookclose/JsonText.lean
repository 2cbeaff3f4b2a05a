import Hookclose.Json
import Hookclose.Dictionaries
import Mathlib.Data.List.Basic
import Mathlib.Data.List.Sort
import Mathlib.Data.List.TakeWhile

/-!
JSON text, as the `json` module of the interpreter writes and reads it: `dumps` with its
default arguments, and `loads`. What is written is read back as it was. How a numeral
with a fraction or an exponent is read is a parameter, `float`: the `repr` and the value
of the float that the interpreter makes of it. A text of this model has no lone
surrogates, so an escape that names one is not read.
-/
namespace Hookclose.JsonText
open Hookclose.Dictionaries (dictOf dictOf_distinct)

/-! ### Writing -/

/-- The four hexadecimal digits of a code unit. -/
def hexQuad (n : Nat) : List Char :=
  [Nat.digitChar (n / 4096 % 16),Nat.digitChar (n / 256 % 16),Nat.digitChar (n / 16 % 16),Nat.digitChar (n % 16)]

def unicodeEscape (n : Nat) : List Char := ['\\','u'] ++ hexQuad n

/-- One character inside the quotes: ASCII only, with a pair of surrogates for what lies
    above the first plane. -/
def escape (c : Char) : List Char :=
  if c = '\\' then ['\\','\\']
  else if c = '"' then ['\\','"']
  else if c = '\n' then ['\\','n']
  else if c = '\r' then ['\\','r']
  else if c = '\t' then ['\\','t']
  else if c.toNat = 12 then ['\\','f']
  else if c.toNat = 8 then ['\\','b']
  else if 32 ≤ c.toNat ∧ c.toNat ≤ 126 then [c]
  else if c.toNat < 0x10000 then unicodeEscape c.toNat
  else unicodeEscape (0xD800 + (c.toNat - 0x10000) / 1024) ++ unicodeEscape (0xDC00 + (c.toNat - 0x10000) % 1024)

def encodeString (text : List Char) : List Char := ['"'] ++ text.flatMap escape ++ ['"']

def floatText (text : String) : FloatValue → String
  | .finite _ => text
  | .infinite false => "Infinity"
  | .infinite true => "-Infinity"
  | .nan => "NaN"

mutual

def encode : Json → List Char
  | .null => "null".toList
  | .bool value => if value then "true".toList else "false".toList
  | .int value => (toString value).toList
  | .float text value => (floatText text value).toList
  | .str value => encodeString value.toList
  | .list items => ['['] ++ encodeItems items ++ [']']
  | .dict entries => ['\x7b'] ++ encodeEntries entries ++ ['\x7d']

def encodeItems : List Json → List Char
  | [] => []
  | [item] => encode item
  | item :: next :: rest => encode item ++ [',',' '] ++ encodeItems (next :: rest)

def encodeEntries : List (String × Json) → List Char
  | [] => []
  | [(key,value)] => encodeString key.toList ++ [':',' '] ++ encode value
  | (key,value) :: next :: rest =>
    encodeString key.toList ++ [':',' '] ++ encode value ++ [',',' '] ++ encodeEntries (next :: rest)

end

/-- `json.dumps` of a value. -/
def dumps (value : Json) : String := String.ofList (encode value)

/-- The white space of a container at each depth: after the opening bracket, after a comma
    and before the closing bracket. -/
structure Layout where
  opening : Nat → List Char
  gap : Nat → List Char
  closing : Nat → List Char

def compact : Layout := ⟨fun _ => [],fun _ => [' '],fun _ => []⟩

/-- `indent`: every item on a line of its own. -/
def indented (width : Nat) : Layout where
  opening depth := '\n' :: List.replicate (width * (depth + 1)) ' '
  gap depth := '\n' :: List.replicate (width * (depth + 1)) ' '
  closing depth := '\n' :: List.replicate (width * depth) ' '

mutual

def encodeWith (layout : Layout) (depth : Nat) : Json → List Char
  | .list items =>
    if items.isEmpty then ['[',']']
    else ['['] ++ layout.opening depth ++ encodeItemsWith layout depth items ++ layout.closing depth ++ [']']
  | .dict entries =>
    if entries.isEmpty then ['\x7b','\x7d']
    else ['\x7b'] ++ layout.opening depth ++ encodeEntriesWith layout depth entries ++ layout.closing depth ++ ['\x7d']
  | other => encode other

def encodeItemsWith (layout : Layout) (depth : Nat) : List Json → List Char
  | [] => []
  | [item] => encodeWith layout (depth + 1) item
  | item :: next :: rest =>
    encodeWith layout (depth + 1) item ++ [','] ++ layout.gap depth ++ encodeItemsWith layout depth (next :: rest)

def encodeEntriesWith (layout : Layout) (depth : Nat) : List (String × Json) → List Char
  | [] => []
  | [(key,value)] => encodeString key.toList ++ [':',' '] ++ encodeWith layout (depth + 1) value
  | (key,value) :: next :: rest =>
    encodeString key.toList ++ [':',' '] ++ encodeWith layout (depth + 1) value ++ [','] ++ layout.gap depth ++
      encodeEntriesWith layout depth (next :: rest)

end

mutual

/-- A value with the entries of its dictionaries in the order of their keys. -/
def sorted : Json → Json
  | .list items => .list (sortedItems items)
  | .dict entries => .dict ((sortedEntries entries).insertionSort (fun first second => first.1 ≤ second.1))
  | other => other

def sortedItems : List Json → List Json
  | [] => []
  | item :: rest => sorted item :: sortedItems rest

def sortedEntries : List (String × Json) → List (String × Json)
  | [] => []
  | (key,value) :: rest => (key,sorted value) :: sortedEntries rest

end

/-- `json.dumps` with `indent` and `sort_keys`. -/
def dumpsSorted (width : Nat) (value : Json) : String := String.ofList (encodeWith (indented width) 0 (sorted value))

/-! ### Reading -/

def isSpace (c : Char) : Bool := c = ' ' || c = '\t' || c = '\n' || c = '\r'

def skip (text : List Char) : List Char := text.dropWhile isSpace

def hexValue (c : Char) : Option Nat :=
  if '0' ≤ c ∧ c ≤ '9' then some (c.toNat - '0'.toNat)
  else if 'a' ≤ c ∧ c ≤ 'f' then some (c.toNat - 'a'.toNat + 10)
  else if 'A' ≤ c ∧ c ≤ 'F' then some (c.toNat - 'A'.toNat + 10)
  else none

/-- The code unit after an escape's `u`. -/
def scanHex : List Char → Option (Nat × List Char)
  | a :: b :: c :: d :: rest =>
    match hexValue a, hexValue b, hexValue c, hexValue d with
    | some a, some b, some c, some d => some (4096 * a + 256 * b + 16 * c + d,rest)
    | _, _, _, _ => none
  | _ => none

/-- The character that a code unit begins; two surrogates make one. -/
def scanUnit (n : Nat) (text : List Char) : Option (Char × List Char) :=
  if 0xD800 ≤ n ∧ n < 0xDC00 then
    match text with
    | '\\' :: 'u' :: rest =>
      match scanHex rest with
      | some (low,rest) =>
        if 0xDC00 ≤ low ∧ low < 0xE000 then
          some (Char.ofNat (0x10000 + (n - 0xD800) * 1024 + (low - 0xDC00)),rest)
        else none
      | none => none
    | _ => none
  else if 0xDC00 ≤ n ∧ n < 0xE000 then none
  else some (Char.ofNat n,text)

/-- The character after a backslash. -/
def scanEscape : List Char → Option (Char × List Char)
  | 'u' :: rest => (scanHex rest).bind (fun unit => scanUnit unit.1 unit.2)
  | '"' :: rest => some ('"',rest)
  | '\\' :: rest => some ('\\',rest)
  | '/' :: rest => some ('/',rest)
  | 'b' :: rest => some (Char.ofNat 8,rest)
  | 'f' :: rest => some (Char.ofNat 12,rest)
  | 'n' :: rest => some ('\n',rest)
  | 'r' :: rest => some ('\r',rest)
  | 't' :: rest => some ('\t',rest)
  | _ => none

/-- The characters up to the closing quote; control characters are not allowed. Every
    character takes one unit of fuel. -/
def scanChars : Nat → List Char → Option (List Char × List Char)
  | 0,_ => none
  | _ + 1,[] => none
  | fuel + 1,c :: rest =>
    if c = '"' then some ([],rest)
    else if c = '\\' then
      (scanEscape rest).bind (fun read => (scanChars fuel read.2).map (fun scanned => (read.1 :: scanned.1,scanned.2)))
    else if c.toNat < 32 then none
    else (scanChars fuel rest).map (fun scanned => (c :: scanned.1,scanned.2))

def scanString (text : List Char) : Option (String × List Char) :=
  (scanChars text.length text).map (fun scanned => (String.ofList scanned.1,scanned.2))

/-- The integer part of a numeral without its sign: no zero before another digit. -/
def scanUnsigned : List Char → Option (List Char × List Char)
  | c :: rest =>
    if c = '0' then some (['0'],rest)
    else if c.isDigit then some (c :: rest.takeWhile Char.isDigit,rest.dropWhile Char.isDigit)
    else none
  | [] => none

def scanInteger : List Char → Option (List Char × List Char)
  | '-' :: rest => (scanUnsigned rest).map (fun scanned => ('-' :: scanned.1,scanned.2))
  | text => scanUnsigned text

/-- At least one digit after what has been read, or nothing at all. -/
def scanDigits (read : List Char) (text rest : List Char) : List Char × List Char :=
  if rest.takeWhile Char.isDigit = [] then ([],text)
  else (read ++ rest.takeWhile Char.isDigit,rest.dropWhile Char.isDigit)

def scanFraction : List Char → List Char × List Char
  | '.' :: rest => scanDigits ['.'] ('.' :: rest) rest
  | text => ([],text)

def scanExponent : List Char → List Char × List Char
  | c :: rest =>
    if c = 'e' ∨ c = 'E' then
      match rest with
      | '+' :: digits => scanDigits [c,'+'] (c :: rest) digits
      | '-' :: digits => scanDigits [c,'-'] (c :: rest) digits
      | digits => scanDigits [c] (c :: rest) digits
    else ([],c :: rest)
  | [] => ([],[])

/-- A numeral: its integer part, its fraction with its exponent, and the rest. -/
def scanNumber (text : List Char) : Option ((List Char × List Char) × List Char) :=
  (scanInteger text).map (fun integer =>
    let fraction := scanFraction integer.2
    let exponent := scanExponent fraction.2
    ((integer.1,fraction.1 ++ exponent.1),exponent.2))

/-- The words that stand for a value. -/
def words : List (List Char × Json) :=
  [("null".toList,.null),("true".toList,.bool true),("false".toList,.bool false),("NaN".toList,.float "nan" .nan),
   ("Infinity".toList,.float "inf" (.infinite false)),("-Infinity".toList,.float "-inf" (.infinite true))]

def scanWord (text : List Char) : Option (Json × List Char) :=
  (words.find? (fun word => word.1.isPrefixOf text)).map (fun word => (word.2,text.drop word.1.length))

variable (float : String → String × FloatValue)

/-- A word or a numeral. -/
def scanPlain (text : List Char) : Option (Json × List Char) :=
  match scanNumber text with
  | some ((integer,[]),rest) => (Text.parseInt (String.ofList integer)).map (fun value => (.int value,rest))
  | some ((integer,part),rest) =>
    let read := float (String.ofList (integer ++ part))
    some (.float read.1 read.2,rest)
  | none => scanWord text

mutual

/-- The value at the beginning of a text. -/
def scanOnce : Nat → List Char → Option (Json × List Char)
  | 0,_ => none
  | _ + 1,[] => none
  | fuel + 1,c :: rest =>
    if c = '"' then (scanString rest).map (fun scanned => (.str scanned.1,scanned.2))
    else if c = '[' then
      match skip rest with
      | ']' :: after => some (.list [],after)
      | items => (scanItems fuel items).map (fun scanned => (.list scanned.1,scanned.2))
    else if c = '\x7b' then
      match skip rest with
      | '\x7d' :: after => some (.dict [],after)
      | '"' :: entries => (scanEntries fuel entries).map (fun scanned => (.dict (dictOf scanned.1),scanned.2))
      | _ => none
    else scanPlain float (c :: rest)

/-- The items up to the closing bracket. -/
def scanItems : Nat → List Char → Option (List Json × List Char)
  | 0,_ => none
  | fuel + 1,text =>
    match scanOnce fuel text with
    | none => none
    | some (item,rest) =>
      match skip rest with
      | ']' :: after => some ([item],after)
      | ',' :: more => (scanItems fuel (skip more)).map (fun scanned => (item :: scanned.1,scanned.2))
      | _ => none

/-- The entries up to the closing brace, from after the quote of the first key. -/
def scanEntries : Nat → List Char → Option (List (String × Json) × List Char)
  | 0,_ => none
  | fuel + 1,text =>
    match scanString text with
    | none => none
    | some (key,rest) =>
      match skip rest with
      | ':' :: after =>
        match scanOnce fuel (skip after) with
        | none => none
        | some (value,rest) =>
          match skip rest with
          | '\x7d' :: after => some ([(key,value)],after)
          | ',' :: more =>
            match skip more with
            | '"' :: next => (scanEntries fuel next).map (fun scanned => ((key,value) :: scanned.1,scanned.2))
            | _ => none
          | _ => none
      | _ => none

end

/-- `json.loads` of a text, nested and with integers as deep and as long as may be; `none`
    where it raises. -/
def loads (text : String) : Option Json :=
  if text.toList.head? = some (Char.ofNat 0xFEFF) then none
  else
    match scanOnce float (text.length + 1) (skip text.toList) with
    | some (value,rest) => if skip rest = [] then some value else none
    | none => none

/-! ### Strings are read back -/

theorem hexValue_digitChar : ∀ d < 16, hexValue (Nat.digitChar d) = some d := by decide

theorem scanHex_hexQuad {n : Nat} (bound : n < 0x10000) (rest : List Char) :
    scanHex (hexQuad n ++ rest) = some (n,rest) := by
  have first := hexValue_digitChar (n / 4096 % 16) (by omega)
  have second := hexValue_digitChar (n / 256 % 16) (by omega)
  have third := hexValue_digitChar (n / 16 % 16) (by omega)
  have fourth := hexValue_digitChar (n % 16) (by omega)
  have whole : 4096 * (n / 4096 % 16) + 256 * (n / 256 % 16) + 16 * (n / 16 % 16) + n % 16 = n := by omega
  simp [hexQuad,scanHex,first,second,third,fourth,whole]

theorem scanEscape_unicode {n : Nat} (bound : n < 0x10000) (rest : List Char) :
    scanEscape ('u' :: (hexQuad n ++ rest)) = scanUnit n rest := by
  simp [scanEscape,scanHex_hexQuad bound]

/-- A character is a surrogate of neither kind. -/
theorem toNat_cases (c : Char) : c.toNat < 0xD800 ∨ (0xDFFF < c.toNat ∧ c.toNat < 0x110000) := by
  have valid := c.valid
  simp only [UInt32.isValidChar,Nat.isValidChar] at valid
  exact valid

theorem scanUnit_plain {c : Char} (bound : c.toNat < 0x10000) (rest : List Char) :
    scanUnit c.toNat rest = some (c,rest) := by
  have range := toNat_cases c
  have high : ¬ (0xD800 ≤ c.toNat ∧ c.toNat < 0xDC00) := by omega
  have low : ¬ (0xDC00 ≤ c.toNat ∧ c.toNat < 0xE000) := by omega
  unfold scanUnit
  rw [if_neg high,if_neg low,Char.ofNat_toNat]

theorem scanUnit_pair {c : Char} (bound : 0x10000 ≤ c.toNat) (rest : List Char) :
    scanUnit (0xD800 + (c.toNat - 0x10000) / 1024)
      (unicodeEscape (0xDC00 + (c.toNat - 0x10000) % 1024) ++ rest) = some (c,rest) := by
  have range := toNat_cases c
  have high : 0xD800 ≤ 0xD800 + (c.toNat - 0x10000) / 1024 ∧ 0xD800 + (c.toNat - 0x10000) / 1024 < 0xDC00 := by omega
  have low : 0xDC00 ≤ 0xDC00 + (c.toNat - 0x10000) % 1024 ∧ 0xDC00 + (c.toNat - 0x10000) % 1024 < 0xE000 := by omega
  have scanned := @scanHex_hexQuad (0xDC00 + (c.toNat - 0x10000) % 1024) (by omega) rest
  have whole : 0x10000 + (0xD800 + (c.toNat - 0x10000) / 1024 - 0xD800) * 1024 +
      (0xDC00 + (c.toNat - 0x10000) % 1024 - 0xDC00) = c.toNat := by omega
  simp only [unicodeEscape,List.cons_append,List.nil_append]
  rw [scanUnit,if_pos high,scanned]
  simp only
  rw [if_pos low,whole,Char.ofNat_toNat]

theorem ofNat_of_toNat {c : Char} {n : Nat} (same : c.toNat = n) : Char.ofNat n = c := by
  rw [← same,Char.ofNat_toNat]

/-- The forms of an escaped character, and when each is taken. -/
inductive Escaped (c : Char) : List Char → Prop
  | backslash (same : c = '\\') : Escaped c ['\\','\\']
  | quote (same : c = '"') : Escaped c ['\\','"']
  | newline (same : c = '\n') : Escaped c ['\\','n']
  | carriage (same : c = '\r') : Escaped c ['\\','r']
  | tab (same : c = '\t') : Escaped c ['\\','t']
  | feed (same : c.toNat = 12) : Escaped c ['\\','f']
  | back (same : c.toNat = 8) : Escaped c ['\\','b']
  | plain (backslash : c ≠ '\\') (quote : c ≠ '"') (printable : 32 ≤ c.toNat) : Escaped c [c]
  | unit (plane : c.toNat < 0x10000) : Escaped c (unicodeEscape c.toNat)
  | pair (above : ¬ c.toNat < 0x10000) : Escaped c
      (unicodeEscape (0xD800 + (c.toNat - 0x10000) / 1024) ++ unicodeEscape (0xDC00 + (c.toNat - 0x10000) % 1024))

theorem escape_escaped (c : Char) : Escaped c (escape c) := by
  unfold escape
  by_cases backslash : c = '\\'
  · rw [if_pos backslash]
    exact .backslash backslash
  rw [if_neg backslash]
  by_cases quote : c = '"'
  · rw [if_pos quote]
    exact .quote quote
  rw [if_neg quote]
  by_cases newline : c = '\n'
  · rw [if_pos newline]
    exact .newline newline
  rw [if_neg newline]
  by_cases carriage : c = '\r'
  · rw [if_pos carriage]
    exact .carriage carriage
  rw [if_neg carriage]
  by_cases tab : c = '\t'
  · rw [if_pos tab]
    exact .tab tab
  rw [if_neg tab]
  by_cases feed : c.toNat = 12
  · rw [if_pos feed]
    exact .feed feed
  rw [if_neg feed]
  by_cases back : c.toNat = 8
  · rw [if_pos back]
    exact .back back
  rw [if_neg back]
  by_cases printable : 32 ≤ c.toNat ∧ c.toNat ≤ 126
  · rw [if_pos printable]
    exact .plain backslash quote printable.1
  rw [if_neg printable]
  by_cases plane : c.toNat < 0x10000
  · rw [if_pos plane]
    exact .unit plane
  · rw [if_neg plane]
    exact .pair plane

/-- An escaped character is read back, and costs one unit of fuel. -/
theorem scanChars_escape (fuel : Nat) (c : Char) (rest : List Char) :
    scanChars (fuel + 1) (escape c ++ rest) =
      (scanChars fuel rest).map (fun scanned => (c :: scanned.1,scanned.2)) := by
  have escaped := escape_escaped c
  generalize escape c = text at escaped
  cases escaped with
  | backslash same => simp [scanChars,scanEscape,same]
  | quote same => simp [scanChars,scanEscape,same]
  | newline same => simp [scanChars,scanEscape,same]
  | carriage same => simp [scanChars,scanEscape,same]
  | tab same => simp [scanChars,scanEscape,same]
  | feed same =>
    rw [← ofNat_of_toNat same]
    simp [scanChars,scanEscape]
  | back same =>
    rw [← ofNat_of_toNat same]
    simp [scanChars,scanEscape]
  | plain backslash quote printable =>
    have control : ¬ c.toNat < 32 := by omega
    simp [scanChars,quote,backslash,control]
  | unit plane => simp [scanChars,unicodeEscape,scanEscape_unicode plane,scanUnit_plain plane]
  | pair above =>
    have range := toNat_cases c
    have pair := @scanUnit_pair c (by omega) rest
    have first := @scanEscape_unicode (0xD800 + (c.toNat - 0x10000) / 1024) (by omega)
      (unicodeEscape (0xDC00 + (c.toNat - 0x10000) % 1024) ++ rest)
    rw [pair] at first
    rw [List.append_assoc]
    generalize unicodeEscape (0xDC00 + (c.toNat - 0x10000) % 1024) ++ rest = after at first
    simp [scanChars,unicodeEscape,first]

theorem scanChars_escaped (text : List Char) (rest : List Char) (fuel : Nat) (enough : text.length < fuel) :
    scanChars fuel (text.flatMap escape ++ '"' :: rest) = some (text,rest) := by
  induction text generalizing fuel with
  | nil =>
    obtain ⟨fuel,rfl⟩ := Nat.exists_eq_add_of_lt enough
    simp [scanChars]
  | cons c text ih =>
    cases fuel with
    | zero => simp at enough
    | succ fuel =>
      rw [List.flatMap_cons,List.append_assoc,scanChars_escape,ih fuel (by simpa using enough)]
      rfl

theorem escape_pos (c : Char) : 0 < (escape c).length := by
  have escaped := escape_escaped c
  generalize escape c = text at escaped
  cases escaped <;> simp [unicodeEscape]

theorem length_escaped (text : List Char) : text.length ≤ (text.flatMap escape).length := by
  induction text with
  | nil => simp
  | cons c text ih =>
    have first := escape_pos c
    simp only [List.length_cons,List.flatMap_cons,List.length_append]
    omega

/-- What stands between the quotes is read back. -/
theorem scanString_escaped (text : String) (rest : List Char) :
    scanString (text.toList.flatMap escape ++ '"' :: rest) = some (text,rest) := by
  have longer := length_escaped text.toList
  rw [scanString,scanChars_escaped]
  · simp
  · simp only [List.length_append,List.length_cons]
    omega

/-! ### Numerals are read back -/

/-- What may stand after a numeral without going on with it. -/
def Ends (rest : List Char) : Prop :=
  ∀ c ∈ rest.head?, c.isDigit = false ∧ c ≠ '.' ∧ c ≠ 'e' ∧ c ≠ 'E' ∧ c ≠ '+' ∧ c ≠ '-'

theorem ends_cons {c : Char} {rest : List Char} :
    Ends (c :: rest) ↔ c.isDigit = false ∧ c ≠ '.' ∧ c ≠ 'e' ∧ c ≠ 'E' ∧ c ≠ '+' ∧ c ≠ '-' := by
  simp [Ends]

theorem digits_append {rest : List Char} (ends : Ends rest) (text : List Char) :
    (text ++ rest).takeWhile Char.isDigit = text.takeWhile Char.isDigit ∧
      (text ++ rest).dropWhile Char.isDigit = text.dropWhile Char.isDigit ++ rest := by
  induction text with
  | nil =>
    cases rest with
    | nil => simp
    | cons c rest =>
      have plain := (ends_cons.mp ends).1
      simp [plain]
  | cons c text ih => by_cases digit : c.isDigit <;> simp [digit,ih]

theorem scanUnsigned_append {rest text integer after : List Char} (ends : Ends rest)
    (scanned : scanUnsigned text = some (integer,after)) : scanUnsigned (text ++ rest) = some (integer,after ++ rest) := by
  cases text with
  | nil => simp [scanUnsigned] at scanned
  | cons c text =>
    obtain ⟨taken,dropped⟩ := digits_append ends text
    simp only [scanUnsigned,List.cons_append,taken,dropped] at scanned ⊢
    split_ifs at scanned ⊢ <;> (cases scanned; rfl)

theorem scanDigits_append {rest : List Char} (ends : Ends rest) (read text digits : List Char) :
    scanDigits read (text ++ rest) (digits ++ rest) =
      ((scanDigits read text digits).1,(scanDigits read text digits).2 ++ rest) := by
  obtain ⟨taken,dropped⟩ := digits_append ends digits
  simp only [scanDigits,taken,dropped]
  split_ifs <;> rfl

theorem scanFraction_append {rest : List Char} (ends : Ends rest) (text : List Char) :
    scanFraction (text ++ rest) = ((scanFraction text).1,(scanFraction text).2 ++ rest) := by
  cases text with
  | nil =>
    cases rest with
    | nil => rfl
    | cons c rest =>
      have point := (ends_cons.mp ends).2.1
      simp [scanFraction,point]
  | cons c text =>
    by_cases point : c = '.'
    · subst point
      exact scanDigits_append ends ['.'] ('.' :: text) text
    · simp [scanFraction,point]

theorem scanExponent_append {rest : List Char} (ends : Ends rest) (text : List Char) :
    scanExponent (text ++ rest) = ((scanExponent text).1,(scanExponent text).2 ++ rest) := by
  cases text with
  | nil =>
    cases rest with
    | nil => rfl
    | cons c rest =>
      obtain ⟨_,_,small,large,_⟩ := ends_cons.mp ends
      simp [scanExponent,small,large]
  | cons c text =>
    by_cases letter : c = 'e' ∨ c = 'E'
    · cases text with
      | nil =>
        cases rest with
        | nil => simp [scanExponent,letter]
        | cons d rest =>
          obtain ⟨_,_,_,_,plus,minus⟩ := ends_cons.mp ends
          have digits := scanDigits_append ends [c] [c] []
          simpa [scanExponent,letter,plus,minus] using digits
      | cons d text =>
        by_cases plus : d = '+'
        · subst plus
          have digits := scanDigits_append ends [c,'+'] (c :: '+' :: text) text
          simpa [scanExponent,letter] using digits
        · by_cases minus : d = '-'
          · subst minus
            have digits := scanDigits_append ends [c,'-'] (c :: '-' :: text) text
            simpa [scanExponent,letter] using digits
          · have digits := scanDigits_append ends [c] (c :: d :: text) (d :: text)
            simpa [scanExponent,letter,plus,minus] using digits
    · simp [scanExponent,letter]

theorem scanInteger_plain {c : Char} (unsigned : c ≠ '-') (text : List Char) :
    scanInteger (c :: text) = scanUnsigned (c :: text) := by
  simp [scanInteger,unsigned]

theorem scanInteger_append {rest text integer after : List Char} (ends : Ends rest)
    (scanned : scanInteger text = some (integer,after)) : scanInteger (text ++ rest) = some (integer,after ++ rest) := by
  cases text with
  | nil => simp [scanInteger,scanUnsigned] at scanned
  | cons c text =>
    by_cases minus : c = '-'
    · subst minus
      simp only [scanInteger,Option.map_eq_some_iff] at scanned
      obtain ⟨unsigned,found,same⟩ := scanned
      cases same
      simp [scanInteger,scanUnsigned_append ends found]
    · rw [scanInteger_plain minus] at scanned
      rw [List.cons_append,scanInteger_plain minus]
      exact scanUnsigned_append ends scanned

/-- A numeral is read alike whatever comes after it. -/
theorem scanNumber_append {rest text integer part after : List Char} (ends : Ends rest)
    (scanned : scanNumber text = some ((integer,part),after)) :
    scanNumber (text ++ rest) = some ((integer,part),after ++ rest) := by
  unfold scanNumber at scanned ⊢
  rw [Option.map_eq_some_iff] at scanned
  obtain ⟨read,found,same⟩ := scanned
  cases same
  simp [scanInteger_append ends found,scanFraction_append ends,scanExponent_append ends]

theorem digitChar_zero : ∀ n < 10, Nat.digitChar n = '0' → n = 0 := by decide

/-- A positive number is not written with a zero in front. -/
theorem toDigits_front {n : Nat} (pos : 0 < n) : ∃ c text, Nat.toDigits 10 n = c :: text ∧ c ≠ '0' := by
  induction n using Nat.strongRecOn with
  | ind n ih =>
    by_cases small : n < 10
    · refine ⟨n.digitChar,[],Nat.toDigits_of_lt_base small,?_⟩
      intro zero
      have none := digitChar_zero n small zero
      omega
    · obtain ⟨c,text,front,nonzero⟩ := ih (n / 10) (by omega) (by omega)
      refine ⟨c,text ++ [(n % 10).digitChar],?_,nonzero⟩
      rw [Nat.toDigits_of_base_le (by decide) (by omega),front]
      rfl

theorem isDigit_of_mem {n : Nat} {c : Char} (member : c ∈ Nat.toDigits 10 n) : c.isDigit :=
  Nat.isDigit_of_mem_toDigits (by decide) (by decide) member

theorem scanUnsigned_digits (n : Nat) : scanUnsigned (Nat.toDigits 10 n) = some (Nat.toDigits 10 n,[]) := by
  by_cases pos : 0 < n
  · obtain ⟨c,text,front,nonzero⟩ := toDigits_front pos
    have digits : ∀ d ∈ c :: text, d.isDigit := by
      intro d member
      rw [← front] at member
      exact isDigit_of_mem member
    have later : ∀ d ∈ text, d.isDigit := fun d member => digits d (by simp [member])
    rw [front]
    simp only [scanUnsigned,if_neg nonzero,if_pos (digits c (by simp))]
    rw [List.takeWhile_eq_self_iff.mpr later,List.dropWhile_eq_nil_iff.mpr later]
  · have zero : n = 0 := by omega
    rw [zero,Nat.toDigits_zero]
    rfl

theorem toList_toString (value : Int) : (toString value).toList =
    if 0 ≤ value then Nat.toDigits 10 value.toNat else '-' :: Nat.toDigits 10 (-value).toNat := by
  rw [Int.toString_eq_repr,Int.repr_eq_if]
  split_ifs <;> simp [String.toList_append]

theorem toDigits_unsigned (n : Nat) : ∃ c text, Nat.toDigits 10 n = c :: text ∧ c.isDigit := by
  cases digits : Nat.toDigits 10 n with
  | nil => exact absurd digits Nat.toDigits_ne_nil
  | cons c text => exact ⟨c,text,rfl,@isDigit_of_mem n c (by simp [digits])⟩

theorem scanNumber_int (value : Int) :
    scanNumber (toString value).toList = some (((toString value).toList,[]),[]) := by
  have unsigned : scanInteger (toString value).toList = some ((toString value).toList,[]) := by
    rw [toList_toString]
    split_ifs with nonneg
    · have scanned := scanUnsigned_digits value.toNat
      obtain ⟨c,text,front,digit⟩ := toDigits_unsigned value.toNat
      have plain : c ≠ '-' := by
        rintro rfl
        cases digit
      rw [front] at scanned ⊢
      rw [scanInteger_plain plain,scanned]
    · simp [scanInteger,scanUnsigned_digits]
  rw [scanNumber,unsigned]
  rfl

/-! ### Integers are read back -/

theorem digit_range {c : Char} (digit : c.isDigit) : 48 ≤ c.toNat ∧ c.toNat ≤ 57 := by
  simpa [Char.isDigit,UInt32.le_iff_toNat_le] using digit

theorem decimal_digit {c : Char} (digit : c.isDigit) : Text.decimal c = some (c.toNat - 48) := by
  have range := digit_range digit
  simp [Text.decimal,Text.decimalZeros,range]

theorem numeralFrom_digits (text : List Char) (digits : ∀ c ∈ text, c.isDigit) (value : Nat) :
    Text.numeralFrom value text = some (Nat.ofDigitChars 10 text value) := by
  induction text generalizing value with
  | nil => simp [Text.numeralFrom]
  | cons c text ih =>
    have digit := digits c (by simp)
    have plain : c ≠ '_' := by
      rintro rfl
      cases digit
    have later := ih (fun d member => digits d (by simp [member])) (10 * value + (c.toNat - 48))
    simpa [Text.numeralFrom,plain,decimal_digit digit,Nat.ofDigitChars_cons] using later

theorem numeral_digits (n : Nat) : Text.numeral (Nat.toDigits 10 n) = some n := by
  have whole := @Nat.ofDigitChars_ten_toDigits n
  have digits := fun c => @isDigit_of_mem n c
  cases text : Nat.toDigits 10 n with
  | nil => exact absurd text Nat.toDigits_ne_nil
  | cons c rest =>
    rw [text] at whole digits
    have read := numeralFrom_digits rest (fun d member => digits d (by simp [member])) (c.toNat - 48)
    simp only [Text.numeral,decimal_digit (digits c (by simp)),read]
    simpa [Nat.ofDigitChars_cons] using whole

theorem dropWhile_spaces {text : List Char} (plain : ∀ c ∈ text, Text.isNumeralSpace c = false) :
    text.dropWhile Text.isNumeralSpace = text := by
  cases text with
  | nil => rfl
  | cons c text => simp [plain c (by simp)]

theorem plain_of_toString {value : Int} {c : Char} (member : c ∈ (toString value).toList) :
    Text.isNumeralSpace c = false := by
  have shape : c = '-' ∨ c.isDigit := by
    rw [toList_toString] at member
    split_ifs at member
    · exact .inr (isDigit_of_mem member)
    · rcases List.mem_cons.mp member with minus | digit
      · exact .inl minus
      · exact .inr (isDigit_of_mem digit)
  rcases shape with rfl | digit
  · decide
  · have range := digit_range digit
    simp [Text.isNumeralSpace,Text.isSpace]
    omega

/-- `int` of the `repr` of an integer is the integer. -/
theorem parseInt_toString (value : Int) : Text.parseInt (toString value) = some value := by
  have plain : ∀ c ∈ (toString value).toList, Text.isNumeralSpace c = false := fun c => plain_of_toString
  have back : ∀ c ∈ (toString value).toList.reverse, Text.isNumeralSpace c = false := by
    intro c member
    exact plain c (List.mem_reverse.mp member)
  unfold Text.parseInt
  rw [dropWhile_spaces plain,dropWhile_spaces back,List.reverse_reverse,toList_toString]
  split_ifs with nonneg
  · obtain ⟨c,text,front,digit⟩ := toDigits_unsigned value.toNat
    have read := numeral_digits value.toNat
    have plus : c ≠ '+' := by
      rintro rfl
      cases digit
    have minus : c ≠ '-' := by
      rintro rfl
      cases digit
    rw [front] at read ⊢
    simp [plus,minus,read,nonneg]
  · simp [numeral_digits]
    omega

/-! ### Values are read back -/

/-- A float that JSON text carries: `float` reads its `repr`, a numeral with a fraction or
    an exponent, as the float it is. -/
def CarriedFloat (text : String) : FloatValue → Prop
  | .finite value =>
    ∃ integer part, part ≠ [] ∧ text.toList = integer ++ part ∧
      scanNumber text.toList = some ((integer,part),[]) ∧ float text = (text,.finite value)
  | .infinite false => text = "inf"
  | .infinite true => text = "-inf"
  | .nan => text = "nan"

mutual

/-- A value that JSON text carries: the keys of a dictionary differ, and so do its floats. -/
def Carried : Json → Prop
  | .float text value => CarriedFloat float text value
  | .list items => CarriedItems items
  | .dict entries => (entries.map Prod.fst).Nodup ∧ CarriedEntries entries
  | _ => True

def CarriedItems : List Json → Prop
  | [] => True
  | item :: rest => Carried item ∧ CarriedItems rest

def CarriedEntries : List (String × Json) → Prop
  | [] => True
  | (_,value) :: rest => Carried value ∧ CarriedEntries rest

end

/-- A value that is neither a string nor a container. -/
def Plain : Json → Prop
  | .str _ => False
  | .list _ => False
  | .dict _ => False
  | _ => True

theorem scanPlain_word {word : List Char × Json} (known : word ∈ words) (rest : List Char) :
    scanPlain float (word.1 ++ rest) = some (word.2,rest) := by
  have unnumbered : scanNumber (word.1 ++ rest) = none := by
    simp only [words,List.mem_cons,List.not_mem_nil,or_false] at known
    rcases known with rfl | rfl | rfl | rfl | rfl | rfl <;> rfl
  have found : scanWord (word.1 ++ rest) = some (word.2,rest) := by
    simp only [words,List.mem_cons,List.not_mem_nil,or_false] at known
    rcases known with rfl | rfl | rfl | rfl | rfl | rfl <;> rfl
  rw [scanPlain,unnumbered]
  exact found

theorem scanPlain_float {text : String} {value : FloatValue} (carried : CarriedFloat float text value)
    {rest : List Char} (ends : Ends rest) :
    scanPlain float ((floatText text value).toList ++ rest) = some (.float text value,rest) := by
  cases value with
  | finite value =>
    obtain ⟨integer,part,present,whole,scanned,read⟩ := carried
    have scanned := scanNumber_append ends scanned
    rw [List.nil_append] at scanned
    have same : String.ofList (integer ++ part) = text := by rw [← whole,String.ofList_toList]
    cases part with
    | nil => exact absurd rfl present
    | cons c part =>
      unfold scanPlain
      rw [floatText,scanned]
      simp only [same,read]
  | infinite negative =>
    cases negative with
    | true =>
      rw [show text = "-inf" from carried]
      exact @scanPlain_word float ("-Infinity".toList,.float "-inf" (.infinite true)) (by simp [words]) rest
    | false =>
      rw [show text = "inf" from carried]
      exact @scanPlain_word float ("Infinity".toList,.float "inf" (.infinite false)) (by simp [words]) rest
  | nan =>
    rw [show text = "nan" from carried]
    exact @scanPlain_word float ("NaN".toList,.float "nan" .nan) (by simp [words]) rest

theorem scanPlain_encode {value : Json} (plain : Plain value) (carried : Carried float value) {rest : List Char}
    (ends : Ends rest) : scanPlain float (encode value ++ rest) = some (value,rest) := by
  cases value with
  | null =>
    rw [encode]
    exact @scanPlain_word float ("null".toList,.null) (by simp [words]) rest
  | bool value =>
    rw [encode]
    cases value with
    | true => exact @scanPlain_word float ("true".toList,.bool true) (by simp [words]) rest
    | false => exact @scanPlain_word float ("false".toList,.bool false) (by simp [words]) rest
  | int value =>
    have scanned := scanNumber_append ends (scanNumber_int value)
    rw [List.nil_append] at scanned
    rw [encode]
    simp only [scanPlain,scanned,String.ofList_toList,parseInt_toString,Option.map_some]
  | float text number =>
    rw [encode]
    rw [Carried] at carried
    exact scanPlain_float float carried ends
  | str value => exact absurd plain id
  | list items => exact absurd plain id
  | dict entries => exact absurd plain id

theorem scanNumber_front {text : List Char} {number : (List Char × List Char) × List Char}
    (scanned : scanNumber text = some number) : ∃ c rest, text = c :: rest ∧ (c = '-' ∨ c.isDigit) := by
  rw [scanNumber,Option.map_eq_some_iff] at scanned
  obtain ⟨integer,scanned,_⟩ := scanned
  cases text with
  | nil => simp [scanInteger,scanUnsigned] at scanned
  | cons c rest =>
    refine ⟨c,rest,rfl,?_⟩
    by_cases minus : c = '-'
    · exact .inl minus
    · rw [scanInteger_plain minus,scanUnsigned] at scanned
      split_ifs at scanned with zero digit
      · exact .inr (by rw [zero]; rfl)
      · exact .inr digit

/-- How a value begins. -/
def Front (value : Json) (c : Char) : Prop :=
  isSpace c = false ∧ c ≠ ']' ∧ c.toNat < 128 ∧ (Plain value → c ≠ '"' ∧ c ≠ '[' ∧ c ≠ '\x7b')

theorem front_numeral {value : Json} {c : Char} (numeral : c = '-' ∨ c.isDigit) : Front value c := by
  rcases numeral with rfl | digit
  · exact ⟨by decide,by decide,by decide,fun _ => by decide⟩
  · have range := digit_range digit
    have other : ∀ d : Char, d.toNat < 48 ∨ 57 < d.toNat → c ≠ d := by
      rintro d outside rfl
      omega
    refine ⟨?_,other _ (by decide),by omega,fun _ => ⟨other _ (by decide),other _ (by decide),other _ (by decide)⟩⟩
    simp [isSpace,other ' ' (by decide),other '\t' (by decide),other '\n' (by decide),other '\r' (by decide)]

section
variable {layout : Layout} {depth : Nat}

theorem encodeWith_plain {value : Json} (plain : Plain value) : encodeWith layout depth value = encode value := by
  cases value with
  | list items => exact absurd plain id
  | dict entries => exact absurd plain id
  | _ => rw [encodeWith] <;> simp

theorem encode_front {value : Json} (plain : Plain value) (carried : Carried float value) :
    ∃ c text, encode value = c :: text ∧ Front value c := by
  cases value with
  | null => exact ⟨'n',"ull".toList,by rw [encode]; rfl,by decide,by decide,by decide,fun _ => by decide⟩
  | bool value =>
    cases value with
    | true => exact ⟨'t',"rue".toList,by rw [encode]; rfl,by decide,by decide,by decide,fun _ => by decide⟩
    | false => exact ⟨'f',"alse".toList,by rw [encode]; rfl,by decide,by decide,by decide,fun _ => by decide⟩
  | int value =>
    obtain ⟨c,text,front,numeral⟩ := scanNumber_front (scanNumber_int value)
    exact ⟨c,text,by rw [encode,front],front_numeral numeral⟩
  | float text value =>
    rw [Carried] at carried
    cases value with
    | finite value =>
      obtain ⟨_,_,_,_,scanned,_⟩ := carried
      obtain ⟨c,rest,front,numeral⟩ := scanNumber_front scanned
      exact ⟨c,rest,by rw [encode,floatText,front],front_numeral numeral⟩
    | infinite negative =>
      cases negative with
      | true => exact ⟨'-',"Infinity".toList,by rw [encode,floatText]; rfl,by decide,by decide,by decide,fun _ => by decide⟩
      | false => exact ⟨'I',"nfinity".toList,by rw [encode,floatText]; rfl,by decide,by decide,by decide,fun _ => by decide⟩
    | nan => exact ⟨'N',"aN".toList,by rw [encode,floatText]; rfl,by decide,by decide,by decide,fun _ => by decide⟩
  | str text => exact absurd plain id
  | list items => exact absurd plain id
  | dict entries => exact absurd plain id

theorem encodeWith_front {value : Json} (carried : Carried float value) :
    ∃ c text, encodeWith layout depth value = c :: text ∧ Front value c := by
  have container : ∀ {c : Char} (empty : Bool) (single inner : List Char), c = '[' ∨ c = '\x7b' → ¬ Plain value →
      ∃ d text, (if empty = true then c :: single else [c] ++ inner) = d :: text ∧ Front value d := by
    rintro c empty single inner bracket structured
    have front : Front value c := by
      rcases bracket with rfl | rfl
      · exact ⟨by decide,by decide,by decide,fun plain => absurd plain structured⟩
      · exact ⟨by decide,by decide,by decide,fun plain => absurd plain structured⟩
    split_ifs
    · exact ⟨c,single,rfl,front⟩
    · exact ⟨c,inner,rfl,front⟩
  cases value with
  | str text =>
    exact ⟨'"',text.toList.flatMap escape ++ ['"'],by rw [encodeWith,encode] <;> simp [encodeString],by decide,by decide,
      by decide,False.elim⟩
  | list items =>
    rw [encodeWith]
    simp only [List.append_assoc]
    exact container items.isEmpty [']'] _ (.inl rfl) id
  | dict entries =>
    rw [encodeWith]
    simp only [List.append_assoc]
    exact container entries.isEmpty ['\x7d'] _ (.inr rfl) id
  | null =>
    rw [@encodeWith_plain layout depth .null trivial]
    exact encode_front float trivial carried
  | bool value =>
    rw [@encodeWith_plain layout depth (.bool value) trivial]
    exact encode_front float trivial carried
  | int value =>
    rw [@encodeWith_plain layout depth (.int value) trivial]
    exact encode_front float trivial carried
  | float text value =>
    rw [@encodeWith_plain layout depth (.float text value) trivial]
    exact encode_front float trivial carried

/-! ### White space -/

theorem skip_kept {c : Char} (kept : isSpace c = false) (text : List Char) : skip (c :: text) = c :: text := by
  simp [skip,kept]

/-- White space before a character that is none. -/
theorem skip_blanks {blanks : List Char} (blank : ∀ c ∈ blanks, isSpace c = true) {c : Char} (kept : isSpace c = false)
    (text : List Char) : skip (blanks ++ c :: text) = c :: text := by
  rw [skip,List.dropWhile_append_of_pos blank]
  exact skip_kept kept text

/-- What may stand before or after a value inside a container. -/
theorem skip_delimiter {c : Char} (delimiter : c ∈ [',',':','"',']','\x7d']) (text : List Char) :
    skip (c :: text) = c :: text := by
  simp only [List.mem_cons,List.not_mem_nil,or_false] at delimiter
  rcases delimiter with rfl | rfl | rfl | rfl | rfl <;> rfl

theorem skip_encode {value : Json} (carried : Carried float value) (rest : List Char) :
    skip (encodeWith layout depth value ++ rest) = encodeWith layout depth value ++ rest := by
  obtain ⟨c,text,front,plain,_⟩ := @encodeWith_front float layout depth value carried
  rw [front,List.cons_append,skip_kept plain]

theorem ends_delimiter {c : Char} (delimiter : c ∈ [',',']','\x7d']) (rest : List Char) : Ends (c :: rest) := by
  simp only [List.mem_cons,List.not_mem_nil,or_false] at delimiter
  rcases delimiter with rfl | rfl | rfl <;> (rw [ends_cons]; decide)

theorem ends_space {c : Char} (space : isSpace c = true) (rest : List Char) : Ends (c :: rest) := by
  simp only [isSpace,Bool.or_eq_true,decide_eq_true_eq] at space
  rcases space with ((rfl | rfl) | rfl) | rfl <;> (rw [ends_cons]; decide)

/-- A numeral ends before white space. -/
theorem ends_blanks {blanks : List Char} (blank : ∀ c ∈ blanks, isSpace c = true) {c : Char}
    (delimiter : c ∈ [',',']','\x7d']) (rest : List Char) : Ends (blanks ++ c :: rest) := by
  cases blanks with
  | nil => exact ends_delimiter delimiter rest
  | cons space blanks => exact ends_space (blank space List.mem_cons_self) _

theorem scanOnce_plain {value : Json} (plain : Plain value) (carried : Carried float value) {rest : List Char}
    (ends : Ends rest) (fuel : Nat) :
    scanOnce float (fuel + 1) (encodeWith layout depth value ++ rest) = some (value,rest) := by
  have scanned := scanPlain_encode float plain carried ends
  obtain ⟨c,text,front,_,_,_,plainly⟩ := encode_front float plain carried
  obtain ⟨quote,bracket,brace⟩ := plainly plain
  rw [encodeWith_plain plain,front,List.cons_append]
  rw [front,List.cons_append] at scanned
  rw [scanOnce,if_neg quote,if_neg bracket,if_neg brace,scanned]

theorem encodeItems_front {item : Json} {items : List Json} (carried : CarriedItems float (item :: items)) :
    ∃ c text, encodeItemsWith layout depth (item :: items) = c :: text ∧ isSpace c = false ∧ c ≠ ']' := by
  obtain ⟨first,_⟩ := carried
  obtain ⟨c,text,front,space,bracket,_⟩ := @encodeWith_front float layout (depth + 1) item first
  cases items with
  | nil => exact ⟨c,text,by rw [encodeItemsWith,front],space,bracket⟩
  | cons next items =>
    exact ⟨c,text ++ [','] ++ layout.gap depth ++ encodeItemsWith layout depth (next :: items),
      by rw [encodeItemsWith,front]; simp,space,bracket⟩

/-- The text of an entry from after the quote of its key. -/
theorem encodeEntries_front (key : String) (value : Json) (entries : List (String × Json)) :
    encodeEntriesWith layout depth ((key,value) :: entries) =
      '"' :: (encodeEntriesWith layout depth ((key,value) :: entries)).tail := by
  cases entries with
  | nil => rw [encodeEntriesWith,encodeString]; rfl
  | cons next entries => rw [encodeEntriesWith,encodeString]; rfl

/-- A layout of white space only. -/
structure Blank (layout : Layout) : Prop where
  opening : ∀ depth, ∀ c ∈ layout.opening depth, isSpace c = true
  gap : ∀ depth, ∀ c ∈ layout.gap depth, isSpace c = true
  closing : ∀ depth, ∀ c ∈ layout.closing depth, isSpace c = true

end

theorem compact_blank : Blank compact := by
  constructor
  · simp [compact]
  · simp [compact,isSpace]
  · simp [compact]

theorem indented_blank (width : Nat) : Blank (indented width) := by
  have line : ∀ count, ∀ c ∈ '\n' :: List.replicate count ' ', isSpace c = true := by
    intro count c member
    rcases List.mem_cons.mp member with rfl | inside
    · rfl
    · rw [List.eq_of_mem_replicate inside]
      rfl
  exact ⟨fun depth => line _,fun depth => line _,fun depth => line _⟩

/-! ### Round trips -/

section
variable {layout : Layout}

mutual

/-- A value that JSON text carries is read back from its text. -/
theorem scanOnce_encode (blank : Blank layout) (value : Json) (depth fuel : Nat) (rest : List Char)
    (carried : Carried float value) (ends : Ends rest) (enough : (encodeWith layout depth value).length ≤ fuel) :
    scanOnce float fuel (encodeWith layout depth value ++ rest) = some (value,rest) := by
  cases fuel with
  | zero =>
    obtain ⟨c,text,front,_⟩ := @encodeWith_front float layout depth value carried
    simp [front] at enough
  | succ fuel =>
    match value with
    | .null => exact @scanOnce_plain float layout depth .null trivial carried rest ends fuel
    | .bool value => exact @scanOnce_plain float layout depth (.bool value) trivial carried rest ends fuel
    | .int value => exact @scanOnce_plain float layout depth (.int value) trivial carried rest ends fuel
    | .float text value => exact @scanOnce_plain float layout depth (.float text value) trivial carried rest ends fuel
    | .str text =>
      rw [encodeWith,encode,encodeString]
      all_goals simp [scanOnce,scanString_escaped]
    | .list [] =>
      rw [encodeWith]
      simp [scanOnce,skip_delimiter]
    | .list (item :: items) =>
      rw [Carried] at carried
      rw [encodeWith] at enough ⊢
      obtain ⟨c,text,front,space,bracket⟩ := @encodeItems_front float layout depth item items carried
      have scanned := scanItems_encode blank item items depth fuel rest carried (by simp at enough; omega)
      have skipped := skip_blanks (blank.opening depth) space (text ++ (layout.closing depth ++ ']' :: rest))
      rw [front] at scanned ⊢
      rw [List.cons_append] at scanned
      simp [scanOnce,skipped,bracket,scanned]
    | .dict [] =>
      rw [encodeWith]
      simp [scanOnce,skip_delimiter]
    | .dict ((key,value) :: entries) =>
      rw [Carried] at carried
      rw [encodeWith] at enough ⊢
      have scanned := scanEntries_encode blank key value entries depth fuel rest carried.2 (by simp at enough; omega)
      rw [encodeEntries_front]
      generalize (encodeEntriesWith layout depth ((key,value) :: entries)).tail = text at scanned ⊢
      have skipped := @skip_blanks _ (blank.opening depth) '"' rfl (text ++ (layout.closing depth ++ '\x7d' :: rest))
      simp [scanOnce,skipped,scanned,dictOf_distinct carried.1]
termination_by fuel

theorem scanItems_encode (blank : Blank layout) (item : Json) (items : List Json) (depth fuel : Nat) (rest : List Char)
    (carried : CarriedItems float (item :: items)) (enough : (encodeItemsWith layout depth (item :: items)).length < fuel) :
    scanItems float fuel (encodeItemsWith layout depth (item :: items) ++ (layout.closing depth ++ ']' :: rest)) =
      some (item :: items,rest) := by
  cases fuel with
  | zero => simp at enough
  | succ fuel =>
    obtain ⟨first,others⟩ := carried
    match items with
    | [] =>
      rw [encodeItemsWith] at enough ⊢
      have scanned := scanOnce_encode blank item (depth + 1) fuel (layout.closing depth ++ ']' :: rest) first
        (ends_blanks (blank.closing depth) (by simp) rest) (by omega)
      have skipped := @skip_blanks _ (blank.closing depth) ']' rfl rest
      simp [scanItems,scanned,skipped]
    | next :: items =>
      have later := scanItems_encode blank next items depth fuel rest others
      obtain ⟨c,text,front,space,_⟩ := @encodeItems_front float layout depth next items others
      rw [encodeItemsWith] at enough ⊢
      simp only [List.length_append,List.length_cons,List.length_nil] at enough
      rw [front] at later enough ⊢
      have later := later (by omega)
      rw [List.cons_append] at later
      have skipped := skip_blanks (blank.gap depth) space (text ++ (layout.closing depth ++ ']' :: rest))
      have scanned := scanOnce_encode blank item (depth + 1) fuel
        (',' :: (layout.gap depth ++ c :: (text ++ (layout.closing depth ++ ']' :: rest)))) first
        (ends_delimiter (by simp) _) (by omega)
      simp [scanItems,scanned,skip_delimiter,skipped,later]
termination_by fuel

theorem scanEntries_encode (blank : Blank layout) (key : String) (value : Json) (entries : List (String × Json))
    (depth fuel : Nat) (rest : List Char) (carried : CarriedEntries float ((key,value) :: entries))
    (enough : (encodeEntriesWith layout depth ((key,value) :: entries)).length < fuel) :
    scanEntries float fuel ((encodeEntriesWith layout depth ((key,value) :: entries)).tail ++
      (layout.closing depth ++ '\x7d' :: rest)) = some ((key,value) :: entries,rest) := by
  cases fuel with
  | zero => simp at enough
  | succ fuel =>
    obtain ⟨first,others⟩ := carried
    match entries with
    | [] =>
      rw [encodeEntriesWith] at enough ⊢
      simp only [List.length_append,List.length_cons,List.length_nil] at enough
      have scanned := scanOnce_encode blank value (depth + 1) fuel (layout.closing depth ++ '\x7d' :: rest) first
        (ends_blanks (blank.closing depth) (by simp) rest) (by omega)
      have named := scanString_escaped key
        (':' :: ' ' :: (encodeWith layout (depth + 1) value ++ (layout.closing depth ++ '\x7d' :: rest)))
      have skipped := @skip_blanks _ (blank.closing depth) '\x7d' rfl rest
      have spaced : skip (' ' :: (encodeWith layout (depth + 1) value ++ (layout.closing depth ++ '\x7d' :: rest))) = _ :=
        skip_encode float first _
      simp [encodeString,scanEntries,named,skip_delimiter,spaced,scanned,skipped]
    | (other,next) :: entries =>
      have later := scanEntries_encode blank other next entries depth fuel rest others
      rw [encodeEntriesWith] at enough ⊢
      rw [encodeEntries_front other next entries] at later enough ⊢
      simp only [List.length_append,List.length_cons,List.length_nil,List.tail_cons] at later enough
      generalize (encodeEntriesWith layout depth ((other,next) :: entries)).tail = text at later enough ⊢
      have later := later (by omega)
      have skipped := @skip_blanks _ (blank.gap depth) '"' rfl (text ++ (layout.closing depth ++ '\x7d' :: rest))
      have scanned := scanOnce_encode blank value (depth + 1) fuel
        (',' :: (layout.gap depth ++ '"' :: (text ++ (layout.closing depth ++ '\x7d' :: rest)))) first
        (ends_delimiter (by simp) _) (by omega)
      have named := scanString_escaped key (':' :: ' ' :: (encodeWith layout (depth + 1) value ++
        ',' :: (layout.gap depth ++ '"' :: (text ++ (layout.closing depth ++ '\x7d' :: rest)))))
      have spaced : skip (' ' :: (encodeWith layout (depth + 1) value ++
          ',' :: (layout.gap depth ++ '"' :: (text ++ (layout.closing depth ++ '\x7d' :: rest))))) = _ :=
        skip_encode float first _
      simp [encodeString,scanEntries,named,skip_delimiter,spaced,scanned,skipped,later]
termination_by fuel

end

/-- `loads` of a text in any layout is the value, whatever white space follows. -/
theorem loads_encode_blanks (blank : Blank layout) {value : Json} (carried : Carried float value) {blanks : List Char}
    (white : ∀ c ∈ blanks, isSpace c = true) :
    loads float (String.ofList (encodeWith layout 0 value ++ blanks)) = some value := by
  obtain ⟨c,text,front,_,_,ascii,_⟩ := @encodeWith_front float layout 0 value carried
  have unmarked : c ≠ Char.ofNat 0xFEFF := by
    rintro rfl
    exact absurd ascii (by decide)
  have ends : Ends blanks := by
    cases blanks with
    | nil => simp [Ends]
    | cons space blanks => exact ends_space (white space List.mem_cons_self) blanks
  have skipped := @skip_encode float layout 0 value carried blanks
  have scanned := scanOnce_encode float blank value 0 ((encodeWith layout 0 value ++ blanks).length + 1) blanks carried ends
    (by rw [List.length_append]; omega)
  have blankEnd : skip blanks = [] := List.dropWhile_eq_nil_iff.mpr white
  rw [loads,String.toList_ofList,String.length_ofList,skipped,scanned,front]
  simp [unmarked,blankEnd]

theorem loads_encode (blank : Blank layout) {value : Json} (carried : Carried float value) :
    loads float (String.ofList (encodeWith layout 0 value)) = some value := by
  have read := loads_encode_blanks float blank carried (List.forall_mem_nil (fun c => isSpace c = true))
  rwa [List.append_nil] at read

end

mutual

theorem encode_eq (depth : Nat) : ∀ value, encode value = encodeWith compact depth value
  | .list items => by
    have inner := encodeItems_eq depth items
    cases items <;> simp [encode,encodeWith,inner,encodeItems,compact]
  | .dict entries => by
    have inner := encodeEntries_eq depth entries
    cases entries <;> simp [encode,encodeWith,inner,encodeEntries,compact]
  | .null => (@encodeWith_plain compact depth .null trivial).symm
  | .bool value => (@encodeWith_plain compact depth (.bool value) trivial).symm
  | .int value => (@encodeWith_plain compact depth (.int value) trivial).symm
  | .float text value => (@encodeWith_plain compact depth (.float text value) trivial).symm
  | .str value => by rw [encodeWith] <;> simp

theorem encodeItems_eq (depth : Nat) : ∀ items, encodeItems items = encodeItemsWith compact depth items
  | [] => rfl
  | [item] => by rw [encodeItems,encodeItemsWith,encode_eq (depth + 1)]
  | item :: next :: rest => by
    rw [encodeItems,encodeItemsWith,encode_eq (depth + 1),encodeItems_eq depth (next :: rest)]
    simp [compact]

theorem encodeEntries_eq (depth : Nat) : ∀ entries, encodeEntries entries = encodeEntriesWith compact depth entries
  | [] => rfl
  | [(key,value)] => by rw [encodeEntries,encodeEntriesWith,encode_eq (depth + 1)]
  | (key,value) :: next :: rest => by
    rw [encodeEntries,encodeEntriesWith,encode_eq (depth + 1),encodeEntries_eq depth (next :: rest)]
    simp [compact]

end

/-- `loads` of what `dumps` writes is the value. -/
theorem loads_dumps {value : Json} (carried : Carried float value) : loads float (dumps value) = some value := by
  rw [dumps,encode_eq 0]
  exact loads_encode float compact_blank carried

/-! ### Sorted keys -/

theorem sortedEntries_map (entries : List (String × Json)) :
    sortedEntries entries = entries.map (fun entry => (entry.1,sorted entry.2)) := by
  induction entries with
  | nil => rfl
  | cons entry rest ih => rw [sortedEntries,ih,List.map_cons]

theorem sortedEntries_keys (entries : List (String × Json)) :
    (sortedEntries entries).map Prod.fst = entries.map Prod.fst := by
  rw [sortedEntries_map,List.map_map]
  rfl

theorem carriedEntries_iff {entries : List (String × Json)} :
    CarriedEntries float entries ↔ ∀ entry ∈ entries, Carried float entry.2 := by
  induction entries with
  | nil => simp [CarriedEntries]
  | cons entry rest ih => rw [CarriedEntries,ih,List.forall_mem_cons]

mutual

/-- The order of the keys is no matter of what JSON text carries. -/
theorem sorted_carried : ∀ {value : Json}, Carried float value → Carried float (sorted value)
  | .list items,carried => by
    rw [Carried] at carried
    rw [sorted,Carried]
    exact sortedItems_carried carried
  | .dict entries,carried => by
    rw [Carried] at carried
    rw [sorted,Carried,carriedEntries_iff]
    have rearranged := List.perm_insertionSort (fun first second => first.1 ≤ second.1) (sortedEntries entries)
    have inner := (carriedEntries_iff float).mp (sortedEntries_carried carried.2)
    constructor
    · rw [(rearranged.map Prod.fst).nodup_iff,sortedEntries_keys]
      exact carried.1
    · intro entry member
      exact inner entry (rearranged.mem_iff.mp member)
  | .null,carried => carried
  | .bool _,carried => carried
  | .int _,carried => carried
  | .float _ _,carried => carried
  | .str _,carried => carried

theorem sortedItems_carried : ∀ {items : List Json}, CarriedItems float items → CarriedItems float (sortedItems items)
  | [],carried => carried
  | _ :: _,⟨first,others⟩ => ⟨sorted_carried first,sortedItems_carried others⟩

theorem sortedEntries_carried : ∀ {entries : List (String × Json)}, CarriedEntries float entries →
    CarriedEntries float (sortedEntries entries)
  | [],carried => carried
  | _ :: _,⟨first,others⟩ => ⟨sorted_carried first,sortedEntries_carried others⟩

end

/-- `loads` of what `dumps` writes with `indent` and `sort_keys` is the value with its keys
    in order. -/
theorem loads_dumpsSorted (width : Nat) {value : Json} (carried : Carried float value) :
    loads float (dumpsSorted width value) = some (sorted value) :=
  loads_encode float (indented_blank width) (sorted_carried float carried)

/-- The same at the end of a line. -/
theorem loads_dumpsSorted_line (width : Nat) {value : Json} (carried : Carried float value) :
    loads float (dumpsSorted width value ++ "\n") = some (sorted value) := by
  have read := loads_encode_blanks float (indented_blank width) (sorted_carried float carried)
    (List.forall_mem_singleton.mpr (rfl : isSpace '\n' = true))
  rwa [String.ofList_append] at read

/-- What is under a key does not depend on the order of the keys. -/
theorem get_sorted {entries : List (String × Json)} (distinct : (entries.map Prod.fst).Nodup) (key : String) :
    Dictionaries.get key ((sortedEntries entries).insertionSort (fun first second => first.1 ≤ second.1)) =
      (Dictionaries.get key entries).map sorted := by
  have rearranged := List.perm_insertionSort (fun first second => first.1 ≤ second.1) (sortedEntries entries)
  have own : ((sortedEntries entries).map Prod.fst).Nodup := (sortedEntries_keys entries).symm ▸ distinct
  rw [← Dictionaries.get_map,← sortedEntries_map]
  apply Option.ext
  intro value
  rw [Dictionaries.get_some ((rearranged.map Prod.fst).nodup_iff.mpr own),Dictionaries.get_some own]
  exact rearranged.mem_iff

end Hookclose.JsonText
