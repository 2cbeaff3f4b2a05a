import Hookclose.Text

/-!
The SHA-1 digest of a list of bytes, and its hexadecimal form.
-/
namespace Hookclose.Digest

def rotateLeft (word : UInt32) (n : UInt32) : UInt32 := (word <<< n) ||| (word >>> (32 - n))

/-- The bytes of a number, the most significant first. -/
def bigEndian : Nat → Nat → List UInt8
  | 0,_ => []
  | count + 1,n => bigEndian count (n / 256) ++ [UInt8.ofNat n]

/-- The message with its end marked and its length in bits, in whole blocks. -/
def pad (message : List UInt8) : List UInt8 :=
  message ++ [0x80] ++ List.replicate ((119 - message.length % 64) % 64) 0 ++ bigEndian 8 (8 * message.length)

def toWords : List UInt8 → List UInt32
  | a :: b :: c :: d :: rest =>
    ((a.toUInt32 <<< 24) ||| (b.toUInt32 <<< 16) ||| (c.toUInt32 <<< 8) ||| d.toUInt32) :: toWords rest
  | _ => []

/-- The message schedule, the latest word first. -/
def schedule (block : List UInt32) : Nat → List UInt32
  | 0 => block.reverse
  | count + 1 =>
    let words := schedule block count
    rotateLeft (words.getD 2 0 ^^^ words.getD 7 0 ^^^ words.getD 13 0 ^^^ words.getD 15 0) 1 :: words

structure Registers where
  a : UInt32
  b : UInt32
  c : UInt32
  d : UInt32
  e : UInt32

def initial : Registers := ⟨0x67452301,0xEFCDAB89,0x98BADCFE,0x10325476,0xC3D2E1F0⟩

def mix (h : Registers) (index : Nat) : UInt32 :=
  if index < 20 then ((h.b &&& h.c) ||| (~~~h.b &&& h.d)) + 0x5A827999
  else if index < 40 then (h.b ^^^ h.c ^^^ h.d) + 0x6ED9EBA1
  else if index < 60 then ((h.b &&& h.c) ||| (h.b &&& h.d) ||| (h.c &&& h.d)) + 0x8F1BBCDC
  else (h.b ^^^ h.c ^^^ h.d) + 0xCA62C1D6

def rounds (h : Registers) (index : Nat) : List UInt32 → Registers
  | [] => h
  | word :: rest =>
    rounds ⟨rotateLeft h.a 5 + mix h index + h.e + word,h.a,rotateLeft h.b 30,h.c,h.d⟩ (index + 1) rest

def compress (h : Registers) (block : List UInt32) : Registers :=
  let ended := rounds h 0 (schedule block 64).reverse
  ⟨h.a + ended.a,h.b + ended.b,h.c + ended.c,h.d + ended.d,h.e + ended.e⟩

/-- The digest after the first `count` blocks of the words. -/
def absorb (h : Registers) : Nat → List UInt32 → Registers
  | 0,_ => h
  | count + 1,words => absorb (compress h (words.take 16)) count (words.drop 16)

def sha1 (message : List UInt8) : List UInt8 :=
  let words := toWords (pad message)
  let h := absorb initial (words.length / 16) words
  [h.a,h.b,h.c,h.d,h.e].flatMap (fun word => bigEndian 4 word.toNat)

def hexdigest (digest : List UInt8) : List Char := digest.flatMap (fun byte => Text.hexPair byte.toNat)

end Hookclose.Digest
