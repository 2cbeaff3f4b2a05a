import Mathlib.Data.List.Basic

/-!
Regular expressions as a backtracking matcher runs them. A pattern maps a place in
a text to the places where a match that starts there can end, in the order in
which the matcher would try them; the first is the match. Repetition is of single
characters and greedy.
-/
namespace Hookclose.Patterns

/-- A place in a text, with the groups captured on the way, the latest first. -/
structure Place where
  before : Option Char
  rest : List Char
  groups : List (String × List Char) := []
  deriving DecidableEq

inductive Pattern
  | empty
  | one (test : Char → Bool)
  | many (test : Char → Bool) (least : Nat) (most : Option Nat)
  | seq (first second : Pattern)
  | alt (first second : Pattern)
  | group (name : String) (inner : Pattern)
  | boundary (word : Char → Bool)
  | start
  | finish

/-- The place that lies `n` characters further. -/
def Place.skip (n : Nat) (place : Place) : Place :=
  { place with before := (place.rest.take n).getLast?.or place.before, rest := place.rest.drop n }

/-- How often a greedy repetition may match, the most first. -/
def counts (test : Char → Bool) (least : Nat) (most : Option Nat) (text : List Char) : List Nat :=
  let longest := (text.takeWhile test).length
  let longest := match most with
    | some bound => min longest bound
    | none => longest
  ((List.range (longest + 1)).filter (fun n => least ≤ n)).reverse

def atBoundary (word : Char → Bool) (place : Place) : Bool := place.before.any word != place.rest.head?.any word

/-- Where a match of the pattern from a place can end. -/
def ends : Pattern → Place → List Place
  | .empty,place => [place]
  | .one test,place => if place.rest.head?.any test then [place.skip 1] else []
  | .many test least most,place => (counts test least most place.rest).map (fun n => place.skip n)
  | .seq first second,place => (ends first place).flatMap (ends second)
  | .alt first second,place => ends first place ++ ends second place
  | .group name inner,place => (ends inner place).map (fun ended =>
      { ended with groups := (name,place.rest.take (place.rest.length - ended.rest.length)) :: ended.groups })
  | .boundary word,place => if atBoundary word place then [place] else []
  | .start,place => if place.before.isNone then [place] else []
  | .finish,place => if place.rest = [] ∨ place.rest = ['\n'] then [place] else []

/-- The match of a pattern from a place on. -/
def firstEnd (pattern : Pattern) (place : Place) : Option Place := (ends pattern place).head?

/-- A match from the start of a text. -/
def matchStart (pattern : Pattern) (text : List Char) : Option Place := firstEnd pattern ⟨none,text,[]⟩

/-- The matches found from left to right, none inside another, of a pattern that
    matches no empty text; the first `skip` characters belong to the match before. -/
def findAll (pattern : Pattern) : Nat → Option Char → List Char → List Place
  | _,_,[] => []
  | skip + 1,_,c :: rest => findAll pattern skip (some c) rest
  | 0,before,c :: rest =>
    match firstEnd pattern ⟨before,c :: rest,[]⟩ with
    | some ended => ended :: findAll pattern (rest.length - ended.rest.length) (some c) rest
    | none => findAll pattern 0 (some c) rest

/-- The text with each of these matches replaced. -/
def replaceAll (pattern : Pattern) (replacement : List Char) : Nat → Option Char → List Char → List Char
  | _,_,[] => []
  | skip + 1,_,c :: rest => replaceAll pattern replacement skip (some c) rest
  | 0,before,c :: rest =>
    match firstEnd pattern ⟨before,c :: rest,[]⟩ with
    | some ended => replacement ++ replaceAll pattern replacement (rest.length - ended.rest.length) (some c) rest
    | none => c :: replaceAll pattern replacement 0 (some c) rest

/-- The text of a named group of a match. -/
def Place.captured (name : String) (place : Place) : List Char :=
  match place.groups.find? (fun group => group.1 = name) with
  | some group => group.2
  | none => []

/-! ### Building blocks -/

def literal (text : String) : Pattern :=
  text.toList.foldr (fun c pattern => .seq (.one (fun other => other == c)) pattern) .empty

/-- The patterns one after the other. -/
def sequence (patterns : List Pattern) : Pattern := patterns.foldr .seq .empty

/-- One of the patterns, an earlier one first. -/
def choice (first : Pattern) (others : List Pattern) : Pattern := others.foldl .alt first

end Hookclose.Patterns
