import Hookclose.OutputLines

/-!
Numbers in messages. The pattern of the normaliser takes the words that are numbers as a
whole, so a number that letters follow directly stays as it is; two messages that differ in
numbers are normalised alike up to the first of these in which they differ.
-/
namespace Hookclose.NumberWords
open Hookclose.Patterns Hookclose.FailureAnalyzer Hookclose.TracebackLines Hookclose.OutputLines

/-! ### Numbers -/

def isHex (c : Char) : Bool := c.isDigit || ('a' ≤ c && c ≤ 'f') || ('A' ≤ c && c ≤ 'F')

/-- A number: decimal digits, or hexadecimal ones with their prefix. -/
inductive Literal : List Char → Prop
  | decimal {digits : List Char} (some : digits ≠ []) (all : ∀ c ∈ digits, isDecimal c = true) : Literal digits
  | hexadecimal {digits : List Char} (some : digits ≠ []) (all : ∀ c ∈ digits, isHex c = true) :
      Literal ('0' :: 'x' :: digits)

/-- What the interpreter's tables have in common: white space is no letter, and the decimal
    digits count as letters. -/
structure Regular (table : WordTable) : Prop where
  spaces : ∀ c, Text.isSpace c = true → table.isWord c = false
  decimals : ∀ c, isDecimal c = true → table.isWord c = true

/-- No letter follows. -/
def Free (table : WordTable) (rest : List Char) : Prop := rest.head?.any table.isWord = false

section
variable {table : WordTable} {text word rest : List Char} {b : Option Char}

theorem ascii_of_hex {c : Char} (hex : isHex c = true) : c.toNat < 128 ∧ c.isAlphanum = true := by
  have bound : c.toNat < 103 := by
    simp only [isHex,Char.isDigit,Bool.or_eq_true,Bool.and_eq_true,decide_eq_true_eq,ge_iff_le,Char.le_def,
      UInt32.le_iff_toNat_le] at hex
    simp only [Char.toNat]
    simp only [Char.reduceVal,UInt32.reduceToNat] at hex ⊢
    omega
  have all : ∀ n < 103, isHex (Char.ofNat n) = true → (Char.ofNat n).toNat < 128 ∧ (Char.ofNat n).isAlphanum = true := by
    decide
  have given := all c.toNat bound
  rw [Char.ofNat_toNat] at given
  exact given hex

theorem hex_word {c : Char} (hex : isHex c = true) : table.isWord c = true :=
  ascii_letter (ascii_of_hex hex).1 (ascii_of_hex hex).2

/-- A number is a word. -/
theorem literal_word (regular : Regular table) (number : Literal word) : ∀ c ∈ word, table.isWord c = true := by
  cases number with
  | decimal _ all => exact fun c member => regular.decimals c (all c member)
  | hexadecimal _ all =>
    rw [List.forall_mem_cons,List.forall_mem_cons]
    exact ⟨ascii_letter (by decide) (by decide),ascii_letter (by decide) (by decide),fun c member => hex_word (all c member)⟩

theorem literal_nonempty (number : Literal word) : word ≠ [] := by
  cases number with
  | decimal some _ => exact some
  | hexadecimal _ _ => simp

/-- The two ways of the pattern. -/
theorem num_parts (table : WordTable) (place : Place) : ends (numPattern table) place =
    ends (sequence [.boundary table.isWord,literal "0x",.many isHex 1 none,.boundary table.isWord]) place ++
      ends (sequence [.boundary table.isWord,.many isDecimal 1 none,.boundary table.isWord]) place := rfl

theorem mem_boundary {place ended : Place} (member : ended ∈ ends (.boundary table.isWord) place) :
    ended = place ∧ place.before.any table.isWord ≠ place.rest.head?.any table.isWord := by
  rw [ends] at member
  split_ifs at member with boundary
  · exact ⟨List.mem_singleton.mp member,by simpa [atBoundary] using boundary⟩
  · cases member

/-- Where a word has begun, a boundary ends it. -/
theorem free_of_boundary {place ended : Place} {run : List Char} (some : run ≠ []) (all : ∀ c ∈ run, table.isWord c = true)
    (last : place.before = run.getLast?.or b) (member : ended ∈ ends (.boundary table.isWord) place) :
    ended = place ∧ Free table place.rest := by
  obtain ⟨same,differs⟩ := mem_boundary member
  have inside : place.before.any table.isWord = true := by
    rw [last,List.getLast?_eq_some_getLast some]
    exact all _ (List.getLast_mem some)
  rw [inside] at differs
  exact ⟨same,by simpa [Free] using differs.symm⟩

/-- Where a word begins, the boundary is before it. -/
theorem outside_of_boundary {place ended : Place} {c : Char} (front : place.rest.head? = some c) (word : table.isWord c = true)
    (member : ended ∈ ends (.boundary table.isWord) place) : ended = place ∧ place.before.any table.isWord = false := by
  obtain ⟨same,differs⟩ := mem_boundary member
  rw [front] at differs
  refine ⟨same,?_⟩
  simpa [word] using differs

/-- What the pattern takes is a word that is a number. -/
theorem number_of_ended (regular : Regular table) {ended : Place} (member : ended ∈ ends (numPattern table) ⟨b,text,[]⟩) :
    b.any table.isWord = false ∧ ∃ word, Literal word ∧ text = word ++ ended.rest ∧ Free table ended.rest := by
  rw [num_parts] at member
  rcases List.mem_append.mp member with hexadecimal | decimal
  · unfold Patterns.sequence at hexadecimal
    rw [List.foldr_cons,List.foldr_cons,List.foldr_cons,List.foldr_cons,List.foldr_nil,ends] at hexadecimal
    obtain ⟨first,begun,rest⟩ := List.mem_flatMap.mp hexadecimal
    rw [ends] at rest
    obtain ⟨second,marked,rest⟩ := List.mem_flatMap.mp rest
    rw [ends] at rest
    obtain ⟨third,counted,rest⟩ := List.mem_flatMap.mp rest
    rw [ends] at rest
    obtain ⟨fourth,closed,rest⟩ := List.mem_flatMap.mp rest
    rw [ends,List.mem_singleton] at rest
    subst rest
    obtain ⟨run,split,enough,all,last⟩ := mem_ends_many counted
    have whole := mem_ends_literal marked
    have some : run ≠ [] := List.length_pos_iff.mp enough
    obtain ⟨rfl,free⟩ := free_of_boundary some (fun c member => hex_word (all c member)) last closed
    obtain ⟨rfl,_⟩ := mem_boundary begun
    have text' : text = '0' :: 'x' :: (run ++ ended.rest) := by
      rw [← split]
      exact whole
    obtain ⟨_,outside⟩ := @outside_of_boundary table ⟨b,text,[]⟩ _ '0' (by rw [text']; rfl)
      (ascii_letter (by decide) (by decide)) begun
    exact ⟨outside,_,.hexadecimal some all,text',free⟩
  · unfold Patterns.sequence at decimal
    rw [List.foldr_cons,List.foldr_cons,List.foldr_cons,List.foldr_nil,ends] at decimal
    obtain ⟨first,begun,rest⟩ := List.mem_flatMap.mp decimal
    rw [ends] at rest
    obtain ⟨second,counted,rest⟩ := List.mem_flatMap.mp rest
    rw [ends] at rest
    obtain ⟨third,closed,rest⟩ := List.mem_flatMap.mp rest
    rw [ends,List.mem_singleton] at rest
    subst rest
    obtain ⟨run,split,enough,all,last⟩ := mem_ends_many counted
    have some : run ≠ [] := List.length_pos_iff.mp enough
    obtain ⟨rfl,free⟩ := free_of_boundary some (fun c member => regular.decimals c (all c member)) last closed
    obtain ⟨rfl,_⟩ := mem_boundary begun
    cases run with
    | nil => exact absurd rfl some
    | cons c run =>
      obtain ⟨_,outside⟩ := @outside_of_boundary table ⟨b,text,[]⟩ _ c (by rw [show text = _ from split]; rfl)
        (regular.decimals c (all c List.mem_cons_self)) begun
      exact ⟨outside,_,.decimal some all,split,free⟩

/-- The word that a text begins with. -/
theorem word_unique {other later : List Char} (all : ∀ c ∈ word, table.isWord c = true) (free : Free table rest)
    (all' : ∀ c ∈ other, table.isWord c = true) (free' : Free table later) (same : word ++ rest = other ++ later) :
    word = other ∧ rest = later := by
  have first : word = other := by
    have run := takeWhile_run all free
    rw [same,takeWhile_run all' free'] at run
    exact run.symm
  subst first
  exact ⟨rfl,List.append_cancel_left same⟩

theorem boundary_before {g : List (String × List Char)} {c : Char} (outside : b.any table.isWord = false)
    (word : table.isWord c = true) (later : List Char) :
    ⟨b,c :: later,g⟩ ∈ ends (.boundary table.isWord) ⟨b,c :: later,g⟩ := by
  rw [ends,if_pos (by simp [atBoundary,outside,word])]
  exact List.mem_singleton_self _

theorem boundary_after {g : List (String × List Char)} {run : List Char} (some : run ≠ [])
    (all : ∀ c ∈ run, table.isWord c = true) (free : Free table rest) :
    ⟨run.getLast?.or b,rest,g⟩ ∈ ends (.boundary table.isWord) ⟨run.getLast?.or b,rest,g⟩ := by
  have inside : (run.getLast?.or b).any table.isWord = true := by
    rw [List.getLast?_eq_some_getLast some]
    exact all _ (List.getLast_mem some)
  have outside : rest.head?.any table.isWord = false := free
  rw [ends,if_pos (by simp [atBoundary,inside,outside])]
  exact List.mem_singleton_self _

/-- The pattern takes every word that is a number. -/
theorem number_found (regular : Regular table) (outside : b.any table.isWord = false) (number : Literal word)
    (free : Free table rest) : ∃ ended, firstEnd (numPattern table) ⟨b,word ++ rest,[]⟩ = some ended ∧ ended.rest = rest := by
  have reached : ∃ ended, ended ∈ ends (numPattern table) ⟨b,word ++ rest,[]⟩ := by
    rw [num_parts]
    cases number with
    | decimal some all =>
      have words : ∀ c ∈ word, table.isWord c = true := fun c member => regular.decimals c (all c member)
      refine ⟨⟨word.getLast?.or b,rest,[]⟩,List.mem_append_right _ ?_⟩
      unfold Patterns.sequence
      rw [List.foldr_cons,List.foldr_cons,List.foldr_cons,List.foldr_nil,ends]
      cases word with
      | nil => exact absurd rfl some
      | cons c word =>
        refine List.mem_flatMap.mpr ⟨_,boundary_before outside (words c List.mem_cons_self) (word ++ rest),?_⟩
        rw [ends]
        refine List.mem_flatMap.mpr ⟨_,@ends_many b [] isDecimal 1 (c :: word) rest all (Nat.le_add_left 1 _),?_⟩
        rw [ends]
        exact List.mem_flatMap.mpr ⟨_,boundary_after some words free,by simp [ends]⟩
    | @hexadecimal digits some all =>
      have words : ∀ c ∈ digits, table.isWord c = true := fun c member => hex_word (all c member)
      refine ⟨⟨digits.getLast?.or (Option.some 'x'),rest,[]⟩,List.mem_append_left _ ?_⟩
      unfold Patterns.sequence
      rw [List.foldr_cons,List.foldr_cons,List.foldr_cons,List.foldr_cons,List.foldr_nil,ends]
      refine List.mem_flatMap.mpr ⟨_,boundary_before outside (ascii_letter (by decide) (by decide)) ('x' :: (digits ++ rest)),?_⟩
      rw [ends]
      have marked : ends (literal "0x") ⟨b,'0' :: 'x' :: (digits ++ rest),[]⟩ = [⟨Option.some 'x',digits ++ rest,[]⟩] :=
        ends_literal "0x"
      rw [marked]
      refine List.mem_flatMap.mpr ⟨_,List.mem_singleton_self _,?_⟩
      rw [ends]
      refine List.mem_flatMap.mpr ⟨_,@ends_many (Option.some 'x') [] isHex 1 digits rest all (List.length_pos_iff.mpr some),?_⟩
      rw [ends]
      exact List.mem_flatMap.mpr ⟨_,boundary_after some words free,by simp [ends]⟩
  obtain ⟨ended,member⟩ := reached
  cases found : firstEnd (numPattern table) ⟨b,word ++ rest,[]⟩ with
  | none =>
    rw [firstEnd,List.head?_eq_none_iff] at found
    rw [found] at member
    cases member
  | some first =>
    obtain ⟨_,other,isNumber,split,free'⟩ := number_of_ended regular (List.mem_of_mem_head? found)
    exact ⟨first,rfl,(word_unique (literal_word regular number) free (literal_word regular isNumber) free' split).2.symm⟩

/-! ### Numbers replaced -/

/-- No number begins the text: either a word goes on, or its first word is none. -/
def Unnumbered (table : WordTable) (inWord : Bool) (text : List Char) : Prop :=
  inWord = false → ∀ word rest, Literal word → text = word ++ rest → ¬ Free table rest

/-- The text with its numbers replaced, from inside a word or outside. -/
def normal (table : WordTable) (inWord : Bool) (text : List Char) : List Char :=
  replaceAll (numPattern table) ['N'] 0 (if inWord then some '_' else none) text

theorem unnumbered_missed (regular : Regular table) (unnumbered : Unnumbered table (b.any table.isWord) text) :
    firstEnd (numPattern table) ⟨b,text,[]⟩ = none := by
  cases found : firstEnd (numPattern table) ⟨b,text,[]⟩ with
  | none => rfl
  | some ended =>
    obtain ⟨outside,word,number,split,free⟩ := number_of_ended regular (List.mem_of_mem_head? found)
    exact absurd free (unnumbered outside word ended.rest number split)

/-- A text begins with a number or not. -/
theorem number_cases (table : WordTable) (inWord : Bool) (text : List Char) :
    (inWord = false ∧ ∃ word rest, Literal word ∧ text = word ++ rest ∧ Free table rest) ∨ Unnumbered table inWord text := by
  by_cases found : inWord = false ∧ ∃ word rest, Literal word ∧ text = word ++ rest ∧ Free table rest
  · exact .inl found
  · exact .inr (fun outside word rest number split free => found ⟨outside,word,rest,number,split,free⟩)

/-- Of what stands before the text only matters whether a word goes on. -/
theorem replaceAll_before (regular : Regular table) {before : Option Char}
    (same : b.any table.isWord = before.any table.isWord) (text : List Char) :
    replaceAll (numPattern table) ['N'] 0 b text = replaceAll (numPattern table) ['N'] 0 before text := by
  cases text with
  | nil => rfl
  | cons c rest =>
    rcases number_cases table (b.any table.isWord) (c :: rest) with ⟨outside,word,later,number,split,free⟩ | unnumbered
    · cases word with
      | nil => exact absurd rfl (literal_nonempty number)
      | cons d word =>
        obtain ⟨_,found,stops⟩ := number_found regular outside number free
        obtain ⟨_,found',stops'⟩ := number_found regular (same ▸ outside) number free
        rw [split]
        rw [List.cons_append] at found found' ⊢
        rw [replaceAll_found found stops,replaceAll_found found' stops']
    · rw [replaceAll_missed (unnumbered_missed regular unnumbered),
        replaceAll_missed (unnumbered_missed regular (same ▸ unnumbered))]

theorem any_state (table : WordTable) (inWord : Bool) :
    (if inWord then some '_' else none : Option Char).any table.isWord = inWord := by
  cases inWord with
  | false => rfl
  | true => simp [table.ascii '_' (by decide)]

theorem normal_nil (inWord : Bool) : normal table inWord [] = [] := by
  rw [normal,replaceAll]

theorem normal_kept (regular : Regular table) {inWord : Bool} {c : Char} (unnumbered : Unnumbered table inWord (c :: rest)) :
    normal table inWord (c :: rest) = c :: normal table (table.isWord c) rest := by
  rw [← any_state table inWord] at unnumbered
  rw [normal,replaceAll_missed (unnumbered_missed regular unnumbered),normal]
  exact congrArg _ (replaceAll_before regular (by rw [any_state]; rfl) rest)

theorem normal_number (regular : Regular table) (number : Literal word) (free : Free table rest) :
    normal table false (word ++ rest) = 'N' :: normal table true rest := by
  have words := literal_word regular number
  cases word with
  | nil => exact absurd rfl (literal_nonempty number)
  | cons c word =>
    obtain ⟨ended,found,stops⟩ := @number_found table (c :: word) rest none regular rfl number free
    have last : (word.getLast?.or (some c)).any table.isWord = true := by
      cases word using List.reverseRecOn with
      | nil => simpa using words c List.mem_cons_self
      | append_singleton word d _ => simpa using words d (by simp)
    rw [normal,if_neg (by simp),List.cons_append,replaceAll_found found stops,normal]
    exact congrArg _ (replaceAll_before regular (by rw [any_state]; exact last) rest)

/-! ### Word by word -/

theorem unnumbered_outside (regular : Regular table) {inWord : Bool} {c : Char} (outside : table.isWord c = false) :
    Unnumbered table inWord (c :: rest) := by
  intro _ word later number split _
  cases word with
  | nil => exact literal_nonempty number rfl
  | cons d word =>
    obtain ⟨rfl,_⟩ := List.cons.inj split
    rw [literal_word regular number c List.mem_cons_self] at outside
    cases outside

theorem normal_outside (regular : Regular table) {inWord : Bool} {c : Char} (outside : table.isWord c = false) :
    normal table inWord (c :: rest) = c :: normal table false rest := by
  rw [normal_kept regular (unnumbered_outside regular outside),outside]

/-- Where no word goes on it does not matter whether one did. -/
theorem normal_free (regular : Regular table) (free : Free table rest) : normal table true rest = normal table false rest := by
  cases rest with
  | nil => rw [normal_nil,normal_nil]
  | cons c rest =>
    have outside : table.isWord c = false := by simpa [Free] using free
    rw [normal_outside regular outside,normal_outside regular outside]

theorem normal_inside (regular : Regular table) (words : ∀ c ∈ word, table.isWord c = true) (rest : List Char) :
    normal table true (word ++ rest) = word ++ normal table true rest := by
  induction word with
  | nil => rfl
  | cons c word ih =>
    obtain ⟨own,others⟩ := List.forall_mem_cons.mp words
    have inside : Unnumbered table true (c :: (word ++ rest)) := fun outside => absurd outside (by simp)
    rw [List.cons_append,normal_kept regular inside,own,ih others,List.cons_append]

/-- A word that is no number stays. -/
theorem normal_unnumbered (regular : Regular table) (words : ∀ c ∈ word, table.isWord c = true) (plain : ¬ Literal word)
    (free : Free table rest) : normal table false (word ++ rest) = word ++ normal table true rest := by
  cases word with
  | nil => exact (normal_free regular free).symm
  | cons c word =>
    obtain ⟨own,others⟩ := List.forall_mem_cons.mp words
    have unnumbered : Unnumbered table false (c :: (word ++ rest)) := by
      intro _ other later number split free'
      obtain ⟨rfl,_⟩ := @word_unique table (c :: word) rest other later words free (literal_word regular number) free' split
      exact plain number
    rw [List.cons_append,normal_kept regular unnumbered,own,normal_inside regular others,List.cons_append]

theorem free_nil (table : WordTable) : Free table [] := rfl

/-- The first word of a text is normalised by itself. -/
theorem normal_word (regular : Regular table) (words : ∀ c ∈ word, table.isWord c = true) (free : Free table rest) :
    normal table false (word ++ rest) = normal table false word ++ normal table false rest := by
  by_cases number : Literal word
  · have alone := normal_number regular number (free_nil table)
    rw [List.append_nil,normal_nil] at alone
    rw [normal_number regular number free,alone,normal_free regular free]
    rfl
  · have alone := normal_unnumbered regular words number (free_nil table)
    rw [List.append_nil,normal_nil,List.append_nil] at alone
    rw [normal_unnumbered regular words number free,alone,normal_free regular free]

/-- A text by its words. -/
theorem by_words {P : List Char → Prop} (table : WordTable) (nil : P [])
    (other : ∀ c text, table.isWord c = false → P text → P (c :: text))
    (word : ∀ word text, word ≠ [] → (∀ c ∈ word, table.isWord c = true) → Free table text → P text → P (word ++ text))
    (text : List Char) : P text := by
  cases text with
  | nil => exact nil
  | cons c text =>
    cases inside : table.isWord c with
    | false => exact other c text inside (by_words table nil other word text)
    | true =>
      have single : ∀ d ∈ [c], table.isWord d = true := by simpa using inside
      obtain ⟨run,later,same,some,words,free⟩ := longest_run single (by simp) text
      rw [show c :: text = run ++ later from same]
      have shorter : later.length ≤ text.length := by
        have lengths := congrArg List.length same
        have pos := List.length_pos_iff.mpr some
        simp only [List.length_append,List.length_cons,List.length_nil] at lengths
        omega
      exact word run later some words free (by_words table nil other word later)
termination_by text.length

/-- Where no word goes on a text is normalised by itself. -/
theorem normal_append (regular : Regular table) (first : List Char) {rest : List Char}
    (apart : first.getLast?.any table.isWord = false ∨ Free table rest) :
    normal table false (first ++ rest) = normal table false first ++ normal table false rest := by
  induction first using by_words table with
  | nil => rw [normal_nil]; rfl
  | other c text outside ih =>
    rw [List.cons_append,normal_outside regular outside,normal_outside regular outside,List.cons_append]
    cases text with
    | nil => rw [ih (.inl rfl)]
    | cons d text => rw [ih (apart.imp_left (fun closed => by rwa [List.getLast?_cons_cons] at closed))]
  | word word text some words free ih =>
    have apart' : text.getLast?.any table.isWord = false ∨ Free table rest := by
      cases text with
      | nil => exact .inl rfl
      | cons d text => exact apart.imp_left (fun closed => by rwa [List.getLast?_append_of_ne_nil _ (by simp)] at closed)
    have free' : Free table (text ++ rest) := by
      cases text with
      | cons d text => exact free
      | nil =>
        refine apart.resolve_left ?_
        rw [List.append_nil,List.getLast?_eq_some_getLast some,Option.any_some,words _ (List.getLast_mem some)]
        simp
    rw [List.append_assoc,normal_word regular words free',normal_word regular words free,ih apart',List.append_assoc]

/-! ### Blanks -/

theorem normal_one_word (regular : Regular table) (words : ∀ c ∈ word, table.isWord c = true) :
    (Literal word ∧ normal table false word = ['N']) ∨ normal table false word = word := by
  by_cases number : Literal word
  · have alone := normal_number regular number (free_nil table)
    rw [List.append_nil,normal_nil] at alone
    exact .inl ⟨number,alone⟩
  · have alone := normal_unnumbered regular words number (free_nil table)
    rw [List.append_nil,normal_nil,List.append_nil] at alone
    exact .inr alone

/-- A word is normalised to something, without blanks. -/
theorem normal_solid (regular : Regular table) (some : word ≠ []) (words : ∀ c ∈ word, table.isWord c = true) :
    normal table false word ≠ [] ∧ ∀ c ∈ normal table false word, Text.isSpace c = false := by
  rcases normal_one_word regular words with ⟨_,same⟩ | same
  · rw [same]
    refine ⟨by simp,fun c member => ?_⟩
    rw [List.mem_singleton.mp member]
    decide
  · rw [same]
    refine ⟨some,fun c member => ?_⟩
    cases blank : Text.isSpace c with
    | false => rfl
    | true =>
      have outside := regular.spaces c blank
      rw [words c member] at outside
      cases outside

theorem normal_eq_nil (regular : Regular table) (empty : normal table false text = []) : text = [] := by
  induction text using by_words table with
  | nil => rfl
  | other c text outside _ =>
    rw [normal_outside regular outside] at empty
    cases empty
  | word word text some words free _ =>
    rw [normal_word regular words free] at empty
    exact absurd (List.append_eq_nil_iff.mp empty).1 (normal_solid regular some words).1

theorem normal_begins (regular : Regular table) (begins : text.head?.any Text.isSpace = false) :
    (normal table false text).head?.any Text.isSpace = false := by
  induction text using by_words table with
  | nil => rw [normal_nil]; rfl
  | other c text outside _ =>
    rw [normal_outside regular outside]
    exact begins
  | word word text some words free _ =>
    obtain ⟨some',all⟩ := normal_solid regular some words
    rw [normal_word regular words free]
    cases shown : normal table false word with
    | nil => exact absurd shown some'
    | cons c later => simpa using all c (by rw [shown]; exact List.mem_cons_self)

theorem normal_ends (regular : Regular table) (ends : text.getLast?.any Text.isSpace = false) :
    (normal table false text).getLast?.any Text.isSpace = false := by
  induction text using by_words table with
  | nil => rw [normal_nil]; rfl
  | other c text outside ih =>
    rw [normal_outside regular outside]
    cases text with
    | nil => rwa [normal_nil]
    | cons d text =>
      rw [List.getLast?_cons_cons] at ends
      have later := ih ends
      cases shown : normal table false (d :: text) with
      | nil => cases normal_eq_nil regular shown
      | cons e rest =>
        rw [shown] at later
        rwa [List.getLast?_cons_cons]
  | word word text some words free ih =>
    obtain ⟨some',all⟩ := normal_solid regular some words
    rw [normal_word regular words free]
    cases text with
    | nil =>
      rw [normal_nil,List.append_nil,List.getLast?_eq_some_getLast some',Option.any_some]
      exact all _ (List.getLast_mem some')
    | cons d text =>
      rw [List.getLast?_append_of_ne_nil _ (by simp)] at ends
      rw [List.getLast?_append_of_ne_nil _ (fun empty => by cases normal_eq_nil regular empty)]
      exact ih ends

/-- Blanks around a text can be taken away before its numbers are replaced. -/
theorem strip_normal (regular : Regular table) (text : List Char) :
    Text.strip (normal table false text) = normal table false (Text.strip text) := by
  have front : ∀ text : List Char,
      Text.strip (normal table false (text.dropWhile Text.isSpace)) = Text.strip (normal table false text) := by
    intro text
    induction text with
    | nil => rfl
    | cons c text ih =>
      cases blank : Text.isSpace c with
      | true =>
        rw [List.dropWhile_cons_of_pos blank,ih,normal_outside regular (regular.spaces c blank),strip_cons blank]
      | false => rw [List.dropWhile_cons_of_neg (by simp [blank])]
  have back : ∀ text : List Char,
      Text.strip (normal table false (text.dropWhile Text.isSpace).reverse) = Text.strip (normal table false text.reverse) := by
    intro text
    induction text with
    | nil => rfl
    | cons c text ih =>
      cases blank : Text.isSpace c with
      | true =>
        have outside := regular.spaces c blank
        have single : normal table false [c] = [c] := by rw [normal_outside regular outside,normal_nil]
        rw [List.dropWhile_cons_of_pos blank,ih,List.reverse_cons,
          normal_append regular _ (.inr (by simpa [Free] using outside)),single,strip_concat blank]
      | false => rw [List.dropWhile_cons_of_neg (by simp [blank])]
  rw [← strip_bare ((⟨normal_begins regular (bare_strip text).begins,normal_ends regular (bare_strip text).ends⟩ : Bare _)),Text.strip.eq_1 text,back,List.reverse_reverse,front]

end

/-! ### Changed numbers -/

/-- Decimal digits. -/
structure Digits (digits : List Char) : Prop where
  some : digits ≠ []
  all : ∀ c ∈ digits, isDecimal c = true

/-- Two texts that differ in numbers only: maximal runs of digits that no letter stands
    before, and hexadecimal words; each is replaced by another of its kind. The first
    argument tells whether a letter stands before. -/
inductive Renumbered (table : WordTable) : Bool → List Char → List Char → Prop
  | ended {inWord : Bool} : Renumbered table inWord [] []
  | kept {inWord : Bool} {c : Char} {s t : List Char} (rest : Renumbered table (table.isWord c) s t) :
      Renumbered table inWord (c :: s) (c :: t)
  | decimal {d e s t : List Char} (old : Digits d) (new : Digits e) (ends : s.head?.any isDecimal = false)
      (ends' : t.head?.any isDecimal = false) (rest : Renumbered table true s t) :
      Renumbered table false (d ++ s) (e ++ t)
  | hexadecimal {d e s t : List Char} (old : d ≠ [] ∧ ∀ c ∈ d, isHex c = true) (new : e ≠ [] ∧ ∀ c ∈ e, isHex c = true)
      (free : Free table s) (free' : Free table t) (rest : Renumbered table true s t) :
      Renumbered table false ('0' :: 'x' :: d ++ s) ('0' :: 'x' :: e ++ t)

/-- How far two texts agree. -/
def agreement : List Char → List Char → Nat
  | c :: s,d :: t => if c = d then agreement s t + 1 else 0
  | _,_ => 0

/-- The letters that follow digits directly. -/
structure Unit (table : WordTable) (unit : List Char) : Prop where
  some : unit ≠ []
  words : ∀ c ∈ unit, table.isWord c = true
  ends : unit.head?.any isDecimal = false

/-- A changed run of digits, directly followed by letters, after texts that are normalised
    alike; the place is that of the first character in which the normalised texts differ. -/
inductive Leak (table : WordTable) : List Char → List Char → Nat → Prop
  | intro {a b d e unit s t : List Char} (closed : a.getLast?.any table.isWord = false)
      (closed' : b.getLast?.any table.isWord = false) (alike : normal table false a = normal table false b)
      (old : Digits d) (new : Digits e) (changed : d ≠ e) (follows : Unit table unit) (free : Free table s)
      (free' : Free table t) :
      Leak table (a ++ (d ++ unit ++ s)) (b ++ (e ++ unit ++ t))
        ((normal table false a).length + agreement (normal table false (d ++ unit)) (normal table false (e ++ unit)))

section
variable {table : WordTable} {s t : List Char}

theorem take_agreement {a b : List Char} (left : agreement a b < a.length) (right : agreement a b < b.length)
    (s t : List Char) (n : Nat) : (a ++ s).take n = (b ++ t).take n ↔ n ≤ agreement a b := by
  induction n generalizing a b with
  | zero => simp
  | succ n ih =>
    cases a with
    | nil => simp at left
    | cons c a =>
      cases b with
      | nil => simp at right
      | cons d b =>
        by_cases same : c = d
        · subst same
          simp only [agreement,if_true,List.length_cons,Nat.add_lt_add_iff_right] at left right
          simp only [List.cons_append,List.take_succ_cons,List.cons.injEq,true_and,agreement,if_true,ih left right]
          omega
        · simp [agreement,same]

/-- Different digits before the same letters: one text is not the beginning of the other. -/
theorem digits_diverge {d e unit : List Char} (old : ∀ c ∈ d, isDecimal c = true) (new : ∀ c ∈ e, isDecimal c = true)
    (changed : d ≠ e) (follows : Unit table unit) :
    agreement (d ++ unit) (e ++ unit) < (d ++ unit).length ∧ agreement (d ++ unit) (e ++ unit) < (e ++ unit).length := by
  obtain ⟨some,_,ends⟩ := follows
  cases unit with
  | nil => exact absurd rfl some
  | cons u unit =>
    have plain : isDecimal u = false := by simpa using ends
    induction d generalizing e with
    | nil =>
      cases e with
      | nil => exact absurd rfl changed
      | cons y e =>
        have differs : u ≠ y := by
          rintro rfl
          rw [new u List.mem_cons_self] at plain
          cases plain
        simp [agreement,differs]
    | cons x d ih =>
      obtain ⟨digit,old⟩ := List.forall_mem_cons.mp old
      cases e with
      | nil =>
        have differs : x ≠ u := by
          rintro rfl
          rw [digit] at plain
          cases plain
        simp [agreement,differs]
      | cons y e =>
        by_cases same : x = y
        · subst same
          have later := ih old (fun c member => new c (List.mem_cons_of_mem _ member)) (fun equal => changed (by rw [equal]))
          simpa [agreement] using later
        · simp [agreement,same]

/-- A run of digits and letters is no decimal number. -/
theorem unit_literal {d unit : List Char} (old : Digits d) (follows : Unit table unit) (number : Literal (d ++ unit)) :
    d = ['0'] := by
  obtain ⟨some,_,ends⟩ := follows
  cases unit with
  | nil => exact absurd rfl some
  | cons u unit =>
    have plain : isDecimal u = false := by simpa using ends
    generalize whole : d ++ u :: unit = word at number
    cases number with
    | decimal _ all =>
      have digit := all u (by rw [← whole]; simp)
      rw [plain] at digit
      cases digit
    | hexadecimal _ _ =>
      cases d with
      | nil => exact absurd rfl old.some
      | cons x d =>
        cases d with
        | nil =>
          obtain ⟨rfl,_⟩ := List.cons.inj whole
          rfl
        | cons y d =>
          obtain ⟨_,rest⟩ := List.cons.inj whole
          obtain ⟨rfl,_⟩ := List.cons.inj rest
          exact absurd (old.all 'x' (by simp)) (by decide)

/-- Where digits before letters are changed, the normalised texts differ. -/
theorem changed_diverge (regular : Regular table) {d e unit : List Char} (old : Digits d) (new : Digits e) (changed : d ≠ e)
    (follows : Unit table unit) :
    agreement (normal table false (d ++ unit)) (normal table false (e ++ unit)) < (normal table false (d ++ unit)).length ∧
      agreement (normal table false (d ++ unit)) (normal table false (e ++ unit)) <
        (normal table false (e ++ unit)).length := by
  have shown : ∀ digits : List Char, Digits digits →
      (digits = ['0'] ∧ normal table false (digits ++ unit) = ['N']) ∨
        normal table false (digits ++ unit) = digits ++ unit := by
    intro digits isDigits
    have words : ∀ c ∈ digits ++ unit, table.isWord c = true :=
      List.forall_mem_append.mpr ⟨fun c member => regular.decimals c (isDigits.all c member),follows.words⟩
    exact (normal_one_word regular words).imp_left (fun alone => ⟨unit_literal isDigits follows alone.1,alone.2⟩)
  have letter : ∀ digits : List Char, Digits digits → agreement ['N'] (digits ++ unit) = 0 ∧
      agreement (digits ++ unit) ['N'] = 0 ∧ 0 < (digits ++ unit).length := by
    intro digits isDigits
    cases digits with
    | nil => exact absurd rfl isDigits.some
    | cons x digits =>
      have differs : x ≠ 'N' := by
        rintro rfl
        exact absurd (isDigits.all 'N' List.mem_cons_self) (by decide)
      simp [agreement,differs,Ne.symm differs]
  rcases shown d old with ⟨rfl,first⟩ | first
  · rcases shown e new with ⟨rfl,_⟩ | second
    · exact absurd rfl changed
    · rw [first,second,(letter e new).1]
      exact ⟨by decide,(letter e new).2.2⟩
  · rcases shown e new with ⟨rfl,second⟩ | second
    · rw [first,second,(letter d old).2.1]
      exact ⟨(letter d old).2.2,by decide⟩
    · rw [first,second]
      exact digits_diverge old.all new.all changed follows

/-- Two first words of texts that differ in numbers. -/
inductive WordPair (table : WordTable) : List Char → List Char → Prop
  | same {word : List Char} : WordPair table word word
  | numbers {v w : List Char} (old : Literal v) (new : Literal w) : WordPair table v w
  | changed {d e unit : List Char} (old : Digits d) (new : Digits e) (changed : d ≠ e) (follows : Unit table unit) :
      WordPair table (d ++ unit) (e ++ unit)

/-- Texts that differ in numbers, word by word. -/
inductive Paired (table : WordTable) : List Char → List Char → Prop
  | ended : Paired table [] []
  | other {c : Char} {s t : List Char} (outside : table.isWord c = false) (rest : Paired table s t) :
      Paired table (c :: s) (c :: t)
  | word {v w s t : List Char} (some : v ≠ [] ∧ w ≠ []) (words : ∀ c ∈ v ++ w, table.isWord c = true)
      (free : Free table s) (free' : Free table t) (pair : WordPair table v w) (rest : Paired table s t) :
      Paired table (v ++ s) (w ++ t)

theorem digits_word (regular : Regular table) {d : List Char} (digits : Digits d) : ∀ c ∈ d, table.isWord c = true :=
  fun c member => regular.decimals c (digits.all c member)

/-- Inside a word the two texts go on alike to its end. -/
theorem paired_of_renumbered (regular : Regular table) {inWord : Bool} (renumbered : Renumbered table inWord s t) :
    (inWord = false → Paired table s t) ∧
    (inWord = true → ∃ run s' t', s = run ++ s' ∧ t = run ++ t' ∧ (∀ c ∈ run, table.isWord c = true) ∧ Free table s' ∧
      Free table t' ∧ Paired table s' t') := by
  induction renumbered with
  | ended => exact ⟨fun _ => .ended,fun _ => ⟨[],[],[],rfl,rfl,by simp,rfl,rfl,.ended⟩⟩
  | @kept inWord c s t _ ih =>
    cases own : table.isWord c with
    | false =>
      have rest := ih.1 own
      have free : ∀ text, Free table (c :: text) := by
        intro text
        simpa [Free] using own
      exact ⟨fun _ => .other own rest,fun _ => ⟨[],_,_,rfl,rfl,by simp,free s,free t,.other own rest⟩⟩
    | true =>
      obtain ⟨run,s',t',rfl,rfl,words,free,free',rest⟩ := ih.2 own
      have words' : ∀ d ∈ c :: run, table.isWord d = true := List.forall_mem_cons.mpr ⟨own,words⟩
      exact ⟨fun _ => .word ⟨by simp,by simp⟩ (List.forall_mem_append.mpr ⟨words',words'⟩) free free' .same rest,
        fun _ => ⟨c :: run,s',t',rfl,rfl,words',free,free',rest⟩⟩
  | @decimal d e s t old new ends ends' _ ih =>
    refine ⟨fun _ => ?_,fun contrary => by cases contrary⟩
    obtain ⟨run,s',t',rfl,rfl,words,free,free',rest⟩ := ih.2 rfl
    have pair : WordPair table (d ++ run) (e ++ run) := by
      by_cases equal : d = e
      · subst equal
        exact .same
      · cases run with
        | nil =>
          rw [List.append_nil,List.append_nil]
          exact .numbers (.decimal old.some old.all) (.decimal new.some new.all)
        | cons u run => exact .changed old new equal ⟨by simp,words,by simpa using ends⟩
    have all : ∀ c ∈ (d ++ run) ++ (e ++ run), table.isWord c = true := by
      simp only [List.forall_mem_append]
      exact ⟨⟨digits_word regular old,words⟩,digits_word regular new,words⟩
    rw [← List.append_assoc,← List.append_assoc]
    exact .word ⟨by simp [old.some],by simp [new.some]⟩ all free free' pair rest
  | @hexadecimal d e s t old new free free' _ ih =>
    refine ⟨fun _ => ?_,fun contrary => by cases contrary⟩
    obtain ⟨run,s',t',rfl,rfl,words,_,_,rest⟩ := ih.2 rfl
    cases run with
    | cons c run =>
      have inside := words c List.mem_cons_self
      simp [Free,inside] at free
    | nil =>
      have first := Literal.hexadecimal old.1 old.2
      have second := Literal.hexadecimal new.1 new.2
      exact .word ⟨by simp,by simp⟩ (List.forall_mem_append.mpr ⟨literal_word regular first,literal_word regular second⟩)
        free free' (.numbers first second) rest

theorem Leak.cons (regular : Regular table) {c : Char} {i : Nat} (outside : table.isWord c = false) (leak : Leak table s t i) :
    Leak table (c :: s) (c :: t) (i + 1) := by
  obtain ⟨closed,closed',alike,old,new,changed,follows,free,free'⟩ := leak
  rename_i a b d e unit s t
  have before : ∀ text : List Char, text.getLast?.any table.isWord = false →
      (c :: text).getLast?.any table.isWord = false := by
    intro text closed
    cases text with
    | nil => simpa using outside
    | cons x text => rwa [List.getLast?_cons_cons]
  have whole := Leak.intro (before a closed) (before b closed') (by
    rw [normal_outside regular outside,normal_outside regular outside,alike]) old new changed follows free free'
  rw [normal_outside regular outside,List.length_cons,Nat.add_right_comm] at whole
  exact whole

/-- Where no word begins, digits do not stand first. -/
theorem nonempty_of_free (regular : Regular table) {a d rest : List Char} (digits : Digits d)
    (free : Free table (a ++ (d ++ rest))) : a ≠ [] := by
  rintro rfl
  obtain ⟨some,all⟩ := digits
  cases d with
  | nil => exact some rfl
  | cons c d =>
    have word := regular.decimals c (all c List.mem_cons_self)
    simp [Free,word] at free

theorem free_append {a rest : List Char} (some : a ≠ []) (free : Free table (a ++ rest)) : Free table a := by
  cases a with
  | nil => exact absurd rfl some
  | cons c a => exact free

theorem Leak.word (regular : Regular table) {v w : List Char} {i : Nat} (words : ∀ c ∈ v ++ w, table.isWord c = true)
    (free : Free table s) (free' : Free table t) (same : normal table false v = normal table false w)
    (leak : Leak table s t i) : Leak table (v ++ s) (w ++ t) ((normal table false v).length + i) := by
  rw [List.forall_mem_append] at words
  obtain ⟨closed,closed',alike,old,new,changed,follows,ends,ends'⟩ := leak
  rename_i a b d e unit s t
  rw [List.append_assoc] at free free'
  have some := nonempty_of_free regular old free
  have some' := nonempty_of_free regular new free'
  have first := normal_word regular words.1 (free_append some free)
  have second := normal_word regular words.2 (free_append some' free')
  have whole := @Leak.intro table (v ++ a) (w ++ b) d e unit s t (by rwa [List.getLast?_append_of_ne_nil _ some])
    (by rwa [List.getLast?_append_of_ne_nil _ some']) (by rw [first,second,same,alike]) old new changed follows ends ends'
  rw [first,List.length_append,Nat.add_assoc,List.append_assoc v,List.append_assoc w] at whole
  exact whole

/-- Two words that differ in numbers are normalised alike, unless a changed run of digits is
    followed by letters. -/
theorem normal_pair (regular : Regular table) {v w : List Char} (pair : WordPair table v w) :
    normal table false v = normal table false w ∨
      ∃ d e unit, v = d ++ unit ∧ w = e ++ unit ∧ Digits d ∧ Digits e ∧ d ≠ e ∧ Unit table unit := by
  cases pair with
  | same => exact .inl rfl
  | numbers old new =>
    have first := normal_number regular old (free_nil table)
    have second := normal_number regular new (free_nil table)
    rw [List.append_nil] at first second
    exact .inl (first.trans second.symm)
  | changed old new changed follows => exact .inr ⟨_,_,_,rfl,rfl,old,new,changed,follows⟩

/-- Texts that differ in numbers are normalised alike, or there is a leak. -/
theorem alike_or_leak (regular : Regular table) (paired : Paired table s t) :
    normal table false s = normal table false t ∨ ∃ i, Leak table s t i := by
  induction paired with
  | ended => exact .inl rfl
  | other outside _ ih =>
    rcases ih with alike | ⟨i,leak⟩
    · rw [normal_outside regular outside,normal_outside regular outside,alike]
      exact .inl rfl
    · exact .inr ⟨_,leak.cons regular outside⟩
  | @word v w s t some words free free' pair _ ih =>
    have each := List.forall_mem_append.mp words
    rcases normal_pair regular pair with same | ⟨d,e,unit,rfl,rfl,old,new,changed,follows⟩
    · rcases ih with alike | ⟨i,leak⟩
      · rw [normal_word regular each.1 free,normal_word regular each.2 free',same,alike]
        exact .inl rfl
      · exact .inr ⟨_,leak.word regular words free free' same⟩
    · exact .inr ⟨_,@Leak.intro table [] [] d e unit s t rfl rfl rfl old new changed follows free free'⟩

/-- At a leak the normalised texts differ for the first time. -/
theorem Leak.take_iff (regular : Regular table) {i : Nat} (leak : Leak table s t i) (n : Nat) :
    (normal table false s).take n = (normal table false t).take n ↔ n ≤ i := by
  obtain ⟨closed,closed',alike,old,new,changed,follows,free,free'⟩ := leak
  rename_i a b d e unit s t
  have words : ∀ digits : List Char, Digits digits → ∀ c ∈ digits ++ unit, table.isWord c = true :=
    fun digits isDigits => List.forall_mem_append.mpr ⟨digits_word regular isDigits,follows.words⟩
  obtain ⟨left,right⟩ := changed_diverge regular old new changed follows
  rw [normal_append regular a (.inl closed),normal_append regular b (.inl closed'),← alike,normal_word regular (words d old) free,
    normal_word regular (words e new) free']
  generalize normal table false a = front
  have later : (front ++ (normal table false (d ++ unit) ++ normal table false s)).take n =
      (front ++ (normal table false (e ++ unit) ++ normal table false t)).take n ↔
        (normal table false (d ++ unit) ++ normal table false s).take (n - front.length) =
          (normal table false (e ++ unit) ++ normal table false t).take (n - front.length) := by
    rw [@List.take_append _ front,@List.take_append _ front,List.append_cancel_left_eq]
  rw [later,take_agreement left right]
  omega

/-- Texts that differ in numbers are normalised alike as far as no leak shows. -/
theorem normal_take_iff (regular : Regular table) (renumbered : Renumbered table false s t) (n : Nat) :
    (normal table false s).take n = (normal table false t).take n ↔ ∀ i, Leak table s t i → n ≤ i := by
  constructor
  · exact fun alike i leak => (leak.take_iff regular n).mp alike
  · intro later
    rcases alike_or_leak regular ((paired_of_renumbered regular renumbered).1 rfl) with alike | ⟨i,leak⟩
    · rw [alike]
    · exact (leak.take_iff regular n).mpr (later i leak)

end

end Hookclose.NumberWords
