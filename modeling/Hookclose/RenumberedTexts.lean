import Hookclose.NumberWords

/-!
Texts that differ in numbers only: what is no number is in both of them at the same place.
They can be put together and taken apart where no word goes on, and words that cannot be
part of a number stay in them.
-/
namespace Hookclose.NumberWords
open Hookclose.Patterns Hookclose.FailureAnalyzer Hookclose.TracebackLines Hookclose.OutputLines

section
variable {table : WordTable} {inWord : Bool} {a s t w rest : List Char}

namespace Renumbered

theorem refl (inWord : Bool) (text : List Char) : Renumbered table inWord text text := by
  induction text generalizing inWord with
  | nil => exact .ended
  | cons c text ih => exact .kept (ih _)

theorem symm (renumbered : Renumbered table inWord s t) : Renumbered table inWord t s := by
  induction renumbered with
  | ended => exact .ended
  | kept _ ih => exact .kept ih
  | decimal old new ends ends' _ ih => exact .decimal new old ends' ends ih
  | hexadecimal old new free free' _ ih => exact .hexadecimal new old free' free ih

/-! ### The first character -/

/-- A character that is no digit stays, and inside a word every character does. -/
theorem cons {c : Char} (fixed : isDecimal c = false ∨ inWord = true) (renumbered : Renumbered table inWord (c :: s) t) :
    ∃ u, t = c :: u ∧ Renumbered table (table.isWord c) s u := by
  generalize whole : c :: s = text at renumbered
  cases renumbered with
  | ended => cases whole
  | kept rest =>
    cases whole
    exact ⟨_,rfl,rest⟩
  | @decimal d e s t old new ends ends' rest =>
    have digit := fixed.resolve_right (by simp)
    cases d with
    | nil => exact absurd rfl old.some
    | cons x d =>
      cases whole
      rw [old.all c List.mem_cons_self] at digit
      cases digit
  | hexadecimal old new free free' rest =>
    have digit := fixed.resolve_right (by simp)
    cases whole
    exact absurd digit (by decide)

/-- Characters that are no digits stay. -/
theorem front (fixed : ∀ c ∈ w, isDecimal c = false) (renumbered : Renumbered table inWord (w ++ s) t) :
    ∃ u inWord', t = w ++ u ∧ Renumbered table inWord' s u := by
  induction w generalizing inWord t with
  | nil => exact ⟨t,inWord,rfl,renumbered⟩
  | cons c w ih =>
    obtain ⟨own,others⟩ := List.forall_mem_cons.mp fixed
    obtain ⟨_,rfl,later⟩ := cons (.inl own) renumbered
    obtain ⟨u,inWord',rfl,rest⟩ := ih others later
    exact ⟨u,inWord',rfl,rest⟩

theorem nil (renumbered : Renumbered table inWord [] t) : t = [] := by
  generalize whole : ([] : List Char) = text at renumbered
  cases renumbered with
  | ended => rfl
  | kept rest => cases whole
  | decimal old new ends ends' rest => exact absurd (List.append_eq_nil_iff.mp whole.symm).1 old.some
  | hexadecimal old new free free' rest => cases whole

end Renumbered

theorem decimal_of_outside (regular : Regular table) {c : Char} (outside : table.isWord c = false) : isDecimal c = false := by
  cases digit : isDecimal c with
  | false => rfl
  | true =>
    rw [regular.decimals c digit] at outside
    cases outside

/-- Digits do not begin where no word begins. -/
theorem head_of_free (regular : Regular table) (free : Free table s) : s.head?.any isDecimal = false := by
  cases s with
  | nil => rfl
  | cons c s => exact decimal_of_outside regular (by simpa [Free] using free)

namespace Renumbered

/-- Where no word goes on it does not matter whether one did. -/
theorem outside (regular : Regular table) (free : Free table s) (renumbered : Renumbered table inWord s t) (other : Bool) :
    Renumbered table other s t ∧ Free table t := by
  cases s with
  | nil =>
    rw [nil renumbered]
    exact ⟨.ended,rfl⟩
  | cons c s =>
    have own : table.isWord c = false := by simpa [Free] using free
    obtain ⟨u,rfl,rest⟩ := cons (.inl (decimal_of_outside regular own)) renumbered
    exact ⟨.kept rest,by simpa [Free] using own⟩

/-! ### Putting together and taking apart -/

theorem append (regular : Regular table) (free : Free table rest) (renumbered : Renumbered table inWord s t) :
    Renumbered table inWord (s ++ rest) (t ++ rest) := by
  have stops : ∀ {s : List Char}, s.head?.any isDecimal = false → (s ++ rest).head?.any isDecimal = false := by
    intro s ends
    cases s with
    | nil => exact head_of_free regular free
    | cons c s => exact ends
  have frees : ∀ {s : List Char}, Free table s → Free table (s ++ rest) := by
    intro s ends
    cases s with
    | nil => exact free
    | cons c s => exact ends
  induction renumbered with
  | ended => exact refl _ rest
  | kept _ ih => exact .kept ih
  | decimal old new ends ends' _ ih =>
    rw [List.append_assoc,List.append_assoc]
    exact .decimal old new (stops ends) (stops ends') ih
  | hexadecimal old new ends ends' _ ih =>
    rw [List.append_assoc,List.append_assoc]
    exact .hexadecimal old new (frees ends) (frees ends') ih

theorem prepend (closed : a.getLast?.any table.isWord = false) (begun : a = [] → inWord = false)
    (renumbered : Renumbered table false s t) : Renumbered table inWord (a ++ s) (a ++ t) := by
  induction a generalizing inWord with
  | nil =>
    rw [begun rfl]
    exact renumbered
  | cons c a ih =>
    refine .kept ?_
    cases a with
    | nil => exact ih rfl (fun _ => by simpa using closed)
    | cons d a =>
      rw [List.getLast?_cons_cons] at closed
      exact ih closed (fun empty => by cases empty)

end Renumbered

/-- A word does not run over a place where no word begins. -/
theorem word_within {word later : List Char} (words : ∀ c ∈ word, table.isWord c = true) (free : Free table s)
    (same : word ++ later = a ++ s) : ∃ m, a = word ++ m ∧ later = m ++ s := by
  rcases List.append_eq_append_iff.mp same with ⟨m,split,rest⟩ | ⟨m,split,rest⟩
  · exact ⟨m,split,rest⟩
  · cases m with
    | nil => exact ⟨[],by simpa using split.symm,by simpa using rest.symm⟩
    | cons c m =>
      have inside := words c (by rw [split]; simp)
      simp [rest,Free,inside] at free

namespace Renumbered

/-- Two texts can be taken apart where no word goes on. -/
theorem split (regular : Regular table) (free : Free table s) (renumbered : Renumbered table inWord (a ++ s) t) :
    ∃ b u, t = b ++ u ∧ Renumbered table inWord a b ∧ Renumbered table false s u := by
  have stops : ∀ {m : List Char}, (m ++ s).head?.any isDecimal = false → m.head?.any isDecimal = false := by
    intro m ends
    cases m with
    | nil => rfl
    | cons c m => exact ends
  generalize whole : a ++ s = text at renumbered
  induction renumbered generalizing a with
  | ended =>
    obtain ⟨rfl,rfl⟩ := List.append_eq_nil_iff.mp whole
    exact ⟨[],[],rfl,.ended,.ended⟩
  | @kept inWord c s' t rest ih =>
    cases a with
    | nil =>
      subst whole
      exact ⟨[],c :: t,rfl,.ended,(outside regular free (.kept rest : Renumbered table inWord _ _) false).1⟩
    | cons d a =>
      cases whole
      obtain ⟨b,u,rfl,first,second⟩ := ih rfl
      exact ⟨c :: b,u,rfl,.kept first,second⟩
  | @decimal d e s' t old new ends ends' rest ih =>
    obtain ⟨m,rfl,rfl⟩ := word_within (digits_word regular old) free whole.symm
    obtain ⟨b,u,rfl,first,second⟩ := ih rfl
    have stops' : b.head?.any isDecimal = false := by
      cases b with
      | nil => rfl
      | cons c b => exact ends'
    exact ⟨e ++ b,u,(List.append_assoc _ _ _).symm,.decimal old new (stops ends) stops' first,second⟩
  | @hexadecimal d e s' t old new ends ends' rest ih =>
    obtain ⟨m,rfl,rfl⟩ := word_within (literal_word regular (.hexadecimal old.1 old.2)) free whole.symm
    obtain ⟨b,u,rfl,first,second⟩ := ih rfl
    have frees : ∀ {m u : List Char}, Free table (m ++ u) → Free table m := by
      intro m u ends
      cases m with
      | nil => rfl
      | cons c m => exact ends
    exact ⟨'0' :: 'x' :: e ++ b,u,(List.append_assoc _ _ _).symm,.hexadecimal old new (frees ends) (frees ends') first,second⟩

/-- A character that is part of no word stays where it is. -/
theorem around (regular : Regular table) {c : Char} (own : table.isWord c = false)
    (renumbered : Renumbered table inWord (a ++ c :: s) t) :
    ∃ b u, t = b ++ c :: u ∧ Renumbered table inWord a b ∧ Renumbered table false s u := by
  have free : Free table (c :: s) := by simpa [Free] using own
  obtain ⟨b,u,rfl,first,second⟩ := split regular free renumbered
  obtain ⟨u,rfl,rest⟩ := cons (.inl (decimal_of_outside regular own)) second
  rw [own] at rest
  exact ⟨b,u,rfl,first,rest⟩

/-- After the end of a word two texts go on together. -/
theorem after (regular : Regular table) (closed : a.getLast?.any table.isWord = false)
    (renumbered : Renumbered table false (a ++ s) t) :
    ∃ b u, t = b ++ u ∧ b.getLast?.any table.isWord = false ∧ Renumbered table false s u := by
  cases a using List.reverseRecOn with
  | nil => exact ⟨[],t,rfl,rfl,renumbered⟩
  | append_singleton a c _ =>
    have own : table.isWord c = false := by simpa using closed
    rw [List.append_assoc] at renumbered
    obtain ⟨b,u,rfl,_,rest⟩ := around regular own renumbered
    exact ⟨b ++ [c],u,by simp,by simpa using own,rest⟩

/-- Inside a word its rest stays. -/
theorem inside (words : ∀ c ∈ w, table.isWord c = true) (renumbered : Renumbered table true (w ++ s) t) :
    ∃ u, t = w ++ u ∧ Renumbered table true s u := by
  induction w generalizing t with
  | nil => exact ⟨t,rfl,renumbered⟩
  | cons c w ih =>
    obtain ⟨own,others⟩ := List.forall_mem_cons.mp words
    obtain ⟨_,rfl,later⟩ := cons (.inr rfl) renumbered
    rw [own] at later
    obtain ⟨u,rfl,rest⟩ := ih others later
    exact ⟨u,rfl,rest⟩

/-- What holds of all characters of a text, and of those of words, holds of the other. -/
theorem forall_mem (regular : Regular table) {P : Char → Prop} (words : ∀ c, table.isWord c = true → P c)
    (renumbered : Renumbered table inWord s t) (all : ∀ c ∈ s, P c) : ∀ c ∈ t, P c := by
  induction renumbered with
  | ended => exact all
  | kept _ ih =>
    rw [List.forall_mem_cons] at all ⊢
    exact ⟨all.1,ih all.2⟩
  | decimal old new _ _ _ ih =>
    rw [List.forall_mem_append] at all ⊢
    exact ⟨fun c member => words c (digits_word regular new c member),ih all.2⟩
  | hexadecimal old new _ _ _ ih =>
    rw [List.forall_mem_append] at all ⊢
    exact ⟨fun c member => words c (literal_word regular (.hexadecimal new.1 new.2) c member),ih all.2⟩

end Renumbered

/-! ### Words that stay -/

/-- A word without digits that no number can end in: after what could be hexadecimal
    digits it goes on with another letter. -/
def Steadfast (word : List Char) : Prop :=
  word.any isDecimal = false ∧
    (word.dropWhile isHex).head?.any (fun c => decide (c.toNat < 128) && c.isAlphanum) = true ∧ word.head? ≠ some 'x'

instance : DecidablePred Steadfast := fun _ => inferInstanceAs (Decidable (_ ∧ _ ∧ _))

theorem steadfast_plain (steadfast : Steadfast w) : ∀ c ∈ w, isDecimal c = false := by
  simpa using steadfast.1

theorem steadfast_nonempty (steadfast : Steadfast w) : w ≠ [] := by
  rintro rfl
  exact absurd steadfast.2.1 (by simp)

theorem steadfast_letter (steadfast : Steadfast w) : ∃ hex c rest, w = hex ++ c :: rest ∧ (∀ d ∈ hex, isHex d = true) ∧
    isHex c = false ∧ table.isWord c = true := by
  obtain ⟨_,letter,_⟩ := steadfast
  cases dropped : w.dropWhile isHex with
  | nil => simp [dropped] at letter
  | cons c rest =>
    have stopped := List.head?_dropWhile_not isHex w
    rw [dropped] at letter stopped
    simp only [List.head?_cons,Option.any_some,Bool.and_eq_true,decide_eq_true_eq] at letter
    refine ⟨w.takeWhile isHex,c,rest,?_,fun d member => List.mem_takeWhile_imp member,by simpa using stopped,
      ascii_letter letter.1 letter.2⟩
    rw [← dropped,List.takeWhile_append_dropWhile]

/-- A steadfast word does not begin inside digits. -/
theorem steadfast_after_digits {d later : List Char} (steadfast : Steadfast w) (digits : ∀ c ∈ d, isDecimal c = true)
    (same : d ++ later = a ++ (w ++ s)) : ∃ m, a = d ++ m ∧ later = m ++ (w ++ s) := by
  rcases List.append_eq_append_iff.mp same with ⟨m,split,rest⟩ | ⟨m,split,rest⟩
  · exact ⟨m,split,rest⟩
  · cases m with
    | nil => exact ⟨[],by simpa using split.symm,by simpa using rest.symm⟩
    | cons c m =>
      have digit := digits c (by rw [split]; simp)
      cases w with
      | nil => exact absurd rfl (steadfast_nonempty steadfast)
      | cons x w =>
        obtain ⟨rfl,_⟩ := List.cons.inj rest
        have plain := steadfast_plain steadfast x List.mem_cons_self
        rw [digit] at plain
        cases plain

/-- A steadfast word does not begin inside a hexadecimal word. -/
theorem steadfast_after_hex {d later : List Char} (steadfast : Steadfast w) (hexes : ∀ c ∈ d, isHex c = true)
    (free : Free table later) (same : '0' :: 'x' :: d ++ later = a ++ (w ++ s)) :
    ∃ m, a = '0' :: 'x' :: d ++ m ∧ later = m ++ (w ++ s) := by
  obtain ⟨hex,c,others,rfl,allHex,other,word⟩ := @steadfast_letter table _ steadfast
  have plain := steadfast_plain steadfast
  obtain ⟨_,_,single⟩ := steadfast
  -- the hexadecimal digits of the number would end before a letter
  have apart : ∀ m : List Char, (∀ x ∈ m, isHex x = true) → m ++ later ≠ hex ++ c :: others ++ s := by
    intro m all same
    rw [List.append_assoc] at same
    rcases List.append_eq_append_iff.mp same with ⟨between,split,rest⟩ | ⟨between,split,rest⟩
    · subst rest
      cases between with
      | nil => simp [Free,word] at free
      | cons x between =>
        have inside : table.isWord x = true := hex_word (allHex x (by rw [split]; simp))
        simp [Free,inside] at free
    · cases between with
      | nil =>
        rw [List.nil_append] at rest
        subst rest
        simp [Free,word] at free
      | cons x between =>
        obtain ⟨rfl,_⟩ := List.cons.inj rest
        rw [all c (by rw [split]; simp)] at other
        cases other
  cases a with
  | nil =>
    have zero : '0' ∈ hex ++ c :: others := by
      cases hex with
      | nil =>
        obtain ⟨rfl,_⟩ := List.cons.inj same
        simp
      | cons x hex =>
        obtain ⟨rfl,_⟩ := List.cons.inj same
        simp
    exact absurd (plain '0' zero) (by decide)
  | cons zero a =>
    obtain ⟨rfl,tail⟩ := List.cons.inj same
    cases a with
    | nil =>
      cases hex with
      | nil =>
        obtain ⟨rfl,_⟩ := List.cons.inj tail
        exact absurd rfl single
      | cons x hex =>
        obtain ⟨rfl,_⟩ := List.cons.inj tail
        exact absurd (allHex 'x' List.mem_cons_self) (by decide)
    | cons x a =>
      obtain ⟨rfl,digits⟩ := List.cons.inj tail
      rcases List.append_eq_append_iff.mp digits with ⟨m,split,rest⟩ | ⟨m,split,rest⟩
      · exact ⟨m,by rw [split]; rfl,rest⟩
      · exact absurd rest.symm (apart m (fun x member => hexes x (by rw [split]; exact List.mem_append_right _ member)))

/-- A steadfast word stays. -/
theorem Renumbered.steadfast (steadfast : Steadfast w)
    (renumbered : Renumbered table inWord (a ++ (w ++ s)) t) :
    ∃ b u inWord', t = b ++ (w ++ u) ∧ Renumbered table inWord a b ∧ Renumbered table inWord' s u := by
  generalize whole : a ++ (w ++ s) = text at renumbered
  induction renumbered generalizing a with
  | ended =>
    have empty := (List.append_eq_nil_iff.mp (List.append_eq_nil_iff.mp whole).2).1
    exact absurd empty (steadfast_nonempty steadfast)
  | @kept inWord c s' t rest ih =>
    cases a with
    | nil =>
      have renumbered : Renumbered table inWord (w ++ s) (c :: t) := by
        rw [show w ++ s = c :: s' from whole]
        exact .kept rest
      obtain ⟨u,inWord',split,rest⟩ := front (steadfast_plain steadfast) renumbered
      exact ⟨[],u,inWord',split,.ended,rest⟩
    | cons d a =>
      cases whole
      obtain ⟨b,u,inWord',rfl,first,second⟩ := ih rfl
      exact ⟨c :: b,u,inWord',rfl,.kept first,second⟩
  | @decimal d e s' t old new ends ends' rest ih =>
    obtain ⟨m,rfl,rfl⟩ := steadfast_after_digits steadfast old.all whole.symm
    obtain ⟨b,u,inWord',rfl,first,second⟩ := ih rfl
    have stops : ∀ {m w : List Char}, (m ++ w).head?.any isDecimal = false → m.head?.any isDecimal = false := by
      intro m w ends
      cases m with
      | nil => rfl
      | cons c m => exact ends
    exact ⟨e ++ b,u,inWord',(List.append_assoc _ _ _).symm,.decimal old new (stops ends) (stops ends') first,second⟩
  | @hexadecimal d e s' t old new ends ends' rest ih =>
    obtain ⟨m,rfl,rfl⟩ := steadfast_after_hex steadfast old.2 ends whole.symm
    obtain ⟨b,u,inWord',rfl,first,second⟩ := ih rfl
    have frees : ∀ {m w : List Char}, Free table (m ++ w) → Free table m := by
      intro m w ends
      cases m with
      | nil => rfl
      | cons c m => exact ends
    exact ⟨'0' :: 'x' :: e ++ b,u,inWord',(List.append_assoc _ _ _).symm,
      .hexadecimal old new (frees ends) (frees ends') first,second⟩

/-! ### Lowered texts -/

/-- What lowering does to one character: letters and digits stay what they are. -/
theorem lower_char (c : Char) : c.toLower = c ∨ (c.toNat < 128 ∧ c.toLower.toNat < 128 ∧
    (c.isAlphanum || c == '_') = true ∧ (c.toLower.isAlphanum || c.toLower == '_') = true ∧ isDecimal c = false ∧
    isDecimal c.toLower = false ∧ (isHex c = true → isHex c.toLower = true)) := by
  cases upper : c.isUpper with
  | false =>
    have other : ¬ (c.val ≥ 'A'.val ∧ c.val ≤ 'Z'.val) := of_decide_eq_false upper
    exact .inl (dif_neg other)
  | true =>
    have all : ∀ n < 91, (Char.ofNat n).isUpper = true → ((Char.ofNat n).toNat < 128 ∧ (Char.ofNat n).toLower.toNat < 128 ∧
        ((Char.ofNat n).isAlphanum || (Char.ofNat n) == '_') = true ∧
        ((Char.ofNat n).toLower.isAlphanum || (Char.ofNat n).toLower == '_') = true ∧ isDecimal (Char.ofNat n) = false ∧
        isDecimal (Char.ofNat n).toLower = false ∧ (isHex (Char.ofNat n) = true → isHex (Char.ofNat n).toLower = true)) := by
      decide +kernel
    have bound : c.toNat < 91 := by
      obtain ⟨_,most⟩ : c.val ≥ 'A'.val ∧ c.val ≤ 'Z'.val := of_decide_eq_true upper
      have range : c.toNat ≤ 90 := UInt32.le_iff_toNat_le.mp most
      omega
    have given := all c.toNat bound
    rw [Char.ofNat_toNat] at given
    exact .inr (given upper)

theorem lower_word (c : Char) : table.isWord c.toLower = table.isWord c := by
  rcases lower_char c with same | ⟨ascii,ascii',letter,letter',_⟩
  · rw [same]
  · rw [table.ascii c ascii,table.ascii _ ascii',letter,letter']

theorem lower_decimal (c : Char) : isDecimal c.toLower = isDecimal c := by
  rcases lower_char c with same | ⟨_,_,_,_,plain,plain',_⟩
  · rw [same]
  · rw [plain,plain']

theorem lower_digits {d : List Char} (digits : Digits d) : d.map Char.toLower = d := by
  have kept : ∀ c ∈ d, c.toLower = id c := by
    intro c member
    rcases lower_char c with same | ⟨_,_,_,_,plain,_⟩
    · exact same
    · rw [digits.all c member] at plain
      cases plain
  rw [List.map_congr_left kept,List.map_id]

theorem lower_free (free : Free table s) : Free table (s.map Char.toLower) := by
  cases s with
  | nil => rfl
  | cons c s => simpa [Free,lower_word] using free

theorem Renumbered.lower (renumbered : Renumbered table inWord s t) :
    Renumbered table inWord (s.map Char.toLower) (t.map Char.toLower) := by
  have stops : ∀ {s : List Char}, s.head?.any isDecimal = false → (s.map Char.toLower).head?.any isDecimal = false := by
    intro s ends
    cases s with
    | nil => rfl
    | cons c s => simpa [lower_decimal] using ends
  have hexes : ∀ {d : List Char}, (d ≠ [] ∧ ∀ c ∈ d, isHex c = true) →
      d.map Char.toLower ≠ [] ∧ ∀ c ∈ d.map Char.toLower, isHex c = true := by
    rintro d ⟨some,all⟩
    refine ⟨by simpa using some,?_⟩
    rw [List.forall_mem_map]
    intro c member
    rcases lower_char c with same | ⟨_,_,_,_,_,_,kept⟩
    · rw [same]
      exact all c member
    · exact kept (all c member)
  induction renumbered with
  | ended => exact .ended
  | @kept inWord c s t _ ih =>
    rw [← lower_word c] at ih
    exact .kept ih
  | decimal old new ends ends' _ ih =>
    rw [List.map_append,List.map_append,lower_digits old,lower_digits new]
    exact .decimal old new (stops ends) (stops ends') ih
  | @hexadecimal d e s t old new ends ends' _ ih =>
    have prefixed : ∀ d s : List Char, ('0' :: 'x' :: d ++ s).map Char.toLower =
        '0' :: 'x' :: d.map Char.toLower ++ s.map Char.toLower := by
      intro d s
      rw [List.map_append]
      rfl
    rw [prefixed,prefixed]
    exact .hexadecimal (hexes old) (hexes new) (lower_free ends) (lower_free ends') ih

/-- Texts that differ in numbers mention the same words. -/
theorem mentions_renumbered {needle : String} (steadfast : Steadfast needle.toList) (renumbered : Renumbered table inWord s t) :
    mentions s needle = mentions t needle := by
  have kept : ∀ {s t : List Char}, Renumbered table inWord s t → mentions s needle = true → mentions t needle = true := by
    intro s t renumbered found
    simp only [mentions,decide_eq_true_eq] at found ⊢
    obtain ⟨a,u,split⟩ := found
    have lowered := renumbered.lower
    rw [← split,List.append_assoc] at lowered
    obtain ⟨b,u,_,split',_⟩ := lowered.steadfast steadfast
    exact ⟨b,u,by rw [split',List.append_assoc]⟩
  rw [Bool.eq_iff_iff]
  exact ⟨kept renumbered,kept renumbered.symm⟩

/-! ### Lines -/

theorem Renumbered.bare (regular : Regular table) (bare : Bare s) (renumbered : Renumbered table false s t) : Bare t := by
  have plain : ∀ {c : Char}, Text.isSpace c = true → isDecimal c = false :=
    fun blank => decimal_of_outside regular (regular.spaces _ blank)
  constructor
  · cases t with
    | nil => rfl
    | cons c t =>
      cases blank : Text.isSpace c with
      | false => simpa using blank
      | true =>
        obtain ⟨u,rfl,_⟩ := renumbered.symm.cons (.inl (plain blank))
        have solid : Text.isSpace c = false := by simpa using bare.begins
        rw [blank] at solid
        cases solid
  · cases t using List.reverseRecOn with
    | nil => rfl
    | append_singleton t c _ =>
      cases blank : Text.isSpace c with
      | false => simpa using blank
      | true =>
        obtain ⟨b,u,rfl,_,rest⟩ := renumbered.symm.around regular (regular.spaces c blank)
        rw [rest.nil] at bare
        have solid : Text.isSpace c = false := by simpa using bare.ends
        rw [blank] at solid
        cases solid

/-- The blanks around a text stay. -/
theorem Renumbered.strip (regular : Regular table) (renumbered : Renumbered table false s t) :
    Renumbered table false (Text.strip s) (Text.strip t) := by
  obtain ⟨front,back,split,before,after⟩ := strip_parts s
  have plain : ∀ {blanks : List Char}, (∀ c ∈ blanks, Text.isSpace c = true) → ∀ c ∈ blanks, isDecimal c = false :=
    fun blank c member => decimal_of_outside regular (regular.spaces c (blank c member))
  have free : Free table back := by
    cases back with
    | nil => rfl
    | cons c back => simpa [Free] using regular.spaces c (after c List.mem_cons_self)
  have outside : ∀ {blanks u v : List Char}, (∀ c ∈ blanks, Text.isSpace c = true) →
      Renumbered table false (blanks ++ u) v → ∃ v', v = blanks ++ v' ∧ Renumbered table false u v' := by
    intro blanks u v blank renumbered
    induction blanks generalizing v with
    | nil => exact ⟨v,rfl,renumbered⟩
    | cons c blanks ih =>
      obtain ⟨own,others⟩ := List.forall_mem_cons.mp blank
      obtain ⟨_,rfl,later⟩ := renumbered.cons (.inl (plain blank c List.mem_cons_self))
      rw [regular.spaces c own] at later
      obtain ⟨v,rfl,rest⟩ := ih others later
      exact ⟨v,rfl,rest⟩
  rw [split] at renumbered
  obtain ⟨_,rfl,kept⟩ := outside before renumbered
  obtain ⟨core,_,rfl,inner,later⟩ := kept.split regular free
  rw [← List.append_nil back] at later
  obtain ⟨_,rfl,rest⟩ := outside after later
  rw [rest.nil,List.append_nil,strip_around before after,strip_bare (inner.bare regular (bare_strip s))]
  exact inner

/-- An exception line stays one. -/
theorem Renumbered.exception (regular : Regular table) {name message : List Char} (read : ExceptionLine table s name message)
    (renumbered : Renumbered table false s t) :
    ∃ name' message', ExceptionLine table t name' message' ∧ Renumbered table false message message' := by
  obtain ⟨named,rfl⟩ := read
  have colon : table.isWord ':' = false := by rw [table.ascii ':' (by decide)]; rfl
  obtain ⟨name',message',rfl,first,second⟩ := renumbered.around regular colon
  refine ⟨name',message',⟨?_,rfl⟩,second⟩
  cases named with
  | @intro c middle suffix letter dotted ends =>
    have fixed : isDecimal c = false := by
      have all : ∀ n < 128, ((Char.ofNat n).isAlpha || Char.ofNat n == '_') = true → isDecimal (Char.ofNat n) = false := by
        decide +kernel
      have given := all c.toNat (ascii_of_letter letter)
      rw [Char.ofNat_toNat] at given
      exact given letter
    obtain ⟨rest,rfl,later⟩ := first.cons (.inl fixed)
    have steadfast : ∀ suffix ∈ suffixes, Steadfast suffix := by decide +kernel
    rw [← List.append_nil suffix] at later
    obtain ⟨middle',u,_,rfl,inner,empty⟩ := later.steadfast (steadfast suffix ends)
    rw [empty.nil,List.append_nil]
    refine .intro letter (inner.forall_mem regular (fun c word => ?_) dotted) ends
    rw [inType,word,Bool.true_or]

end

end Hookclose.NumberWords
