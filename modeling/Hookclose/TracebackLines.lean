import Hookclose.FailureAnalyzer
import Hookclose.PatternEnds

/-!
The lines of a failure's output: what the two patterns of the parser take for a `File`
entry and for an exception line, and which line of the output becomes the message.
-/
namespace Hookclose.TracebackLines
open Hookclose.Patterns Hookclose.FailureAnalyzer

/-! ### File entries -/

/-- The rest of an entry, from the quote after the file name on. -/
structure EntryTail (text digits func rest : List Char) : Prop where
  split : text = "\", line ".toList ++ (digits ++ (", in ".toList ++ (func ++ rest)))
  numbered : digits ≠ []
  decimal : ∀ c ∈ digits, isDecimal c = true
  called : func ≠ []
  solid : ∀ c ∈ func, (!Text.isSpace c) = true
  stops : rest.head?.any (fun c => !Text.isSpace c) = false

/-- A text begins with a `File` entry. -/
structure Entry (text file digits func rest : List Char) : Prop where
  split : ∃ tail, text = "File \"".toList ++ (file ++ tail) ∧ EntryTail tail digits func rest
  filed : file ≠ []
  unquoted : ∀ c ∈ file, (c != '"') = true

/-- The pattern after the file name. -/
def tailPattern : Pattern :=
  sequence [literal "\", line ",.group "line" (.many isDecimal 1 none),literal ", in ",
    .group "func" (.many (fun c => !Text.isSpace c) 1 none)]

section
variable {text file digits func rest : List Char} {b : Option Char} {g : List (String × List Char)}

/-- A literal does not begin where its first character is another. -/
theorem ends_literal_other {word : String} {later : Pattern} {place : Place} {test : Char → Bool}
    (first : word.toList.head?.any test = false) (nonempty : word.toList ≠ []) (other : place.rest.head?.any test = true) :
    ends (.seq (literal word) later) place = [] := by
  have absent : ¬ word.toList <+: place.rest := by
    rintro ⟨rest,split⟩
    rw [← split] at other
    cases chars : word.toList with
    | nil => exact nonempty chars
    | cons c chars =>
      rw [chars] at first other
      simp only [List.cons_append,List.head?_cons,Option.any_some] at first other
      rw [first] at other
      cases other
  rw [ends,ends_literal_nil absent]
  rfl

theorem ends_tail (tail : EntryTail text digits func rest) : ∃ shorter,
    ends tailPattern ⟨b,text,g⟩ = ⟨func.getLast?.or (some ' '),rest,("func",func) :: ("line",digits) :: g⟩ :: shorter := by
  obtain ⟨rfl,hasDigits,decimal,hasFunc,solid,stops⟩ := tail
  have comma : (", in ".toList ++ (func ++ rest)).head?.any isDecimal = false := rfl
  obtain ⟨shorter,found,_⟩ := @ends_group_run (some ' ') (("line",digits) :: g) rest _ 1 func "func" solid stops
    (List.length_pos_iff.mpr hasFunc)
  unfold tailPattern Patterns.sequence
  simp only [List.foldr_cons,List.foldr_nil]
  rw [ends,ends_literal,List.flatMap_cons,List.flatMap_nil,List.append_nil,
    ends_run_seq "line" decimal comma (List.length_pos_iff.mpr hasDigits)
      (fun place inside => ends_literal_other (by decide) (by decide) inside),
    ends,ends_literal,List.flatMap_cons,List.flatMap_nil,List.append_nil,ends]
  have last : (", in ".toList.getLast?.or (digits.getLast?.or ("\", line ".toList.getLast?.or b))) = some ' ' := rfl
  rw [last,found,List.flatMap_cons]
  exact ⟨_,rfl⟩

/-- The pattern takes what is an entry, whatever stands before it. -/
theorem entry_found (entry : Entry text file digits func rest) (b : Option Char) : ∃ ended,
    firstEnd framePattern ⟨b,text,[]⟩ = some ended ∧ ended.rest = rest ∧
      toFrame ended = ⟨String.ofList file,(Text.parseInt (String.ofList digits)).getD 0,String.ofList func⟩ := by
  obtain ⟨⟨tail,rfl,isTail⟩,hasFile,unquoted⟩ := entry
  have quote : tail.head?.any (fun c => c != '"') = false := by
    rw [isTail.split]
    rfl
  have dies : ∀ place : Place, place.rest.head?.any (fun c => c != '"') = true → ends tailPattern place = [] :=
    fun place inside => ends_literal_other (by decide) (by decide) inside
  obtain ⟨shorter,found⟩ := @ends_tail tail digits func rest (file.getLast?.or (some '"')) [("file",file)] isTail
  have run : ends framePattern ⟨b,"File \"".toList ++ (file ++ tail),[]⟩ =
      ends tailPattern ⟨file.getLast?.or (some '"'),tail,[("file",file)]⟩ := by
    show ends (.seq (literal "File \"") (.seq (.group "file" (.many (fun c => c != '"') 1 none)) tailPattern)) _ = _
    rw [ends,ends_literal,List.flatMap_cons,List.flatMap_nil,List.append_nil]
    exact ends_run_seq "file" unquoted quote (List.length_pos_iff.mpr hasFile) dies
  refine ⟨_,by rw [firstEnd,run,found]; rfl,rfl,rfl⟩

/-- The run of a test at the start of a text, once some of it is there. -/
theorem longest_run {test : Char → Bool} {run : List Char} (all : ∀ c ∈ run, test c = true) (nonempty : run ≠ [])
    (rest : List Char) : ∃ longest later, run ++ rest = longest ++ later ∧ longest ≠ [] ∧ (∀ c ∈ longest, test c = true) ∧
      later.head?.any test = false := by
  refine ⟨(run ++ rest).takeWhile test,(run ++ rest).dropWhile test,List.takeWhile_append_dropWhile.symm,?_,
    fun c member => List.mem_takeWhile_imp member,?_⟩
  · rw [List.takeWhile_append_of_pos all]
    simp [nonempty]
  · cases dropped : (run ++ rest).dropWhile test with
    | nil => rfl
    | cons c later =>
      have stopped := List.head?_dropWhile_not test (run ++ rest)
      rw [dropped] at stopped
      simpa using stopped

theorem entryTail_of_ended {ended place : Place} (member : ended ∈ ends tailPattern place) :
    ∃ digits func rest, EntryTail place.rest digits func rest := by
  unfold tailPattern Patterns.sequence at member
  rw [List.foldr_cons,List.foldr_cons,List.foldr_cons,List.foldr_cons,List.foldr_nil,ends] at member
  obtain ⟨first,begun,member⟩ := List.mem_flatMap.mp member
  rw [ends] at member
  obtain ⟨second,counted,member⟩ := List.mem_flatMap.mp member
  rw [ends] at member
  obtain ⟨third,between,member⟩ := List.mem_flatMap.mp member
  rw [ends] at member
  obtain ⟨fourth,named,_⟩ := List.mem_flatMap.mp member
  obtain ⟨digits,numbered,someDigits,decimal⟩ := mem_ends_group counted
  obtain ⟨name,called,someName,solid⟩ := mem_ends_group named
  obtain ⟨func,rest,same,hasFunc,allSolid,stops⟩ := longest_run solid (List.length_pos_iff.mp someName) fourth.rest
  refine ⟨digits,func,rest,⟨?_,List.length_pos_iff.mp someDigits,decimal,hasFunc,allSolid,stops⟩⟩
  rw [mem_ends_literal begun,numbered,mem_ends_literal between,called,same]

theorem entry_of_found {ended : Place} (found : firstEnd framePattern ⟨b,text,[]⟩ = some ended) :
    ∃ file digits func rest, Entry text file digits func rest := by
  have member : ended ∈ ends framePattern ⟨b,text,[]⟩ := List.mem_of_mem_head? found
  have parts : framePattern =
      .seq (literal "File \"") (.seq (.group "file" (.many (fun c => c != '"') 1 none)) tailPattern) := rfl
  rw [parts,ends] at member
  obtain ⟨first,begun,member⟩ := List.mem_flatMap.mp member
  rw [ends] at member
  obtain ⟨second,filed,member⟩ := List.mem_flatMap.mp member
  obtain ⟨file,whole,someFile,unquoted⟩ := mem_ends_group filed
  obtain ⟨digits,func,rest,tail⟩ := entryTail_of_ended member
  refine ⟨file,digits,func,rest,⟨⟨second.rest,?_,tail⟩,List.length_pos_iff.mp someFile,unquoted⟩⟩
  rw [← whole]
  exact mem_ends_literal begun

/-- No entry begins here, whatever stands before. -/
theorem no_entry (none : ∀ file digits func rest, ¬ Entry text file digits func rest) (b : Option Char) :
    firstEnd framePattern ⟨b,text,[]⟩ = Option.none := by
  cases found : firstEnd framePattern ⟨b,text,[]⟩ with
  | none => rfl
  | some ended =>
    obtain ⟨file,digits,func,rest,entry⟩ := entry_of_found found
    exact absurd entry (none file digits func rest)

end

/-! ### Exception lines -/

/-- What an exception type ends with. -/
def suffixes : List (List Char) := ["Error".toList,"Exception".toList,"Warning".toList,"Failure".toList]

/-- The characters of a dotted name. -/
def inType (table : WordTable) (c : Char) : Bool := table.isWord c || c == '.'

/-- A name that the parser takes for an exception type: an ASCII letter or an underscore,
    and later one of the suffixes. -/
inductive TypeName (table : WordTable) : List Char → Prop
  | intro {c : Char} {middle suffix : List Char} (first : (c.isAlpha || c == '_') = true)
      (dotted : ∀ d ∈ middle, inType table d = true) (ends : suffix ∈ suffixes) : TypeName table (c :: (middle ++ suffix))

/-- A line that begins with an exception type and a colon. -/
def ExceptionLine (table : WordTable) (line name message : List Char) : Prop :=
  TypeName table name ∧ line = name ++ ':' :: message

/-- The pattern of an exception type. -/
def typePattern (table : WordTable) : Pattern :=
  sequence [.one (fun c => c.isAlpha || c == '_'),.many (fun c => table.isWord c || c == '.') 0 none,
    choice (literal "Error") [literal "Exception",literal "Warning",literal "Failure"]]

/-- The pattern after the exception type. -/
def messagePattern : Pattern :=
  sequence [literal ":",.many (fun c => c == ' ') 0 (some 1),.group "msg" (.many (fun c => c != '\n') 0 none),.finish]

section
variable {table : WordTable} {name message line : List Char}

theorem ascii_letter {c : Char} (ascii : c.toNat < 128) (letter : c.isAlphanum = true) : table.isWord c = true := by
  rw [table.ascii c ascii,letter,Bool.true_or]

theorem suffix_inType {suffix : List Char} (ends : suffix ∈ suffixes) : ∀ c ∈ suffix, inType table c = true := by
  have letters : ∀ c ∈ suffixes.flatten, c.toNat < 128 ∧ c.isAlphanum = true := checked (by decide)
  intro c member
  obtain ⟨ascii,letter⟩ := letters c (List.mem_flatten.mpr ⟨suffix,ends,member⟩)
  rw [inType,ascii_letter ascii letter,Bool.true_or]

theorem alpha_range {c : Char} (alpha : c.isAlpha = true) :
    65 ≤ c.toNat ∧ c.toNat ≤ 90 ∨ 97 ≤ c.toNat ∧ c.toNat ≤ 122 := by
  have parts : (c.isUpper || c.isLower) = true := alpha
  rcases Bool.or_eq_true_iff.mp parts with upper | lower
  · obtain ⟨least,most⟩ : c.val ≥ 'A'.val ∧ c.val ≤ 'Z'.val := of_decide_eq_true upper
    exact .inl ⟨UInt32.le_iff_toNat_le.mp least,UInt32.le_iff_toNat_le.mp most⟩
  · have both : (decide (c.val ≥ 'a'.val) && decide (c.val ≤ 'z'.val)) = true := lower
    obtain ⟨least,most⟩ := Bool.and_eq_true_iff.mp both
    rw [decide_eq_true_eq] at least most
    exact .inr ⟨UInt32.le_iff_toNat_le.mp least,UInt32.le_iff_toNat_le.mp most⟩

theorem ascii_of_letter {c : Char} (letter : (c.isAlpha || c == '_') = true) : c.toNat < 128 := by
  rcases Bool.or_eq_true_iff.mp letter with alpha | underscore
  · have range := alpha_range alpha
    omega
  · rw [beq_iff_eq.mp underscore]
    decide

theorem typeName_inType (named : TypeName table name) : ∀ c ∈ name, inType table c = true := by
  cases named with
  | @intro first middle suffix letter dotted ends =>
    have front : inType table first = true := by
      have known : (first.isAlphanum || first == '_') = true := by
        simp only [Char.isAlphanum,Bool.or_eq_true] at letter ⊢
        tauto
      rw [inType,table.ascii first (ascii_of_letter letter),known,Bool.true_or]
    rw [List.forall_mem_cons,List.forall_mem_append]
    exact ⟨front,dotted,suffix_inType ends⟩

theorem colon_outside (table : WordTable) : inType table ':' = false := by
  rw [inType,table.ascii ':' (by decide)]
  rfl

theorem mem_ends_choice {place ended : Place} :
    ended ∈ ends (choice (literal "Error") [literal "Exception",literal "Warning",literal "Failure"]) place ↔
      ∃ suffix ∈ ["Error","Exception","Warning","Failure"], ended ∈ ends (literal suffix) place := by
  simp [choice,ends]

/-- The type pattern ends after a type name. -/
theorem typeName_of_ended {place ended : Place} (member : ended ∈ ends (typePattern table) place) :
    ∃ name, place.rest = name ++ ended.rest ∧ TypeName table name ∧ ended.groups = place.groups := by
  unfold typePattern Patterns.sequence at member
  rw [List.foldr_cons,List.foldr_cons,List.foldr_cons,List.foldr_nil,ends] at member
  obtain ⟨first,begun,member⟩ := List.mem_flatMap.mp member
  rw [ends] at member
  obtain ⟨second,dotted,member⟩ := List.mem_flatMap.mp member
  rw [ends] at member
  obtain ⟨third,closed,member⟩ := List.mem_flatMap.mp member
  rw [ends,List.mem_singleton] at member
  subst member
  obtain ⟨suffix,listed,closes⟩ := mem_ends_choice.mp closed
  have known : suffix.toList ∈ suffixes := by
    simp only [List.mem_cons,List.not_mem_nil,or_false] at listed
    rcases listed with rfl | rfl | rfl | rfl <;> decide
  simp only [ends] at begun dotted
  obtain ⟨n,counted,rfl⟩ := List.mem_map.mp dotted
  split_ifs at begun with letter
  · rw [List.mem_singleton] at begun
    subst begun
    obtain ⟨before,text,groups⟩ := place
    cases text with
    | nil => simp at letter
    | cons c text =>
      have front : (c.isAlpha || c == '_') = true := by simpa using letter
      have bounds := mem_counts counted
      have rest := mem_ends_literal closes
      have all : ∀ d ∈ text.take n, inType table d = true := by
        intro d member
        have within : text.take n = (text.takeWhile (fun c => table.isWord c || c == '.')).take n := by
          conv_lhs => rw [← @List.takeWhile_append_dropWhile _ (fun c => table.isWord c || c == '.') text]
          exact List.take_append_of_le_length bounds.2
        rw [within] at member
        exact List.mem_takeWhile_imp (List.mem_of_mem_take member)
      have kept := literal_groups closes
      refine ⟨c :: (text.take n ++ suffix.toList),?_,.intro front all known,kept⟩
      simp only [Place.skip,List.drop_succ_cons,List.drop_zero] at rest
      rw [List.cons_append,List.append_assoc,← rest,List.take_append_drop]
  · cases begun

/-- The type pattern ends after every type name at the start. -/
theorem ended_of_typeName (named : TypeName table name) (b : Option Char) (rest : List Char) :
    ∃ ended ∈ ends (typePattern table) ⟨b,name ++ rest,[]⟩, ended.rest = rest := by
  cases named with
  | @intro c middle suffix letter dotted closes =>
    have spelled : ∃ word ∈ ["Error","Exception","Warning","Failure"], suffix = word.toList := by
      simpa [suffixes] using closes
    obtain ⟨word,listed,rfl⟩ := spelled
    have longer : middle.length ≤
        ((middle ++ (word.toList ++ rest)).takeWhile (fun c => table.isWord c || c == '.')).length := by
      have run : ∀ d ∈ middle, (table.isWord d || d == '.') = true := dotted
      rw [List.takeWhile_append_of_pos run,List.length_append]
      omega
    have counted := mem_counts_none (Nat.zero_le middle.length) longer
    unfold typePattern Patterns.sequence
    rw [List.foldr_cons,List.foldr_cons,List.foldr_cons,List.foldr_nil,ends]
    refine ⟨⟨word.toList.getLast?.or (middle.getLast?.or (some c)),rest,[]⟩,List.mem_flatMap.mpr
      ⟨⟨some c,middle ++ (word.toList ++ rest),[]⟩,?_,?_⟩,rfl⟩
    · rw [ends]
      have front : Option.any (fun c => c.isAlpha || c == '_') (c :: (middle ++ word.toList) ++ rest).head? = true := letter
      rw [if_pos front,List.mem_singleton]
      simp [Place.skip]
    · rw [ends,ends]
      refine List.mem_flatMap.mpr ⟨⟨middle.getLast?.or (some c),word.toList ++ rest,[]⟩,?_,?_⟩
      · exact List.mem_map.mpr ⟨middle.length,counted,skip_append middle⟩
      · rw [ends]
        refine List.mem_flatMap.mpr ⟨⟨word.toList.getLast?.or (middle.getLast?.or (some c)),rest,[]⟩,?_,by simp [ends]⟩
        exact mem_ends_choice.mpr ⟨word,listed,by rw [ends_literal]; exact List.mem_singleton_self _⟩

/-- Without one leading blank. -/
def afterColon : List Char → List Char
  | ' ' :: rest => rest
  | rest => rest

theorem strip_afterColon (text : List Char) : Text.strip (afterColon text) = Text.strip text := by
  unfold afterColon
  split
  · rfl
  · rfl

/-- What follows the type is the message, up to one blank. -/
theorem message_ends {b : Option Char} {g : List (String × List Char)} (inline : '\n' ∉ message) : ∃ ended shorter,
    ends messagePattern ⟨b,':' :: message,g⟩ = ended :: shorter ∧ ended.groups = ("msg",afterColon message) :: g := by
  have whole : ∀ before rest groups, '\n' ∉ rest → ∃ ended shorter,
      ends (sequence [.group "msg" (.many (fun c => c != '\n') 0 none),.finish]) ⟨before,rest,groups⟩ = ended :: shorter ∧
        ended.groups = ("msg",rest) :: groups := by
    intro before rest groups plain
    have all : ∀ c ∈ rest, (c != '\n') = true := by
      intro c member
      rw [bne_iff_ne]
      rintro rfl
      exact plain member
    obtain ⟨shorter,found,_⟩ := @ends_group_run before groups [] (fun c => c != '\n') 0 rest "msg" all rfl (Nat.zero_le _)
    rw [List.append_nil] at found
    unfold Patterns.sequence
    rw [List.foldr_cons,List.foldr_cons,List.foldr_nil,ends,found,List.flatMap_cons,ends,ends,if_pos (.inl rfl)]
    exact ⟨_,_,rfl,rfl⟩
  have begun : ends messagePattern ⟨b,':' :: message,g⟩ =
      (counts (fun c => c == ' ') 0 (some 1) message).flatMap (fun n =>
        ends (sequence [.group "msg" (.many (fun c => c != '\n') 0 none),.finish])
          (Place.skip n ⟨some ':',message,g⟩)) := by
    show ends (.seq (literal ":") (.seq (.many (fun c => c == ' ') 0 (some 1)) _)) ⟨b,":".toList ++ message,g⟩ = _
    rw [ends,ends_literal,List.flatMap_cons,List.flatMap_nil,List.append_nil,ends,ends,List.flatMap_map]
    rfl
  rw [begun]
  unfold afterColon
  split
  · rename_i rest
    have blank : counts (fun c => c == ' ') 0 (some 1) (' ' :: rest) = [1,0] := by
      have single : min (((' ' :: rest).takeWhile (fun c => c == ' ')).length) 1 = 1 := by simp
      unfold counts
      simp only [single]
      rfl
    rw [blank,List.flatMap_cons]
    obtain ⟨ended,shorter,found,groups⟩ := whole (some ' ') rest g (fun member => inline (List.mem_cons_of_mem _ member))
    have skipped : Place.skip 1 ⟨some ':',' ' :: rest,g⟩ = ⟨some ' ',rest,g⟩ := rfl
    rw [skipped,found]
    exact ⟨ended,_,rfl,groups⟩
  · rename_i other
    have plain : counts (fun c => c == ' ') 0 (some 1) message = [0] := by
      cases message with
      | nil => rfl
      | cons c rest =>
        have solid : c ≠ ' ' := by
          rintro rfl
          exact other rest rfl
        simp [counts,solid]
    rw [plain,List.flatMap_cons]
    obtain ⟨ended,shorter,found,groups⟩ := whole (some ':') message g inline
    have skipped : Place.skip 0 ⟨some ':',message,g⟩ = ⟨some ':',message,g⟩ := by simp [Place.skip]
    rw [skipped,found]
    exact ⟨ended,_,rfl,groups⟩

theorem exc_parts (table : WordTable) (line : List Char) : ends (excPattern table) ⟨none,line,[]⟩ =
    (ends (.group "type" (typePattern table)) ⟨none,line,[]⟩).flatMap (ends messagePattern) := by
  show ends (.seq .start (.seq (.group "type" (typePattern table)) messagePattern)) ⟨none,line,[]⟩ = _
  have begun : ends .start ⟨none,line,[]⟩ = [⟨none,line,[]⟩] := rfl
  rw [ends,begun,List.flatMap_cons,List.flatMap_nil,List.append_nil,ends]

/-- The place after a captured type. -/
theorem typed_ended {place : Place} (member : place ∈ ends (.group "type" (typePattern table)) ⟨none,line,[]⟩) :
    ∃ name, line = name ++ place.rest ∧ TypeName table name ∧ place.groups = [("type",name)] := by
  rw [ends] at member
  obtain ⟨ended,inner,rfl⟩ := List.mem_map.mp member
  obtain ⟨name,rfl,named,groups⟩ := typeName_of_ended inner
  refine ⟨name,rfl,named,?_⟩
  simp [groups]

theorem typed_reached (named : TypeName table name) (rest : List Char) :
    ∃ place ∈ ends (.group "type" (typePattern table)) ⟨none,name ++ rest,[]⟩, place.rest = rest := by
  obtain ⟨ended,inner,reached⟩ := ended_of_typeName named none rest
  rw [ends]
  exact ⟨_,List.mem_map.mpr ⟨ended,inner,rfl⟩,reached⟩

theorem message_begins {place : Place} (some : ends messagePattern place ≠ []) : ∃ rest, place.rest = ':' :: rest := by
  obtain ⟨ended,member⟩ := List.exists_mem_of_ne_nil _ some
  have parts : messagePattern = .seq (literal ":") (sequence [.many (fun c => c == ' ') 0 (Option.some 1),
    .group "msg" (.many (fun c => c != '\n') 0 none),.finish]) := rfl
  rw [parts,ends] at member
  obtain ⟨first,begun,_⟩ := List.mem_flatMap.mp member
  exact ⟨first.rest,mem_ends_literal begun⟩

/-- A line is an exception line in one way only. -/
theorem exceptionLine_unique {other rest : List Char} (read : ExceptionLine table line name message)
    (again : ExceptionLine table line other rest) : other = name ∧ rest = message := by
  obtain ⟨named,rfl⟩ := read
  obtain ⟨named',same⟩ := again
  have stops : ∀ message : List Char, (':' :: message).head?.any (inType table) = false := by
    intro message
    simpa using colon_outside table
  have first := takeWhile_run (typeName_inType named) (stops message)
  rw [same,takeWhile_run (typeName_inType named') (stops rest)] at first
  subst first
  simpa [eq_comm] using same

/-- The pattern reads an exception line. -/
theorem exception_found (read : ExceptionLine table line name message) (inline : '\n' ∉ message) : ∃ ended,
    matchStart (excPattern table) line = some ended ∧ ended.captured "type" = name ∧
      ended.captured "msg" = afterColon message := by
  obtain ⟨named,split⟩ := read
  obtain ⟨way,reached,rest⟩ := typed_reached named (':' :: message)
  rw [← split] at reached
  have onward : ∀ place : Place, place.rest = ':' :: message → ∃ ended shorter,
      ends messagePattern place = ended :: shorter ∧ ended.groups = ("msg",afterColon message) :: place.groups := by
    rintro ⟨before,_,groups⟩ rfl
    exact message_ends inline
  have some : ends messagePattern way ≠ [] := by
    obtain ⟨ended,shorter,found,_⟩ := onward way rest
    simp [found]
  obtain ⟨taken,listed,ended,later,found,head⟩ := head_flatMap reached some
  obtain ⟨own,whole,typed,groups⟩ := typed_ended listed
  obtain ⟨message',colon⟩ := @message_begins taken (by simp [found])
  rw [colon] at whole
  obtain ⟨rfl,rfl⟩ := exceptionLine_unique ⟨named,split⟩ ⟨typed,whole⟩
  obtain ⟨_,_,found',captured⟩ := onward taken colon
  rw [found] at found'
  cases found'
  refine ⟨ended,?_,?_,?_⟩
  · rw [matchStart,firstEnd,exc_parts]
    exact head
  · simp [Place.captured,captured,groups]
  · simp [Place.captured,captured]

/-- What the pattern reads is an exception line. -/
theorem exception_of_found {ended : Place} (found : matchStart (excPattern table) line = some ended) :
    ∃ name message, ExceptionLine table line name message := by
  rw [matchStart,firstEnd,exc_parts] at found
  obtain ⟨place,typed,member⟩ := List.mem_flatMap.mp (List.mem_of_mem_head? found)
  obtain ⟨name,split,named,_⟩ := typed_ended typed
  obtain ⟨message,colon⟩ := message_begins (List.ne_nil_of_mem member)
  exact ⟨name,message,named,by rw [split,colon]⟩

end

end Hookclose.TracebackLines
