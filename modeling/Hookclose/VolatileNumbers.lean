import Hookclose.RenumberedTexts
import Hookclose.SelfHealing
import Hookclose.Tracebacks

/-!
Failures that differ in numbers. When numbers change in the line that becomes the message,
the category of the failure stays; its signature stays unless the exception type or the
place of the failure changes with them, or a changed number that letters follow directly
shows in the part of the message that the signature keeps.
-/
namespace Hookclose.VolatileNumbers
open Hookclose.Patterns Hookclose.FailureAnalyzer Hookclose.TracebackLines Hookclose.OutputLines Hookclose.NumberWords
  Hookclose.SelfHealing

/-! ### Categories -/

/-- A text begins with a code of the linter. -/
def LintCode (table : WordTable) (text rest : List Char) : Prop :=
  ∃ c digits, text = c :: (digits ++ rest) ∧ (c == 'E' || c == 'W' || c == 'F' || c == 'B') = true ∧ digits.length = 3 ∧
    (∀ d ∈ digits, isDecimal d = true) ∧ Free table rest

section
variable {table : WordTable} {text rest s t : List Char} {b : Option Char}

theorem code_letter {c : Char} (code : (c == 'E' || c == 'W' || c == 'F' || c == 'B') = true) :
    table.isWord c = true ∧ isDecimal c = false := by
  simp only [Bool.or_eq_true,beq_iff_eq] at code
  rcases code with ((rfl | rfl) | rfl) | rfl <;> exact ⟨ascii_letter (by decide) (by decide),by decide⟩

theorem lint_of_ended (regular : Regular table) {ended : Place} (member : ended ∈ ends (lintPattern table) ⟨b,text,[]⟩) :
    b.any table.isWord = false ∧ ∃ rest, LintCode table text rest := by
  unfold lintPattern Patterns.sequence at member
  rw [List.foldr_cons,List.foldr_cons,List.foldr_cons,List.foldr_cons,List.foldr_nil,ends] at member
  obtain ⟨first,begun,member⟩ := List.mem_flatMap.mp member
  rw [ends] at member
  obtain ⟨second,marked,member⟩ := List.mem_flatMap.mp member
  rw [ends] at member
  obtain ⟨third,counted,member⟩ := List.mem_flatMap.mp member
  rw [ends] at member
  obtain ⟨fourth,closed,_⟩ := List.mem_flatMap.mp member
  obtain ⟨rfl,_⟩ := mem_boundary begun
  rw [ends] at marked
  split_ifs at marked with code
  · rw [List.mem_singleton] at marked
    subst marked
    cases text with
    | nil => simp at code
    | cons c text =>
      have code : (c == 'E' || c == 'W' || c == 'F' || c == 'B') = true := by simpa using code
      obtain ⟨digits,split,three,all,last⟩ := mem_ends_exactly counted
      have some : digits ≠ [] := by
        rintro rfl
        cases three
      obtain ⟨rfl,free⟩ := free_of_boundary some (fun d member => regular.decimals d (all d member)) last closed
      obtain ⟨_,outside⟩ := outside_of_boundary rfl (code_letter code).1 begun
      exact ⟨outside,fourth.rest,c,digits,congrArg _ split,code,three,all,free⟩
  · cases marked

theorem lint_found (regular : Regular table) (outside : b.any table.isWord = false) (lint : LintCode table text rest) :
    ∃ ended, firstEnd (lintPattern table) ⟨b,text,[]⟩ = some ended := by
  obtain ⟨c,digits,rfl,code,three,all,free⟩ := lint
  have words : ∀ d ∈ digits, table.isWord d = true := fun d member => regular.decimals d (all d member)
  have some : digits ≠ [] := by
    rintro rfl
    cases three
  have reached : ∃ ended, ended ∈ ends (lintPattern table) ⟨b,c :: (digits ++ rest),[]⟩ := by
    refine ⟨⟨digits.getLast?.or (Option.some c),rest,[]⟩,?_⟩
    unfold lintPattern Patterns.sequence
    rw [List.foldr_cons,List.foldr_cons,List.foldr_cons,List.foldr_cons,List.foldr_nil,ends]
    refine List.mem_flatMap.mpr ⟨_,boundary_before outside (code_letter code).1 (digits ++ rest),?_⟩
    rw [ends]
    refine List.mem_flatMap.mpr ⟨⟨Option.some c,digits ++ rest,[]⟩,?_,?_⟩
    · rw [ends,if_pos (by exact code)]
      exact List.mem_singleton_self _
    · rw [ends,← three]
      refine List.mem_flatMap.mpr ⟨_,ends_exactly all rest,?_⟩
      rw [ends]
      exact List.mem_flatMap.mpr ⟨_,boundary_after some words free,by simp [ends]⟩
  obtain ⟨ended,member⟩ := reached
  rw [firstEnd]
  exact ⟨_,List.head?_eq_some_head (List.ne_nil_of_mem member)⟩

/-- Texts that differ in numbers have codes of the linter together. -/
theorem lint_renumbered (regular : Regular table) (renumbered : Renumbered table false s t) :
    findAll (lintPattern table) 0 none s ≠ [] ↔ findAll (lintPattern table) 0 none t ≠ [] := by
  have kept : ∀ {s t : List Char}, Renumbered table false s t → findAll (lintPattern table) 0 none s ≠ [] →
      findAll (lintPattern table) 0 none t ≠ [] := by
    intro s t renumbered found
    rw [findAll_ne_nil] at found ⊢
    obtain ⟨a,c,later,ended,rfl,first⟩ := found
    obtain ⟨outside,rest,d,digits,split,code,three,all,free⟩ := lint_of_ended regular (List.mem_of_mem_head? first)
    rw [Option.or_none] at outside
    rw [split] at renumbered
    obtain ⟨b,_,rfl,closed,here⟩ := renumbered.after regular outside
    obtain ⟨_,rfl,within⟩ := here.cons (.inl (@code_letter table d code).2)
    rw [(code_letter code).1] at within
    obtain ⟨u,rfl,last⟩ := within.inside (fun d member => regular.decimals d (all d member))
    obtain ⟨ended,found⟩ := lint_found regular (b := b.getLast?.or none) (by rwa [Option.or_none])
      ⟨d,digits,rfl,code,three,all,(last.outside regular free true).2⟩
    exact ⟨b,d,digits ++ u,ended,rfl,found⟩
  exact ⟨kept renumbered,kept renumbered.symm⟩

theorem needles_steadfast : ∀ needle ∈ ["timed out","assert","failed","ruff"], Steadfast needle.toList := by decide +kernel

/-- The category of a failure does not depend on the numbers in its output. -/
theorem categorize_renumbered (regular : Regular table) {first second : String} {parsed parsed' : ParsedTraceback}
    (types : parsed.exceptionType = parsed'.exceptionType) (renumbered : Renumbered table false first.toList second.toList) :
    categorize table parsed first = categorize table parsed' second := by
  have mentioned : ∀ needle ∈ ["timed out","assert","failed","ruff"],
      mentions first.toList needle = mentions second.toList needle :=
    fun needle listed => mentions_renumbered (needles_steadfast needle listed) renumbered
  have lints : decide (findAll (lintPattern table) 0 none first.toList ≠ []) =
      decide (findAll (lintPattern table) 0 none second.toList ≠ []) := decide_eq_decide.mpr (lint_renumbered regular renumbered)
  simp only [categorize,types,mentioned "timed out" (by simp),mentioned "assert" (by simp),mentioned "failed" (by simp),
    mentioned "ruff" (by simp),lints]

end

/-! ### Places -/

/-- The `File` entries of a text, read from the left: their file names and the digits of
    their line numbers. -/
inductive Entries : List Char → List (List Char × List Char) → Prop
  | ended : Entries [] []
  | passed {c : Char} {text : List Char} {entries : List (List Char × List Char)}
      (none : ∀ file digits func rest, ¬ Entry (c :: text) file digits func rest) (later : Entries text entries) :
      Entries (c :: text) entries
  | found {text file digits func rest : List Char} {entries : List (List Char × List Char)}
      (entry : Entry text file digits func rest) (later : Entries rest entries) : Entries text ((file,digits) :: entries)

def lineNumber (digits : List Char) : Int := (Text.parseInt (String.ofList digits)).getD 0

/-- Two places of failures: neither is known, or they are the same line of the same file. -/
inductive SamePlace : Option (List Char × List Char) → Option (List Char × List Char) → Prop
  | unknown : SamePlace none none
  | known {file digits digits' : List Char} (line : lineNumber digits = lineNumber digits') :
      SamePlace (some (file,digits)) (some (file,digits'))

/-- The place as the signature names it. -/
def locationOf (place : Option (List Char × List Char)) : String :=
  match place with
  | some (file,digits) => String.ofList file ++ ":" ++ toString (lineNumber digits)
  | none => ""

section
variable {text : List Char} {entries : List (List Char × List Char)}

/-- An entry is some text. -/
theorem entry_split {file digits func rest : List Char} (entry : Entry text file digits func rest) :
    ∃ run, text = 'F' :: (run ++ rest) := by
  obtain ⟨⟨tail,rfl,⟨rfl,_⟩⟩,_,_⟩ := entry
  refine ⟨"ile \"".toList ++ (file ++ ("\", line ".toList ++ (digits ++ (", in ".toList ++ func)))),?_⟩
  simp only [List.append_assoc]
  rfl

theorem entries_exist (text : List Char) : ∃ entries, Entries text entries := by
  cases text with
  | nil => exact ⟨[],.ended⟩
  | cons c text =>
    by_cases begun : ∃ file digits func rest, Entry (c :: text) file digits func rest
    · obtain ⟨file,digits,func,rest,entry⟩ := begun
      obtain ⟨run,split⟩ := entry_split entry
      have shorter : rest.length ≤ text.length := by
        rw [(List.cons.inj split).2,List.length_append]
        omega
      obtain ⟨entries,later⟩ := entries_exist rest
      exact ⟨_,.found entry later⟩
    · obtain ⟨entries,later⟩ := entries_exist text
      exact ⟨entries,.passed (fun file digits func rest entry => begun ⟨file,digits,func,rest,entry⟩) later⟩
termination_by text.length

/-- The parser's frames are the entries. -/
theorem entries_read (read : Entries text entries) (b : Option Char) :
    ((findAll framePattern 0 b text).map toFrame).map (fun frame => (frame.file,frame.line)) =
      entries.map (fun entry => (String.ofList entry.1,lineNumber entry.2)) := by
  induction read generalizing b with
  | ended => rfl
  | passed none _ ih => rw [findAll_missed (no_entry none b),ih]
  | found entry _ ih =>
    obtain ⟨run,rfl⟩ := entry_split entry
    obtain ⟨ended,found,stops,frame⟩ := entry_found entry b
    rw [findAll_found found stops,List.map_cons,List.map_cons,ih,frame]
    rfl

theorem location_read {parsed : ParsedTraceback} (frames : parsed.frames = framesOf text) (read : Entries text entries) :
    (match parsed.lastFrame with
      | some frame => frame.file ++ ":" ++ toString frame.line
      | none => "") = locationOf entries.getLast? := by
  have last := congrArg List.getLast? (entries_read read none)
  rw [List.getLast?_map,@List.getLast?_map _ _ _ entries] at last
  rw [ParsedTraceback.lastFrame,frames]
  unfold framesOf
  cases own : ((findAll framePattern 0 none text).map toFrame).getLast? with
  | none =>
    rw [own] at last
    cases known : entries.getLast? with
    | none => rfl
    | some entry =>
      rw [known] at last
      cases last
  | some frame =>
    rw [own] at last
    cases known : entries.getLast? with
    | none =>
      rw [known] at last
      cases last
    | some entry =>
      rw [known] at last
      obtain ⟨file,line⟩ := Prod.mk.inj (Option.some.inj last)
      simp only [locationOf,file,line]

theorem colon_toString (value : Int) : ':' ∉ (toString value).toList := by
  intro member
  rw [JsonText.toList_toString] at member
  split_ifs at member
  · exact absurd (JsonText.isDigit_of_mem member) (by decide)
  · rcases List.mem_cons.mp member with minus | digit
    · cases minus
    · exact absurd (JsonText.isDigit_of_mem digit) (by decide)

/-- The name of a place tells the place. -/
theorem locationOf_eq {place place' : Option (List Char × List Char)} :
    locationOf place = locationOf place' ↔ SamePlace place place' := by
  constructor
  · intro same
    cases place with
    | none =>
      cases place' with
      | none => exact .unknown
      | some place =>
        have lengths := congrArg String.toList same
        simp [locationOf] at lengths
    | some place =>
      cases place' with
      | none =>
        have lengths := congrArg String.toList same
        simp [locationOf] at lengths
      | some place' =>
        obtain ⟨file,digits⟩ := place
        obtain ⟨file',digits'⟩ := place'
        have backward := congrArg (fun name : String => name.toList.reverse) same
        have colon : ":".toList = [':'] := rfl
        simp only [locationOf,String.toList_append,String.toList_ofList,List.reverse_append,colon,List.reverse_singleton,
          List.singleton_append] at backward
        obtain ⟨between,numbers,rest⟩ := Tracebacks.before_stop
          (fun member => colon_toString (lineNumber digits) (List.mem_reverse.mp member)) backward
        cases between with
        | cons c between =>
          obtain ⟨rfl,_⟩ := List.cons.inj rest
          have colon : ':' ∈ (toString (lineNumber digits')).toList.reverse := by
            rw [numbers]
            simp
          exact absurd (List.mem_reverse.mp colon) (colon_toString _)
        | nil =>
          have files : file = file' := by simpa using rest
          have texts : toString (lineNumber digits) = toString (lineNumber digits') := by
            rw [List.append_nil,List.reverse_inj] at numbers
            exact (String.toList_inj.mp numbers).symm
          have values := congrArg Text.parseInt texts
          rw [JsonText.parseInt_toString,JsonText.parseInt_toString] at values
          subst files
          exact .known (Option.some.inj values)
  · rintro (_ | ⟨line⟩)
    · rfl
    · simp only [locationOf,line]

end

/-! ### The line that becomes the message -/

/-- No line of a text is read as an exception. -/
def Unread (table : WordTable) (text : List Char) : Prop := lastRead (matchStart (excPattern table)) text = none

/-- What a line is read as: an exception type and a message, or a message alone. -/
inductive Reading (table : WordTable) (line : List Char) : List Char → List Char → Prop
  | exception {name message : List Char} (read : ExceptionLine table (Text.strip line) name message) :
      Reading table line name (Text.strip message)
  | plain (unread : ∀ name message, ¬ ExceptionLine table (Text.strip line) name message) :
      Reading table line [] (Text.strip line)

/-- A line of an output, with what stands before and after it. -/
structure Placed (pre line post : List Char) : Prop where
  inline : ∀ c ∈ line, isLineBreak c = false
  begins : pre.getLast?.any isLineBreak = true ∨ pre = []
  ends : ∀ c, post.head? = some c → isLineBreak c = true

/-- The line that the parser takes the message from: the last one that is an exception
    line, or without one the last that is not blank. -/
structure Selected (table : WordTable) (pre line post : List Char) : Prop extends Placed pre line post where
  last : (∃ name message, ExceptionLine table (Text.strip line) name message) ∧ Unread table post ∨
    Unread table (pre ++ (line ++ post)) ∧ Text.strip line ≠ [] ∧ Text.strip post = []

def output (pre line post : List Char) : String := String.ofList (pre ++ (line ++ post))

section
variable {table : WordTable} {pre line line' post type body : List Char}

theorem exception_nonempty {name message : List Char} (read : ExceptionLine table line name message) : line ≠ [] := by
  obtain ⟨_,rfl⟩ := read
  simp

theorem nonempty_of_strip (some : Text.strip line ≠ []) : line ≠ [] := by
  rintro rfl
  exact some rfl

theorem Selected.nonempty (selected : Selected table pre line post) : line ≠ [] := by
  rcases selected.last with ⟨⟨_,_,read⟩,_⟩ | ⟨_,some,_⟩
  · exact nonempty_of_strip (exception_nonempty read)
  · exact nonempty_of_strip some

/-- The lines of an output are read from its end. -/
theorem Placed.read_back {β : Type} {read : List Char → Option β} (blankless : read [] = none) (placed : Placed pre line post)
    (some : line ≠ []) : lastRead read (pre ++ (line ++ post)) =
      ((lastRead read post).or (read (Text.strip line))).or (lastRead read pre) := by
  have begins : (line ++ post).head?.any isLineBreak = false := by
    have inline := placed.inline
    cases line with
    | nil => exact absurd rfl some
    | cons c line => simpa using inline c List.mem_cons_self
  rw [lastRead_append placed.begins begins,lastRead_line blankless placed.inline placed.ends]

theorem inline_strip (inline : ∀ c ∈ line, isLineBreak c = false) : '\n' ∉ Text.strip line := by
  intro member
  obtain ⟨front,back,split,_⟩ := strip_parts line
  have within : '\n' ∈ line := by
    rw [split]
    exact List.mem_append_right _ (List.mem_append_left _ member)
  exact absurd (inline '\n' within) (by decide)

/-- An exception line is read as one. -/
theorem exception_read {name message : List Char} (inline : ∀ c ∈ line, isLineBreak c = false)
    (read : ExceptionLine table (Text.strip line) name message) : ∃ ended,
      matchStart (excPattern table) (Text.strip line) = some ended ∧ ended.captured "type" = name ∧
        Text.strip (ended.captured "msg") = Text.strip message := by
  have plain : '\n' ∉ message := by
    intro member
    refine inline_strip inline ?_
    rw [read.2]
    simp [member]
  obtain ⟨ended,found,isType,isMessage⟩ := exception_found read plain
  exact ⟨ended,found,isType,by rw [isMessage,strip_afterColon]⟩

theorem unread_iff (inline : ∀ c ∈ line, isLineBreak c = false) : matchStart (excPattern table) (Text.strip line) = none ↔
    ∀ name message, ¬ ExceptionLine table (Text.strip line) name message := by
  constructor
  · intro none name message read
    obtain ⟨ended,found,_⟩ := exception_read inline read
    rw [none] at found
    cases found
  · intro unread
    cases found : matchStart (excPattern table) (Text.strip line) with
    | none => rfl
    | some ended =>
      obtain ⟨name,message,read⟩ := exception_of_found found
      exact absurd read (unread name message)

theorem strip_empty {text : List Char} (empty : Text.strip text = []) : lastRead solidLine text = none := by
  have blankless : solidLine [] = none := if_pos rfl
  rw [← lastRead_strip blankless,empty]
  rfl

/-- The parser reads the selected line. -/
theorem parse_selected (selected : Selected table pre line post) (reading : Reading table line type body) :
    ∃ message, parse table (output pre line post) =
      ⟨String.ofList type,String.ofList message,framesOf (pre ++ (line ++ post))⟩ ∧ Text.strip message = body := by
  have whole := selected.read_back (matchStart_nil table) selected.nonempty
  have chars : (output pre line post).toList = pre ++ (line ++ post) := String.toList_ofList
  cases reading with
  | @exception _ message read =>
    obtain ⟨ended,found,isType,isMessage⟩ := exception_read selected.inline read
    have after : Unread table post := by
      rcases selected.last with ⟨_,after⟩ | ⟨unread,_⟩
      · exact after
      · have nothing : lastRead (matchStart (excPattern table)) (pre ++ (line ++ post)) = none := unread
        rw [whole,found] at nothing
        simp at nothing
    have after' : lastRead (matchStart (excPattern table)) post = none := after
    rw [after',found,Option.none_or,Option.some_or,← chars] at whole
    refine ⟨Text.strip (ended.captured "msg"),?_,by rw [isMessage,strip_bare (bare_strip message)]⟩
    rw [parse_read whole,isType,chars]
  | plain unread =>
    rcases selected.last with ⟨⟨name,message,read⟩,_⟩ | ⟨nothing,some,blank⟩
    · exact absurd read (unread name message)
    · have own : solidLine (Text.strip line) = Option.some (Text.strip line) := if_neg some
      have blankless : solidLine [] = none := if_pos rfl
      have last := selected.read_back blankless selected.nonempty
      rw [strip_empty blank,own,Option.none_or,Option.some_or] at last
      obtain ⟨message,isLast,same⟩ := last_solid last
      refine ⟨message,?_,same⟩
      have nothing' : lastRead (matchStart (excPattern table)) (output pre line post).toList = none := by
        rw [chars]
        exact nothing
      rw [parse_unread nothing',chars,isLast]
      rfl

/-! ### Renumbered lines -/

theorem reading_unique {type' body' : List Char} (reading : Reading table line type body)
    (again : Reading table line type' body') : type' = type ∧ body' = body := by
  cases reading with
  | exception read =>
    cases again with
    | exception read' =>
      obtain ⟨rfl,rfl⟩ := exceptionLine_unique read read'
      exact ⟨rfl,rfl⟩
    | plain unread => exact absurd read (unread _ _)
  | plain unread =>
    cases again with
    | exception read' => exact absurd read' (unread _ _)
    | plain _ => exact ⟨rfl,rfl⟩

theorem typeName_nonempty {name : List Char} (named : TypeName table name) : name ≠ [] := by
  cases named
  simp

/-- A line that differs in numbers is read in the same way, and so do the messages differ. -/
theorem reading_renumbered (regular : Regular table) (renumbered : Renumbered table false line line')
    (reading : Reading table line type body) : ∃ type' body', Reading table line' type' body' ∧
      Renumbered table false body body' ∧ (type = [] ↔ type' = []) := by
  cases reading with
  | exception read =>
    obtain ⟨name',message',read',messages⟩ := (renumbered.strip regular).exception regular read
    exact ⟨name',_,.exception read',messages.strip regular,
      iff_of_false (typeName_nonempty read.1) (typeName_nonempty read'.1)⟩
  | plain unread =>
    refine ⟨[],_,.plain ?_,renumbered.strip regular,Iff.rfl⟩
    intro name message read
    obtain ⟨name',message',read',_⟩ := (renumbered.symm.strip regular).exception regular read
    exact unread name' message' read'

/-- With other numbers in it the line is selected again. -/
theorem Selected.renumbered (regular : Regular table) (selected : Selected table pre line post)
    (renumbered : Renumbered table false line line') : Selected table pre line' post := by
  have unbroken : ∀ c, table.isWord c = true → isLineBreak c = false := by
    intro c word
    cases ends : isLineBreak c with
    | false => rfl
    | true =>
      rw [regular.spaces c (space_of_break ends)] at word
      cases word
  have placed : Placed pre line' post :=
    ⟨renumbered.forall_mem regular unbroken selected.inline,selected.begins,selected.ends⟩
  refine ⟨placed,?_⟩
  have back := renumbered.symm.strip regular
  rcases selected.last with ⟨⟨name,message,read⟩,after⟩ | ⟨unread,some,blank⟩
  · obtain ⟨name',message',read',_⟩ := (renumbered.strip regular).exception regular read
    exact .inl ⟨⟨name',message',read'⟩,after⟩
  · have some' : Text.strip line' ≠ [] := by
      intro empty
      rw [empty] at back
      exact some back.nil
    refine .inr ⟨?_,some',blank⟩
    have nothing := selected.read_back (matchStart_nil table) selected.nonempty
    rw [show lastRead (matchStart (excPattern table)) (pre ++ (line ++ post)) = none from unread,eq_comm,Option.or_eq_none_iff,
      Option.or_eq_none_iff] at nothing
    obtain ⟨⟨after,own⟩,before⟩ := nothing
    have own' : matchStart (excPattern table) (Text.strip line') = none := by
      refine (unread_iff placed.inline).mpr ?_
      intro name message read
      obtain ⟨name',message',read',_⟩ := back.exception regular read
      exact (unread_iff selected.inline).mp own name' message' read'
    rw [Unread,placed.read_back (matchStart_nil table) (nonempty_of_strip some'),after,own',before]
    rfl

theorem output_renumbered (regular : Regular table) (selected : Selected table pre line post)
    (renumbered : Renumbered table false line line') :
    Renumbered table false (output pre line post).toList (output pre line' post).toList := by
  have outside : ∀ c, isLineBreak c = true → table.isWord c = false := fun c ends => regular.spaces c (space_of_break ends)
  have free : Free table post := by
    have ends := selected.ends
    cases post with
    | nil => rfl
    | cons c post => simpa [Free] using outside c (ends c rfl)
  have closed : pre.getLast?.any table.isWord = false := by
    rcases selected.begins with last | rfl
    · cases known : pre.getLast? with
      | none => rfl
      | some c =>
        rw [known] at last
        exact outside c last
    · rfl
  rw [output,output,String.toList_ofList,String.toList_ofList]
  exact (renumbered.append regular free).prepend closed (fun _ => rfl)

/-! ### Signatures -/

theorem normalize_eq (regular : Regular table) (message : List Char) : normalize table (String.ofList message) =
    String.ofList ((normal table false (Text.strip message)).take 160) := by
  rw [← strip_normal regular,FailureAnalyzer.normalize,String.toList_ofList,normal,if_neg (by simp)]

/-- The signature of a failure by its selected line. -/
theorem signature_selected (regular : Regular table) (selected : Selected table pre line post)
    (reading : Reading table line type body) {entries : List (List Char × List Char)}
    (places : Entries (pre ++ (line ++ post)) entries) : ∃ parsed : ParsedTraceback,
      parsed.exceptionType = String.ofList type ∧ (analyze table (output pre line post)).signature =
        ⟨categorize table parsed (output pre line post),
          if String.ofList type = "" then (categorize table parsed (output pre line post)).value else String.ofList type,
          locationOf entries.getLast?,String.ofList ((normal table false body).take 160)⟩ := by
  obtain ⟨message,parsed,rfl⟩ := parse_selected selected reading
  simp only [analyze]
  generalize parse table (output pre line post) = traceback at parsed
  subst parsed
  refine ⟨⟨String.ofList type,String.ofList message,framesOf (pre ++ (line ++ post))⟩,rfl,?_⟩
  have located := @location_read _ _ ⟨String.ofList type,String.ofList message,framesOf (pre ++ (line ++ post))⟩ rfl places
  rw [FailureSignature.mk.injEq,normalize_eq regular]
  exact ⟨rfl,rfl,located,rfl⟩

/-- The second failure is a recurrence of the first: it has the same signature and so the
    same key, under which the memory counts both. -/
structure Recurs (table : WordTable) (first second : String) : Prop where
  signature : (analyze table first).signature = (analyze table second).signature
  key : (analyze table first).signature.key = (analyze table second).signature.key
  counted : ∀ memory : FailureMemory,
    ((memory.record (analyze table first).signature).1.record (analyze table second).signature).2 =
      memory.counts (analyze table first).signature.key + 2

/-- The changed numbers are neither in the exception type nor in the file name or the line
    number of the last `File` entry, and none of them that shows in the kept part of the
    message is directly followed by letters. -/
structure Steady (table : WordTable) (pre line line' post : List Char) : Prop where
  type : ∀ type type' body body', Reading table line type body → Reading table line' type' body' → type = type'
  place : ∀ entries entries', Entries (pre ++ (line ++ post)) entries → Entries (pre ++ (line' ++ post)) entries' →
    SamePlace entries.getLast? entries'.getLast?
  shown : ∀ type type' body body' i, Reading table line type body → Reading table line' type' body' →
    Leak table body body' i → 160 ≤ i

theorem recurs_of_signature {first second : String}
    (same : (analyze table first).signature = (analyze table second).signature) : Recurs table first second := by
  refine ⟨same,by rw [same],fun memory => ?_⟩
  simp [FailureMemory.record,same]

theorem reading_exists (table : WordTable) (line : List Char) : ∃ type body, Reading table line type body := by
  by_cases read : ∃ name message, ExceptionLine table (Text.strip line) name message
  · obtain ⟨name,message,read⟩ := read
    exact ⟨name,_,.exception read⟩
  · exact ⟨[],_,.plain (fun name message own => read ⟨name,message,own⟩)⟩

/-- The signatures agree when what they are made of does. -/
theorem signature_iff (regular : Regular table) (selected : Selected table pre line post)
    (renumbered : Renumbered table false line line') {type' body' : List Char}
    {entries entries' : List (List Char × List Char)} (reading : Reading table line type body)
    (reading' : Reading table line' type' body') (places : Entries (pre ++ (line ++ post)) entries)
    (places' : Entries (pre ++ (line' ++ post)) entries') :
    (analyze table (output pre line post)).signature = (analyze table (output pre line' post)).signature ↔
      type = type' ∧ SamePlace entries.getLast? entries'.getLast? ∧
        (normal table false body).take 160 = (normal table false body').take 160 := by
  obtain ⟨parsed,named,signature⟩ := signature_selected regular selected reading places
  obtain ⟨parsed',named',signature'⟩ := signature_selected regular (selected.renumbered regular renumbered) reading' places'
  have chars : ∀ {a b : List Char}, String.ofList a = String.ofList b ↔ a = b := by
    intro a b
    exact ⟨fun same => by simpa using congrArg String.toList same,fun same => by rw [same]⟩
  have empty : ∀ {a : List Char}, String.ofList a = "" ↔ a = [] := String.ofList_eq_empty_iff
  have messages := @chars ((normal table false body).take 160) ((normal table false body').take 160)
  rw [signature,signature',FailureSignature.mk.injEq,locationOf_eq,messages]
  constructor
  · rintro ⟨category,types,place,message⟩
    refine ⟨?_,place,message⟩
    obtain ⟨_,_,again,_,together⟩ := reading_renumbered regular renumbered reading
    obtain ⟨rfl,rfl⟩ := reading_unique reading' again
    by_cases untyped : type = []
    · rw [untyped,together.mp untyped]
    · rw [if_neg (fun none => untyped (empty.mp none)),if_neg (fun none => untyped (together.mpr (empty.mp none))),chars] at types
      exact types
  · rintro ⟨rfl,place,message⟩
    have category := categorize_renumbered regular (named.trans named'.symm) (output_renumbered regular selected renumbered)
    exact ⟨category,by rw [category],place,message⟩

theorem steady_of_recurs (regular : Regular table) (selected : Selected table pre line post)
    (renumbered : Renumbered table false line line')
    (recurs : Recurs table (output pre line post) (output pre line' post)) : Steady table pre line line' post := by
  obtain ⟨entries,places⟩ := entries_exist (pre ++ (line ++ post))
  obtain ⟨entries',places'⟩ := entries_exist (pre ++ (line' ++ post))
  obtain ⟨type,body,reading⟩ := reading_exists table line
  obtain ⟨type',body',reading',_⟩ := reading_renumbered regular renumbered reading
  constructor
  · intro _ _ _ _ own own'
    exact ((signature_iff regular selected renumbered own own' places places').mp recurs.signature).1
  · intro _ _ own own'
    exact ((signature_iff regular selected renumbered reading reading' own own').mp recurs.signature).2.1
  · intro _ _ _ _ i own own' leak
    have same := ((signature_iff regular selected renumbered own own' places places').mp recurs.signature).2.2
    exact (leak.take_iff regular 160).mp same

theorem recurs_of_steady (regular : Regular table) (selected : Selected table pre line post)
    (renumbered : Renumbered table false line line') (steady : Steady table pre line line' post) :
    Recurs table (output pre line post) (output pre line' post) := by
  obtain ⟨entries,places⟩ := entries_exist (pre ++ (line ++ post))
  obtain ⟨entries',places'⟩ := entries_exist (pre ++ (line' ++ post))
  obtain ⟨type,body,reading⟩ := reading_exists table line
  obtain ⟨type',body',reading',bodies,_⟩ := reading_renumbered regular renumbered reading
  refine recurs_of_signature ((signature_iff regular selected renumbered reading reading' places places').mpr ?_)
  exact ⟨steady.type _ _ _ _ reading reading',steady.place _ _ places places',
    (normal_take_iff regular bodies 160).mpr (fun i leak => steady.shown _ _ _ _ i reading reading' leak)⟩

/-- A failure that differs in the numbers of the line that becomes the message recurs
    exactly when the change is steady. -/
theorem recurs_iff (regular : Regular table) (selected : Selected table pre line post)
    (renumbered : Renumbered table false line line') :
    Recurs table (output pre line post) (output pre line' post) ↔ Steady table pre line line' post :=
  ⟨steady_of_recurs regular selected renumbered,recurs_of_steady regular selected renumbered⟩

end

/-! ### A timeout -/

/-- The table of an interpreter that knows the ASCII letters and the digits of all scripts. -/
def digitWords : WordTable where
  isWord c := c.isAlphanum || c == '_' || isDecimal c
  ascii := by
    intro c ascii
    have all : ∀ n < 128, isDecimal (Char.ofNat n) = true → ((Char.ofNat n).isAlphanum || Char.ofNat n == '_') = true := by
      decide +kernel
    have given := all c.toNat ascii
    rw [Char.ofNat_toNat] at given
    cases digit : isDecimal c with
    | false => rw [Bool.or_false]
    | true => rw [given digit,Bool.true_or]

theorem digitWords_regular : Regular digitWords := by
  constructor
  · intro c blank
    have solid : isDecimal c = false := by
      cases digit : isDecimal c with
      | false => rfl
      | true =>
        have all : ∀ first ∈ Text.decimalZeros, ∀ n < 10, Text.isSpace (Char.ofNat (first + n)) = false := by decide +kernel
        simp only [isDecimal,Text.decimal,Option.isSome_map,List.find?_isSome,Bool.and_eq_true,decide_eq_true_eq] at digit
        obtain ⟨first,listed,least,most⟩ := digit
        have given := all first listed (c.toNat - first) (by omega)
        rw [Nat.add_sub_cancel' least,Char.ofNat_toNat,blank] at given
        cases given
    have letter : (c.isAlphanum || c == '_') = false := Tracebacks.asciiWords_apart c blank
    show (c.isAlphanum || c == '_' || isDecimal c) = false
    rw [letter,solid,Bool.or_false]
  · intro c digit
    show (c.isAlphanum || c == '_' || isDecimal c) = true
    rw [digit,Bool.or_true]

def timeoutAfter (seconds : String) : List Char := "step timed out after ".toList ++ (seconds.toList ++ "s".toList)

theorem timeout_unread : ∀ seconds ∈ ["120","130"], ∀ name message,
    ¬ ExceptionLine digitWords (Text.strip (timeoutAfter seconds)) name message := by
  rintro seconds listed name message ⟨_,split⟩
  have colon : ':' ∈ Text.strip (timeoutAfter seconds) := by
    rw [split]
    simp
  have plain : ∀ seconds ∈ ["120","130"], ':' ∉ Text.strip (timeoutAfter seconds) := by decide +kernel
  exact plain seconds listed colon

theorem timeout_selected : Selected digitWords [] (timeoutAfter "120") [] := by
  have placed : Placed [] (timeoutAfter "120") [] := ⟨checked (by decide),.inr rfl,by simp⟩
  refine ⟨placed,.inr ⟨?_,by decide +kernel,rfl⟩⟩
  rw [Unread,placed.read_back (matchStart_nil digitWords) (by decide),
    (unread_iff placed.inline).mpr (timeout_unread "120" (by decide))]
  rfl

theorem timeout_digits : Digits "120".toList ∧ Digits "130".toList := 
  ⟨⟨by decide,checked (by decide)⟩,by decide,checked (by decide)⟩

theorem timeout_renumbered : Renumbered digitWords false (timeoutAfter "120") (timeoutAfter "130") := by
  have digits : Renumbered digitWords false ("120".toList ++ "s".toList) ("130".toList ++ "s".toList) :=
    .decimal timeout_digits.1 timeout_digits.2 (by decide) (by decide) (.refl _ _)
  exact digits.prepend (by decide) (fun _ => rfl)

/-- The seconds are directly followed by a letter: the second timeout is not a recurrence. -/
theorem timeout_forgotten : Selected digitWords [] (timeoutAfter "120") [] ∧
    Renumbered digitWords false (timeoutAfter "120") (timeoutAfter "130") ∧
      ¬ Recurs digitWords (output [] (timeoutAfter "120") []) (output [] (timeoutAfter "130") []) := by
  refine ⟨timeout_selected,timeout_renumbered,fun recurs => ?_⟩
  have steady := steady_of_recurs digitWords_regular timeout_selected timeout_renumbered recurs
  have reading : ∀ seconds ∈ ["120","130"], Reading digitWords (timeoutAfter seconds) [] (timeoutAfter seconds) := by
    intro seconds listed
    have stripped : ∀ seconds ∈ ["120","130"], Text.strip (timeoutAfter seconds) = timeoutAfter seconds := by decide +kernel
    have plain := Reading.plain (timeout_unread seconds listed)
    rwa [stripped seconds listed] at plain
  have follows : NumberWords.Unit digitWords "s".toList := ⟨by decide,checked (by decide),by decide⟩
  have closed : ("step timed out after ".toList).getLast?.any digitWords.isWord = false := by decide
  have leak := Leak.intro closed closed rfl timeout_digits.1 timeout_digits.2 (by decide) follows (free_nil digitWords)
    (free_nil digitWords)
  rw [List.append_nil,List.append_nil] at leak
  have late := steady.shown _ _ _ _ _ (reading "120" (by decide)) (reading "130" (by decide)) leak
  exact absurd late (by decide +kernel)

theorem timeout_recurs_iff : Recurs digitWords (output [] (timeoutAfter "120") []) (output [] (timeoutAfter "130") []) ↔
    Steady digitWords [] (timeoutAfter "120") (timeoutAfter "130") [] :=
  recurs_iff digitWords_regular timeout_selected timeout_renumbered

end Hookclose.VolatileNumbers
