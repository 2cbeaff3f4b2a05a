import Hookclose.JsonText
import Hookclose.OutputLines

/-!
Tracebacks as the interpreter prints them. The parser reads them back when the exception
has a message and its type begins with an ASCII letter or an underscore before its suffix;
the file name pattern runs over the ends of lines, so a source line that opens an entry
must not be closed by what the next line goes on with.
-/
namespace Hookclose.Tracebacks
open Hookclose.Patterns Hookclose.FailureAnalyzer Hookclose.TracebackLines Hookclose.OutputLines

/-! ### Printed tracebacks -/

structure PrintedFrame where
  file : String
  line : Nat
  func : String
  source : Option String

def PrintedFrame.toFrame (frame : PrintedFrame) : Frame := ⟨frame.file,frame.line,frame.func⟩

def header : List Char := "Traceback (most recent call last):".toList

/-- The line of a frame from the file name on. -/
def entryText (frame : PrintedFrame) : List Char :=
  "File \"".toList ++ (frame.file.toList ++ ("\", line ".toList ++ ((toString (frame.line : Int)).toList ++
    (", in ".toList ++ frame.func.toList))))

def frameLines (frame : PrintedFrame) : List (List Char) :=
  ("  ".toList ++ entryText frame) :: frame.source.toList.map (fun source => "    ".toList ++ source.toList)

/-- The last line: without a message the type stands alone. -/
def lastLine (type message : String) : List Char :=
  if message = "" then type.toList else type.toList ++ (": ".toList ++ message.toList)

def printedLines (frames : List PrintedFrame) (type message : String) : List (List Char) :=
  header :: frames.flatMap frameLines ++ [lastLine type message]

/-- Every line has its end. -/
def unlines (lines : List (List Char)) : List Char := lines.flatMap (fun line => line ++ ['\n'])

def printed (frames : List PrintedFrame) (type message : String) : String :=
  String.ofList (unlines (printedLines frames type message))

/-! ### What is printed -/

/-- Somewhere in the text there is a `File` entry. -/
def HasEntry (text : List Char) : Prop :=
  ∃ before rest file digits func after, text = before ++ rest ∧ Entry rest file digits func after

/-- A line of source: neither with an entry nor an exception line. -/
structure SourceLine (table : WordTable) (source : List Char) : Prop where
  inline : ∀ c ∈ source, isLineBreak c = false
  noEntry : ¬ HasEntry source
  noException : ∀ name message, ¬ ExceptionLine table (Text.strip source) name message

/-- A traceback that the interpreter can print. -/
structure Printable (table : WordTable) (frames : List PrintedFrame) (type message : String) : Prop where
  some : frames ≠ []
  files : ∀ frame ∈ frames, ∀ c ∈ frame.file.toList, c ≠ '"' ∧ isLineBreak c = false
  lines : ∀ frame ∈ frames, 0 < frame.line
  funcs : ∀ frame ∈ frames, ∀ c ∈ frame.func.toList, Text.isSpace c = false
  sources : ∀ frame ∈ frames, ∀ source, frame.source = Option.some source → SourceLine table source.toList
  dotted : ∀ c ∈ type.toList, inType table c = true
  suffixed : ∃ suffix ∈ suffixes, suffix <:+ type.toList
  inline : ∀ c ∈ message.toList, isLineBreak c = false
  noEntry : ¬ HasEntry message.toList

/-! ### Entries over the end of a line -/

/-- What follows a quote goes on as an entry does after its file name. -/
def Continues (text : List Char) : Prop :=
  ∃ digits c rest, text = ", line ".toList ++ (digits ++ (", in ".toList ++ c :: rest)) ∧ digits ≠ [] ∧
    (∀ d ∈ digits, isDecimal d = true) ∧ Text.isSpace c = false

/-- The first quote of a text closes an entry. -/
def Closes (text : List Char) : Prop := ∃ name rest, text = name ++ '"' :: rest ∧ '"' ∉ name ∧ Continues rest

/-- A line ends inside a file name. -/
def LeavesOpen (line : List Char) : Prop := ∃ before name, line = before ++ ("File \"".toList ++ name) ∧ '"' ∉ name

/-- What stands after a source line closes an entry: the file name of the next frame, with
    the quote after it, or else the message from its first quote on. -/
def ClosedBy (message : List Char) : List PrintedFrame → Prop
  | next :: _ => Continues (next.file.toList ++ ['"'])
  | [] => Closes message

/-- A source line and what follows it make an entry together. -/
def Crossed (message : List Char) : List PrintedFrame → Prop
  | [] => False
  | frame :: rest =>
    (∃ source, frame.source = some source ∧ LeavesOpen source.toList ∧ ClosedBy message rest) ∨ Crossed message rest

theorem entryText_eq (frame : PrintedFrame) : entryText frame = "File \"".toList ++ (frame.file.toList ++
    ("\", line ".toList ++ ((toString (frame.line : Int)).toList ++ (", in ".toList ++ frame.func.toList)))) := rfl

section
variable {text file digits func rest line : List Char}

theorem entryTail_iff : (∃ digits func rest, EntryTail ('"' :: text) digits func rest) ↔ Continues text := by
  constructor
  · rintro ⟨digits,func,rest,⟨split,numbered,decimal,called,solid,_⟩⟩
    cases func with
    | nil => exact absurd rfl called
    | cons c func =>
      have first := solid c List.mem_cons_self
      simp only [Bool.not_eq_true'] at first
      refine ⟨digits,c,func ++ rest,?_,numbered,decimal,first⟩
      have tail : '"' :: text = '"' :: (", line ".toList ++ (digits ++ (", in ".toList ++ c :: (func ++ rest)))) := split
      exact List.cons.inj tail |>.2
  · rintro ⟨digits,c,rest,rfl,numbered,decimal,solid⟩
    have all : ∀ d ∈ [c], (!Text.isSpace d) = true := by simp [solid]
    obtain ⟨func,later,same,called,allSolid,stops⟩ := longest_run all (by simp) rest
    refine ⟨digits,func,later,⟨?_,numbered,decimal,called,allSolid,stops⟩⟩
    rw [← same]
    rfl

/-- A text without a character is not longer than what stands before the first. -/
theorem before_stop {stop : Char} {first second rest later : List Char} (plain : stop ∉ first)
    (same : first ++ rest = second ++ stop :: later) :
    ∃ between, second = first ++ between ∧ rest = between ++ stop :: later := by
  rcases List.append_eq_append_iff.mp same with ⟨between,split,rest'⟩ | ⟨between,split,rest'⟩
  · exact ⟨between,split,rest'⟩
  · cases between with
    | nil => exact ⟨[],by simpa using split.symm,by simpa using rest'.symm⟩
    | cons d between =>
      obtain ⟨rfl,_⟩ := List.cons.inj rest'
      exact absurd (by rw [split]; simp) plain

theorem closes_iff {name rest : List Char} (plain : '"' ∉ name) : Closes (name ++ '"' :: rest) ↔ Continues rest := by
  constructor
  · rintro ⟨other,later,same,unquoted,continues⟩
    obtain ⟨between,rfl,split⟩ := before_stop plain same
    cases between with
    | nil =>
      cases split
      exact continues
    | cons d between =>
      obtain ⟨rfl,_⟩ := List.cons.inj split
      exact absurd (by simp) unquoted
  · exact fun continues => ⟨name,rest,rfl,plain,continues⟩

/-- What stands after the quote of a file name does not matter. -/
theorem continues_quote {name rest : List Char} (plain : '"' ∉ name) :
    Continues (name ++ '"' :: rest) ↔ Continues (name ++ ['"']) := by
  have quoted : ∀ later, Continues (name ++ '"' :: later) → ∀ other, Continues (name ++ '"' :: other) := by
    rintro later ⟨digits,c,rest,split,numbered,decimal,solid⟩ other
    have unquoted : '"' ∉ ", line ".toList ++ (digits ++ ", in ".toList) := by
      intro member
      rcases List.mem_append.mp member with first | member
      · exact absurd first (by decide)
      · rcases List.mem_append.mp member with digit | last
        · exact absurd (decimal '"' digit) (by decide)
        · exact absurd last (by decide)
    have same : (", line ".toList ++ (digits ++ ", in ".toList)) ++ c :: rest = name ++ '"' :: later := by
      rw [split]
      simp
    obtain ⟨between,rfl,after⟩ := before_stop unquoted same
    cases between with
    | nil =>
      cases after
      exact ⟨digits,'"',other,by simp,numbered,decimal,by decide⟩
    | cons d between =>
      obtain ⟨rfl,_⟩ := List.cons.inj after
      exact ⟨digits,c,between ++ '"' :: other,by simp,numbered,decimal,solid⟩
  exact ⟨fun continues => quoted _ continues [],fun continues => quoted _ continues rest⟩

/-! ### Scanning a line -/

/-- The part of an entry after its file name lies in one line. -/
theorem tail_in_line {later : List Char} (tail : EntryTail (line ++ '\n' :: later) digits func rest) :
    ∃ after, EntryTail line digits func after := by
  obtain ⟨split,numbered,decimal,called,solid,stops⟩ := tail
  have plain : '\n' ∉ "\", line ".toList ++ (digits ++ (", in ".toList ++ func)) := by
    intro member
    rcases List.mem_append.mp member with first | member
    · exact absurd first (by decide)
    · rcases List.mem_append.mp member with digit | member
      · exact absurd (decimal '\n' digit) (by decide)
      · rcases List.mem_append.mp member with last | own
        · exact absurd last (by decide)
        · exact absurd (solid '\n' own) (by decide)
  have same : ("\", line ".toList ++ (digits ++ (", in ".toList ++ func))) ++ rest = line ++ '\n' :: later := by
    rw [split]
    simp
  obtain ⟨after,rfl,rfl⟩ := before_stop plain same
  refine ⟨after,by simp,numbered,decimal,called,solid,?_⟩
  cases after with
  | nil => rfl
  | cons c after => exact stops

/-- An entry that begins in a line lies in the line, or its file name runs over the end of
    the line to a quote that closes it. -/
theorem entry_in_line {later : List Char} (entry : Entry (line ++ '\n' :: later) file digits func rest) :
    HasEntry line ∨ ∃ name, line = "File \"".toList ++ name ∧ '"' ∉ name ∧ '\n' ∈ file ∧ Closes later := by
  obtain ⟨⟨tail,split,isTail⟩,filed,unquoted⟩ := entry
  obtain ⟨opened,rfl,inner⟩ := before_stop (by decide) split.symm
  rcases List.append_eq_append_iff.mp inner with ⟨between,rfl,after⟩ | ⟨beyond,rfl,after⟩
  · subst after
    obtain ⟨after,inLine⟩ := tail_in_line isTail
    exact .inl ⟨[],_,file,digits,func,after,rfl,⟨between,rfl,inLine⟩,filed,unquoted⟩
  · have plain : ∀ part : List Char, (∀ c ∈ part, (c != '"') = true) → '"' ∉ part := by
      intro part different member
      exact absurd (different '"' member) (by decide)
    rw [List.forall_mem_append] at unquoted
    cases beyond with
    | nil =>
      rw [List.nil_append] at after
      have quote := isTail.split
      rw [← after] at quote
      cases quote
    | cons d beyond =>
      obtain ⟨rfl,rfl⟩ := List.cons.inj after
      refine .inr ⟨opened,rfl,plain _ unquoted.1,by simp,beyond,tail.tail,?_,plain _ (List.forall_mem_cons.mp unquoted.2).2,?_⟩
      · rw [isTail.split]
        rfl
      · have quoted : tail = '"' :: tail.tail := by rw [isTail.split]; rfl
        exact entryTail_iff.mp ⟨digits,func,rest,quoted ▸ isTail⟩

/-- Where a line leaves an entry open and the next text closes it, there is one. -/
theorem entry_across {name later : List Char} (unquoted : '"' ∉ name) (closes : Closes later) :
    ∃ file digits func rest, Entry ("File \"".toList ++ name ++ '\n' :: later) file digits func rest ∧ '\n' ∈ file := by
  obtain ⟨before,after,rfl,plain,continues⟩ := closes
  obtain ⟨digits,func,rest,tail⟩ := entryTail_iff.mpr continues
  refine ⟨name ++ '\n' :: before,digits,func,rest,⟨⟨_,by simp,tail⟩,by simp,?_⟩,by simp⟩
  intro c member
  rw [bne_iff_ne]
  rintro rfl
  rcases List.mem_append.mp member with first | second
  · exact unquoted first
  · rcases List.mem_cons.mp second with feed | second
    · cases feed
    · exact plain second

theorem entry_head (entry : Entry text file digits func rest) : ∃ tail, text = 'F' :: tail := by
  obtain ⟨⟨tail,split,_⟩,_,_⟩ := entry
  exact ⟨_,split⟩

/-- No entry begins with another character. -/
theorem missed_other {c : Char} (other : c ≠ 'F') (b : Option Char) (text : List Char) :
    firstEnd framePattern ⟨b,c :: text,[]⟩ = none := by
  refine no_entry ?_ b
  intro file digits func rest entry
  obtain ⟨_,same⟩ := entry_head entry
  cases same
  exact other rfl

theorem hasEntry_cons {c : Char} (entry : HasEntry line) : HasEntry (c :: line) := by
  obtain ⟨before,rest,file,digits,func,after,rfl,entry⟩ := entry
  exact ⟨c :: before,rest,file,digits,func,after,rfl,entry⟩

/-- A line without an entry is passed over. -/
theorem scan_quiet {later : List Char} (noEntry : ¬ HasEntry line) (apart : ¬ (LeavesOpen line ∧ Closes later))
    (b : Option Char) :
    findAll framePattern 0 b (line ++ '\n' :: later) = findAll framePattern 0 (some '\n') later := by
  induction line generalizing b with
  | nil => exact findAll_missed (missed_other (by decide) b later)
  | cons c line ih =>
    have here : firstEnd framePattern ⟨b,c :: (line ++ '\n' :: later),[]⟩ = none := by
      refine no_entry ?_ b
      intro file digits func rest entry
      rcases @entry_in_line _ _ _ _ (c :: line) _ entry with inside | ⟨name,opened,unquoted,_,closes⟩
      · exact noEntry inside
      · exact apart ⟨⟨[],name,opened,unquoted⟩,closes⟩
    rw [List.cons_append,findAll_missed here]
    refine ih (fun inside => noEntry (hasEntry_cons inside)) ?_ (some c)
    rintro ⟨⟨before,name,split,unquoted⟩,closes⟩
    exact apart ⟨⟨c :: before,name,by rw [split]; rfl,unquoted⟩,closes⟩

/-- A line that leaves an entry open makes one with the text that closes it. -/
theorem scan_open {later : List Char} (noEntry : ¬ HasEntry line) (opened : LeavesOpen line) (closes : Closes later)
    (b : Option Char) :
    ∃ ended ∈ findAll framePattern 0 b (line ++ '\n' :: later), '\n' ∈ (toFrame ended).file.toList := by
  obtain ⟨before,name,rfl,unquoted⟩ := opened
  induction before generalizing b with
  | nil =>
    obtain ⟨file,digits,func,rest,entry,feed⟩ := entry_across unquoted closes
    obtain ⟨ended,found,_,frame⟩ := entry_found entry b
    refine ⟨ended,findAll_first found,?_⟩
    rw [frame,String.toList_ofList]
    exact feed
  | cons c before ih =>
    rw [List.cons_append,List.cons_append]
    cases here : firstEnd framePattern ⟨b,c :: (before ++ ("File \"".toList ++ name) ++ '\n' :: later),[]⟩ with
    | some ended =>
      obtain ⟨file,digits,func,rest,entry⟩ := entry_of_found here
      obtain ⟨own,found,_,frame⟩ := entry_found entry b
      rw [here] at found
      cases found
      refine ⟨ended,findAll_first here,?_⟩
      rcases @entry_in_line _ _ _ _ (c :: (before ++ ("File \"".toList ++ name))) _ entry with inside | ⟨_,_,_,feed,_⟩
      · exact absurd inside noEntry
      · rw [frame,String.toList_ofList]
        exact feed
    | none =>
      rw [findAll_missed here]
      exact ih (some c) (fun inside => noEntry (hasEntry_cons inside))

/-! ### Scanning a traceback -/

theorem closes_append {before text : List Char} (plain : '"' ∉ before) : Closes (before ++ text) ↔ Closes text := by
  constructor
  · rintro ⟨name,rest,same,unquoted,continues⟩
    obtain ⟨between,rfl,rfl⟩ := before_stop plain same
    exact ⟨between,rest,rfl,fun member => unquoted (List.mem_append_right _ member),continues⟩
  · rintro ⟨name,rest,rfl,unquoted,continues⟩
    refine ⟨before ++ name,rest,(List.append_assoc _ _ _).symm,?_,continues⟩
    exact fun member => (List.mem_append.mp member).elim plain unquoted

/-- The end of the line is not part of what closes an entry. -/
theorem closes_feed (text : List Char) : Closes (text ++ ['\n']) ↔ Closes text := by
  constructor
  · rintro ⟨name,rest,same,unquoted,digits,c,later,split,numbered,decimal,solid⟩
    cases later using List.reverseRecOn with
    | nil =>
      have whole : text ++ ['\n'] = (name ++ '"' :: (", line ".toList ++ (digits ++ ", in ".toList))) ++ [c] := by
        rw [same,split]
        simp
      cases (List.append_inj' whole rfl).2
      exact absurd solid (by decide)
    | append_singleton later d _ =>
      refine ⟨name,", line ".toList ++ (digits ++ (", in ".toList ++ c :: later)),?_,unquoted,digits,c,later,rfl,numbered,
        decimal,solid⟩
      have whole : text ++ ['\n'] = (name ++ '"' :: (", line ".toList ++ (digits ++ (", in ".toList ++ c :: later)))) ++ [d] := by
        rw [same,split]
        simp
      exact (List.append_inj' whole rfl).1
  · rintro ⟨name,rest,rfl,unquoted,digits,c,later,rfl,numbered,decimal,solid⟩
    exact ⟨name,_,by simp; rfl,unquoted,digits,c,later ++ ['\n'],by simp,numbered,decimal,solid⟩

theorem leavesOpen_blank (line : List Char) : LeavesOpen (' ' :: line) ↔ LeavesOpen line := by
  constructor
  · rintro ⟨before,name,split,unquoted⟩
    cases before with
    | nil => cases split
    | cons c before =>
      obtain ⟨_,rfl⟩ := List.cons.inj split
      exact ⟨before,name,rfl,unquoted⟩
  · rintro ⟨before,name,rfl,unquoted⟩
    exact ⟨' ' :: before,name,rfl,unquoted⟩

theorem hasEntry_cases {c : Char} (entry : HasEntry (c :: line)) :
    (∃ file digits func rest, Entry (c :: line) file digits func rest) ∨ HasEntry line := by
  obtain ⟨before,rest,file,digits,func,after,split,entry⟩ := entry
  cases before with
  | nil => exact .inl ⟨file,digits,func,after,split ▸ entry⟩
  | cons d before =>
    obtain ⟨_,rfl⟩ := List.cons.inj split
    exact .inr ⟨before,rest,file,digits,func,after,rfl,entry⟩

/-- An entry does not begin with another character. -/
theorem hasEntry_other {c : Char} (other : c ≠ 'F') (entry : HasEntry (c :: line)) : HasEntry line := by
  rcases hasEntry_cases entry with ⟨_,_,_,_,here⟩ | later
  · obtain ⟨_,same⟩ := entry_head here
    cases same
    exact absurd rfl other
  · exact later

theorem hasEntry_chars (entry : HasEntry line) : ∀ c ∈ "File \"".toList, c ∈ line := by
  obtain ⟨before,rest,_,_,_,_,rfl,⟨⟨tail,rfl,_⟩,_,_⟩⟩ := entry
  exact fun c member => List.mem_append_right _ (List.mem_append_left _ member)

theorem leavesOpen_chars (opened : LeavesOpen line) : ∀ c ∈ "File \"".toList, c ∈ line := by
  obtain ⟨before,name,rfl,_⟩ := opened
  exact fun c member => List.mem_append_right _ (List.mem_append_left _ member)

/-- A frame is found, and the scan goes on after its line. -/
theorem scan_frame {frame : PrintedFrame} (filed : frame.file ≠ "") (unquoted : ∀ c ∈ frame.file.toList, c ≠ '"')
    (called : frame.func ≠ "") (solid : ∀ c ∈ frame.func.toList, Text.isSpace c = false) (later : List Char)
    (b : Option Char) : ∃ ended, toFrame ended = frame.toFrame ∧
      findAll framePattern 0 b (("  ".toList ++ entryText frame) ++ '\n' :: later) =
        ended :: findAll framePattern 0 (some '\n') later := by
  have decimal : ∀ c ∈ (toString (frame.line : Int)).toList, isDecimal c = true := by
    intro c member
    rw [JsonText.toList_toString,if_pos (by omega)] at member
    rw [isDecimal,JsonText.decimal_digit (JsonText.isDigit_of_mem member)]
    rfl
  have numbered : (toString (frame.line : Int)).toList ≠ [] := by
    rw [JsonText.toList_toString,if_pos (by omega)]
    exact Nat.toDigits_ne_nil
  have entry : Entry (entryText frame ++ '\n' :: later) frame.file.toList (toString (frame.line : Int)).toList
      frame.func.toList ('\n' :: later) := by
    have split : entryText frame ++ '\n' :: later = "File \"".toList ++ (frame.file.toList ++ ("\", line ".toList ++
        ((toString (frame.line : Int)).toList ++ (", in ".toList ++ (frame.func.toList ++ '\n' :: later))))) := by
      simp only [entryText_eq,List.append_assoc]
    refine ⟨⟨_,split,⟨rfl,numbered,decimal,?_,?_,rfl⟩⟩,?_,?_⟩
    · exact fun empty => called (String.toList_eq_nil_iff.mp empty)
    · exact fun c member => by simp [solid c member]
    · exact fun empty => filed (String.toList_eq_nil_iff.mp empty)
    · exact fun c member => bne_iff_ne.mpr (unquoted c member)
  obtain ⟨ended,found,rest,isFrame⟩ := entry_found entry (some ' ')
  refine ⟨ended,?_,?_⟩
  · rw [isFrame,String.ofList_toList,String.ofList_toList,String.ofList_toList,JsonText.parseInt_toString]
    rfl
  · have front : entryText frame = 'F' :: (entryText frame).tail := rfl
    show findAll framePattern 0 b (' ' :: ' ' :: (entryText frame ++ '\n' :: later)) = _
    rw [findAll_missed (missed_other (by decide) _ _),findAll_missed (missed_other (by decide) _ _)]
    rw [front,List.cons_append] at found ⊢
    rw [findAll_found found rest,findAll_missed (missed_other (by decide) _ _)]

end

section
variable {table : WordTable} {frames : List PrintedFrame} {type message : String}

/-- What stands after a frame in the text. -/
def textFrom (type message : String) (frames : List PrintedFrame) : List Char :=
  unlines (frames.flatMap frameLines) ++ (lastLine type message ++ ['\n'])

/-- A frame whose names are there and can be read. -/
structure Legible (frame : PrintedFrame) : Prop where
  filed : frame.file ≠ ""
  unquoted : ∀ c ∈ frame.file.toList, c ≠ '"'
  called : frame.func ≠ ""
  solid : ∀ c ∈ frame.func.toList, Text.isSpace c = false
  noEntry : ∀ source, frame.source = some source → ¬ HasEntry source.toList

theorem unquoted_type (dotted : ∀ c ∈ type.toList, inType table c = true) : '"' ∉ type.toList := by
  intro member
  have inside := dotted '"' member
  rw [inType,table.ascii '"' (by decide)] at inside
  exact absurd inside (by decide)

theorem closes_last (dotted : ∀ c ∈ type.toList, inType table c = true) :
    Closes (lastLine type message ++ ['\n']) ↔ Closes message.toList := by
  rw [closes_feed]
  unfold lastLine
  have plain := unquoted_type dotted
  split_ifs with silent
  · subst silent
    rw [← List.append_nil type.toList,closes_append plain]
    rfl
  · rw [closes_append plain,closes_append (by decide)]

theorem closedBy_iff (dotted : ∀ c ∈ type.toList, inType table c = true)
    (unquoted : ∀ frame ∈ frames, ∀ c ∈ frame.file.toList, c ≠ '"') :
    Closes (textFrom type message frames) ↔ ClosedBy message.toList frames := by
  cases frames with
  | nil => exact closes_last dotted
  | cons next rest =>
    have plain : '"' ∉ next.file.toList := fun member => unquoted next List.mem_cons_self '"' member rfl
    have front : textFrom type message (next :: rest) = "  File ".toList ++ '"' :: (next.file.toList ++ '"' ::
        (", line ".toList ++ ((toString (next.line : Int)).toList ++ (", in ".toList ++ (next.func.toList ++ '\n' ::
          (unlines (next.source.toList.map (fun source => "    ".toList ++ source.toList)) ++
            textFrom type message rest)))))) := by
      simp [textFrom,unlines,frameLines,entryText_eq]
    rw [front,closes_iff (by decide),continues_quote plain]
    rfl

theorem quiet_last (dotted : ∀ c ∈ type.toList, inType table c = true) (noEntry : ¬ HasEntry message.toList) :
    ¬ HasEntry (lastLine type message) := by
  have outside : ∀ c ∈ type.toList, c ≠ ' ' := by
    rintro c member rfl
    have inside := dotted ' ' member
    rw [inType,table.ascii ' ' (by decide)] at inside
    exact absurd inside (by decide)
  unfold lastLine
  split_ifs
  · exact fun entry => outside ' ' (hasEntry_chars entry ' ' (by decide)) rfl
  · intro entry
    generalize type.toList = name at outside entry
    induction name with
    | nil => exact noEntry (hasEntry_other (by decide) (hasEntry_other (by decide) entry))
    | cons c name ih =>
      rcases hasEntry_cases entry with ⟨_,_,_,_,here⟩ | later
      · obtain ⟨⟨tail,split,_⟩,_,_⟩ := here
        obtain ⟨between,same,_⟩ := @before_stop ':' _ (c :: name) _ _ (by decide) split.symm
        have blank : ' ' ∈ c :: name := by
          rw [same]
          exact List.mem_append_left _ (by decide)
        exact outside ' ' blank rfl
      · exact ih (fun d member => outside d (List.mem_cons_of_mem _ member)) later

/-- The frames are found as they are, unless a source line makes an entry with what
    follows; then a file name with the end of a line is found. -/
theorem scan_frames (dotted : ∀ c ∈ type.toList, inType table c = true) (noEntry : ¬ HasEntry message.toList)
    (legible : ∀ frame ∈ frames, Legible frame) (b : Option Char) :
    (¬ Crossed message.toList frames →
      (findAll framePattern 0 b (textFrom type message frames)).map toFrame = frames.map PrintedFrame.toFrame) ∧
    (Crossed message.toList frames →
      ∃ ended ∈ findAll framePattern 0 b (textFrom type message frames), '\n' ∈ (toFrame ended).file.toList) := by
  induction frames generalizing b with
  | nil =>
    refine ⟨fun _ => ?_,False.elim⟩
    have nothing : ¬ Closes [] := by
      rintro ⟨name,_,split,_⟩
      cases name <;> cases split
    have passed := scan_quiet (quiet_last dotted noEntry) (fun both => nothing both.2) b
    show (findAll framePattern 0 b (lastLine type message ++ '\n' :: [])).map toFrame = []
    rw [passed]
    rfl
  | cons frame rest ih =>
    obtain ⟨own,others⟩ := List.forall_mem_cons.mp legible
    obtain ⟨ended,isFrame,found⟩ := scan_frame own.filed own.unquoted own.called own.solid
      (unlines (frame.source.toList.map (fun source => "    ".toList ++ source.toList)) ++ textFrom type message rest) b
    have whole : textFrom type message (frame :: rest) = ("  ".toList ++ entryText frame) ++ '\n' ::
        (unlines (frame.source.toList.map (fun source => "    ".toList ++ source.toList)) ++ textFrom type message rest) := by
      simp [textFrom,unlines,frameLines]
    have closed : Closes (textFrom type message rest) ↔ ClosedBy message.toList rest :=
      closedBy_iff dotted (fun frame member => (others frame member).unquoted)
    rw [whole,found]
    cases sourced : frame.source with
    | none =>
      obtain ⟨quiet,crossed⟩ := ih others (some '\n')
      have same : Crossed message.toList (frame :: rest) ↔ Crossed message.toList rest := by simp [Crossed,sourced]
      rw [same]
      refine ⟨fun apart => ?_,fun both => ?_⟩
      · rw [List.map_cons,List.map_cons,isFrame]
        exact congrArg _ (quiet apart)
      · obtain ⟨later,member,feed⟩ := crossed both
        exact ⟨later,List.mem_cons_of_mem _ member,feed⟩
    | some source =>
      have quiet : ¬ HasEntry ("    ".toList ++ source.toList) := fun entry => own.noEntry source sourced
        (hasEntry_other (by decide) (hasEntry_other (by decide) (hasEntry_other (by decide) (hasEntry_other (by decide) entry))))
      have opened : LeavesOpen ("    ".toList ++ source.toList) ↔ LeavesOpen source.toList := by
        show LeavesOpen (' ' :: ' ' :: ' ' :: ' ' :: source.toList) ↔ _
        rw [leavesOpen_blank,leavesOpen_blank,leavesOpen_blank,leavesOpen_blank]
      have joined : unlines ((some source).toList.map (fun source => "    ".toList ++ source.toList)) ++
          textFrom type message rest = ("    ".toList ++ source.toList) ++ '\n' :: textFrom type message rest := by
        simp [unlines]
      have same : Crossed message.toList (frame :: rest) ↔
          (LeavesOpen ("    ".toList ++ source.toList) ∧ Closes (textFrom type message rest)) ∨
            Crossed message.toList rest := by
        rw [opened,closed]
        simp [Crossed,sourced]
      rw [joined,same]
      by_cases meets : LeavesOpen ("    ".toList ++ source.toList) ∧ Closes (textFrom type message rest)
      · refine ⟨fun apart => absurd (.inl meets) apart,fun _ => ?_⟩
        obtain ⟨later,member,feed⟩ := scan_open quiet meets.1 meets.2 (some '\n')
        exact ⟨later,List.mem_cons_of_mem _ member,feed⟩
      · rw [scan_quiet quiet meets]
        obtain ⟨unmet,crossed⟩ := ih others (some '\n')
        refine ⟨fun apart => ?_,fun both => ?_⟩
        · rw [List.map_cons,List.map_cons,isFrame]
          exact congrArg _ (unmet (fun later => apart (.inr later)))
        · obtain ⟨later,member,feed⟩ := crossed (both.resolve_left meets)
          exact ⟨later,List.mem_cons_of_mem _ member,feed⟩

/-! ### Lines of a traceback -/

theorem lastRead_unlines {β : Type} {read : List Char → Option β} (blankless : read [] = none) {lines : List (List Char)}
    (inline : ∀ line ∈ lines, line ≠ [] ∧ ∀ c ∈ line, isLineBreak c = false) :
    lastRead read (unlines lines) = lastOf read lines := by
  induction lines with
  | nil => rfl
  | cons line lines ih =>
    obtain ⟨⟨_,own⟩,others⟩ := List.forall_mem_cons.mp inline
    have begins : (unlines lines).head?.any isLineBreak = false := by
      cases lines with
      | nil => rfl
      | cons next lines =>
        obtain ⟨some,plain⟩ := others next List.mem_cons_self
        cases next with
        | nil => exact absurd rfl some
        | cons c next => simpa [unlines] using plain c List.mem_cons_self
    have closed : (line ++ ['\n']).getLast?.any isLineBreak = true := by
      rw [List.getLast?_concat]
      rfl
    have feed : lastRead read ['\n'] = none := lastRead_cons blankless (by decide) []
    have split : unlines (line :: lines) = (line ++ ['\n']) ++ unlines lines := rfl
    rw [split,lastRead_append (.inl closed) begins,lastRead_line blankless own (by simp; decide),feed,ih others,lastOf_cons]
    rfl

/-- A line with a blank before its first colon is not an exception line. -/
theorem no_exception {front rest : List Char} (plain : ':' ∉ front) :
    matchStart (excPattern table) (front ++ ' ' :: rest) = none := by
  cases found : matchStart (excPattern table) (front ++ ' ' :: rest) with
  | none => rfl
  | some ended =>
    obtain ⟨name,message,named,split⟩ := exception_of_found found
    have solid : ' ' ∉ name := by
      intro member
      have inside := typeName_inType named ' ' member
      rw [inType,table.ascii ' ' (by decide)] at inside
      exact absurd inside (by decide)
    obtain ⟨between,rfl,after⟩ := before_stop solid split.symm
    cases between with
    | nil => cases after
    | cons d between =>
      obtain ⟨rfl,_⟩ := List.cons.inj after
      exact absurd (by simp) plain

/-- The characters of a type are not white space, where no letter is. -/
theorem solid_type (apart : ∀ c, Text.isSpace c = true → table.isWord c = false) {name : List Char}
    (dotted : ∀ c ∈ name, inType table c = true) : ∀ c ∈ name, Text.isSpace c = false := by
  intro c member
  cases blank : Text.isSpace c with
  | false => rfl
  | true =>
    have inside := dotted c member
    rw [inType,apart c blank,Bool.false_or,beq_iff_eq] at inside
    rw [inside] at blank
    exact absurd blank (by decide)

theorem begins_solid {name : List Char} (solid : ∀ c ∈ name, Text.isSpace c = false) :
    name.head?.any Text.isSpace = false := by
  cases name with
  | nil => rfl
  | cons c name => simpa using solid c List.mem_cons_self

/-- The last line is read when there is a message and the type is a name of the pattern. -/
theorem read_last (apart : ∀ c, Text.isSpace c = true → table.isWord c = false) (named : TypeName table type.toList)
    (spoken : message ≠ "") (inline : ∀ c ∈ message.toList, isLineBreak c = false) : ∃ ended,
    matchStart (excPattern table) (Text.strip (lastLine type message)) = some ended ∧
      ended.captured "type" = type.toList ∧ Text.strip (ended.captured "msg") = Text.strip message.toList := by
  have solid := solid_type apart (typeName_inType named)
  have line : Text.strip (lastLine type message) = type.toList ++ ':' :: rstrip (' ' :: message.toList) := by
    rw [lastLine,if_neg spoken]
    exact strip_solid (begins_solid solid) (by decide)
  have plain : '\n' ∉ rstrip (' ' :: message.toList) := by
    intro member
    have within : '\n' ∈ ' ' :: message.toList := by
      have sub := List.dropWhile_subset Text.isSpace (List.mem_reverse.mp member)
      exact List.mem_reverse.mp sub
    rcases List.mem_cons.mp within with blank | own
    · cases blank
    · exact absurd (inline '\n' own) (by decide)
  obtain ⟨ended,found,isType,isMessage⟩ := exception_found ⟨named,line⟩ plain
  refine ⟨ended,found,isType,?_⟩
  rw [isMessage,strip_afterColon,strip_rstrip,strip_cons (by decide)]

/-- Otherwise it is not. -/
theorem unread_last (apart : ∀ c, Text.isSpace c = true → table.isWord c = false)
    (dotted : ∀ c ∈ type.toList, inType table c = true) (unreadable : ¬ (message ≠ "" ∧ TypeName table type.toList)) :
    matchStart (excPattern table) (Text.strip (lastLine type message)) = none := by
  have solid := solid_type apart dotted
  cases found : matchStart (excPattern table) (Text.strip (lastLine type message)) with
  | none => rfl
  | some ended =>
    obtain ⟨name,rest,named,split⟩ := exception_of_found found
    have plain : ∀ name : List Char, (∀ c ∈ name, inType table c = true) → ':' ∉ name := by
      intro name dotted member
      have inside := dotted ':' member
      rw [colon_outside] at inside
      cases inside
    unfold lastLine at split
    split_ifs at split with silent
    · rw [strip_none solid] at split
      exact absurd (by rw [split]; simp) (plain type.toList dotted)
    · have line : Text.strip (type.toList ++ (": ".toList ++ message.toList)) =
          type.toList ++ ':' :: rstrip (' ' :: message.toList) := strip_solid (begins_solid solid) (by decide)
      rw [line] at split
      obtain ⟨between,isType,after⟩ := before_stop (plain type.toList dotted) split
      cases between with
      | nil =>
        rw [List.append_nil] at isType
        exact absurd ⟨silent,isType ▸ named⟩ unreadable
      | cons d between =>
        obtain ⟨rfl,_⟩ := List.cons.inj after
        exact absurd (by rw [isType]; simp) (plain name (typeName_inType named))

theorem unread_header (table : WordTable) : matchStart (excPattern table) (Text.strip header) = none := by
  have split : Text.strip header = "Traceback".toList ++ ' ' :: "(most recent call last):".toList := by decide +kernel
  rw [split]
  exact no_exception (by decide)

theorem unread_frame {frame : PrintedFrame} (sources : ∀ source, frame.source = some source → SourceLine table source.toList) :
    ∀ line ∈ frameLines frame, matchStart (excPattern table) (Text.strip line) = none := by
  intro line member
  rcases List.mem_cons.mp member with rfl | sourced
  · have begins : ∀ rest, Text.strip ("  ".toList ++ ("File \"".toList ++ rest)) =
        "File".toList ++ ' ' :: ('"' :: rstrip rest) := by
      intro rest
      show Text.strip (' ' :: ' ' :: ("File ".toList ++ '"' :: rest)) = _
      rw [strip_cons (by decide),strip_cons (by decide)]
      exact strip_solid (by decide) (by decide)
    rw [entryText_eq,begins]
    exact no_exception (by decide)
  · obtain ⟨source,given,rfl⟩ := List.mem_map.mp sourced
    have own := sources source (Option.mem_toList.mp given)
    show matchStart (excPattern table) (Text.strip (' ' :: ' ' :: ' ' :: ' ' :: source.toList)) = none
    rw [strip_cons (by decide),strip_cons (by decide),strip_cons (by decide),strip_cons (by decide)]
    cases found : matchStart (excPattern table) (Text.strip source.toList) with
    | none => rfl
    | some ended =>
      obtain ⟨name,message,line⟩ := exception_of_found found
      exact absurd line (own.noException name message)

/-- The lines are not empty and have no end of a line inside. -/
theorem printed_inline (apart : ∀ c, Text.isSpace c = true → table.isWord c = false)
    (printable : Printable table frames type message) :
    ∀ line ∈ printedLines frames type message, line ≠ [] ∧ ∀ c ∈ line, isLineBreak c = false := by
  have unbroken : ∀ {c : Char}, Text.isSpace c = false → isLineBreak c = false := by
    intro c solid
    cases ends : isLineBreak c with
    | false => rfl
    | true =>
      rw [space_of_break ends] at solid
      cases solid
  have words : ∀ word ∈ ["  ","File \"","\", line ",", in ","    ",": "], ∀ c ∈ word.toList, isLineBreak c = false := by
    have all : ∀ c ∈ ["  ","File \"","\", line ",", in ","    ",": "].flatMap String.toList, isLineBreak c = false :=
      checked (by decide)
    exact fun word listed c member => all c (List.mem_flatMap.mpr ⟨word,listed,member⟩)
  have digits : ∀ line : Nat, ∀ c ∈ (toString (line : Int)).toList, isLineBreak c = false := by
    intro line c member
    rw [JsonText.toList_toString,if_pos (by omega)] at member
    have range := JsonText.digit_range (JsonText.isDigit_of_mem member)
    apply unbroken
    simp only [Text.isSpace,Bool.or_eq_false_iff,Bool.and_eq_false_iff,decide_eq_false_iff_not]
    omega
  intro line member
  rcases List.mem_append.mp member with first | last
  · rcases List.mem_cons.mp first with rfl | later
    · exact ⟨by decide,checked (by decide)⟩
    · obtain ⟨frame,listed,own⟩ := List.mem_flatMap.mp later
      rcases List.mem_cons.mp own with rfl | sourced
      · refine ⟨by simp,?_⟩
        rw [entryText_eq]
        simp only [List.forall_mem_append]
        exact ⟨words _ (by simp),words _ (by simp),fun c member => (printable.files frame listed c member).2,words _ (by simp),
          digits frame.line,words _ (by simp),fun c member => unbroken (printable.funcs frame listed c member)⟩
      · obtain ⟨source,given,rfl⟩ := List.mem_map.mp sourced
        rw [List.forall_mem_append]
        exact ⟨by simp,words _ (by simp),(printable.sources frame listed source (Option.mem_toList.mp given)).inline⟩
  · have solid := solid_type apart printable.dotted
    obtain ⟨suffix,known,closes⟩ := printable.suffixed
    have some : type.toList ≠ [] := by
      intro empty
      rw [empty,List.suffix_nil] at closes
      subst closes
      exact absurd known (by decide)
    rw [List.mem_singleton.mp last]
    unfold lastLine
    split_ifs
    · exact ⟨some,fun c member => unbroken (solid c member)⟩
    · simp only [List.forall_mem_append]
      exact ⟨by simp [some],fun c member => unbroken (solid c member),words _ (by simp),printable.inline⟩

/-! ### Reading tracebacks back -/

/-- The parser finds the frames, the type and the message, and a failed assertion is one. -/
structure Parsed (table : WordTable) (frames : List PrintedFrame) (type message : String) : Prop where
  read : parse table (printed frames type message) =
    ⟨type,String.ofList (Text.strip message.toList),frames.map PrintedFrame.toFrame⟩
  asserted : type = "AssertionError" → message = "" →
    (analyze table (printed frames type message)).signature.category = .assertion

/-- There is a message, the type is a letter or an underscore and later a suffix, no name is
    empty, and no source line makes an entry with what follows it. -/
structure Readable (table : WordTable) (frames : List PrintedFrame) (type message : String) : Prop where
  spoken : message ≠ ""
  typed : TypeName table type.toList
  filed : ∀ frame ∈ frames, frame.file ≠ ""
  called : ∀ frame ∈ frames, frame.func ≠ ""
  apart : ¬ Crossed message.toList frames

/-- Only the last line is an exception line. -/
theorem lastRead_printed (apart : ∀ c, Text.isSpace c = true → table.isWord c = false)
    (printable : Printable table frames type message) :
    lastRead (matchStart (excPattern table)) (printed frames type message).toList =
      matchStart (excPattern table) (Text.strip (lastLine type message)) := by
  have before : lastOf (matchStart (excPattern table)) (header :: frames.flatMap frameLines) = none := by
    refine List.findSome?_eq_none_iff.mpr ?_
    intro line member
    rcases List.mem_cons.mp (List.mem_reverse.mp member) with rfl | later
    · exact unread_header table
    · obtain ⟨frame,listed,own⟩ := List.mem_flatMap.mp later
      exact unread_frame (printable.sources frame listed) line own
  rw [printed,String.toList_ofList,lastRead_unlines (matchStart_nil table) (printed_inline apart printable),printedLines,
    lastOf_append,before,Option.or_none]
  exact lastOf_singleton _

theorem framesOf_printed (frames : List PrintedFrame) (type message : String) :
    framesOf (printed frames type message).toList =
      (findAll framePattern 0 (some '\n') (textFrom type message frames)).map toFrame := by
  have whole : unlines (printedLines frames type message) = header ++ '\n' :: textFrom type message frames := by
    simp [printedLines,unlines,textFrom]
  have quiet : ¬ HasEntry header := fun entry => absurd (hasEntry_chars entry 'F' (by decide)) (by decide)
  have closed : ¬ (LeavesOpen header ∧ Closes (textFrom type message frames)) :=
    fun both => absurd (leavesOpen_chars both.1 'F' (by decide)) (by decide)
  rw [framesOf,printed,String.toList_ofList,whole,scan_quiet quiet closed]

theorem legible (printable : Printable table frames type message) (filed : ∀ frame ∈ frames, frame.file ≠ "")
    (called : ∀ frame ∈ frames, frame.func ≠ "") : ∀ frame ∈ frames, Legible frame := by
  intro frame listed
  exact ⟨filed frame listed,fun c member => (printable.files frame listed c member).1,called frame listed,
    printable.funcs frame listed,fun source given => (printable.sources frame listed source given).noEntry⟩

/-- A frame that is found has a file and a function. -/
theorem found_named {b : Option Char} {text : List Char} {ended : Place} (member : ended ∈ findAll framePattern 0 b text) :
    (toFrame ended).file ≠ "" ∧ (toFrame ended).func ≠ "" := by
  obtain ⟨before,rest,found⟩ := mem_findAll member
  obtain ⟨file,digits,func,after,entry⟩ := entry_of_found found
  obtain ⟨own,found',_,frame⟩ := entry_found entry before
  rw [found] at found'
  cases found'
  rw [frame]
  obtain ⟨⟨tail,_,isTail⟩,filed,_⟩ := entry
  exact ⟨fun empty => filed (String.ofList_eq_empty_iff.mp empty),fun empty => isTail.called (String.ofList_eq_empty_iff.mp empty)⟩

theorem parsed_of_readable (apart : ∀ c, Text.isSpace c = true → table.isWord c = false)
    (printable : Printable table frames type message) (readable : Readable table frames type message) :
    Parsed table frames type message := by
  obtain ⟨ended,found,isType,isMessage⟩ := read_last apart readable.typed readable.spoken printable.inline
  rw [← lastRead_printed apart printable] at found
  constructor
  · have framed := (scan_frames printable.dotted printable.noEntry (legible printable readable.filed readable.called)
      (some '\n')).1 readable.apart
    rw [parse_read found,isType,isMessage,framesOf_printed,framed,String.ofList_toList]
  · intro _ silent
    exact absurd silent readable.spoken

theorem readable_of_parsed (apart : ∀ c, Text.isSpace c = true → table.isWord c = false)
    (printable : Printable table frames type message) (parsed : Parsed table frames type message) :
    Readable table frames type message := by
  have read := parsed.read
  have last : message ≠ "" ∧ TypeName table type.toList := by
    by_contra unreadable
    have unread := unread_last apart printable.dotted unreadable
    rw [← lastRead_printed apart printable] at unread
    rw [parse_unread unread] at read
    obtain ⟨suffix,known,closes⟩ := printable.suffixed
    have empty : "" = type := congrArg ParsedTraceback.exceptionType read
    rw [← empty,String.toList_empty,List.suffix_nil] at closes
    subst closes
    exact absurd known (by decide)
  obtain ⟨spoken,typed⟩ := last
  obtain ⟨ended,found,_⟩ := read_last apart typed spoken printable.inline
  rw [← lastRead_printed apart printable] at found
  rw [parse_read found,framesOf_printed] at read
  have framed : (findAll framePattern 0 (some '\n') (textFrom type message frames)).map toFrame =
      frames.map PrintedFrame.toFrame := congrArg ParsedTraceback.frames read
  have named : ∀ frame ∈ frames, frame.file ≠ "" ∧ frame.func ≠ "" := by
    intro frame listed
    have member : frame.toFrame ∈ (findAll framePattern 0 (some '\n') (textFrom type message frames)).map toFrame := by
      rw [framed]
      exact List.mem_map_of_mem listed
    obtain ⟨own,member,same⟩ := List.mem_map.mp member
    have some := found_named member
    rw [same] at some
    exact some
  refine ⟨spoken,typed,fun frame listed => (named frame listed).1,fun frame listed => (named frame listed).2,?_⟩
  intro crossed
  obtain ⟨own,member,feed⟩ := (scan_frames printable.dotted printable.noEntry (legible printable
    (fun frame listed => (named frame listed).1) (fun frame listed => (named frame listed).2)) (some '\n')).2 crossed
  have listed : toFrame own ∈ frames.map PrintedFrame.toFrame := by
    rw [← framed]
    exact List.mem_map_of_mem member
  obtain ⟨frame,listed,same⟩ := List.mem_map.mp listed
  rw [← same] at feed
  exact absurd (printable.files frame listed '\n' feed).2 (by decide)

/-- The parser reads a printed traceback back exactly when it is readable. -/
theorem parsed_iff (apart : ∀ c, Text.isSpace c = true → table.isWord c = false)
    (printable : Printable table frames type message) :
    Parsed table frames type message ↔ Readable table frames type message :=
  ⟨readable_of_parsed apart printable,parsed_of_readable apart printable⟩

end

/-! ### A bare assertion -/

/-- No ASCII letter is white space. -/
theorem asciiWords_apart : ∀ c, Text.isSpace c = true → asciiWords.isWord c = false := by
  intro c blank
  by_contra word
  have letter : (c.isAlpha || c.isDigit || c == '_') = true := Bool.not_eq_false _ |>.mp word
  simp only [Bool.or_eq_true,beq_iff_eq] at letter
  simp only [Text.isSpace,Bool.or_eq_true,Bool.and_eq_true,decide_eq_true_eq] at blank
  rcases letter with (alpha | digit) | rfl
  · have range := alpha_range alpha
    omega
  · have range := JsonText.digit_range digit
    omega
  · exact absurd blank (by decide)

def testFrames : List PrintedFrame := [⟨"test_app.py",7,"test_add",some "assert add(1, 2) == 4"⟩]

theorem bare_printable : Printable asciiWords testFrames "AssertionError" "" := by
  have noLetter : 'F' ∉ "assert add(1, 2) == 4".toList := by decide
  constructor
  · simp [testFrames]
  · simp only [testFrames,List.mem_singleton,forall_eq]
    exact checked (by decide)
  · simp [testFrames]
  · simp only [testFrames,List.mem_singleton,forall_eq]
    exact checked (by decide)
  · simp only [testFrames,List.mem_singleton,forall_eq,Option.some.injEq]
    rintro source rfl
    refine ⟨checked (by decide),fun entry => noLetter (hasEntry_chars entry 'F' (by decide)),?_⟩
    rintro name message ⟨_,split⟩
    have colon : ':' ∈ Text.strip "assert add(1, 2) == 4".toList := by
      rw [split]
      simp
    rw [strip_bare ⟨by decide,by decide⟩] at colon
    exact absurd colon (by decide)
  · exact checked (by decide)
  · exact ⟨"Error".toList,by decide,by decide⟩
  · exact checked (by decide)
  · exact fun entry => absurd (hasEntry_chars entry 'F' (by decide)) (by decide)

/-- An assertion without a message is not read. -/
theorem bare_unparsed : ¬ Parsed asciiWords testFrames "AssertionError" "" :=
  fun parsed => (readable_of_parsed asciiWords_apart bare_printable parsed).spoken rfl

theorem bare_parsed_iff : Parsed asciiWords testFrames "AssertionError" "" ↔
    Readable asciiWords testFrames "AssertionError" "" :=
  parsed_iff asciiWords_apart bare_printable

end Hookclose.Tracebacks
