import Hookclose.TracebackLines

/-!
Lines of a text read from the end: the last line of which something is read, where blanks
around a line and blank lines are not read. Blanks around the text do not matter to it, so
the parser's line can be looked for in the output as it is.
-/
namespace Hookclose.OutputLines
open Hookclose.Patterns Hookclose.FailureAnalyzer Hookclose.TracebackLines

/-! ### Blanks -/

theorem space_of_break {c : Char} (ends : isLineBreak c = true) : Text.isSpace c = true := by
  simp only [isLineBreak,Bool.or_eq_true,Bool.and_eq_true,decide_eq_true_eq] at ends
  simp only [Text.isSpace,Bool.or_eq_true,Bool.and_eq_true,decide_eq_true_eq]
  omega

theorem strip_cons {c : Char} (blank : Text.isSpace c = true) (text : List Char) :
    Text.strip (c :: text) = Text.strip text := by
  rw [Text.strip,List.dropWhile_cons_of_pos blank,Text.strip]

theorem strip_concat {c : Char} (blank : Text.isSpace c = true) (text : List Char) :
    Text.strip (text ++ [c]) = Text.strip text := by
  unfold Text.strip
  by_cases blanks : ∀ d ∈ text, Text.isSpace d = true
  · have all : ∀ d ∈ text ++ [c], Text.isSpace d = true := by
      rw [List.forall_mem_append]
      exact ⟨blanks,by simpa using blank⟩
    rw [List.dropWhile_eq_nil_iff.mpr all,List.dropWhile_eq_nil_iff.mpr blanks]
  · have kept : (text.dropWhile Text.isSpace).isEmpty = false := by
      rw [List.isEmpty_eq_false_iff,ne_eq,List.dropWhile_eq_nil_iff]
      exact blanks
    rw [List.dropWhile_append,kept]
    simp [blank]

theorem strip_none {text : List Char} (solid : ∀ c ∈ text, Text.isSpace c = false) : Text.strip text = text := by
  have kept : ∀ {text : List Char}, (∀ c ∈ text, Text.isSpace c = false) → text.dropWhile Text.isSpace = text := by
    intro text solid
    cases text with
    | nil => rfl
    | cons c text => rw [List.dropWhile_cons_of_neg (by simp [solid c List.mem_cons_self])]
  rw [Text.strip,kept solid,kept (fun c member => solid c (List.mem_reverse.mp member)),List.reverse_reverse]

/-- A text that neither begins nor ends with a blank. -/
structure Bare (text : List Char) : Prop where
  begins : text.head?.any Text.isSpace = false
  ends : text.getLast?.any Text.isSpace = false

theorem strip_bare {text : List Char} (bare : Bare text) : Text.strip text = text := by
  have kept : ∀ {text : List Char}, text.head?.any Text.isSpace = false → text.dropWhile Text.isSpace = text := by
    intro text begins
    cases text with
    | nil => rfl
    | cons c text =>
      have solid : Text.isSpace c = false := by simpa using begins
      rw [List.dropWhile_cons_of_neg (by simp [solid])]
  rw [Text.strip,kept bare.begins,kept (by rw [List.head?_reverse]; exact bare.ends),List.reverse_reverse]

theorem bare_strip (text : List Char) : Bare (Text.strip text) := by
  have stopped : ∀ text : List Char, (text.dropWhile Text.isSpace).head?.any Text.isSpace = false := by
    intro text
    have stops := List.head?_dropWhile_not Text.isSpace text
    cases dropped : text.dropWhile Text.isSpace with
    | nil => rfl
    | cons c rest =>
      rw [dropped] at stops
      simpa using stops
  have front : ∀ text : List Char, (text.reverse.dropWhile Text.isSpace).reverse <+: text := by
    intro text
    rw [← List.reverse_suffix,List.reverse_reverse]
    exact List.dropWhile_suffix _
  refine ⟨?_,?_⟩
  · obtain ⟨rest,whole⟩ := front (text.dropWhile Text.isSpace)
    have begins := stopped text
    unfold Text.strip
    cases kept : ((text.dropWhile Text.isSpace).reverse.dropWhile Text.isSpace).reverse with
    | nil => rfl
    | cons c later =>
      rw [← whole,kept] at begins
      exact begins
  · unfold Text.strip
    rw [List.getLast?_reverse]
    exact stopped _

/-- Blanks around a text can be left out. -/
theorem strip_around {front back : List Char} (before : ∀ c ∈ front, Text.isSpace c = true)
    (after : ∀ c ∈ back, Text.isSpace c = true) (text : List Char) : Text.strip (front ++ (text ++ back)) = Text.strip text := by
  have ending : Text.strip (text ++ back) = Text.strip text := by
    induction back using List.reverseRecOn with
    | nil => rw [List.append_nil]
    | append_singleton back c ih =>
      obtain ⟨others,own⟩ := List.forall_mem_append.mp after
      rw [← List.append_assoc,strip_concat (own c (List.mem_singleton_self c)),ih others]
  induction front with
  | nil => exact ending
  | cons c front ih =>
    obtain ⟨own,others⟩ := List.forall_mem_cons.mp before
    rw [List.cons_append,strip_cons own,ih others]

theorem strip_parts (text : List Char) : ∃ front back, text = front ++ (Text.strip text ++ back) ∧
    (∀ c ∈ front, Text.isSpace c = true) ∧ ∀ c ∈ back, Text.isSpace c = true := by
  refine ⟨text.takeWhile Text.isSpace,((text.dropWhile Text.isSpace).reverse.takeWhile Text.isSpace).reverse,?_,
    fun c member => List.mem_takeWhile_imp member,fun c member => List.mem_takeWhile_imp (List.mem_reverse.mp member)⟩
  have back := @List.takeWhile_append_dropWhile _ Text.isSpace (text.dropWhile Text.isSpace).reverse
  rw [Text.strip,← List.reverse_append,back,List.reverse_reverse,List.takeWhile_append_dropWhile]

/-- Without the blanks at the end. -/
def rstrip (text : List Char) : List Char := (text.reverse.dropWhile Text.isSpace).reverse

theorem strip_rstrip (text : List Char) : Text.strip (rstrip text) = Text.strip text := by
  have back : ∀ text : List Char, Text.strip (text.dropWhile Text.isSpace).reverse = Text.strip text.reverse := by
    intro text
    induction text with
    | nil => rfl
    | cons c text ih =>
      cases blank : Text.isSpace c with
      | true => rw [List.dropWhile_cons_of_pos blank,ih,List.reverse_cons,strip_concat blank]
      | false => rw [List.dropWhile_cons_of_neg (by simp [blank])]
  rw [rstrip,back,List.reverse_reverse]

/-- What begins and goes on with a character that is not blank keeps what stands before it. -/
theorem strip_solid {front rest : List Char} {c : Char} (begins : front.head?.any Text.isSpace = false)
    (solid : Text.isSpace c = false) : Text.strip (front ++ c :: rest) = front ++ c :: rstrip rest := by
  have kept : (front ++ c :: rest).dropWhile Text.isSpace = front ++ c :: rest := by
    cases front with
    | nil => simp [solid]
    | cons d front =>
      have first : Text.isSpace d = false := by simpa using begins
      simp [first]
  rw [Text.strip,kept,List.reverse_append,List.reverse_cons,List.append_assoc,List.dropWhile_append]
  unfold rstrip
  split_ifs with empty
  · rw [List.isEmpty_iff] at empty
    simp [empty,solid]
  · simp

/-! ### Lines -/

theorem linesFrom_crlf (current rest : List Char) :
    linesFrom current ('\r' :: '\n' :: rest) = current.reverse :: linesFrom [] rest := by
  rw [linesFrom]

theorem linesFrom_break {c : Char} {rest : List Char} (ends : isLineBreak c = true)
    (single : ¬ (c = '\r' ∧ rest.head? = some '\n')) (current : List Char) :
    linesFrom current (c :: rest) = current.reverse :: linesFrom [] rest := by
  rw [linesFrom.eq_def]
  split
  · rename_i same
    cases same
  · rename_i same
    cases same
    exact absurd ⟨rfl,rfl⟩ single
  · rename_i same
    cases same
    rw [if_pos ends]

theorem linesFrom_kept {c : Char} (kept : isLineBreak c = false) (current rest : List Char) :
    linesFrom current (c :: rest) = linesFrom (c :: current) rest := by
  rw [linesFrom.eq_def]
  split
  · rename_i same
    cases same
  · rename_i same
    cases same
    cases kept
  · rename_i same
    cases same
    rw [if_neg (by simp [kept])]

/-- How a text begins: with the end of a line, or inside one. -/
theorem line_cases (text : List Char) : text = [] ∨ (∃ rest, text = '\r' :: '\n' :: rest) ∨
    (∃ c rest, text = c :: rest ∧ isLineBreak c = true ∧ ¬ (c = '\r' ∧ rest.head? = some '\n')) ∨
      ∃ c rest, text = c :: rest ∧ isLineBreak c = false := by
  cases text with
  | nil => exact .inl rfl
  | cons c rest =>
    refine .inr ?_
    cases ends : isLineBreak c with
    | false => exact .inr (.inr ⟨c,rest,rfl,ends⟩)
    | true =>
      by_cases double : c = '\r' ∧ rest.head? = some '\n'
      · obtain ⟨rfl,feed⟩ := double
        cases rest with
        | nil => cases feed
        | cons d rest =>
          cases feed
          exact .inl ⟨rest,rfl⟩
      · exact .inr (.inl ⟨c,rest,rfl,ends,double⟩)

/-! ### The last line that is read -/

section
variable {β : Type} {read : List Char → Option β}

/-- What is read of the last of the lines of which something is read. -/
def lastOf (read : List Char → Option β) (lines : List (List Char)) : Option β :=
  lines.reverse.findSome? (fun line => read (Text.strip line))

def lastRead (read : List Char → Option β) (text : List Char) : Option β := lastOf read (splitlines text)

theorem lastOf_cons (line : List Char) (lines : List (List Char)) :
    lastOf read (line :: lines) = (lastOf read lines).or (read (Text.strip line)) := by
  unfold lastOf
  rw [List.reverse_cons,List.findSome?_append,List.findSome?_singleton]

theorem lastOf_singleton (line : List Char) : lastOf read [line] = read (Text.strip line) :=
  (lastOf_cons line []).trans Option.none_or

theorem lastOf_append (first second : List (List Char)) :
    lastOf read (first ++ second) = (lastOf read second).or (lastOf read first) := by
  unfold lastOf
  rw [List.reverse_append,List.findSome?_append]

/-- A blank before a line is not read. -/
theorem linesFrom_blank (blankless : read [] = none) {c : Char} (blank : Text.isSpace c = true) (current text : List Char) :
    lastOf read (linesFrom (current ++ [c]) text) = lastOf read (linesFrom current text) := by
  have front : Text.strip (current ++ [c]).reverse = Text.strip current.reverse := by
    rw [List.reverse_append,List.reverse_singleton,List.singleton_append,strip_cons blank]
  obtain rfl | ⟨rest,rfl⟩ | ⟨d,rest,rfl,ends,single⟩ | ⟨d,rest,rfl,kept⟩ := line_cases text
  · rw [linesFrom,linesFrom,if_neg (by simp),lastOf_cons,front]
    by_cases empty : current = []
    · subst empty
      rw [if_pos rfl]
      exact blankless
    · rw [if_neg empty,lastOf_cons]
  · rw [linesFrom_crlf,linesFrom_crlf,lastOf_cons,lastOf_cons,front]
  · rw [linesFrom_break ends single,linesFrom_break ends single,lastOf_cons,lastOf_cons,front]
  · rw [linesFrom_kept kept,linesFrom_kept kept,← List.cons_append]
    exact linesFrom_blank blankless blank (d :: current) rest
termination_by text.length

theorem lastRead_cons (blankless : read [] = none) {c : Char} (blank : Text.isSpace c = true) (text : List Char) :
    lastRead read (c :: text) = lastRead read text := by
  unfold lastRead splitlines
  obtain same | ⟨rest,same⟩ | ⟨d,rest,same,ends,single⟩ | ⟨d,rest,same,kept⟩ := line_cases (c :: text)
  · cases same
  · cases same
    rw [linesFrom_crlf,linesFrom_break (by decide) (by simp)]
  · cases same
    rw [linesFrom_break ends single,lastOf_cons]
    exact (congrArg _ blankless).trans Option.or_none
  · cases same
    rw [linesFrom_kept kept]
    exact linesFrom_blank blankless blank [] text

/-- A blank after the text is not read. -/
theorem linesFrom_concat (blankless : read [] = none) {c : Char} (blank : Text.isSpace c = true) (current text : List Char) :
    lastOf read (linesFrom current (text ++ [c])) = lastOf read (linesFrom current text) := by
  obtain rfl | ⟨rest,rfl⟩ | ⟨d,rest,rfl,ends,single⟩ | ⟨d,rest,rfl,kept⟩ := line_cases text
  · have last : lastOf read (linesFrom current []) = read (Text.strip current.reverse) := by
      rw [linesFrom]
      by_cases empty : current = []
      · subst empty
        exact blankless.symm
      · rw [if_neg empty]
        exact lastOf_singleton _
    rw [last,List.nil_append]
    cases ends : isLineBreak c with
    | true =>
      rw [linesFrom_break ends (by simp)]
      exact lastOf_singleton _
    | false =>
      rw [linesFrom_kept ends,linesFrom,if_neg (by simp),List.reverse_cons]
      exact (lastOf_singleton _).trans (congrArg read (strip_concat blank _))
  · rw [List.cons_append,List.cons_append,linesFrom_crlf,linesFrom_crlf,lastOf_cons,lastOf_cons,
      linesFrom_concat blankless blank [] rest]
  · by_cases double : d = '\r' ∧ (rest ++ [c]).head? = some '\n'
    · obtain ⟨rfl,feed⟩ := double
      cases rest with
      | nil =>
        cases feed
        rw [linesFrom_break ends single]
        exact congrArg (lastOf read) (linesFrom_crlf current [])
      | cons e rest => exact absurd ⟨rfl,feed⟩ single
    · rw [List.cons_append,linesFrom_break ends double,linesFrom_break ends single,lastOf_cons,lastOf_cons,
        linesFrom_concat blankless blank [] rest]
  · rw [List.cons_append,linesFrom_kept kept,linesFrom_kept kept]
    exact linesFrom_concat blankless blank (d :: current) rest
termination_by text.length

theorem lastRead_concat (blankless : read [] = none) {c : Char} (blank : Text.isSpace c = true) (text : List Char) :
    lastRead read (text ++ [c]) = lastRead read text := linesFrom_concat blankless blank [] text

/-- Blanks around the text are not read. -/
theorem lastRead_strip (blankless : read [] = none) (text : List Char) :
    lastRead read (Text.strip text) = lastRead read text := by
  have front : ∀ text, lastRead read (text.dropWhile Text.isSpace) = lastRead read text := by
    intro text
    induction text with
    | nil => rfl
    | cons c text ih =>
      cases blank : Text.isSpace c with
      | true => rw [List.dropWhile_cons_of_pos blank,ih,lastRead_cons blankless blank]
      | false => rw [List.dropWhile_cons_of_neg (by simp [blank])]
  have back : ∀ text : List Char, lastRead read (text.dropWhile Text.isSpace).reverse = lastRead read text.reverse := by
    intro text
    induction text with
    | nil => rfl
    | cons c text ih =>
      cases blank : Text.isSpace c with
      | true => rw [List.dropWhile_cons_of_pos blank,ih,List.reverse_cons,lastRead_concat blankless blank]
      | false => rw [List.dropWhile_cons_of_neg (by simp [blank])]
  rw [Text.strip,back,List.reverse_reverse,front]

/-! ### A line in a text -/

theorem linesFrom_line {line : List Char} (inline : ∀ c ∈ line, isLineBreak c = false) (current rest : List Char) :
    linesFrom current (line ++ rest) = linesFrom (line.reverse ++ current) rest := by
  induction line generalizing current with
  | nil => rfl
  | cons c line ih =>
    obtain ⟨own,others⟩ := List.forall_mem_cons.mp inline
    rw [List.cons_append,linesFrom_kept own,ih others,List.reverse_cons,List.append_assoc]
    rfl

/-- A line that ends the text, or is followed by the end of a line. -/
theorem lastRead_line (blankless : read [] = none) {line post : List Char} (inline : ∀ c ∈ line, isLineBreak c = false)
    (closed : ∀ c, post.head? = some c → isLineBreak c = true) :
    lastRead read (line ++ post) = (lastRead read post).or (read (Text.strip line)) := by
  unfold lastRead splitlines
  rw [linesFrom_line inline,List.append_nil]
  have empty : read (Text.strip []) = none := blankless
  obtain rfl | ⟨rest,rfl⟩ | ⟨d,rest,rfl,ends,single⟩ | ⟨d,rest,rfl,kept⟩ := line_cases post
  · rw [linesFrom,linesFrom,if_pos rfl]
    cases line with
    | nil => exact empty.symm
    | cons c line =>
      rw [if_neg (by simp),List.reverse_reverse,lastOf_cons]
  · rw [linesFrom_crlf,linesFrom_crlf,lastOf_cons,lastOf_cons,List.reverse_reverse,List.reverse_nil,empty,Option.or_none]
  · rw [linesFrom_break ends single,linesFrom_break ends single,lastOf_cons,lastOf_cons,List.reverse_reverse,
      List.reverse_nil,empty,Option.or_none]
  · rw [closed d rfl] at kept
    cases kept

/-- What stands before the beginning of a line. -/
theorem linesFrom_append {pre rest : List Char} {current : List Char}
    (closed : pre.getLast?.any isLineBreak = true ∨ pre = [] ∧ current = [])
    (begins : rest.head?.any isLineBreak = false) :
    linesFrom current (pre ++ rest) = linesFrom current pre ++ linesFrom [] rest := by
  have later : ∀ {d : Char} {pre : List Char}, (d :: pre).getLast?.any isLineBreak = true →
      pre.getLast?.any isLineBreak = true ∨ pre = [] := by
    intro d pre closed
    cases pre with
    | nil => exact .inr rfl
    | cons e pre => exact .inl (by simpa [List.getLast?_cons_cons] using closed)
  obtain rfl | ⟨p,rfl⟩ | ⟨d,p,rfl,ends,single⟩ | ⟨d,p,rfl,kept⟩ := line_cases pre
  · obtain ⟨_,rfl⟩ := closed.resolve_left (by simp)
    rfl
  · have whole := closed.resolve_right (by simp)
    rw [List.getLast?_cons_cons] at whole
    have rest' := (later whole).imp_right (fun same => (⟨same,rfl⟩ : p = [] ∧ ([] : List Char) = []))
    rw [List.cons_append,List.cons_append,linesFrom_crlf,linesFrom_crlf,linesFrom_append rest' begins,List.cons_append]
  · have rest' := (later (closed.resolve_right (by simp))).imp_right (fun same => (⟨same,rfl⟩ : p = [] ∧ ([] : List Char) = []))
    have single' : ¬ (d = '\r' ∧ (p ++ rest).head? = some '\n') := by
      rintro ⟨rfl,feed⟩
      cases p with
      | cons e p => exact single ⟨rfl,feed⟩
      | nil =>
        rw [List.nil_append] at feed
        rw [feed] at begins
        exact absurd begins (by decide)
    rw [List.cons_append,linesFrom_break ends single',linesFrom_break ends single,linesFrom_append rest' begins,
      List.cons_append]
  · have rest' := later (closed.resolve_right (by simp))
    have inner : p ≠ [] := by
      rintro rfl
      have closed := closed.resolve_right (by simp)
      simp [kept] at closed
    rw [List.cons_append,linesFrom_kept kept,linesFrom_kept kept]
    exact linesFrom_append (.inl (rest'.resolve_right inner)) begins
termination_by pre.length

theorem lastRead_append {pre rest : List Char} (closed : pre.getLast?.any isLineBreak = true ∨ pre = [])
    (begins : rest.head?.any isLineBreak = false) :
    lastRead read (pre ++ rest) = (lastRead read rest).or (lastRead read pre) := by
  unfold lastRead splitlines
  rw [linesFrom_append (closed.imp_right (fun same => ⟨same,rfl⟩)) begins,lastOf_append]

end

/-! ### The parser's line -/

section
variable {table : WordTable}

theorem matchStart_nil (table : WordTable) : matchStart (excPattern table) [] = none := by
  cases found : matchStart (excPattern table) [] with
  | none => rfl
  | some ended =>
    obtain ⟨name,message,_,split⟩ := exception_of_found found
    cases name <;> cases split

/-- The frames of an output. -/
def framesOf (text : List Char) : List Frame := (findAll framePattern 0 none text).map toFrame

/-- The last line of a text that does not end with a blank. -/
theorem linesFrom_last {c : Char} (solid : Text.isSpace c = false) (current text : List Char) :
    ∃ front, (linesFrom current (text ++ [c])).getLast? = some (front ++ [c]) := by
  have kept : isLineBreak c = false := by
    cases ends : isLineBreak c with
    | false => rfl
    | true =>
      rw [space_of_break ends] at solid
      cases solid
  have later : ∀ {line : List Char} {lines : List (List Char)}, (∃ front, lines.getLast? = some (front ++ [c])) →
      ∃ front, (line :: lines).getLast? = some (front ++ [c]) := by
    rintro line lines ⟨front,last⟩
    exact ⟨front,by rw [List.getLast?_cons,last]; rfl⟩
  obtain rfl | ⟨rest,rfl⟩ | ⟨d,rest,rfl,ends,single⟩ | ⟨d,rest,rfl,inline⟩ := line_cases text
  · rw [List.nil_append,linesFrom_kept kept,linesFrom,if_neg (by simp),List.reverse_cons]
    exact ⟨current.reverse,rfl⟩
  · rw [List.cons_append,List.cons_append,linesFrom_crlf]
    exact later (linesFrom_last solid [] rest)
  · have single' : ¬ (d = '\r' ∧ (rest ++ [c]).head? = some '\n') := by
      rintro ⟨rfl,feed⟩
      cases rest with
      | nil =>
        cases feed
        cases kept
      | cons e rest => exact single ⟨rfl,feed⟩
    rw [List.cons_append,linesFrom_break ends single']
    exact later (linesFrom_last solid [] rest)
  · rw [List.cons_append,linesFrom_kept inline]
    exact linesFrom_last solid (d :: current) rest
termination_by text.length

/-- What is not blank is read. -/
def solidLine (line : List Char) : Option (List Char) := if line = [] then none else some line

/-- The last line of a text without the blanks around it is the last that is not blank. -/
theorem last_solid {text line : List Char} (read : lastRead solidLine text = some line) :
    ∃ last, (splitlines (Text.strip text)).getLast? = some last ∧ Text.strip last = line := by
  rw [← lastRead_strip (if_pos rfl)] at read
  have bare := bare_strip text
  generalize Text.strip text = text at read bare
  cases text using List.reverseRecOn with
  | nil => cases read
  | append_singleton text c _ =>
    have solid : Text.isSpace c = false := by simpa using bare.ends
    obtain ⟨front,last⟩ := linesFrom_last solid [] text
    refine ⟨front ++ [c],last,?_⟩
    obtain ⟨lines,split⟩ := List.getLast?_eq_some_iff.mp last
    unfold lastRead splitlines at read
    have some : Text.strip (front ++ [c]) ≠ [] := by
      intro empty
      obtain ⟨before,after,split,blank,blank'⟩ := strip_parts (front ++ [c])
      rw [empty,List.nil_append] at split
      have member : c ∈ before ++ after := by
        rw [← split]
        simp
      rcases List.mem_append.mp member with first | second
      · rw [blank c first] at solid
        cases solid
      · rw [blank' c second] at solid
        cases solid
    have own : solidLine (Text.strip (front ++ [c])) = Option.some (Text.strip (front ++ [c])) := if_neg some
    rw [split,lastOf_append] at read
    rw [lastOf_singleton,own] at read
    exact Option.some.inj read

theorem parse_read {text : String} {ended : Place}
    (found : lastRead (matchStart (excPattern table)) text.toList = some ended) : parse table text =
      ⟨String.ofList (ended.captured "type"),String.ofList (Text.strip (ended.captured "msg")),framesOf text.toList⟩ := by
  rw [← lastRead_strip (matchStart_nil table)] at found
  have same : (splitlines (Text.strip text.toList)).reverse.findSome?
      (fun line => matchStart (excPattern table) (Text.strip line)) = some ended := found
  simp only [parse,same]
  rfl

/-- No line is an exception line. -/
theorem parse_unread {text : String} (none : lastRead (matchStart (excPattern table)) text.toList = Option.none) :
    parse table text = ⟨"",String.ofList ((splitlines (Text.strip text.toList)).getLast?.getD []),framesOf text.toList⟩ := by
  rw [← lastRead_strip (matchStart_nil table)] at none
  have same : (splitlines (Text.strip text.toList)).reverse.findSome?
      (fun line => matchStart (excPattern table) (Text.strip line)) = Option.none := none
  simp only [parse,same]
  rfl

end

end Hookclose.OutputLines
