import Hookclose.JsonText

/-!
JSON text in a text file. A file is read as UTF-8, with every form of line end turned into
a newline. What `json.dumps` writes has no control character but the newlines of its
layout, so a file that holds it is read back as it was.
-/
namespace Hookclose.JsonFiles
open Hookclose.JsonText

/-! ### Text files -/

/-- The line ends of a text that is read: `\r\n` and `\r` become `\n`. -/
def universalNewlines : List Char → List Char
  | '\r' :: '\n' :: rest => '\n' :: universalNewlines rest
  | '\r' :: rest => '\n' :: universalNewlines rest
  | c :: rest => c :: universalNewlines rest
  | [] => []

/-- `read_text` of a file with this content; `none` where it is no UTF-8. -/
def readText (content : ByteArray) : Option String :=
  (String.fromUTF8? content).map (fun text => String.ofList (universalNewlines text.toList))

theorem universalNewlines_kept {text : List Char} (kept : ∀ c ∈ text, c ≠ '\r') : universalNewlines text = text := by
  fun_induction universalNewlines text with
  | case1 rest ih => exact absurd rfl (kept '\r' List.mem_cons_self)
  | case2 rest _ ih => exact absurd rfl (kept '\r' List.mem_cons_self)
  | case3 c rest _ _ ih => rw [ih (fun d member => kept d (List.mem_cons_of_mem c member))]
  | case4 => rfl

theorem fromUTF8_written (text : String) : String.fromUTF8? text.toUTF8 = some text := by
  have valid : text.toUTF8.IsValidUTF8 := text.isValidUTF8
  rw [String.fromUTF8?,dif_pos valid]
  rfl

/-- A text without carriage returns is read back as it was written. -/
theorem readText_written {text : String} (kept : ∀ c ∈ text.toList, c ≠ '\r') : readText text.toUTF8 = some text := by
  rw [readText,fromUTF8_written,Option.map_some,universalNewlines_kept kept,String.ofList_toList]

/-! ### What a JSON text is made of -/

/-- No control character but the newline. -/
def Printed (c : Char) : Prop := c = '\n' ∨ 32 ≤ c.toNat

theorem Printed.kept {c : Char} (printed : Printed c) : c ≠ '\r' := by
  rintro rfl
  rcases printed with newline | above
  · exact absurd newline (by decide)
  · exact absurd above (by decide)

theorem printed_digit {c : Char} (digit : c.isDigit) : Printed c :=
  .inr (le_trans (by decide) (digit_range digit).1)

theorem hexQuad_printed (n : Nat) : ∀ c ∈ hexQuad n, Printed c := by
  have digits : ∀ d < 16, 32 ≤ (Nat.digitChar d).toNat := by decide
  have each : ∀ m, Printed (Nat.digitChar (m % 16)) := fun m => .inr (digits _ (Nat.mod_lt m (by decide)))
  intro c member
  simp only [hexQuad,List.mem_cons,List.not_mem_nil,or_false] at member
  rcases member with rfl | rfl | rfl | rfl
  · exact each _
  · exact each _
  · exact each _
  · exact each _

theorem unicodeEscape_printed (n : Nat) : ∀ c ∈ unicodeEscape n, Printed c :=
  List.forall_mem_append.mpr ⟨by simp [Printed],hexQuad_printed n⟩

theorem escape_printed (c : Char) : ∀ d ∈ escape c, Printed d := by
  have escaped := escape_escaped c
  generalize escape c = text at escaped
  cases escaped with
  | plain _ _ printable => exact List.forall_mem_singleton.mpr (.inr printable)
  | unit plane => exact unicodeEscape_printed _
  | pair above => exact List.forall_mem_append.mpr ⟨unicodeEscape_printed _,unicodeEscape_printed _⟩
  | _ => simp [Printed]

theorem encodeString_printed (text : List Char) : ∀ c ∈ encodeString text, Printed c := by
  unfold encodeString
  refine List.forall_mem_append.mpr ⟨List.forall_mem_append.mpr ⟨by simp [Printed],?_⟩,by simp [Printed]⟩
  intro c member
  obtain ⟨d,_,inside⟩ := List.mem_flatMap.mp member
  exact escape_printed d c inside

theorem digits_printed (text : List Char) : ∀ c ∈ text.takeWhile Char.isDigit, Printed c :=
  fun _ member => printed_digit (List.mem_takeWhile_imp member)

theorem scanDigits_printed {read : List Char} (printed : ∀ c ∈ read, Printed c) (text rest : List Char) :
    ∀ c ∈ (scanDigits read text rest).1, Printed c := by
  unfold scanDigits
  split_ifs
  · exact List.forall_mem_nil _
  · exact List.forall_mem_append.mpr ⟨printed,digits_printed rest⟩

theorem scanUnsigned_printed {text : List Char} {scanned : List Char × List Char}
    (done : scanUnsigned text = some scanned) : ∀ c ∈ scanned.1, Printed c := by
  unfold scanUnsigned at done
  split at done
  · split_ifs at done with zero digit
    · cases done
      simp [Printed]
    · cases done
      exact List.forall_mem_cons.mpr ⟨printed_digit digit,digits_printed _⟩
  · cases done

theorem scanInteger_printed {text : List Char} {scanned : List Char × List Char}
    (done : scanInteger text = some scanned) : ∀ c ∈ scanned.1, Printed c := by
  unfold scanInteger at done
  split at done
  · obtain ⟨unsigned,read,rfl⟩ := Option.map_eq_some_iff.mp done
    exact List.forall_mem_cons.mpr ⟨by simp [Printed],scanUnsigned_printed read⟩
  · exact scanUnsigned_printed done

theorem scanFraction_printed (text : List Char) : ∀ c ∈ (scanFraction text).1, Printed c := by
  unfold scanFraction
  split
  · exact scanDigits_printed (by simp [Printed]) _ _
  · exact List.forall_mem_nil _

theorem scanExponent_printed (text : List Char) : ∀ c ∈ (scanExponent text).1, Printed c := by
  unfold scanExponent
  split
  · rename_i c rest
    split_ifs with exponent
    · have mark : Printed c := by
        rcases exponent with rfl | rfl
        · exact .inr (by decide)
        · exact .inr (by decide)
      have sign : Printed '+' ∧ Printed '-' := ⟨.inr (by decide),.inr (by decide)⟩
      split
      · exact scanDigits_printed (by simp [mark,sign]) _ _
      · exact scanDigits_printed (by simp [mark,sign]) _ _
      · exact scanDigits_printed (by simp [mark]) _ _
    · exact List.forall_mem_nil _
  · exact List.forall_mem_nil _

theorem scanNumber_printed {text integer part rest : List Char} (scanned : scanNumber text = some ((integer,part),rest)) :
    ∀ c ∈ integer ++ part, Printed c := by
  rw [scanNumber,Option.map_eq_some_iff] at scanned
  obtain ⟨read,done,made⟩ := scanned
  cases made
  exact List.forall_mem_append.mpr ⟨scanInteger_printed done,
    List.forall_mem_append.mpr ⟨scanFraction_printed _,scanExponent_printed _⟩⟩

/-- A layout of characters that a file keeps. -/
structure PrintedLayout (layout : Layout) : Prop where
  opening : ∀ depth, ∀ c ∈ layout.opening depth, Printed c
  gap : ∀ depth, ∀ c ∈ layout.gap depth, Printed c
  closing : ∀ depth, ∀ c ∈ layout.closing depth, Printed c

theorem indented_printed (width : Nat) : PrintedLayout (indented width) := by
  have line : ∀ count, ∀ c ∈ '\n' :: List.replicate count ' ', Printed c := by
    intro count
    refine List.forall_mem_cons.mpr ⟨.inl rfl,?_⟩
    intro c member
    rw [List.eq_of_mem_replicate member]
    simp [Printed]
  exact ⟨fun _ => line _,fun _ => line _,fun _ => line _⟩

section
variable (float : String → String × FloatValue) {layout : Layout}

theorem encode_printed {value : Json} (plain : Plain value) (carried : Carried float value) :
    ∀ c ∈ encode value, Printed c := by
  cases value with
  | null => rw [encode]; simp [Printed]
  | bool value => cases value <;> (rw [encode]; simp [Printed])
  | int value =>
    rw [encode]
    have digits := scanNumber_printed (scanNumber_int value)
    rwa [List.append_nil] at digits
  | float text value =>
    rw [Carried] at carried
    rw [encode]
    cases value with
    | finite value =>
      obtain ⟨integer,part,_,split,scanned,_⟩ := carried
      rw [floatText,split]
      exact scanNumber_printed scanned
    | infinite negative => cases negative <;> simp [floatText,Printed]
    | nan => simp [floatText,Printed]
  | str value => exact absurd plain id
  | list items => exact absurd plain id
  | dict entries => exact absurd plain id

mutual

/-- The text of a value that JSON carries has no control characters but newlines. -/
theorem encodeWith_printed (printed : PrintedLayout layout) : ∀ (value : Json) (depth : Nat), Carried float value →
    ∀ c ∈ encodeWith layout depth value, Printed c
  | .list items,depth,carried => by
    rw [Carried] at carried
    rw [encodeWith]
    split_ifs
    · simp [Printed]
    · have inner := encodeItemsWith_printed printed items depth carried
      simp only [List.forall_mem_append]
      exact ⟨⟨⟨⟨by simp [Printed],printed.opening depth⟩,inner⟩,printed.closing depth⟩,by simp [Printed]⟩
  | .dict entries,depth,carried => by
    rw [Carried] at carried
    rw [encodeWith]
    split_ifs
    · simp [Printed]
    · have inner := encodeEntriesWith_printed printed entries depth carried.2
      simp only [List.forall_mem_append]
      exact ⟨⟨⟨⟨by simp [Printed],printed.opening depth⟩,inner⟩,printed.closing depth⟩,by simp [Printed]⟩
  | .str text,depth,_ => by
    rw [encodeWith,encode]
    · exact encodeString_printed text.toList
    all_goals simp
  | .null,depth,carried => by
    rw [@encodeWith_plain layout depth .null trivial]
    exact encode_printed float trivial carried
  | .bool value,depth,carried => by
    rw [@encodeWith_plain layout depth (.bool value) trivial]
    exact encode_printed float trivial carried
  | .int value,depth,carried => by
    rw [@encodeWith_plain layout depth (.int value) trivial]
    exact encode_printed float trivial carried
  | .float text value,depth,carried => by
    rw [@encodeWith_plain layout depth (.float text value) trivial]
    exact encode_printed float trivial carried

theorem encodeItemsWith_printed (printed : PrintedLayout layout) : ∀ (items : List Json) (depth : Nat),
    CarriedItems float items → ∀ c ∈ encodeItemsWith layout depth items, Printed c
  | [],depth,_ => List.forall_mem_nil _
  | [item],depth,carried => encodeWith_printed printed item (depth + 1) carried.1
  | item :: next :: rest,depth,carried => by
    have first := encodeWith_printed printed item (depth + 1) carried.1
    have others := encodeItemsWith_printed printed (next :: rest) depth carried.2
    rw [encodeItemsWith]
    simp only [List.forall_mem_append]
    exact ⟨⟨⟨first,by simp [Printed]⟩,printed.gap depth⟩,others⟩

theorem encodeEntriesWith_printed (printed : PrintedLayout layout) : ∀ (entries : List (String × Json)) (depth : Nat),
    CarriedEntries float entries → ∀ c ∈ encodeEntriesWith layout depth entries, Printed c
  | [],depth,_ => List.forall_mem_nil _
  | [(key,value)],depth,carried => by
    have first := encodeWith_printed printed value (depth + 1) carried.1
    rw [encodeEntriesWith]
    simp only [List.forall_mem_append]
    exact ⟨⟨encodeString_printed key.toList,by simp [Printed]⟩,first⟩
  | (key,value) :: next :: rest,depth,carried => by
    have first := encodeWith_printed printed value (depth + 1) carried.1
    have others := encodeEntriesWith_printed printed (next :: rest) depth carried.2
    rw [encodeEntriesWith]
    simp only [List.forall_mem_append]
    exact ⟨⟨⟨⟨⟨encodeString_printed key.toList,by simp [Printed]⟩,first⟩,by simp [Printed]⟩,printed.gap depth⟩,others⟩

end

/-- A file with a sorted JSON document on its lines is read back as that text. -/
theorem readText_dumpsSorted (width : Nat) {value : Json} (carried : Carried float value) :
    readText (dumpsSorted width value ++ "\n").toUTF8 = some (dumpsSorted width value ++ "\n") := by
  apply readText_written
  have printed := encodeWith_printed float (indented_printed width) (sorted value) 0 (sorted_carried float carried)
  intro c member
  rw [String.toList_append,dumpsSorted,String.toList_ofList] at member
  rcases List.mem_append.mp member with inside | newline
  · exact (printed c inside).kept
  · rw [List.mem_singleton.mp newline]
    decide

end

end Hookclose.JsonFiles
