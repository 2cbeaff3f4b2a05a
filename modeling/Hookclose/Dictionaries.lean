import Mathlib.Data.List.Nodup

/-!
Dictionaries by name, as lists of their entries in insertion order.
-/
namespace Hookclose.Dictionaries

variable {α : Type}

/-- `dict.get` without a default. -/
def get (key : String) : List (String × α) → Option α
  | [] => none
  | (other,value) :: rest => if other = key then some value else get key rest

/-- `dict[key] = value`: a key that is there keeps its place. -/
def assign (key : String) (value : α) : List (String × α) → List (String × α)
  | [] => [(key,value)]
  | (other,old) :: rest => if other = key then (key,value) :: rest else (other,old) :: assign key value rest

/-- A dictionary of pairs: of equal keys the last counts. -/
def dictOf (pairs : List (String × α)) : List (String × α) :=
  pairs.foldl (fun entries pair => assign pair.1 pair.2 entries) []

/-- The entry of another key does not matter. -/
theorem get_other {key other : String} (apart : other ≠ key) (value : α) (rest : List (String × α)) :
    get key ((other,value) :: rest) = get key rest := if_neg apart

theorem get_cons_congr {key : String} {entry : String × α} {rest rest' : List (String × α)}
    (same : get key rest = get key rest') : get key (entry :: rest) = get key (entry :: rest') := by
  rw [get,get,same]

theorem get_assign (key : String) (value : α) (entries : List (String × α)) (name : String) :
    get name (assign key value entries) = if name = key then some value else get name entries := by
  induction entries with
  | nil =>
    simp only [assign,get,eq_comm]
  | cons entry rest ih =>
    obtain ⟨other,old⟩ := entry
    by_cases replaced : other = key
    · by_cases same : name = key
      · simp [assign,get,replaced,same]
      · simp [assign,get,replaced,same,Ne.symm same]
    · by_cases same : other = name
      · subst same
        simp [assign,get,replaced]
      · simp [assign,get,replaced,same,ih]

theorem keys_assign (key : String) (value : α) (entries : List (String × α)) (name : String) :
    name ∈ (assign key value entries).map Prod.fst ↔ name = key ∨ name ∈ entries.map Prod.fst := by
  induction entries with
  | nil => simp [assign]
  | cons entry rest ih =>
    obtain ⟨other,old⟩ := entry
    by_cases replaced : other = key
    · simp [assign,replaced]
    · simp only [assign,if_neg replaced,List.map_cons,List.mem_cons,ih]
      tauto

theorem assign_distinct {key : String} {value : α} {entries : List (String × α)} (distinct : (entries.map Prod.fst).Nodup) :
    ((assign key value entries).map Prod.fst).Nodup := by
  induction entries with
  | nil => simp [assign]
  | cons entry rest ih =>
    obtain ⟨other,old⟩ := entry
    obtain ⟨fresh,later⟩ := List.nodup_cons.mp distinct
    by_cases replaced : other = key
    · subst replaced
      simpa [assign] using distinct
    · simp only [assign,if_neg replaced,List.map_cons,List.nodup_cons,keys_assign,not_or]
      exact ⟨⟨replaced,fresh⟩,ih later⟩

theorem mem_assign {key : String} {value : α} {entries : List (String × α)} {entry : String × α}
    (member : entry ∈ assign key value entries) : entry = (key,value) ∨ entry ∈ entries := by
  induction entries with
  | nil => simpa [assign] using member
  | cons first rest ih =>
    obtain ⟨other,old⟩ := first
    rw [assign] at member
    split_ifs at member with replaced
    · rcases List.mem_cons.mp member with here | later
      · exact .inl here
      · exact .inr (List.mem_cons_of_mem _ later)
    · rcases List.mem_cons.mp member with here | later
      · exact .inr (by simp [here])
      · rcases ih later with new | old
        · exact .inl new
        · exact .inr (List.mem_cons_of_mem _ old)

theorem assign_new {key : String} {entries : List (String × α)} (value : α) (fresh : key ∉ entries.map Prod.fst) :
    assign key value entries = entries ++ [(key,value)] := by
  induction entries with
  | nil => rfl
  | cons entry rest ih =>
    obtain ⟨other,old⟩ := entry
    simp only [List.map_cons,List.mem_cons,not_or] at fresh
    simp [assign,Ne.symm fresh.1,ih fresh.2]

/-- With distinct keys the dictionary has the pairs as they are. -/
theorem dictOf_distinct {pairs : List (String × α)} (distinct : (pairs.map Prod.fst).Nodup) : dictOf pairs = pairs := by
  have grown : ∀ (before after : List (String × α)), ((before ++ after).map Prod.fst).Nodup →
      after.foldl (fun entries pair => assign pair.1 pair.2 entries) before = before ++ after := by
    intro before after
    induction after generalizing before with
    | nil => simp
    | cons pair after ih =>
      intro distinct
      have fresh : pair.1 ∉ before.map Prod.fst := by
        rw [List.map_append,List.map_cons,List.nodup_append] at distinct
        intro member
        exact distinct.2.2 pair.1 member pair.1 (by simp) rfl
      rw [List.foldl_cons,assign_new pair.2 fresh,ih (before ++ [pair]) (by simpa using distinct)]
      simp
  exact grown [] pairs (by simpa using distinct)

theorem get_map {β : Type} (f : α → β) (name : String) (entries : List (String × α)) :
    get name (entries.map (fun entry => (entry.1,f entry.2))) = (get name entries).map f := by
  induction entries with
  | nil => rfl
  | cons entry rest ih =>
    simp only [List.map_cons,get]
    split_ifs
    · rfl
    · exact ih

theorem get_some {entries : List (String × α)} (distinct : (entries.map Prod.fst).Nodup) {name : String} {value : α} :
    get name entries = some value ↔ (name,value) ∈ entries := by
  induction entries with
  | nil => simp [get]
  | cons entry rest ih =>
    obtain ⟨other,old⟩ := entry
    obtain ⟨fresh,later⟩ := List.nodup_cons.mp distinct
    by_cases same : other = name
    · subst same
      have single : (other,value) ∉ rest := by
        intro member
        exact fresh (List.mem_map.mpr ⟨(other,value),member,rfl⟩)
      simp [get,single,eq_comm]
    · simp [get,same,Ne.symm same,ih later]

theorem mem_of_get {entries : List (String × α)} {name : String} {value : α} (found : get name entries = some value) :
    (name,value) ∈ entries := by
  induction entries with
  | nil => cases found
  | cons entry rest ih =>
    obtain ⟨other,old⟩ := entry
    rw [get] at found
    split_ifs at found with same
    · cases found
      simp [same]
    · exact List.mem_cons_of_mem _ (ih found)

end Hookclose.Dictionaries
