import Hookclose.JsonText
import Hookclose.ProviderManager
import Hookclose.WorkerContracts

/-!
Code generation: a provider is asked for the files that a goal needs, and the entries of the
JSON object that it answers with become file patches. An answer that is no such object, or
that has no usable entry, counts as degraded. How a text is read as JSON is a parameter,
`loads`; an object that the prompt asks for is read back as the files it was written from.
-/
namespace Hookclose.CodeGeneration
open Hookclose.ProviderState Hookclose.Vendors Hookclose.ProviderManager Hookclose.JsonText

/-- `_SYSTEM` -/
def system : String :=
  "You are an expert software engineer working inside an automated build runtime. " ++
  "Generate the COMPLETE files needed to accomplish the goal. " ++
  "Respond with ONLY a JSON object, no prose, matching this schema: " ++
  "\x7b\"files\": [\x7b\"path\": \"<relative/path>\", \"content\": \"<full file contents>\"\x7d], " ++
  "\"notes\": \"<short summary>\"\x7d. " ++
  "Paths are relative to the project root and must not start with '/' or contain '..'. " ++
  "Return complete, runnable files — never elide with '...'."

def buildRequest (goal context : String) : LLMRequest where
  model := "auto"
  messages :=
    [{ role := .system, content := system },
      { role := .user
        content := "Goal:\n" ++ goal ++ "\n" ++
          (if context = "" then "" else "\nContext / constraints:\n" ++ context ++ "\n") ++
          "\nReturn the JSON object now." }]

/-- A turn of the loop over the entries: one with a path and a content is a patch. -/
def patchOf : Json → Option FilePatch
  | .dict entry =>
    match Dictionaries.get "path" entry,Dictionaries.get "content" entry with
    | some (.str path),some (.str body) => if path = "" then none else some ⟨.str path,.str body⟩
    | _,_ => none
  | _ => none

/-- `_parse`: the patches, the notes, and whether the answer counts as degraded. -/
def parse (loads : String → Option Json) (content : String) : List FilePatch × String × Bool :=
  match loads content with
  | some (.dict data) =>
    let notes := Json.toText ((Dictionaries.get "notes" data).getD (.str ""))
    match (Dictionaries.get "files" data).getD (.list []) with
    | .list rawFiles =>
      let patches := rawFiles.filterMap patchOf
      (patches,notes,patches.length = 0)
    | _ => ([],notes,true)
  | _ => ([],String.ofList (content.toList.take 200),true)

/-- What `generate` makes of an invocation. -/
def resultOf (loads : String → Option Json) (invocation : ProviderInvocation) : GenerationResult where
  provider := invocation.provider
  patches := (parse loads invocation.content).1
  notes := (parse loads invocation.content).2.1
  totalTokens := invocation.totalTokens
  degraded := (parse loads invocation.content).2.2

def generate (world : World) (loads : String → Option Json) (capability : Capability) (goal context : String)
    (s : ManagerState) : ManagerState × Except Failure GenerationResult :=
  let asked := complete world (buildRequest goal context) capability none s
  (asked.1,asked.2.map (resultOf loads))

/-! ### What is parsed -/

section
variable {loads : String → Option Json} {content : String}

/-- A patch is an entry with both texts, the path not empty. -/
theorem patchOf_some {value : Json} {patch : FilePatch} (usable : patchOf value = some patch) :
    ∃ entry path body, value = .dict entry ∧ Dictionaries.get "path" entry = some (.str path) ∧ path ≠ "" ∧
      Dictionaries.get "content" entry = some (.str body) ∧ patch = ⟨.str path,.str body⟩ := by
  unfold patchOf at usable
  split at usable
  · rename_i entry
    split at usable
    · rename_i path body named given
      by_cases empty : path = ""
      · rw [if_pos empty] at usable
        cases usable
      · rw [if_neg empty] at usable
        cases usable
        exact ⟨entry,path,body,rfl,named,empty,given,rfl⟩
    · cases usable
  · cases usable

/-- Every patch is an entry of the object that the answer is. -/
theorem parse_patch {patch : FilePatch} (member : patch ∈ (parse loads content).1) : ∃ data rawFiles value,
    loads content = some (.dict data) ∧ Dictionaries.get "files" data = some (.list rawFiles) ∧ value ∈ rawFiles ∧
      patchOf value = some patch := by
  unfold parse at member
  split at member
  · rename_i data object
    simp only at member
    split at member
    · rename_i rawFiles listed
      obtain ⟨value,inside,usable⟩ := List.mem_filterMap.mp member
      cases found : Dictionaries.get "files" data with
      | none =>
        rw [found] at listed
        cases listed
        cases inside
      | some files =>
        rw [found] at listed
        exact ⟨data,rawFiles,value,object,found.trans (congrArg some listed),inside,usable⟩
    · cases member
  · cases member

end

/-! ### Envelopes -/

/-- The entry of a file. -/
def entryOf (file : String × String) : Json := .dict [("path",.str file.1),("content",.str file.2)]

/-- The object that the prompt asks for. -/
def envelope (files : List (String × String)) (notes : String) : Json :=
  .dict [("files",.list (files.map entryOf)),("notes",.str notes)]

/-- A file as the patch that writes it. -/
def patchFor (file : String × String) : FilePatch := ⟨.str file.1,.str file.2⟩

section
variable {float : String → String × FloatValue} {files : List (String × String)} {notes : String}

theorem entries_carried (files : List (String × String)) : CarriedItems float (files.map entryOf) := by
  induction files with
  | nil => trivial
  | cons file rest ih => exact ⟨⟨by simp,trivial,trivial,trivial⟩,ih⟩

theorem envelope_carried (files : List (String × String)) (notes : String) : Carried float (envelope files notes) :=
  ⟨by simp,entries_carried files,trivial,trivial⟩

theorem sorted_entries (files : List (String × String)) : sortedItems (files.map entryOf) =
    files.map (fun file => .dict [("content",.str file.2),("path",.str file.1)]) := by
  induction files with
  | nil => rfl
  | cons file rest ih =>
    rw [List.map_cons,sortedItems,ih,List.map_cons]
    simp [entryOf,sorted,sortedEntries]

theorem sorted_envelope (files : List (String × String)) (notes : String) : sorted (envelope files notes) =
    .dict [("files",.list (files.map (fun file => .dict [("content",.str file.2),("path",.str file.1)]))),
      ("notes",.str notes)] := by
  simp [envelope,sorted,sortedEntries,sorted_entries]

/-- The entries of files with names are their patches. -/
theorem patches_of_entries (named : ∀ file ∈ files, file.1 ≠ "") {entry : String × String → Json}
    (gives : ∀ file, file.1 ≠ "" → patchOf (entry file) = some (patchFor file)) :
    (files.map entry).filterMap patchOf = files.map patchFor := by
  induction files with
  | nil => rfl
  | cons file rest ih =>
    rw [List.forall_mem_cons] at named
    rw [List.map_cons,List.filterMap_cons,gives file named.1,ih named.2,List.map_cons]

theorem patchOf_entry {file : String × String} (named : file.1 ≠ "") : patchOf (entryOf file) = some (patchFor file) := by
  simp [patchOf,entryOf,patchFor,Dictionaries.get,named]

/-- What a text is parsed to that is read as the object of the files, in either order of the
    keys. -/
theorem parse_files {loads : String → Option Json} {content : String} (named : ∀ file ∈ files, file.1 ≠ "")
    (read : loads content = some (envelope files notes) ∨ loads content = some (sorted (envelope files notes))) :
    parse loads content = (files.map patchFor,notes,decide (files.length = 0)) := by
  rcases read with plain | ordered
  · have made := patches_of_entries named (fun file => patchOf_entry)
    simp [parse,plain,envelope,Dictionaries.get,made,Json.toText]
  · have made : (files.map (fun file => Json.dict [("content",.str file.2),("path",.str file.1)])).filterMap patchOf =
        files.map patchFor := by
      apply patches_of_entries named
      intro file given
      simp [patchOf,patchFor,Dictionaries.get,given]
    rw [sorted_envelope] at ordered
    simp [parse,ordered,Dictionaries.get,made,Json.toText]

/-- An answer that is the object of the files, written by any of the layouts of `dumps`, gives
    back the files and the notes, whatever they contain. -/
theorem envelope_parsed (float : String → String × FloatValue) (files : List (String × String)) (notes : String)
    (named : ∀ file ∈ files, file.1 ≠ "") (width : Nat) :
    parse (loads float) (dumps (envelope files notes)) = (files.map patchFor,notes,decide (files.length = 0)) ∧
      parse (loads float) (dumpsSorted width (envelope files notes)) = (files.map patchFor,notes,decide (files.length = 0)) := by
  have carried : Carried float (envelope files notes) := envelope_carried files notes
  exact ⟨parse_files named (.inl (loads_dumps float carried)),
    parse_files named (.inr (loads_dumpsSorted float width carried))⟩

end

theorem quoted_parsed :
    parse (loads (fun text => (text,.nan))) (dumps (envelope [("app.py","print(\"é\\n\")")] "one file")) =
      ([⟨.str "app.py",.str "print(\"é\\n\")"⟩],"one file",false) :=
  (envelope_parsed (fun text => (text,.nan)) [("app.py","print(\"é\\n\")")] "one file" (by simp) 2).1

end Hookclose.CodeGeneration
