import Hookclose.SeparatedPaths
import Hookclose.Workspaces

/-!
Where patches land. The guard of `write_patches` compares resolved paths as texts, so it
lets through what lies below the workspace and also what lies at or below a sibling whose
name begins with that of the workspace; the patches stay inside exactly when none that is
reached resolves to such a sibling.
-/
namespace Hookclose.PatchPaths
open Hookclose.Programs Hookclose.Workspaces Hookclose.SeparatedPaths

/-! ### Components -/

/-- A part of a path after the components before it. -/
def addPart (parts : List (List Char)) (part : List Char) : List (List Char) :=
  if part = [] ∨ part = ['.'] then parts else if part = ['.','.'] then parts.dropLast else parts ++ [part]

/-- The components of a path once it is normalized. -/
def components (path : String) : List (List Char) := (path.toList.splitOn '/').foldl addPart []

theorem normalize_eq (path : String) : normalize path = String.ofList (render '/' (components path)) := rfl

/-- A component of a normalized path. -/
structure Clean (part : List Char) : Prop where
  plain : Plain '/' part
  notHere : part ≠ ['.']
  notAbove : part ≠ ['.','.']

theorem addPart_clean {parts : List (List Char)} {part : List Char} (clean : Clean part) :
    addPart parts part = parts ++ [part] := by
  simp [addPart,clean.plain.nonempty,clean.notHere,clean.notAbove]

theorem addPart_member {parts : List (List Char)} {part : List Char} (clean : ∀ part ∈ parts, Clean part)
    (free : '/' ∉ part) : ∀ other ∈ addPart parts part, Clean other := by
  intro other member
  unfold addPart at member
  split_ifs at member with skipped above
  · exact clean other member
  · exact clean other (List.dropLast_subset parts member)
  · rw [not_or] at skipped
    rcases List.mem_append.mp member with old | new
    · exact clean other old
    · rw [List.mem_singleton.mp new]
      exact ⟨⟨skipped.1,free⟩,skipped.2,above⟩

theorem components_clean (path : String) : ∀ part ∈ components path, Clean part := by
  have folded : ∀ (rest : List (List Char)), (∀ part ∈ rest, '/' ∉ part) → ∀ parts : List (List Char),
      (∀ part ∈ parts, Clean part) → ∀ part ∈ rest.foldl addPart parts, Clean part := by
    intro rest
    induction rest with
    | nil => exact fun _ parts clean => clean
    | cons first rest ih =>
      intro free parts clean
      rw [List.forall_mem_cons] at free
      exact ih free.2 _ (addPart_member clean free.1)
  exact folded _ (splitOn_free path.toList) [] (by simp)

/-- Clean parts are kept as they are. -/
theorem foldl_clean {rest : List (List Char)} (clean : ∀ part ∈ rest, Clean part) (parts : List (List Char)) :
    rest.foldl addPart parts = parts ++ rest := by
  induction rest generalizing parts with
  | nil => simp
  | cons first rest ih =>
    rw [List.forall_mem_cons] at clean
    rw [List.foldl_cons,addPart_clean clean.1,ih clean.2]
    simp

theorem components_render {parts : List (List Char)} (clean : ∀ part ∈ parts, Clean part) :
    components (String.ofList (render '/' parts)) = parts := by
  unfold components
  rw [String.toList_ofList]
  by_cases none : parts = []
  · subst none
    decide
  · rw [splitOn_render none (fun part member => (clean part member).plain),List.foldl_cons]
    exact foldl_clean clean []

theorem components_normalize (path : String) : components (normalize path) = components path :=
  components_render (components_clean path)

theorem parent_render {parts : List (List Char)} (clean : ∀ part ∈ parts, Clean part) :
    parent (String.ofList (render '/' parts)) = String.ofList (render '/' parts.dropLast) := by
  unfold parent
  rw [String.toList_ofList]
  rcases List.eq_nil_or_concat' parts with rfl | ⟨start,last,rfl⟩
  · decide
  · have plain := (clean last (by simp)).plain
    simp only [render_eq_spell (List.append_ne_nil_of_right_ne_nil start (List.cons_ne_nil last [])),
      dropWhile_last start plain,List.reverse_reverse,List.dropLast_concat]
    by_cases top : start = []
    · subst top
      simp [render]
    · have written : spell '/' start ≠ [] := by
        rw [← render_eq_spell top]
        simp [render]
      rw [if_neg written,render_eq_spell top]

/-- A path that resolving leaves as it is. -/
def Normal (path : String) : Prop := normalize path = path

theorem Normal.toList {path : String} (normal : Normal path) : path.toList = render '/' (components path) := by
  conv_lhs => rw [← normal,normalize_eq,String.toList_ofList]

theorem components_parent {path : String} (normal : Normal path) :
    components (parent path) = (components path).dropLast := by
  have clean := components_clean path
  conv_lhs => rw [← normal,normalize_eq,parent_render clean]
  exact components_render (fun part member => clean part (List.dropLast_subset _ member))

/-- The comparison of the guard. -/
theorem normal_prefix_iff {root path : String} (rootNormal : Normal root) (pathNormal : Normal path) :
    root.toList <+: path.toList ↔
      components root <+: components path ∨ Extends (components root) (components path) := by
  rw [rootNormal.toList,pathNormal.toList]
  exact render_prefix_iff (fun part member => (components_clean root part member).plain)
    (fun part member => (components_clean path part member).plain)

/-! ### Written paths -/

/-- What resolving gives under the links of a file system in which no part of the root is a
    link. -/
structure Links (target : String → String) (root : String) : Prop where
  normal : ∀ path, Normal (target path)
  plainRoot : target root = normalize root
  named : '\x00' ∉ root.toList

/-- The host resolves paths along these links; a path with a null character it rejects. -/
def Resolves (host : Host) (target : String → String) : Prop :=
  ∀ history path result, host.resolve history path = .ok result → result = target path ∧ '\x00' ∉ path.toList

/-- The guard lets a patch path through. -/
def LetThrough (target : String → String) (root path : String) : Prop :=
  '\x00' ∉ (join root path).toList ∧ (target root).toList <+: (target (join root path)).toList

/-- The path resolves to a sibling of the root, or below one, whose name the root's begins. -/
def Sibling (target : String → String) (root path : String) : Prop :=
  Extends (components root) (components (target (join root path)))

/-- A directory that was there before, or has been made with its parents. -/
def Stands (initial : List (List Char) → Prop) (history : History) (directory : List (List Char)) : Prop :=
  initial directory ∨ ∃ path, .directory path ∈ history ∧ directory <+: components path

/-- A file that the actions write, or a directory that they create: one that did not stand
    before and leads to one that is made. -/
def Touched (initial : List (List Char) → Prop) (history added : History) (place : List (List Char)) : Prop :=
  (∃ path text, .file path text ∈ added ∧ place = components path) ∨
  (∃ path, .directory path ∈ added ∧ place <+: components path ∧ ¬ Stands initial history place)

def filePatch (patch : String × String) : FilePatch := ⟨.str patch.1,.str patch.2⟩

/-- What a turn of the loop adds to the history: the directory of a path that the guard lets
    through, and its file. -/
inductive Turn (target : String → String) (root : String) (patch : String × String) : History → Prop
  | refused : Turn target root patch []
  | made (through : LetThrough target root patch.1) :
      Turn target root patch [.directory (parent (target (join root patch.1)))]
  | written (through : LetThrough target root patch.1) :
      Turn target root patch [.directory (parent (target (join root patch.1))),
        .file (target (join root patch.1)) patch.2]

section
variable {host : Host} {target : String → String} {root : String} {history : History}

theorem writePatch_turn (resolves : Resolves host target) (patch : String × String) :
    ∃ added, Turn target root patch added ∧
      (writePatch host root (filePatch patch) history = .ok patch.1 (history ++ added) ∧ LetThrough target root patch.1 ∨
      ∃ raised, writePatch host root (filePatch patch) history = .error raised (history ++ added)) := by
  have isPath : lift (pathText (filePatch patch).path) history = .ok patch.1 history := rfl
  unfold writePatch
  rw [bind_of_ok isPath]
  cases first : host.resolve history (join root patch.1) with
  | error raised =>
    have failed : resolve host (join root patch.1) history = .error raised history := by simp [resolve,lift,first]
    rw [bind_of_error failed]
    exact ⟨[],.refused,.inr ⟨raised,by simp⟩⟩
  | ok path =>
    rw [bind_of_ok (resolve_ok.mpr ⟨first,rfl⟩)]
    cases second : host.resolve history root with
    | error raised =>
      have failed : resolve host root history = .error raised history := by simp [resolve,lift,second]
      rw [bind_of_error failed]
      exact ⟨[],.refused,.inr ⟨raised,by simp⟩⟩
    | ok top =>
      rw [bind_of_ok (resolve_ok.mpr ⟨second,rfl⟩)]
      obtain ⟨rfl,allowed⟩ := resolves _ _ _ first
      obtain ⟨rfl,_⟩ := resolves _ _ _ second
      by_cases inside : (target root).toList.isPrefixOf (target (join root patch.1)).toList = true
      · have through : LetThrough target root patch.1 := ⟨allowed,List.isPrefixOf_iff_prefix.mp inside⟩
        rw [if_pos inside]
        cases made : host.mkdir history (parent (target (join root patch.1))) with
        | error raised =>
          have failed : mkdir host (parent (target (join root patch.1))) history = .error raised history := by
            simp [mkdir,made]
          rw [bind_of_error failed]
          exact ⟨[],.refused,.inr ⟨raised,by simp⟩⟩
        | ok _ =>
          rw [bind_of_ok (mkdir_ok.mpr ⟨made,rfl⟩)]
          cases wrote : host.writeText (history ++ [.directory (parent (target (join root patch.1)))])
              (target (join root patch.1)) patch.2 with
          | error raised =>
            have failed : writeText host (target (join root patch.1)) (filePatch patch).content
                (history ++ [.directory (parent (target (join root patch.1)))]) =
                .error raised (history ++ [.directory (parent (target (join root patch.1)))]) := by
              simp [writeText,filePatch,wrote]
            rw [bind_of_error failed]
            exact ⟨_,.made through,.inr ⟨raised,rfl⟩⟩
          | ok _ =>
            have filed : writeText host (target (join root patch.1)) (filePatch patch).content
                (history ++ [.directory (parent (target (join root patch.1)))]) =
                .ok () (history ++ [.directory (parent (target (join root patch.1)))] ++
                  [.file (target (join root patch.1)) patch.2]) := writeText_ok.mpr ⟨patch.2,rfl,wrote,rfl⟩
            rw [bind_of_ok filed,List.append_assoc]
            exact ⟨_,.written through,.inl ⟨rfl,through⟩⟩
      · rw [if_neg inside]
        exact ⟨[],.refused,.inr ⟨_,by rw [List.append_nil]; rfl⟩⟩

/-- A patch is reached and let through: so are all before it. -/
def Reached (target : String → String) (root : String) (patches : List (String × String)) (patch : String × String) : Prop :=
  ∃ before after, patches = before ++ patch :: after ∧ ∀ other ∈ before ++ [patch], LetThrough target root other.1

/-- Every action is part of the turn of a patch that is reached. -/
theorem writePatches_turns (resolves : Resolves host target) (patches : List (String × String)) :
    ∃ added, stateOf (writePatches host root (patches.map filePatch) history) = history ++ added ∧
      ∀ action ∈ added, ∃ patch turn, Turn target root patch turn ∧ action ∈ turn ∧ Reached target root patches patch := by
  induction patches generalizing history with
  | nil => exact ⟨[],by simp [writePatches,pure,EStateM.pure,stateOf],by simp⟩
  | cons patch rest ih =>
    obtain ⟨added,turn,⟨wrote,through⟩ | ⟨raised,failed⟩⟩ := @writePatch_turn host target root history resolves patch
    · obtain ⟨later,state,turns⟩ := @ih (history ++ added)
      refine ⟨added ++ later,?_,?_⟩
      · rw [List.map_cons,writePatches,bind_of_ok wrote,stateOf_map,state,List.append_assoc]
      · intro action member
        rcases List.mem_append.mp member with own | others
        · exact ⟨patch,added,turn,own,[],rest,rfl,by simpa using through⟩
        · obtain ⟨other,otherTurn,isTurn,within,before,after,split,reached⟩ := turns action others
          refine ⟨other,otherTurn,isTurn,within,patch :: before,after,by rw [split]; rfl,?_⟩
          rw [List.cons_append,List.forall_mem_cons]
          exact ⟨through,reached⟩
    · refine ⟨added,?_,?_⟩
      · rw [List.map_cons,writePatches,bind_of_error failed,stateOf_error]
      · intro action member
        refine ⟨patch,added,turn,member,[],rest,rfl,?_⟩
        cases turn with
        | refused => cases member
        | made through => simpa using through
        | written through => simpa using through

end

/-! ### Confinement -/

section
variable {target : String → String} {root : String} {patches : List (String × String)}

/-- Whatever the file system does, nothing outside the root is written or created. The root
    is a directory that has been made, as `create` does. -/
def Confined (target : String → String) (root : String) (patches : List (String × String)) : Prop :=
  ∀ host, Resolves host target → ∀ initial history added, .directory root ∈ history →
    stateOf (writePatches host root (patches.map filePatch) history) = history ++ added →
    ∀ place, Touched initial history added place → components root <+: place

/-- What the guard lets through is inside or at a sibling. -/
theorem inside_or_sibling (links : Links target root) {path : String} (through : LetThrough target root path) :
    components root <+: components (target (join root path)) ∨ Sibling target root path := by
  have compared := (normal_prefix_iff (links.normal root) (links.normal (join root path))).mp through.2
  rw [links.plainRoot,components_normalize] at compared
  exact compared

/-- The directories that lead to a file inside are inside or lead to the root. -/
theorem parent_inside (links : Links target root) {path : String}
    (inside : components root <+: components (target (join root path))) {place : List (List Char)}
    (leads : place <+: components (parent (target (join root path)))) :
    place <+: components root ∨ components root <+: place := by
  rw [components_parent (links.normal _)] at leads
  exact List.prefix_or_prefix_of_prefix (leads.trans (List.dropLast_prefix _)) inside

theorem confined_of_no_sibling (links : Links target root)
    (none : ∀ patch, Reached target root patches patch → ¬ Sibling target root patch.1) : Confined target root patches := by
  intro host resolves initial history added made state place touched
  obtain ⟨others,same,turns⟩ := @writePatches_turns host target root history resolves patches
  rw [state,List.append_cancel_left_eq] at same
  subst same
  have landed : ∀ action ∈ added, ∃ patch : String × String,
      components root <+: components (target (join root patch.1)) ∧
      (action = .directory (parent (target (join root patch.1))) ∨ action = .file (target (join root patch.1)) patch.2) := by
    intro action member
    obtain ⟨patch,turn,isTurn,within,reached⟩ := turns action member
    obtain ⟨before,after,split,through⟩ := reached
    have inside := (inside_or_sibling links (through patch (by simp))).resolve_right
      (none patch ⟨before,after,split,through⟩)
    refine ⟨patch,inside,?_⟩
    cases isTurn with
    | refused => cases within
    | made => exact .inl (List.mem_singleton.mp within)
    | written => simpa using within
  rcases touched with ⟨path,text,filed,rfl⟩ | ⟨path,directory,leads,fresh⟩
  · obtain ⟨patch,inside,contrary | same⟩ := landed _ filed
    · cases contrary
    · cases same
      exact inside
  · obtain ⟨patch,inside,same | contrary⟩ := landed _ directory
    · cases same
      rcases parent_inside links inside leads with above | below
      · exact absurd (.inr ⟨root,made,above⟩) fresh
      · exact below
    · cases contrary

/-- A file system on which everything that is asked for succeeds. -/
def obliging (target : String → String) : Host where
  resolve _ path := if '\x00' ∈ path.toList then .error (.valueError "embedded null byte") else .ok (target path)
  mkdir _ _ := .ok ()
  writeText _ _ _ := .ok ()
  run _ _ := { exitCode := 0, stdout := "", stderr := "", durationMs := 0 }

theorem obliging_resolves : Resolves (obliging target) target := by
  intro history path result answered
  simp only [obliging] at answered
  split_ifs at answered with excluded
  cases answered
  exact ⟨rfl,excluded⟩

theorem obliging_writePatch (links : Links target root) {patch : String × String}
    (through : LetThrough target root patch.1) (history : History) :
    writePatch (obliging target) root (filePatch patch) history = .ok patch.1 (history ++
      [.directory (parent (target (join root patch.1))),.file (target (join root patch.1)) patch.2]) := by
  rw [writePatch_ok]
  exact ⟨_,patch.2,⟨rfl,if_neg through.1,⟨_,if_neg links.named,through.2⟩,rfl,rfl,rfl⟩,rfl⟩

/-- A patch that is reached is written. -/
theorem obliging_writes (links : Links target root) {before : List (String × String)} {patch : String × String}
    (after : List (String × String)) (through : ∀ other ∈ before ++ [patch], LetThrough target root other.1)
    (history : History) : ∃ added,
      stateOf (writePatches (obliging target) root ((before ++ patch :: after).map filePatch) history) = history ++ added ∧
      .file (target (join root patch.1)) patch.2 ∈ added := by
  induction before generalizing history with
  | nil =>
    rw [List.nil_append,List.map_cons,writePatches,bind_of_ok (obliging_writePatch links (through patch (by simp)) history),
      stateOf_map]
    obtain ⟨later,state,_⟩ := @writePatches_turns (obliging target) target root (history ++
      [.directory (parent (target (join root patch.1))),.file (target (join root patch.1)) patch.2]) obliging_resolves after
    exact ⟨_,by rw [state,List.append_assoc],by simp⟩
  | cons first before ih =>
    rw [List.cons_append,List.forall_mem_cons] at through
    rw [List.cons_append,List.map_cons,writePatches,bind_of_ok (obliging_writePatch links through.1 history),stateOf_map]
    obtain ⟨later,state,filed⟩ := ih through.2 (history ++
      [.directory (parent (target (join root first.1))),.file (target (join root first.1)) first.2])
    exact ⟨[_,_] ++ later,by rw [state,List.append_assoc],List.mem_append_right _ filed⟩

/-- The patches stay inside exactly when none that is reached goes to a sibling whose name
    begins with the root's. -/
theorem confined_iff (links : Links target root) (patches : List (String × String)) :
    Confined target root patches ↔ ∀ patch, Reached target root patches patch → ¬ Sibling target root patch.1 := by
  constructor
  · rintro confined patch ⟨before,after,rfl,through⟩ sibling
    obtain ⟨added,state,filed⟩ := obliging_writes links after through [.directory root]
    have inside := confined (obliging target) obliging_resolves (fun _ => False) [.directory root] added (by simp) state _
      (.inl ⟨_,_,filed,rfl⟩)
    exact extends_not_prefix sibling inside
  · exact confined_of_no_sibling links

end

/-! ### A sibling -/

/-- Without links, for a workspace of its own. -/
theorem no_links : Links normalize "/work/t1" := by
  refine ⟨?_,rfl,by decide⟩
  intro path
  unfold Normal
  rw [normalize_eq (normalize path),components_normalize,← normalize_eq]

/-- One patch for the workspace of another task. -/
def escaping : List (String × String) := [("../t10/main.py","print()")]

/-- The patch is written, and not inside. -/
theorem escaping_written : ¬ Confined normalize "/work/t1" escaping := by
  have through : LetThrough normalize "/work/t1" "../t10/main.py" := ⟨by decide +kernel,by decide +kernel⟩
  obtain ⟨added,state,filed⟩ := @obliging_writes normalize "/work/t1" no_links [] ("../t10/main.py","print()") []
    (by simpa using through) [.directory "/work/t1"]
  intro confined
  have inside := confined (obliging normalize) obliging_resolves (fun _ => False) _ added (by simp) state _
    (.inl ⟨_,_,filed,rfl⟩)
  exact absurd inside (by decide +kernel)

/-- It would have to go elsewhere. -/
theorem escaping_confined_iff : Confined normalize "/work/t1" escaping ↔
    ∀ patch, Reached normalize "/work/t1" escaping patch → ¬ Sibling normalize "/work/t1" patch.1 :=
  confined_iff no_links escaping

end Hookclose.PatchPaths
