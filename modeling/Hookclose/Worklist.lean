import Mathlib.Data.List.Basic
import Mathlib.Data.List.Perm.Basic
import Mathlib.Logic.Relation

/-!
Search for a target over a stack of pending nodes and a set of seen ones. Nodes
outside a finite list have no successors, so the search ends on every graph; it
finds the target exactly when a path leads there. Both hold of the loop in whatever
order it pushes the successors of a node.
-/
namespace Hookclose.Worklist
universe u
variable {Node : Type u} [DecidableEq Node] {successors : Node → List Node} {nodes : List Node}

/-- The nodes that a search may still have to open. -/
def unseen (nodes seen : List Node) : Nat := (nodes.filter (fun node => node ∉ seen)).length

theorem unseen_le (nodes seen : List Node) (node : Node) : unseen nodes (node :: seen) ≤ unseen nodes seen := by
  unfold unseen
  apply List.Sublist.length_le
  apply List.monotone_filter_right
  intro other fresh
  simp only [decide_eq_true_eq,List.mem_cons,not_or] at fresh ⊢
  exact fresh.2

theorem unseen_lt {nodes seen : List Node} {node : Node} (member : node ∈ nodes) (fresh : node ∉ seen) :
    unseen nodes (node :: seen) < unseen nodes seen := by
  unfold unseen
  induction nodes with
  | nil => cases member
  | cons first rest ih =>
    have shorter := unseen_le rest seen node
    unfold unseen at shorter
    by_cases same : first = node
    · subst same
      have opened : (first :: rest).filter (fun node => node ∉ first :: seen) =
          rest.filter (fun node => node ∉ first :: seen) := by simp
      have before : (first :: rest).filter (fun node => node ∉ seen) =
          first :: rest.filter (fun node => node ∉ seen) := by simp [fresh]
      rw [opened,before,List.length_cons]
      omega
    · have later : node ∈ rest := by
        rcases List.mem_cons.mp member with equal | later
        · exact absurd equal.symm same
        · exact later
      have ih := ih later
      by_cases known : first ∈ seen
      · simpa [known] using ih
      · simpa [known,same] using ih

/-- Whether the target can be reached from the stack without opening a seen node again. -/
def search (closed : ∀ node, node ∉ nodes → successors node = []) (target : Node) : List Node → List Node → Bool
  | [],_ => false
  | node :: stack,seen =>
    if node = target then true
    else if node ∈ seen then search closed target stack seen
    else search closed target (successors node ++ stack) (node :: seen)
termination_by stack seen => (unseen nodes seen,stack.length)
decreasing_by
  · exact Prod.Lex.right _ (by simp)
  · rename_i fresh
    by_cases member : node ∈ nodes
    · exact Prod.Lex.left _ _ (unseen_lt member fresh)
    · rw [closed node member]
      rcases Nat.lt_or_eq_of_le (unseen_le nodes seen node) with fewer | same
      · exact Prod.Lex.left _ _ fewer
      · rw [same]
        exact Prod.Lex.right _ (by simp)

/-- There is a path of successors. -/
def Reaches (successors : Node → List Node) : Node → Node → Prop :=
  Relation.ReflTransGen (fun node next => next ∈ successors node)

/-! ### The loop -/

/-- One turn of the loop, on the stack and the seen nodes. The successors of a node that
    is opened may be pushed in any order. -/
inductive Turn (successors : Node → List Node) (target : Node) : List Node × List Node → List Node × List Node → Prop
  | skip {node : Node} {stack seen : List Node} (differs : node ≠ target) (known : node ∈ seen) :
      Turn successors target (node :: stack,seen) (stack,seen)
  | expand {node : Node} {stack seen pushed : List Node} (differs : node ≠ target) (fresh : node ∉ seen)
      (order : pushed.Perm (successors node)) :
      Turn successors target (node :: stack,seen) (pushed ++ stack,node :: seen)

/-- The loop ends, whatever the order: each turn opens a node of the finite list, or
    leaves no more of them unseen and takes one from the stack. -/
theorem turns_end (closed : ∀ node, node ∉ nodes → successors node = []) (target : Node) :
    WellFounded (fun after before => Turn successors target before after) := by
  have measured := InvImage.wf (fun state : List Node × List Node => (unseen nodes state.2,state.1.length))
    (Prod.lex Nat.lt_wfRel Nat.lt_wfRel).wf
  refine Subrelation.wf ?_ measured
  intro after before turn
  cases turn with
  | skip differs known => exact Prod.Lex.right _ (Nat.lt_succ_self _)
  | @expand node stack seen pushed differs fresh order =>
    by_cases member : node ∈ nodes
    · exact Prod.Lex.left _ _ (unseen_lt member fresh)
    · rw [closed node member,List.perm_nil] at order
      subst order
      rcases Nat.lt_or_eq_of_le (unseen_le nodes seen node) with fewer | same
      · exact Prod.Lex.left _ _ fewer
      · show Prod.Lex _ _ (unseen nodes (node :: seen),stack.length) (unseen nodes seen,(node :: stack).length)
        rw [same]
        exact Prod.Lex.right _ (Nat.lt_succ_self _)

/-- The search is a run of the loop up to the target or to an empty stack. -/
theorem search_turns (closed : ∀ node, node ∉ nodes → successors node = []) (target : Node) (stack seen : List Node) :
    ∃ rest known, Relation.ReflTransGen (Turn successors target) (stack,seen)
      (if search closed target stack seen = true then (target :: rest,known) else ([],known)) := by
  fun_induction search closed target stack seen with
  | case1 seen => exact ⟨[],seen,.refl⟩
  | case2 stack seen => exact ⟨stack,seen,.refl⟩
  | case3 node stack seen differs known ih =>
    obtain ⟨rest,last,turns⟩ := ih
    exact ⟨rest,last,.head (.skip differs known) turns⟩
  | case4 node stack seen differs fresh ih =>
    obtain ⟨rest,last,turns⟩ := ih
    exact ⟨rest,last,.head (.expand differs fresh (List.Perm.refl _)) turns⟩

/-- What a search that has not found the target keeps: no seen node is the target,
    and the successors of seen nodes are seen or pending. -/
structure Explored (successors : Node → List Node) (target : Node) (stack seen : List Node) : Prop where
  missed : target ∉ seen
  frontier : ∀ node ∈ seen, ∀ next ∈ successors node, next ∈ seen ∨ next ∈ stack

/-- What every turn of a search from `start` keeps. -/
structure Searching (successors : Node → List Node) (start target : Node) (state : List Node × List Node) : Prop where
  explored : Explored successors target state.1 state.2
  reached : ∀ node ∈ state.1, Reaches successors start node
  begun : start ∈ state.2 ∨ start ∈ state.1

omit [DecidableEq Node] in
theorem turn_searching {start target : Node} {before after : List Node × List Node}
    (turn : Turn successors target before after) (searching : Searching successors start target before) :
    Searching successors start target after := by
  obtain ⟨⟨missed,frontier⟩,reached,begun⟩ := searching
  cases turn with
  | @skip node stack seen differs known =>
    have move : ∀ other, other ∈ seen ∨ other ∈ node :: stack → other ∈ seen ∨ other ∈ stack := by
      rintro other (place | place)
      · exact .inl place
      · rcases List.mem_cons.mp place with rfl | later
        · exact .inl known
        · exact .inr later
    refine ⟨⟨missed,?_⟩,fun other member => reached other (List.mem_cons_of_mem _ member),move start begun⟩
    intro source inside next edge
    exact move next (frontier source inside next edge)
  | @expand node stack seen pushed differs fresh order =>
    have move : ∀ other, other ∈ seen ∨ other ∈ node :: stack → other ∈ node :: seen ∨ other ∈ pushed ++ stack := by
      rintro other (place | place)
      · exact .inl (List.mem_cons_of_mem _ place)
      · rcases List.mem_cons.mp place with rfl | later
        · exact .inl List.mem_cons_self
        · exact .inr (List.mem_append_right _ later)
    refine ⟨⟨?_,?_⟩,?_,move start begun⟩
    · intro hit
      rcases List.mem_cons.mp hit with same | hit
      · exact differs same.symm
      · exact missed hit
    · intro source inside next edge
      rcases List.mem_cons.mp inside with rfl | inside
      · exact .inr (List.mem_append_left _ (order.mem_iff.mpr edge))
      · exact move next (frontier source inside next edge)
    · intro other member
      rcases List.mem_append.mp member with next | later
      · exact (reached node List.mem_cons_self).tail (order.mem_iff.mp next)
      · exact reached other (List.mem_cons_of_mem _ later)

omit [DecidableEq Node] in
/-- Once the stack is empty the target cannot be reached. -/
theorem searching_missed {start target : Node} {seen : List Node} (searching : Searching successors start target ([],seen)) :
    ¬ Reaches successors start target := by
  obtain ⟨⟨missed,frontier⟩,_,begun⟩ := searching
  intro path
  have within : ∀ last, Reaches successors start last → last ∈ seen := by
    intro last path
    induction path with
    | refl => simpa using begun
    | tail _ edge ih => simpa using frontier _ ih _ edge
  exact missed (within target path)

omit [DecidableEq Node] in
/-- However the loop runs from one node, it stands at the target only if it can be
    reached, and at an empty stack only if it cannot. -/
theorem turns_outcome {start target : Node} {state : List Node × List Node}
    (turns : Relation.ReflTransGen (Turn successors target) ([start],[]) state) :
    (∀ rest seen, state = (target :: rest,seen) → Reaches successors start target) ∧
      ∀ seen, state = ([],seen) → ¬ Reaches successors start target := by
  have searching : Searching successors start target state := by
    induction turns with
    | refl =>
      refine ⟨⟨by simp,by simp⟩,?_,.inr List.mem_cons_self⟩
      intro node member
      rw [List.mem_singleton.mp member]
      exact .refl
    | tail _ turn ih => exact turn_searching turn ih
  constructor
  · rintro rest seen rfl
    exact searching.reached target List.mem_cons_self
  · rintro seen rfl
    exact searching_missed searching

/-- A search from one node finds the target exactly when it can be reached. -/
theorem search_iff (closed : ∀ node, node ∉ nodes → successors node = []) (start target : Node) :
    search closed target [start] [] = true ↔ Reaches successors start target := by
  obtain ⟨rest,known,turns⟩ := search_turns closed target [start] []
  obtain ⟨found,missed⟩ := turns_outcome turns
  by_cases hit : search closed target [start] [] = true
  · rw [if_pos hit] at found
    exact ⟨fun _ => found rest known rfl,fun _ => hit⟩
  · rw [if_neg hit] at missed
    exact ⟨fun contrary => absurd contrary hit,fun path => absurd path (missed known rfl)⟩

end Hookclose.Worklist
