import Mathlib.Data.List.Basic
import Mathlib.Data.Fintype.Card
import Mathlib.Logic.Relation
import Mathlib.Order.WellFounded
import Mathlib.Data.Set.Finite.List

/-!
Acyclic relations. A new edge keeps a relation acyclic when its source cannot be
reached from its target; and among finitely many nodes there is one that leads to
none of them.
-/
namespace Hookclose.Acyclicity
universe u
variable {Node : Type u} {edge : Node → Node → Prop}

/-- No node leads back to itself. -/
def Acyclic (edge : Node → Node → Prop) : Prop := ∀ node, ¬ Relation.TransGen edge node node

/-- A relation with one edge more. -/
def insertEdge (edge : Node → Node → Prop) (source target : Node) (node next : Node) : Prop :=
  edge node next ∨ (node = source ∧ next = target)

/-- A path that takes the new edge leads to its source before and on from its target after. -/
theorem path_insertEdge {source target first last : Node}
    (path : Relation.ReflTransGen (insertEdge edge source target) first last) :
    Relation.ReflTransGen edge first last ∨
      (Relation.ReflTransGen edge first source ∧ Relation.ReflTransGen edge target last) := by
  induction path with
  | refl => exact .inl .refl
  | tail _ step ih =>
    rcases step with old | ⟨rfl,rfl⟩
    · rcases ih with before | ⟨before,after⟩
      · exact .inl (before.tail old)
      · exact .inr ⟨before,after.tail old⟩
    · rcases ih with before | ⟨before,_⟩
      · exact .inr ⟨before,.refl⟩
      · exact .inr ⟨before,.refl⟩

theorem acyclic_insertEdge (acyclic : Acyclic edge) {source target : Node}
    (apart : ¬ Relation.ReflTransGen edge target source) : Acyclic (insertEdge edge source target) := by
  intro node cycle
  obtain ⟨next,step,path⟩ := Relation.TransGen.head'_iff.mp cycle
  rcases step with old | ⟨rfl,rfl⟩
  · rcases path_insertEdge path with back | ⟨before,after⟩
    · exact acyclic node (.head' old back)
    · exact apart ((after.tail old).trans before)
  · rcases path_insertEdge path with back | ⟨back,_⟩
    · exact apart back
    · exact apart back

/-- Among the nodes of a list there is one that leads to none of them. -/
theorem exists_last (acyclic : Acyclic edge) {nodes : List Node} (nonempty : nodes ≠ []) :
    ∃ node ∈ nodes, ∀ next ∈ nodes, ¬ edge node next := by
  have trans : IsTrans {node // node ∈ nodes} (fun next node => Relation.TransGen edge node.1 next.1) :=
    ⟨fun _ _ _ first second => second.trans first⟩
  have irrefl : Std.Irrefl (fun next node : {node // node ∈ nodes} => Relation.TransGen edge node.1 next.1) :=
    ⟨fun node cycle => acyclic node.1 cycle⟩
  have finite : Finite {node // node ∈ nodes} := List.finite_toSet nodes
  have founded := Finite.wellFounded_of_trans_of_irrefl
    (fun next node : {node // node ∈ nodes} => Relation.TransGen edge node.1 next.1)
  obtain ⟨first,member⟩ := List.exists_mem_of_ne_nil nodes nonempty
  obtain ⟨node,_,least⟩ := founded.has_min Set.univ ⟨⟨first,member⟩,trivial⟩
  refine ⟨node.1,node.2,?_⟩
  intro next inside step
  exact least ⟨next,inside⟩ trivial (.single step)

end Hookclose.Acyclicity
