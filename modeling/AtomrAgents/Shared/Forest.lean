import Mathlib.Data.List.Nodup
import Mathlib.Data.List.Perm.Subperm
import Mathlib.Logic.Relation
import Mathlib.Order.WellFoundedSet

set_option autoImplicit false

/-! Every node has at most one parent, and no node is above itself. A search that starts from the roots and
puts the children of what it visits on a stack comes to every node once. -/

namespace Shared

structure Forest (κ : Type) where
  nodes : List κ
  children : κ → List κ
  nodup : nodes.Nodup
  nodup_children : ∀ p, (children p).Nodup
  child_mem : ∀ p, ∀ c ∈ children p, c ∈ nodes
  parent_mem : ∀ p, ∀ c ∈ children p, p ∈ nodes
  one_parent : ∀ c p p', c ∈ children p → c ∈ children p' → p = p'
  acyclic : ∀ n, ¬ Relation.TransGen (fun p c => c ∈ children p) n n

namespace Forest

variable {κ : Type} {forest : Forest κ} {visited pending pending' stack out : List κ} {n : κ} {fuel : Nat}

def Root (forest : Forest κ) (n : κ) : Prop := n ∈ forest.nodes ∧ ∀ p, n ∉ forest.children p

-- The head of the list is the top of the stack.
def search (children : κ → List κ) : Nat → List κ → Option (List κ)
  | _, [] => some []
  | 0, _ :: _ => none
  | fuel + 1, n :: stack => (search children fuel ((children n).reverse ++ stack)).map (n :: ·)

-- What has been visited, and what it has led to.
structure Frontier (forest : Forest κ) (visited pending : List κ) : Prop where
  nodup : (visited ++ pending).Nodup
  mem : ∀ x ∈ visited ++ pending, x ∈ forest.nodes
  linked : ∀ x ∈ visited ++ pending, forest.Root x ∨ ∃ p ∈ visited, x ∈ forest.children p
  closed : ∀ p ∈ visited, ∀ c ∈ forest.children p, c ∈ visited ++ pending
  roots : ∀ x, forest.Root x → x ∈ visited ++ pending

theorem Frontier.perm (frontier : Frontier forest visited pending) (perm : pending.Perm pending') :
    Frontier forest visited pending' := by
  have same := perm.append_left visited
  have mem {x : κ} : x ∈ visited ++ pending' ↔ x ∈ visited ++ pending := same.mem_iff.symm
  exact {
    nodup := same.nodup_iff.mp frontier.nodup
    mem := fun x member => frontier.mem x (mem.mp member)
    linked := fun x member => frontier.linked x (mem.mp member)
    closed := fun p before c below => mem.mpr (frontier.closed p before c below)
    roots := fun x root => mem.mpr (frontier.roots x root) }

theorem Frontier.visit (frontier : Frontier forest visited (n :: pending)) :
    Frontier forest (visited ++ [n]) (forest.children n ++ pending) := by
  have moved : (visited ++ [n] ++ (forest.children n ++ pending)).Perm
      (forest.children n ++ (visited ++ n :: pending)) := by
    simpa using List.perm_append_comm_assoc (visited ++ [n]) (forest.children n) pending
  have mem {x : κ} : x ∈ visited ++ [n] ++ (forest.children n ++ pending) ↔
      x ∈ forest.children n ∨ x ∈ visited ++ n :: pending := by
    rw [moved.mem_iff, List.mem_append]
  have unvisited : n ∉ visited := fun again =>
    List.disjoint_of_nodup_append frontier.nodup again List.mem_cons_self
  have fresh : (forest.children n).Disjoint (visited ++ n :: pending) := by
    intro c below known
    rcases frontier.linked c known with root | ⟨p, before, below'⟩
    · exact root.2 n below
    · exact unvisited (forest.one_parent c p n below' below ▸ before)
  exact {
    nodup := moved.nodup_iff.mpr (List.nodup_append'.mpr ⟨forest.nodup_children n, frontier.nodup, fresh⟩)
    mem := by
      intro x member
      rcases mem.mp member with below | known
      · exact forest.child_mem n x below
      · exact frontier.mem x known
    linked := by
      intro x member
      rcases mem.mp member with below | known
      · exact .inr ⟨n, by simp, below⟩
      · exact (frontier.linked x known).imp_right fun ⟨p, before, below⟩ =>
          ⟨p, List.mem_append_left [n] before, below⟩
    closed := by
      intro p before c below
      rw [List.mem_append, List.mem_singleton] at before
      rcases before with before | rfl
      · exact mem.mpr (.inr (frontier.closed p before c below))
      · exact mem.mpr (.inl below)
    roots := fun x root => mem.mpr (.inr (frontier.roots x root)) }

theorem Frontier.length_le (frontier : Frontier forest visited pending) :
    (visited ++ pending).length ≤ forest.nodes.length :=
  (frontier.nodup.subperm frontier.mem).length_le

theorem Frontier.search (frontier : Frontier forest visited (stack ++ pending))
    (enough : forest.nodes.length ≤ fuel + visited.length) :
    ∃ out, Forest.search forest.children fuel stack = some out ∧ Frontier forest (visited ++ out) pending := by
  induction fuel generalizing visited stack with
  | zero =>
    cases stack with
    | nil => exact ⟨[], rfl, by simpa using frontier⟩
    | cons n stack =>
      have bound := frontier.length_le
      simp only [List.length_append, List.length_cons] at bound
      omega
  | succ fuel ih =>
    cases stack with
    | nil => exact ⟨[], rfl, by simpa using frontier⟩
    | cons n stack =>
      have next : Frontier forest (visited ++ [n]) ((forest.children n).reverse ++ stack ++ pending) := by
        refine frontier.visit.perm ?_
        rw [List.append_assoc]
        exact ((List.reverse_perm (forest.children n)).symm).append_right _
      obtain ⟨out, searched, done⟩ := ih next (by simp; omega)
      refine ⟨n :: out, by rw [Forest.search, searched]; rfl, ?_⟩
      rwa [List.append_assoc] at done

/-- Nothing pending, everything visited: the induction goes down from the roots. -/
theorem Frontier.all (frontier : Frontier forest visited []) (n : κ) : n ∈ visited ↔ n ∈ forest.nodes := by
  refine ⟨fun before => frontier.mem n (List.mem_append_left [] before), fun member => ?_⟩
  have order : IsStrictOrder κ (Relation.TransGen fun p c => c ∈ forest.children p) :=
    { irrefl := forest.acyclic, trans := fun _ _ _ => Relation.TransGen.trans }
  have down : Set.WellFoundedOn {x | x ∈ forest.nodes} (Relation.TransGen fun p c => c ∈ forest.children p) :=
    (List.finite_toSet forest.nodes).wellFoundedOn
  refine down.induction member fun c inside above => ?_
  by_cases root : forest.Root c
  · simpa using frontier.roots c root
  · obtain ⟨p, below⟩ : ∃ p, c ∈ forest.children p := by
      by_contra none
      exact root ⟨inside, fun p below => none ⟨p, below⟩⟩
    have before := above p (forest.parent_mem p c below) (.single below)
    simpa using frontier.closed p before c below

theorem frontier_roots {roots : List κ} (nodup : roots.Nodup) (all : ∀ x, x ∈ roots ↔ forest.Root x) :
    Frontier forest [] roots where
  nodup := nodup
  mem x root := ((all x).mp root).1
  linked x root := .inl ((all x).mp root)
  closed _ before := absurd before List.not_mem_nil
  roots x root := (all x).mpr root

end Forest

end Shared
