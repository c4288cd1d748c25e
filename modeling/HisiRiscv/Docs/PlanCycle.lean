/-
HisiRiscv.Docs.PlanCycle — `_cycle` of `check-plan-registry.py`.

The search keeps the path to the plan that it visits in one list, which every visit extends and
shortens again, and the plans that are done in one set. When a visit finds a circle, it leaves the
path as it is; then no visit comes after it. So the search is a depth-first search to which the path
is an argument (`visit_follows`), and finds a circle exactly if there is one (`cycle_exact`).

Translation notes. A plan is its identifier and the identifiers that it lists, known or not. A
visit is given the depth that it may still go down, which Python has as a setting of its own; none
is a visit that goes deeper. `visited` is a list, the last plan first.

  §1 The search.
  §2 Circles.
  §3 The path as an argument.
  §4 Main result.
  §5 The registry.
-/
import HisiRiscv.Docs.PlanRegistry

namespace HisiRiscv.Docs.PlanCycle

open HisiRiscv
open Relation

/-! ## §1 The search -/

/-- The plans, in order, with their dependencies. -/
abbrev Graph : Type := List (String × List String)

/-- The keys of the dictionary. -/
def ids (plans : Graph) : List String := plans.map Prod.fst

/-- `plans[plan_id].get("depends_on", [])`. -/
def listed (plans : Graph) (id : String) : List String :=
  ((plans.find? fun plan => plan.1 == id).map Prod.snd).getD []

structure Search where
  visiting : List String
  visited : List String

/-- What a visit returns, and what it leaves. -/
abbrev Visited : Type := Option (List String) × Search

/-- The loop over the dependencies of a plan. -/
def visitDependencies (plans : Graph) (visit : Search → String → Option Visited) :
    Search → List String → Option Visited
  | s, [] => some (none, s)
  | s, dependency :: rest =>
    if (ids plans).contains dependency then do
      let (found, s) ← visit s dependency
      match found with
      | some walk => some (some walk, s)
      | none => visitDependencies plans visit s rest
    else visitDependencies plans visit s rest

def visit (plans : Graph) : ℕ → Search → String → Option Visited
  | 0, _, _ => none
  | depth + 1, s, id =>
    if s.visiting.contains id then
      some (some (s.visiting.drop (s.visiting.idxOf id) ++ [id]), s)
    else if s.visited.contains id then some (none, s)
    else do
      let (found, s) ← visitDependencies plans (visit plans depth)
        { s with visiting := s.visiting ++ [id] } (listed plans id)
      match found with
      | some walk => some (some walk, s)
      | none => some (none, { visiting := s.visiting.dropLast, visited := id :: s.visited })

/-- The loop over the plans. -/
def visitPlans (visit : Search → String → Option Visited) :
    Search → List String → Option (Option (List String))
  | _, [] => some none
  | s, id :: rest => do
    let (found, s) ← visit s id
    match found with
    | some walk => some (some walk)
    | none => visitPlans visit s rest

/-- `_cycle`. -/
def cycle (depth : ℕ) (plans : Graph) : Option (Option (List String)) :=
  visitPlans (visit plans depth) ⟨[], []⟩ (ids plans)

/-! ## §2 Circles -/

/-- The graph of the known plans. -/
def DependsOn (plans : Graph) (id other : String) : Prop :=
  id ∈ ids plans ∧ other ∈ ids plans ∧ other ∈ listed plans id

/-- A walk along dependencies that returns to where it begins. -/
structure Circle (plans : Graph) (walk : List String) : Prop where
  two_le_length : 2 ≤ walk.length
  returns : walk.head? = walk.getLast?
  depends : walk.IsChain fun id other => other ∈ listed plans id

/-! ## §3 The path as an argument -/

/-- The known plans that a plan depends on. -/
def known (plans : Graph) (id : String) : List String :=
  (listed plans id).filter (ids plans).contains

variable {plans : Graph} {path nodes : List String} {id other : String} {depth : ℕ}

/-- What a visit returns and leaves is what the search with the path as an argument says; only
after a circle the path is another one. -/
def Follows (path : List String) : DepthFirst.Outcome String → Option Visited → Prop
  | .outOfFuel, result => result = none
  | .cycle walk, result => ∃ s, result = some (some walk, s)
  | .visited nodes, result => result = some (none, ⟨path, nodes⟩)

theorem follows_dependencies {visit' : List String → String → DepthFirst.Outcome String}
    {visit : Search → String → Option Visited} (nodes dependencies : List String)
    (hvisit : ∀ nodes id, Follows path (visit' nodes id) (visit ⟨path, nodes⟩ id)) :
    Follows path (DepthFirst.visitAll visit' nodes (dependencies.filter (ids plans).contains))
      (visitDependencies plans visit ⟨path, nodes⟩ dependencies) := by
  induction dependencies generalizing nodes with
  | nil => rfl
  | cons dependency rest ih =>
    rw [visitDependencies]
    by_cases hknown : (ids plans).contains dependency = true
    · have hfollows := hvisit nodes dependency
      rw [List.filter_cons_of_pos hknown, if_pos hknown, DepthFirst.visitAll]
      cases hfirst : visit' nodes dependency with
      | outOfFuel =>
        rw [hfirst] at hfollows
        rw [show visit ⟨path, nodes⟩ dependency = none from hfollows]
        rfl
      | cycle walk =>
        rw [hfirst] at hfollows
        obtain ⟨s, hs⟩ := hfollows
        rw [hs]
        exact ⟨s, rfl⟩
      | visited nodes' =>
        rw [hfirst] at hfollows
        rw [show visit ⟨path, nodes⟩ dependency = some (none, ⟨path, nodes'⟩) from hfollows]
        exact ih nodes'
    · rw [List.filter_cons_of_neg hknown, if_neg hknown]
      exact ih nodes

theorem drop_idxOf (path : List String) (id : String) :
    path.drop (path.idxOf id) = path.dropWhile (· ≠ id) := by
  induction path with
  | nil => rfl
  | cons other path ih =>
    by_cases h : other = id
    · simp [h]
    · simp [List.idxOf_cons_ne _ h, h, ih]

theorem visit_follows (plans : Graph) (depth : ℕ) (path nodes : List String) (id : String) :
    Follows path (DepthFirst.visit (known plans) depth path nodes id)
      (visit plans depth ⟨path, nodes⟩ id) := by
  induction depth generalizing path nodes id with
  | zero => rfl
  | succ depth ih =>
    rw [DepthFirst.visit, visit]
    by_cases hpath : id ∈ path
    · rw [if_pos hpath, if_pos (List.contains_iff_mem.mpr hpath), drop_idxOf]
      exact ⟨_, rfl⟩
    · rw [if_neg hpath, if_neg (mt List.contains_iff_mem.mp hpath)]
      by_cases hnodes : id ∈ nodes
      · rw [if_pos hnodes, if_pos (List.contains_iff_mem.mpr hnodes)]
        rfl
      · rw [if_neg hnodes, if_neg (mt List.contains_iff_mem.mp hnodes)]
        have hfollows : Follows (path ++ [id])
            (DepthFirst.visitAll (DepthFirst.visit (known plans) depth (path ++ [id])) nodes
              (known plans id)) _ := follows_dependencies nodes (listed plans id) (ih (path ++ [id]))
        cases hall : DepthFirst.visitAll (DepthFirst.visit (known plans) depth (path ++ [id])) nodes
            (known plans id) with
        | outOfFuel =>
          rw [hall] at hfollows
          rw [show visitDependencies plans (visit plans depth) ⟨path ++ [id], nodes⟩
            (listed plans id) = none from hfollows]
          rfl
        | cycle walk =>
          rw [hall] at hfollows
          obtain ⟨s, hs⟩ := hfollows
          rw [hs]
          exact ⟨s, rfl⟩
        | visited nodes' =>
          rw [hall] at hfollows
          rw [show visitDependencies plans (visit plans depth) ⟨path ++ [id], nodes⟩
            (listed plans id) = some (none, ⟨path ++ [id], nodes'⟩) from hfollows]
          -- the path is shortened by what it was extended with
          simp [Follows]

/-- What is returned for an outcome of the search. -/
def walkOf : DepthFirst.Outcome String → Option (Option (List String))
  | .outOfFuel => none
  | .cycle walk => some (some walk)
  | .visited _ => some none

theorem visitPlans_eq {visit' : List String → String → DepthFirst.Outcome String}
    {visit : Search → String → Option Visited} {rest : List String}
    (hvisit : ∀ nodes id, Follows path (visit' nodes id) (visit ⟨path, nodes⟩ id)) :
    visitPlans visit ⟨path, nodes⟩ rest = walkOf (DepthFirst.visitAll visit' nodes rest) := by
  induction rest generalizing nodes with
  | nil => rfl
  | cons id rest ih =>
    have hfollows := hvisit nodes id
    rw [visitPlans, DepthFirst.visitAll]
    cases hfirst : visit' nodes id with
    | outOfFuel =>
      rw [hfirst] at hfollows
      rw [show visit ⟨path, nodes⟩ id = none from hfollows]
      rfl
    | cycle walk =>
      rw [hfirst] at hfollows
      obtain ⟨s, hs⟩ := hfollows
      rw [hs]
      rfl
    | visited nodes' =>
      rw [hfirst] at hfollows
      rw [show visit ⟨path, nodes⟩ id = some (none, ⟨path, nodes'⟩) from hfollows]
      exact ih

theorem known_subset (plans : Graph) : ∀ id, ∀ other ∈ known plans id, other ∈ ids plans :=
  fun _ _ hother => List.contains_iff_mem.mp (List.mem_filter.mp hother).2

/-- A search that may go as deep as there are plans returns. -/
theorem cycle_eq (hdepth : plans.length < depth) :
    cycle depth plans = walkOf (DepthFirst.search (known plans) (ids plans)) := by
  have hlength : (ids plans).length < depth := by rwa [ids, List.length_map]
  rw [cycle, visitPlans_eq (visit_follows plans depth []),
    DepthFirst.visitAll_eq_search (known_subset plans) hlength]

/-! ## §4 Main result -/

theorem edge_iff : DepthFirst.Edge (known plans) id other ↔ DependsOn plans id other := by
  rw [DepthFirst.Edge, known, List.mem_filter, List.contains_iff_mem]
  constructor
  · rintro ⟨hlisted, hother⟩
    refine ⟨?_, hother, hlisted⟩
    rw [listed] at hlisted
    cases hfind : plans.find? fun plan => plan.1 == id with
    | none =>
      rw [hfind] at hlisted
      cases hlisted
    | some plan =>
      have hid : plan.1 = id := by simpa using List.find?_some hfind
      exact hid ▸ List.mem_map_of_mem (List.mem_of_find?_eq_some hfind)
  · rintro ⟨-, hother, hlisted⟩
    exact ⟨hlisted, hother⟩

theorem circle_of_closed {walk : List String} (h : DepthFirst.Closed (known plans) walk) :
    Circle plans walk := by
  obtain ⟨id, middle, rfl, hchain⟩ := h
  exact {
    two_le_length := by
      rw [List.length_append, List.length_cons, List.length_singleton]
      omega
    returns := by rw [List.getLast?_concat, List.cons_append, List.head?_cons]
    depends := hchain.imp fun _ _ hedge => (List.mem_filter.mp hedge).1 }

/-- `_cycle` returns, and it returns a circle exactly if the graph of the known plans has one. -/
theorem cycle_exact (plans : Graph) :
    ∃ result, (∀ depth, plans.length < depth → cycle depth plans = some result) ∧
      (result = none ↔ ∀ id, ¬ TransGen (DependsOn plans) id id) ∧
      ∀ walk, result = some walk → Circle plans walk := by
  have hedge : DepthFirst.Edge (known plans) = DependsOn plans := by
    funext id other
    exact propext edge_iff
  rw [← hedge]
  rcases DepthFirst.search_cases (known_subset plans) with ⟨nodes, hsearch, hacyclic⟩ |
    ⟨walk, hsearch, hclosed⟩
  · refine ⟨none, fun depth hdepth => ?_, iff_of_true rfl hacyclic, nofun⟩
    rw [cycle_eq hdepth, hsearch]
    rfl
  · refine ⟨some walk, fun depth hdepth => ?_, iff_of_false nofun hclosed.not_acyclic, ?_⟩
    · rw [cycle_eq hdepth, hsearch]
      rfl
    · rintro _ ⟨⟩
      exact circle_of_closed hclosed

/-! ## §5 The registry -/

section Registry

open PlanRegistry (Table Toml get)

/-- The graph of the plans that are kept; what is not a string is no plan's identifier. -/
def graphOf (plans : List (String × Table)) : Graph :=
  plans.map fun plan =>
    (plan.1, (((get plan.2 "depends_on").bind Toml.iterate).getD []).filterMap Toml.asString)

variable {plans : List (String × Table)}

theorem ids_graphOf : ids (graphOf plans) = PlanRegistry.planIds plans := by
  rw [ids, graphOf, List.map_map]
  rfl

theorem known_graphOf : known (graphOf plans) = PlanRegistry.dependencies plans := by
  funext id
  rw [known, ids_graphOf, listed, graphOf, List.find?_map, PlanRegistry.dependencies]
  have hkey : ((fun plan : String × List String => plan.1 == id) ∘ fun plan : String × Table =>
      (plan.1, (((get plan.2 "depends_on").bind Toml.iterate).getD []).filterMap Toml.asString)) =
        fun plan => plan.1 == id := rfl
  rw [hkey]
  cases plans.find? fun plan => plan.1 == id with
  | none => rfl
  | some plan => rfl

/-- The search for a cycle in the registry is this search. -/
theorem findCycle_eq {depth : ℕ} (hdepth : plans.length < depth) :
    cycle depth (graphOf plans) = some (PlanRegistry.findCycle plans) := by
  have hlength : (graphOf plans).length < depth := by rwa [graphOf, List.length_map]
  have hne := DepthFirst.search_ne_outOfFuel (known_subset (graphOf plans))
  rw [cycle_eq hlength, PlanRegistry.findCycle]
  rw [known_graphOf, ids_graphOf] at hne ⊢
  cases hsearch : DepthFirst.search (PlanRegistry.dependencies plans) (PlanRegistry.planIds plans) with
  | outOfFuel => exact absurd hsearch hne
  | cycle walk => rfl
  | visited nodes => rfl

end Registry

end HisiRiscv.Docs.PlanCycle
