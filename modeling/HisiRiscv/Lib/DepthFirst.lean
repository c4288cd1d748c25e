/-
HisiRiscv.Lib.DepthFirst — depth-first search for a cycle.

The search keeps the path to the node that it visits, and the nodes that are done. It ends at
the first node that it meets on its path; then the path goes round in a circle
(`closed_of_cycle`). A node is done when its successors are, so the nodes that are done
are in an order in which every edge leads backwards (`Settled`), and there is no cycle
(`acyclic_of_settled`).

  §1 The search.
  §2 Nodes that are done.
  §3 Walks.
  §4 The fuel.
  §5 The result.
-/
import Mathlib.Data.List.Chain
import Mathlib.Data.List.Nodup
import Mathlib.Data.List.Perm.Subperm
import Mathlib.Logic.Relation

namespace HisiRiscv.DepthFirst

open Relation

variable {κ : Type*} (next : κ → List κ)

/-! ## §1 The search -/

inductive Outcome (κ : Type*) where
  | outOfFuel
  | cycle (walk : List κ)
  /-- the nodes that are done, the last one first -/
  | visited (nodes : List κ)

/-- Visit one node after another, until one leads into a cycle. -/
def visitAll (visit : List κ → κ → Outcome κ) : List κ → List κ → Outcome κ
  | nodes, [] => .visited nodes
  | nodes, v :: vs =>
    match visit nodes v with
    | .visited nodes => visitAll visit nodes vs
    | outcome => outcome

def visit [DecidableEq κ] : ℕ → List κ → List κ → κ → Outcome κ
  | 0, _, _, _ => .outOfFuel
  | fuel + 1, path, nodes, v =>
    if v ∈ path then .cycle (path.dropWhile (· ≠ v) ++ [v])
    else if v ∈ nodes then .visited nodes
    else
      match visitAll (visit fuel (path ++ [v])) nodes (next v) with
      | .visited nodes => .visited (v :: nodes)
      | outcome => outcome

def search [DecidableEq κ] (keys : List κ) : Outcome κ := visitAll (visit next (keys.length + 1) []) [] keys

def Edge (v w : κ) : Prop := w ∈ next v

def Acyclic : Prop := ∀ v, ¬ TransGen (Edge next) v v

/-- A walk that returns to where it begins. -/
def Closed (walk : List κ) : Prop :=
  ∃ v middle, walk = v :: middle ++ [v] ∧ walk.IsChain (Edge next)

/-! ## §2 Nodes that are done -/

/-- Each node comes after its successors, in the order in which they are done. -/
inductive Settled : List κ → Prop
  | nil : Settled []
  | cons {v : κ} {nodes : List κ} (fresh : v ∉ nodes) (closed : ∀ w ∈ next v, w ∈ nodes)
      (rest : Settled nodes) : Settled (v :: nodes)

variable {next} {path nodes nodes' keys walk vs : List κ} {v w : κ} {fuel : ℕ}

theorem Settled.edge (h : Settled next nodes) (hv : v ∈ nodes) (hedge : Edge next v w) :
    w ∈ nodes := by
  induction h with
  | nil => cases hv
  | cons fresh closed rest ih =>
    rcases List.mem_cons.mp hv with rfl | hv
    · exact List.mem_cons_of_mem _ (closed w hedge)
    · exact List.mem_cons_of_mem _ (ih hv)

theorem Settled.reaches (h : Settled next nodes) (hv : v ∈ nodes)
    (hpath : ReflTransGen (Edge next) v w) : w ∈ nodes := by
  induction hpath with
  | refl => exact hv
  | tail _ hedge ih => exact h.edge ih hedge

theorem acyclic_of_settled (h : Settled next nodes) (hv : v ∈ nodes) :
    ¬ TransGen (Edge next) v v := by
  induction h with
  | nil => cases hv
  | cons fresh closed rest ih =>
    rcases List.mem_cons.mp hv with rfl | hv
    · intro hcycle
      obtain ⟨w, hedge, hback⟩ := TransGen.head'_iff.mp hcycle
      exact fresh (rest.reaches (closed w hedge) hback)
    · exact ih hv

/-- What a visit does to the nodes that are done: those on the path are not among the new ones. -/
structure Grows (next : κ → List κ) (path nodes nodes' : List κ) : Prop where
  subset : ∀ x ∈ nodes, x ∈ nodes'
  fresh : ∀ x ∈ nodes', x ∈ nodes ∨ x ∉ path
  settled : Settled next nodes'

theorem grows_visitAll {visit : List κ → κ → Outcome κ}
    (hvisit : ∀ nodes v nodes', Settled next nodes → visit nodes v = .visited nodes' →
      Grows next path nodes nodes' ∧ v ∈ nodes')
    (h : Settled next nodes) (hall : visitAll visit nodes vs = .visited nodes') :
    Grows next path nodes nodes' ∧ ∀ v ∈ vs, v ∈ nodes' := by
  induction vs generalizing nodes with
  | nil =>
    cases hall
    exact ⟨⟨fun _ hx => hx, fun _ => .inl, h⟩, nofun⟩
  | cons v vs ih =>
    rw [visitAll] at hall
    split at hall
    · rename_i nodes₁ hfirst
      obtain ⟨hgrows, hv⟩ := hvisit nodes v nodes₁ h hfirst
      obtain ⟨hgrows', hvs⟩ := ih hgrows.settled hall
      refine ⟨⟨fun x hx => hgrows'.subset x (hgrows.subset x hx), fun x hx => ?_,
        hgrows'.settled⟩, List.forall_mem_cons.mpr ⟨hgrows'.subset v hv, hvs⟩⟩
      rcases hgrows'.fresh x hx with hx | hx
      · exact hgrows.fresh x hx
      · exact .inr hx
    · rename_i hfirst
      exact absurd hall (hfirst nodes')

theorem grows_visit [DecidableEq κ] (h : Settled next nodes)
    (hvisit : visit next fuel path nodes v = .visited nodes') :
    Grows next path nodes nodes' ∧ v ∈ nodes' := by
  induction fuel generalizing path nodes v nodes' with
  | zero => cases hvisit
  | succ fuel ih =>
    rw [visit] at hvisit
    split at hvisit
    · cases hvisit
    · rename_i hpath
      split at hvisit
      · rename_i hmem
        cases hvisit
        exact ⟨⟨fun _ hx => hx, fun _ => .inl, h⟩, hmem⟩
      · rename_i hnot
        split at hvisit
        · rename_i nodes₁ hall
          cases hvisit
          obtain ⟨hgrows, hnext⟩ := grows_visitAll (fun _ _ _ => ih) h hall
          have hfresh : v ∉ nodes₁ := by
            intro hv
            rcases hgrows.fresh v hv with hv | hv
            · exact hnot hv
            · exact hv (List.mem_append_right _ (List.mem_singleton_self v))
          refine ⟨⟨fun x hx => List.mem_cons_of_mem _ (hgrows.subset x hx), fun x hx => ?_,
            .cons hfresh hnext hgrows.settled⟩, List.mem_cons_self⟩
          rcases List.mem_cons.mp hx with rfl | hx
          · exact .inr hpath
          · exact (hgrows.fresh x hx).imp_right fun hx hmem => hx (List.mem_append_left _ hmem)
        · rename_i hall
          exact absurd hvisit (hall nodes')

/-! ## §3 Walks -/

theorem cycle_visitAll {visit : List κ → κ → Outcome κ} {walk : List κ}
    (hall : visitAll visit nodes vs = .cycle walk) :
    ∃ nodes' v, v ∈ vs ∧ visit nodes' v = .cycle walk := by
  induction vs generalizing nodes with
  | nil => cases hall
  | cons v vs ih =>
    rw [visitAll] at hall
    split at hall
    · obtain ⟨nodes', w, hw, hcycle⟩ := ih hall
      exact ⟨nodes', w, List.mem_cons_of_mem _ hw, hcycle⟩
    · exact ⟨nodes, v, List.mem_cons_self, hall⟩

/-- The part of a path from one of its nodes on, back to the node. -/
theorem closed_of_path [DecidableEq κ] (hv : v ∈ path) (hpath : (path ++ [v]).IsChain (Edge next)) :
    Closed next (path.dropWhile (· ≠ v) ++ [v]) := by
  obtain ⟨before, after, rfl, hnot⟩ := List.eq_append_cons_of_mem hv
  have hdrop : (before ++ v :: after).dropWhile (· ≠ v) = v :: after := by
    rw [List.dropWhile_append_of_pos, List.dropWhile_cons_of_neg]
    · simp
    · intro x hx
      have hne : x ≠ v := fun heq => hnot (heq ▸ hx)
      simp [hne]
  refine ⟨v, after, by rw [hdrop], ?_⟩
  rw [hdrop]
  rw [List.append_assoc] at hpath
  exact hpath.right_of_append

theorem closed_of_cycle [DecidableEq κ] (hpath : (path ++ [v]).IsChain (Edge next))
    (hvisit : visit next fuel path nodes v = .cycle walk) : Closed next walk := by
  induction fuel generalizing path nodes v with
  | zero => cases hvisit
  | succ fuel ih =>
    rw [visit] at hvisit
    split at hvisit
    · rename_i hv
      cases hvisit
      exact closed_of_path hv hpath
    · split at hvisit
      · cases hvisit
      · split at hvisit
        · cases hvisit
        · obtain ⟨nodes', w, hw, hcycle⟩ := cycle_visitAll hvisit
          refine ih ?_ hcycle
          rw [List.append_assoc, List.singleton_append, List.isChain_append_cons_cons]
          exact ⟨hpath, hw, List.IsChain.singleton w⟩

theorem transGen_of_isChain {middle : List κ} (h : (v :: middle ++ [w]).IsChain (Edge next)) :
    TransGen (Edge next) v w := by
  induction middle generalizing v with
  | nil => exact .single (List.isChain_cons_cons.mp h).1
  | cons u middle ih =>
    obtain ⟨hedge, hrest⟩ := List.isChain_cons_cons.mp h
    exact .head hedge (ih hrest)

/-- A closed walk is a cycle. -/
theorem Closed.not_acyclic (h : Closed next walk) : ¬ Acyclic next := by
  obtain ⟨v, middle, rfl, hchain⟩ := h
  exact fun hacyclic => hacyclic v (transGen_of_isChain hchain)

/-! ## §4 The fuel -/

theorem outOfFuel_visitAll {visit : List κ → κ → Outcome κ}
    (hall : visitAll visit nodes vs = .outOfFuel) :
    ∃ nodes' v, v ∈ vs ∧ visit nodes' v = .outOfFuel := by
  induction vs generalizing nodes with
  | nil => cases hall
  | cons v vs ih =>
    rw [visitAll] at hall
    split at hall
    · obtain ⟨nodes', w, hw, hempty⟩ := ih hall
      exact ⟨nodes', w, List.mem_cons_of_mem _ hw, hempty⟩
    · exact ⟨nodes, v, List.mem_cons_self, hall⟩

/-- A path has no node twice, so it is no longer than there are nodes. -/
theorem visit_ne_outOfFuel [DecidableEq κ] (hnext : ∀ v, ∀ w ∈ next v, w ∈ keys)
    (hnodup : path.Nodup) (hsub : path ⊆ keys) (hv : v ∈ keys)
    (hfuel : keys.length < fuel + path.length) : visit next fuel path nodes v ≠ .outOfFuel := by
  induction fuel generalizing path nodes v with
  | zero =>
    have := (hnodup.subperm hsub).length_le
    omega
  | succ fuel ih =>
    intro hvisit
    rw [visit] at hvisit
    split at hvisit
    · cases hvisit
    · rename_i hpath
      split at hvisit
      · cases hvisit
      · split at hvisit
        · cases hvisit
        · obtain ⟨nodes', w, hw, hempty⟩ := outOfFuel_visitAll hvisit
          refine ih ?_ ?_ (hnext v w hw) ?_ hempty
          · exact List.nodup_append'.mpr ⟨hnodup, List.nodup_singleton v,
              List.disjoint_singleton.mpr hpath⟩
          · exact List.append_subset.mpr ⟨hsub, List.cons_subset.mpr ⟨hv, List.nil_subset _⟩⟩
          · rw [List.length_append, List.length_singleton]
            omega

theorem visitAll_congr {visit visit' : List κ → κ → Outcome κ}
    (hvisit : ∀ nodes v, visit nodes v ≠ .outOfFuel → visit' nodes v = visit nodes v)
    (hall : visitAll visit nodes vs ≠ .outOfFuel) :
    visitAll visit' nodes vs = visitAll visit nodes vs := by
  induction vs generalizing nodes with
  | nil => rfl
  | cons v vs ih =>
    rw [visitAll] at hall
    rw [visitAll, visitAll]
    cases hfirst : visit nodes v with
    | outOfFuel =>
      rw [hfirst] at hall
      exact absurd rfl hall
    | cycle walk =>
      rw [hvisit nodes v (by rw [hfirst]; nofun), hfirst]
    | visited nodes' =>
      rw [hfirst] at hall
      rw [hvisit nodes v (by rw [hfirst]; nofun), hfirst]
      exact ih hall

/-- More fuel does not change a visit that ends. -/
theorem visit_succ [DecidableEq κ] (h : visit next fuel path nodes v ≠ .outOfFuel) :
    visit next (fuel + 1) path nodes v = visit next fuel path nodes v := by
  induction fuel generalizing path nodes v with
  | zero => exact absurd rfl h
  | succ fuel ih =>
    rw [visit] at h
    rw [visit, visit]
    split
    · rfl
    · rename_i hpath
      split
      · rfl
      · rename_i hnodes
        rw [if_neg hpath, if_neg hnodes] at h
        rw [visitAll_congr (fun _ _ => ih)]
        intro hempty
        rw [hempty] at h
        exact h rfl

theorem search_ne_outOfFuel [DecidableEq κ] (hnext : ∀ v, ∀ w ∈ next v, w ∈ keys) :
    search next keys ≠ .outOfFuel := by
  intro hsearch
  obtain ⟨nodes, v, hv, hempty⟩ := outOfFuel_visitAll hsearch
  exact visit_ne_outOfFuel hnext List.nodup_nil (List.nil_subset _) hv (Nat.lt_succ_self _) hempty

/-- The search goes no deeper than there are keys. -/
theorem visitAll_eq_search [DecidableEq κ] (hnext : ∀ v, ∀ w ∈ next v, w ∈ keys)
    (hfuel : keys.length < fuel) : visitAll (visit next fuel []) [] keys = search next keys := by
  induction fuel, hfuel using Nat.le_induction with
  | base => rfl
  | succ fuel _ ih =>
    rw [← ih]
    refine visitAll_congr (fun _ _ => visit_succ) ?_
    rw [ih]
    exact search_ne_outOfFuel hnext

/-! ## §5 The result -/

/-- The search ends; it finds a closed walk, or there is no cycle. -/
theorem search_cases [DecidableEq κ] (hnext : ∀ v, ∀ w ∈ next v, w ∈ keys) :
    (∃ nodes, search next keys = .visited nodes ∧ Acyclic next) ∨
      ∃ walk, search next keys = .cycle walk ∧ Closed next walk := by
  cases hsearch : search next keys with
  | outOfFuel => exact absurd hsearch (search_ne_outOfFuel hnext)
  | cycle walk =>
    obtain ⟨nodes, v, -, hcycle⟩ := cycle_visitAll hsearch
    exact .inr ⟨walk, rfl, closed_of_cycle (List.IsChain.singleton v) hcycle⟩
  | visited nodes =>
    obtain ⟨hgrows, hall⟩ := grows_visitAll (fun _ _ _ => grows_visit) .nil hsearch
    refine .inl ⟨nodes, rfl, fun v hcycle => ?_⟩
    obtain ⟨u, -, hedge⟩ := TransGen.tail'_iff.mp hcycle
    exact acyclic_of_settled hgrows.settled (hall v (hnext u v hedge)) hcycle

end HisiRiscv.DepthFirst
