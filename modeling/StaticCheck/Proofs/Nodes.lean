import Mathlib.Algebra.BigOperators.Group.List.Basic
import StaticCheck.Proofs.TypeSystem

/-! # The nodes of an expression

An expression is checked node by node, operands first and from left to right.  If the check
succeeds, it counts what the nodes count on their own and records every node once, in that order:
see `Expr.check_effects` for one node, and `Expr.events_check` for the whole tree. -/

namespace StaticCheck

instance : AddCommMonoid Metrics where
  add_assoc := Metrics.add_assoc
  zero_add := Metrics.zero_add
  add_zero := Metrics.add_zero
  add_comm := Metrics.add_comm
  nsmul := nsmulRec

namespace Expr

/-! ### Nodes -/

/-- Induction over expressions through their operands, where all kinds of nodes are treated alike.
-/
theorem childInduction {motive : Expr → Prop}
    (node : ∀ e : Expr, (∀ c ∈ e.children, motive c) → motive e) (e : Expr) : motive e :=
  node e fun c hc =>
    have := sizeOf_lt_of_mem_children hc
    childInduction node c
termination_by sizeOf e

/-- All nodes of an expression, each behind its operands. -/
def nodes (e : Expr) : List Expr := e.children.attach.flatMap (fun c => c.1.nodes) ++ [e]
termination_by sizeOf e
decreasing_by exact sizeOf_lt_of_mem_children c.2

theorem nodes_eq (e : Expr) : e.nodes = e.children.flatMap nodes ++ [e] := by
  rw [nodes, List.flatMap_def, List.flatMap_def, List.attach_map_val (f := nodes)]

theorem mem_nodes_self (e : Expr) : e ∈ e.nodes := by
  rw [nodes_eq]
  exact List.mem_append_right _ (List.mem_singleton_self e)

/-- What holds of all nodes holds of the node itself and of all nodes of its operands. -/
theorem forall_mem_nodes_iff {motive : Expr → Prop} {e : Expr} : (∀ x ∈ e.nodes, motive x) ↔
    (∀ c ∈ e.children, ∀ x ∈ c.nodes, motive x) ∧ motive e := by
  rw [nodes_eq, List.forall_mem_append, List.forall_mem_singleton]
  simp only [List.mem_flatMap, forall_exists_index, and_imp]
  constructor
  · rintro ⟨h, he⟩
    exact ⟨fun c hc x hx => h x c hc hx, he⟩
  · rintro ⟨h, he⟩
    exact ⟨fun x c hc hx => h c hc x hx, he⟩

/-! ### Checking a node -/

/-- What a node counts besides its operands. -/
def ownTally : Expr → Metrics
  | unary _ _ _ => .ofOperators 1
  | additive _ rest _ => .ofOperators rest.length
  | multiplicative _ rest _ => .ofOperators rest.length
  | logical _ rest _ => .ofOperators rest.length
  | compare _ (some _) _ => .ofOperators 1
  | ternary _ _ _ _ => .conditional
  | _ => 0

open Typing Run

theorem sum_operands {scope : Scope} (items : List Expr) :
    ((items.map fun e => (⟨e.span, e.check scope⟩ : Operand)).map fun o => o.run.effects).sum =
      (items.map fun e => (e.check scope).effects).sum := by
  rw [List.map_map]
  rfl

theorem sum_chain {ω : Type} {scope : Scope} (first : Expr) (rest : List (Link ω Expr)) :
    (((⟨first.span, first.check scope⟩ : Operand) :: rest.map fun link =>
        (⟨link.operand.span, link.operand.check scope⟩ : Operand)).map fun o => o.run.effects).sum =
      ((first :: rest.map Link.operand).map fun e => (e.check scope).effects).sum := by
  rw [List.map_cons, List.map_cons, List.map_map, List.map_map]
  rfl

/-- A successful check of a node leaves what the node counts on its own, what its operands leave,
and the record of its type. -/
theorem check_effects {scope : Scope} {e : Expr} {t : Ty} (h : (e.check scope).outcome = .ok t) :
    (e.check scope).effects = ⟨e.ownTally, []⟩ +
      (e.children.map fun c => (c.check scope).effects).sum + ⟨0, [.typed e t]⟩ := by
  cases e with
  | int digits span =>
    rw [check] at h ⊢
    exact announce_effects (announce_eq_ok_iff.1 h)
  | real value span =>
    rw [check] at h ⊢
    exact announce_effects (announce_eq_ok_iff.1 h)
  | bool value span =>
    rw [check] at h ⊢
    exact announce_effects (announce_eq_ok_iff.1 h)
  | ident name span =>
    rw [check] at h ⊢
    rw [announce_effects (announce_eq_ok_iff.1 h), effects_ofExcept]
    rfl
  | list items span =>
    rw [check] at h ⊢
    have hlist := announce_eq_ok_iff.1 h
    rw [announce_effects hlist, list_effects hlist, sum_operands]
    exact congrArg (· + _) (Effects.zero_add _).symm
  | unary op operand span =>
    rw [check] at h ⊢
    have hunary := announce_eq_ok_iff.1 h
    have counted : (Typing.unary op ⟨operand.span, operand.check scope⟩).effects =
        ⟨.ofOperators 1, []⟩ + (operand.check scope).effects := by
      cases op with
      | neg => exact negation_effects hunary
      | not => exact complement_effects hunary
    rw [announce_effects hunary, counted]
    simp only [children, ownTally, List.map_cons, List.map_nil, List.sum_cons, List.sum_nil,
      Effects.add_zero]
  | additive first rest span =>
    rw [check] at h ⊢
    have hchain := announce_eq_ok_iff.1 h
    rw [announce_effects hchain, arithmetic_effects hchain, sum_chain, List.length_map]
    rfl
  | multiplicative first rest span =>
    rw [check] at h ⊢
    have hchain := announce_eq_ok_iff.1 h
    rw [announce_effects hchain, arithmetic_effects hchain, sum_chain, List.length_map]
    rfl
  | logical first rest span =>
    rw [check] at h ⊢
    have hchain := announce_eq_ok_iff.1 h
    rw [announce_effects hchain, logical_effects hchain, sum_chain, List.length_map]
    rfl
  | compare left rhs span =>
    cases rhs with
    | none =>
      rw [check] at h ⊢
      have hleft := announce_eq_ok_iff.1 h
      -- without a right side nothing is compared, and nothing counted
      rw [announce_effects hleft]
      simp only [children, ownTally, Option.map_none, Option.toList_none, List.map_cons,
        List.map_nil, List.sum_cons, List.sum_nil, Effects.add_zero]
      exact congrArg (· + _) (Effects.zero_add _).symm
    | some link =>
      rw [check] at h ⊢
      have hcomp := announce_eq_ok_iff.1 h
      rw [announce_effects hcomp, comparison_effects hcomp]
      simp only [children, ownTally, Option.map_some, Option.toList_some, List.map_cons,
        List.map_nil, List.sum_cons, List.sum_nil, Effects.add_zero]
  | ternary test thenArm elseArm span =>
    rw [check] at h ⊢
    have hchoice := announce_eq_ok_iff.1 h
    rw [announce_effects hchoice, ternary_effects hchoice]
    simp only [children, ownTally, List.map_cons, List.map_nil, List.sum_cons, List.sum_nil,
      Effects.add_zero]

end Expr

/-! ### Checking a whole tree -/

theorem HasType.of_mem_children {scope : Scope} {e c : Expr} {t : Ty} (h : HasType scope e t)
    (hc : c ∈ e.children) : ∃ s, HasType scope c s := by
  cases h with
  | int | real | bool | ident | emptyList => cases hc
  | list _ head tail _ =>
    rcases List.mem_cons.1 hc with rfl | hc
    · exact ⟨_, head⟩
    · exact ⟨_, tail c hc⟩
  | neg _ operand _ | not _ operand _ | single _ operand =>
    obtain rfl := List.mem_singleton.1 hc
    exact ⟨_, operand⟩
  | additive _ head _ tail _ | multiplicative _ head _ tail _ | logical _ head tail =>
    rcases List.mem_cons.1 hc with rfl | hc
    · exact ⟨_, head⟩
    · obtain ⟨link, hlink, rfl⟩ := List.mem_map.1 hc
      exact ⟨_, tail link hlink⟩
  | ordering _ _ lhs rhs _ | equality _ _ lhs rhs _ =>
    rcases List.mem_cons.1 hc with rfl | hc
    · exact ⟨_, lhs⟩
    · obtain rfl := List.mem_singleton.1 hc
      exact ⟨_, rhs⟩
  | ternary _ test thenArm elseArm _ =>
    simp only [Expr.children, List.mem_cons, List.not_mem_nil, or_false] at hc
    rcases hc with rfl | rfl | rfl
    · exact ⟨_, test⟩
    · exact ⟨_, thenArm⟩
    · exact ⟨_, elseArm⟩

namespace Expr

theorem exists_check_of_mem_children {scope : Scope} {e c : Expr} {t : Ty}
    (h : (e.check scope).outcome = .ok t) (hc : c ∈ e.children) :
    ∃ s, (c.check scope).outcome = .ok s := by
  obtain ⟨s, hs⟩ := (check_eq_ok_iff.1 h).of_mem_children hc
  exact ⟨s, check_eq_ok_iff.2 hs⟩

theorem exists_check_of_mem_nodes {scope : Scope} {e n : Expr} {t : Ty}
    (h : (e.check scope).outcome = .ok t) (hn : n ∈ e.nodes) :
    ∃ s, (n.check scope).outcome = .ok s := by
  induction e using childInduction generalizing t with
  | node e ih =>
    rw [nodes_eq, List.mem_append, List.mem_flatMap, List.mem_singleton] at hn
    rcases hn with ⟨c, hc, hn⟩ | rfl
    · obtain ⟨s, hs⟩ := exists_check_of_mem_children h hc
      exact ih c hc hs hn
    · exact ⟨t, h⟩

/-- The type that is found for an expression, or `undefined` if none is. -/
def typeIn (scope : Scope) (e : Expr) : Ty := (e.check scope).outcome.toOption.getD .undefined

theorem typeIn_eq {scope : Scope} {e : Expr} {t : Ty} (h : (e.check scope).outcome = .ok t) :
    e.typeIn scope = t := by
  rw [typeIn, h]
  rfl

/-- A successful check of an expression records all its nodes in order, each with its type. -/
theorem events_check {scope : Scope} {e : Expr} {t : Ty} (h : (e.check scope).outcome = .ok t) :
    (e.check scope).effects.events = e.nodes.map fun n => .typed n (n.typeIn scope) := by
  induction e using childInduction generalizing t with
  | node e ih =>
    have hchildren : e.children.flatMap (fun c => (c.check scope).effects.events) =
        e.children.flatMap fun c => c.nodes.map fun n => .typed n (n.typeIn scope) := by
      refine List.flatMap_congr fun c hc => ?_
      obtain ⟨s, hs⟩ := exists_check_of_mem_children h hc
      exact ih c hc hs
    calc (e.check scope).effects.events
        = e.children.flatMap (fun c => (c.check scope).effects.events) ++ [Event.typed e t] := by
          rw [check_effects h, Effects.events_add, Effects.events_add, Effects.events_sum,
            List.flatMap_map]
          rfl
      _ = e.nodes.map fun n => .typed n (n.typeIn scope) := by
        rw [hchildren, nodes_eq, List.map_append, List.map_flatMap, List.map_singleton, typeIn_eq h]

/-- What an expression counts, by its nodes. -/
def metrics (e : Expr) : Metrics := (e.nodes.map ownTally).sum

theorem metrics_eq (e : Expr) : e.metrics = e.ownTally + (e.children.map metrics).sum := by
  rw [metrics, nodes_eq, List.map_append, List.sum_append, List.map_flatMap, List.flatMap_def,
    List.sum_flatten, List.map_map, List.map_singleton, List.sum_singleton, add_comm]
  rfl

end Expr

end StaticCheck
