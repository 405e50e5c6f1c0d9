import StaticCheck.Proofs.Rules
import StaticCheck.Proofs.Trees
import StaticCheck.Session

/-! # The type system

`HasType scope e t` says by rules alone, with no order of evaluation and no first error, that `e`
is an expression of type `t` where the names of `scope` are visible.  The main result is
`check_eq_ok_iff_hasType`: the checker finds a type exactly if the rules give it, in every scope
and whatever was counted before. -/

namespace StaticCheck

/-! ### The rules -/

/-- The typing rules.  Where a node has a list of operands, `types` gives the type of each. -/
inductive HasType (scope : Scope) : Expr → Ty → Prop where
  | int (digits : String) (span : Span) : HasType scope (.int digits span) .int
  | real (value : Binary64) (span : Span) : HasType scope (.real value span) .real
  | bool (value : Bool) (span : Span) : HasType scope (.bool value span) .bool
  | ident {name : String} {b : Binding} (span : Span) (visible : scope.get? name = some b) :
      HasType scope (.ident name span) b.ty
  | emptyList (span : Span) : HasType scope (.list [] span) .list
  /-- All items go with the first one. -/
  | list {first : Expr} {rest : List Expr} {t : Ty} {types : Expr → Ty} (span : Span)
      (head : HasType scope first t) (tail : ∀ e ∈ rest, HasType scope e (types e))
      (agree : ∀ e ∈ rest, (types e).Compatible t) :
      HasType scope (.list (first :: rest) span) .list
  | neg {e : Expr} {t : Ty} (span : Span) (operand : HasType scope e t)
      (number : t ∈ [.int, .real, .undefined]) : HasType scope (.unary .neg e span) t
  | not {e : Expr} {t : Ty} (span : Span) (operand : HasType scope e t)
      (truth : t ∈ [.bool, .undefined]) : HasType scope (.unary .not e span) .bool
  /-- A sum has the type of its first operand, and the others go with it. -/
  | additive {first : Expr} {rest : List (Link AddOp Expr)} {t : Ty} {types : Expr → Ty}
      (span : Span) (head : HasType scope first t) (number : t ∈ [.int, .real, .undefined])
      (tail : ∀ link ∈ rest, HasType scope link.operand (types link.operand))
      (agree : ∀ link ∈ rest, (types link.operand).Compatible t) :
      HasType scope (.additive first rest span) t
  | multiplicative {first : Expr} {rest : List (Link MulOp Expr)} {t : Ty} {types : Expr → Ty}
      (span : Span) (head : HasType scope first t) (number : t ∈ [.int, .real, .undefined])
      (tail : ∀ link ∈ rest, HasType scope link.operand (types link.operand))
      (agree : ∀ link ∈ rest, (types link.operand).Compatible t) :
      HasType scope (.multiplicative first rest span) t
  | logical {first : Expr} {rest : List (Link LogicOp Expr)} (span : Span)
      (head : HasType scope first .bool) (tail : ∀ link ∈ rest, HasType scope link.operand .bool) :
      HasType scope (.logical first rest span) .bool
  | single {left : Expr} {t : Ty} (span : Span) (operand : HasType scope left t) :
      HasType scope (.compare left none span) t
  /-- Numbers are put in order, also an integer and a real number. -/
  | ordering {op : CompareOp} {left right : Expr} {s t : Ty} (span : Span)
      (order : op ∈ [.less, .greater, .atMost, .atLeast])
      (lhs : HasType scope left s) (rhs : HasType scope right t)
      (numbers : s ∈ [.int, .real] ∧ t ∈ [.int, .real]) :
      HasType scope (.compare left (some ⟨op, right⟩) span) .bool
  | equality {op : CompareOp} {left right : Expr} {t : Ty} (span : Span)
      (equal : op ∈ [.equal, .notEqual])
      (lhs : HasType scope left t) (rhs : HasType scope right t) (known : t ≠ .undefined) :
      HasType scope (.compare left (some ⟨op, right⟩) span) .bool
  /-- A choice has the first known type of its two arms. -/
  | ternary {e e₁ e₂ : Expr} {s t : Ty} (span : Span) (test : HasType scope e .bool)
      (thenArm : HasType scope e₁ s) (elseArm : HasType scope e₂ t) (agree : s.Compatible t) :
      HasType scope (.ternary e e₁ e₂ span) (if s = .undefined then t else s)

/-! ### The rules read backwards -/

namespace HasType

variable {scope : Scope} {t : Ty} {span : Span}

theorem int_iff {digits : String} : HasType scope (.int digits span) t ↔ t = .int := by
  constructor
  · intro h
    cases h with
    | int => rfl
  · rintro rfl
    exact .int digits span

theorem real_iff {value : Binary64} : HasType scope (.real value span) t ↔ t = .real := by
  constructor
  · intro h
    cases h with
    | real => rfl
  · rintro rfl
    exact .real value span

theorem bool_iff {value : Bool} : HasType scope (.bool value span) t ↔ t = .bool := by
  constructor
  · intro h
    cases h with
    | bool => rfl
  · rintro rfl
    exact .bool value span

theorem ident_iff {name : String} :
    HasType scope (.ident name span) t ↔ ∃ b, scope.get? name = some b ∧ b.ty = t := by
  constructor
  · intro h
    cases h with
    | ident _ visible => exact ⟨_, visible, rfl⟩
  · rintro ⟨b, visible, rfl⟩
    exact .ident span visible

/-- Operands that each have some suitable type have them all at once. -/
theorem exists_types {β : Type} {items : List β} {part : β → Expr} {p : Ty → Prop}
    (h : ∀ x ∈ items, ∃ s, HasType scope (part x) s ∧ p s) :
    ∃ types : Expr → Ty, (∀ x ∈ items, HasType scope (part x) (types (part x))) ∧
      ∀ x ∈ items, p (types (part x)) := by
  -- an expression that occurs twice is given one type, so the choice depends on the expression only
  classical
  let types (e : Expr) : Ty :=
    if he : ∃ s, HasType scope e s ∧ p s then he.choose else .undefined
  have suitable : ∀ x ∈ items, HasType scope (part x) (types (part x)) ∧ p (types (part x)) := by
    intro x hx
    have chosen : types (part x) = (h x hx).choose := dif_pos (h x hx)
    rw [chosen]
    exact (h x hx).choose_spec
  exact ⟨types, fun x hx => (suitable x hx).1, fun x hx => (suitable x hx).2⟩

theorem emptyList_iff : HasType scope (.list [] span) t ↔ t = .list := by
  constructor
  · intro h
    cases h with
    | emptyList => rfl
  · rintro rfl
    exact .emptyList span

theorem list_iff {first : Expr} {rest : List Expr} :
    HasType scope (.list (first :: rest) span) t ↔ t = .list ∧ ∃ s, HasType scope first s ∧
      ∀ e ∈ rest, ∃ r, HasType scope e r ∧ r.Compatible s := by
  constructor
  · intro h
    cases h with
    | list _ head tail agree => exact ⟨rfl, _, head, fun e he => ⟨_, tail e he, agree e he⟩⟩
  · rintro ⟨rfl, s, head, hrest⟩
    obtain ⟨types, tail, agree⟩ := exists_types hrest
    exact .list span head tail agree

theorem neg_iff {e : Expr} : HasType scope (.unary .neg e span) t ↔
    HasType scope e t ∧ t ∈ [.int, .real, .undefined] := by
  constructor
  · intro h
    cases h with
    | neg _ operand number => exact ⟨operand, number⟩
  · rintro ⟨operand, number⟩
    exact .neg span operand number

theorem not_iff {e : Expr} : HasType scope (.unary .not e span) t ↔
    t = .bool ∧ ∃ s, HasType scope e s ∧ s ∈ [.bool, .undefined] := by
  constructor
  · intro h
    cases h with
    | not _ operand truth => exact ⟨rfl, _, operand, truth⟩
  · rintro ⟨rfl, s, operand, truth⟩
    exact .not span operand truth

theorem additive_iff {first : Expr} {rest : List (Link AddOp Expr)} :
    HasType scope (.additive first rest span) t ↔
      HasType scope first t ∧ t ∈ [.int, .real, .undefined] ∧
        ∀ link ∈ rest, ∃ s, HasType scope link.operand s ∧ s.Compatible t := by
  constructor
  · intro h
    cases h with
    | additive _ head number tail agree =>
      exact ⟨head, number, fun link hlink => ⟨_, tail link hlink, agree link hlink⟩⟩
  · rintro ⟨head, number, hrest⟩
    obtain ⟨types, tail, agree⟩ := exists_types hrest
    exact .additive span head number tail agree

theorem multiplicative_iff {first : Expr} {rest : List (Link MulOp Expr)} :
    HasType scope (.multiplicative first rest span) t ↔
      HasType scope first t ∧ t ∈ [.int, .real, .undefined] ∧
        ∀ link ∈ rest, ∃ s, HasType scope link.operand s ∧ s.Compatible t := by
  constructor
  · intro h
    cases h with
    | multiplicative _ head number tail agree =>
      exact ⟨head, number, fun link hlink => ⟨_, tail link hlink, agree link hlink⟩⟩
  · rintro ⟨head, number, hrest⟩
    obtain ⟨types, tail, agree⟩ := exists_types hrest
    exact .multiplicative span head number tail agree

theorem logical_iff {first : Expr} {rest : List (Link LogicOp Expr)} :
    HasType scope (.logical first rest span) t ↔
      t = .bool ∧ HasType scope first .bool ∧ ∀ link ∈ rest, HasType scope link.operand .bool := by
  constructor
  · intro h
    cases h with
    | logical _ head tail => exact ⟨rfl, head, tail⟩
  · rintro ⟨rfl, head, tail⟩
    exact .logical span head tail

theorem single_iff {left : Expr} :
    HasType scope (.compare left none span) t ↔ HasType scope left t := by
  constructor
  · intro h
    cases h with
    | single _ operand => exact operand
  · exact .single span

theorem compare_iff {op : CompareOp} {left right : Expr} :
    HasType scope (.compare left (some ⟨op, right⟩) span) t ↔
      t = .bool ∧ ∃ l r, HasType scope left l ∧ HasType scope right r ∧
        ((op ∈ [.less, .greater, .atMost, .atLeast] ∧ l ∈ [.int, .real] ∧ r ∈ [.int, .real]) ∨
          (op ∈ [.equal, .notEqual] ∧ l = r ∧ l ≠ .undefined)) := by
  constructor
  · intro h
    cases h with
    | ordering _ order lhs rhs numbers => exact ⟨rfl, _, _, lhs, rhs, .inl ⟨order, numbers⟩⟩
    | equality _ equal lhs rhs known => exact ⟨rfl, _, _, lhs, rhs, .inr ⟨equal, rfl, known⟩⟩
  · rintro ⟨rfl, l, r, lhs, rhs, ⟨order, numbers⟩ | ⟨equal, rfl, known⟩⟩
    · exact .ordering span order lhs rhs numbers
    · exact .equality span equal lhs rhs known

theorem ternary_iff {test thenArm elseArm : Expr} :
    HasType scope (.ternary test thenArm elseArm span) t ↔
      HasType scope test .bool ∧ ∃ a b, HasType scope thenArm a ∧ HasType scope elseArm b ∧
        a.Compatible b ∧ t = if a = .undefined then b else a := by
  constructor
  · intro h
    cases h with
    | ternary _ htest ha hb agree => exact ⟨htest, _, _, ha, hb, agree, rfl⟩
  · rintro ⟨htest, a, b, ha, hb, agree, rfl⟩
    exact .ternary span htest ha hb agree

end HasType

/-! ### Checking and typing -/

open Typing

theorem forall_operand_iff {scope : Scope} {β : Type} {items : List β} {part : β → Expr}
    {p : Ty → Prop}
    (ih : ∀ x ∈ items, ∀ {s}, ((part x).check scope).outcome = .ok s ↔ HasType scope (part x) s) :
    (∀ o ∈ items.map fun x => (⟨(part x).span, (part x).check scope⟩ : Operand),
        ∃ s, o.run.outcome = .ok s ∧ p s) ↔
      ∀ x ∈ items, ∃ s, HasType scope (part x) s ∧ p s := by
  rw [List.forall_mem_map]
  exact forall₂_congr fun x hx => exists_congr fun s => and_congr_left' (ih x hx)

/-- What the checker finds is what the rules give, by induction on the expression: each rule of the
checker asks of the runs of its operands what the typing rule asks of their types. -/
theorem Expr.check_eq_ok_iff {scope : Scope} {e : Expr} {t : Ty} :
    (e.check scope).outcome = .ok t ↔ HasType scope e t := by
  induction e generalizing t with
  | int digits span =>
    rw [Expr.check, announce_eq_ok_iff, HasType.int_iff, eq_comm]
    simp
  | real value span =>
    rw [Expr.check, announce_eq_ok_iff, HasType.real_iff, eq_comm]
    simp
  | bool value span =>
    rw [Expr.check, announce_eq_ok_iff, HasType.bool_iff, eq_comm]
    simp
  | list items span ih =>
    rw [Expr.check, announce_eq_ok_iff]
    cases items with
    | nil =>
      rw [HasType.emptyList_iff, eq_comm]
      simp [Typing.list]
    | cons first rest =>
      obtain ⟨ihFirst, ihRest⟩ := List.forall_mem_cons.1 ih
      rw [List.map_cons, list_eq_ok_iff, HasType.list_iff]
      exact and_congr_right' <| exists_congr fun s =>
        and_congr ihFirst (forall_operand_iff ihRest)
  | ident name span =>
    rw [Expr.check, announce_eq_ok_iff, Run.outcome_ofExcept, lookup_eq_ok_iff, HasType.ident_iff]
  | unary op operand span ih =>
    rw [Expr.check, announce_eq_ok_iff]
    cases op with
    | neg => rw [Typing.unary, negation_eq_ok_iff, ih, HasType.neg_iff]
    | not => simp only [Typing.unary, complement_eq_ok_iff, ih, HasType.not_iff]
  | additive first rest span ih ihs =>
    rw [Expr.check, announce_eq_ok_iff, arithmetic_eq_ok_iff, ih, forall_operand_iff ihs,
      HasType.additive_iff]
  | multiplicative first rest span ih ihs =>
    rw [Expr.check, announce_eq_ok_iff, arithmetic_eq_ok_iff, ih, forall_operand_iff ihs,
      HasType.multiplicative_iff]
  | logical first rest span ih ihs =>
    rw [Expr.check, announce_eq_ok_iff, logical_eq_ok_iff, ih, List.forall_mem_map,
      HasType.logical_iff]
    exact and_congr_right' <| and_congr_right' <| forall₂_congr fun link hlink => ihs link hlink
  | single left span ih => rw [Expr.check, announce_eq_ok_iff, ih, HasType.single_iff]
  | compare left op right span ihl ihr =>
    rw [Expr.check, announce_eq_ok_iff, comparison_eq_ok_iff, HasType.compare_iff]
    simp only [ihl, ihr]
  | ternary test thenArm elseArm span ihc iht ihe =>
    rw [Expr.check, announce_eq_ok_iff, ternary_eq_ok_iff, HasType.ternary_iff]
    simp only [ihc, iht, ihe]

/-- **Checking decides typing.**  In every scope and whatever was counted before, an expression is
given a type exactly if the rules give it that type; a session answers a request for it alike. -/
theorem check_eq_ok_iff_hasType (session : Session) (e : Expr) (t : Ty) :
    ((e.check session.scope).outcome = .ok t ↔ HasType session.scope e t) ∧
      ((session.step (.expr e)).1 = .ok (.type t) ↔ HasType session.scope e t) := by
  refine ⟨Expr.check_eq_ok_iff, ?_⟩
  rw [← Expr.check_eq_ok_iff, Session.step]
  cases (e.check session.scope).outcome with
  | error e =>
    change Except.error (Failure.semantic e) = Except.ok (Reply.type t) ↔ _
    simp
  | ok s =>
    change Except.ok (Reply.type s) = Except.ok (Reply.type t) ↔ _
    simp

end StaticCheck
