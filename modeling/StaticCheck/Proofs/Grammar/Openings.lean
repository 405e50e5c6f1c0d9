import StaticCheck.Proofs.Grammar

/-! # How phrases begin and end

One token decides which rule of the grammar applies.  `opensExpr` are the tokens that an expression
can start with, and `endsExpr` those that cannot continue one; likewise for each layer of
expressions. Every expression `Opens` with a token of the first kind, and a name at its front is
followed by a token that joins it to what comes next. -/

namespace StaticCheck

/-! ### Ends of phrases -/

namespace TokenKind

/-- The tokens that an expression can start with. -/
def opensExpr : TokenKind → Bool
  | int _ | real _ | ident _ => true
  | keyword word => word = .trueWord || word = .falseWord
  | punct mark => mark = .openBracket || mark = .openParen || mark = .minus || mark = .bang
  | eof => false

/-- The tokens that cannot continue a product. -/
def endsMul (kind : TokenKind) : Prop := Operator.ofToken? MulOp kind = none

/-- The tokens that cannot continue a sum. -/
def endsAdd (kind : TokenKind) : Prop := Operator.ofToken? AddOp kind = none ∧ kind.endsMul

/-- The tokens that cannot continue a comparison. -/
def endsComp (kind : TokenKind) : Prop := Operator.ofToken? CompareOp kind = none ∧ kind.endsAdd

/-- The tokens that cannot continue a chain of conditions. -/
def endsLogic (kind : TokenKind) : Prop := Operator.ofToken? LogicOp kind = none ∧ kind.endsComp

/-- The tokens that cannot continue an expression. -/
def endsExpr (kind : TokenKind) : Prop := kind ≠ .punct .question ∧ kind.endsLogic

theorem endsMul_add (op : AddOp) : endsMul (.punct op.mark) := by
  cases op <;> rfl

theorem endsAdd_compare (op : CompareOp) : endsAdd (.punct op.mark) := by
  cases op <;> exact ⟨rfl, rfl⟩

theorem endsComp_logic (op : LogicOp) : endsComp (.punct op.mark) := by
  cases op <;> exact ⟨rfl, rfl, rfl⟩

theorem endsLogic_question : endsLogic (.punct .question) := ⟨rfl, rfl, rfl, rfl⟩

theorem endsExpr_closeParen : endsExpr (.punct .closeParen) := ⟨by decide, rfl, rfl, rfl, rfl⟩

theorem endsExpr_closeBracket : endsExpr (.punct .closeBracket) := ⟨by decide, rfl, rfl, rfl, rfl⟩

theorem endsExpr_comma : endsExpr (.punct .comma) := ⟨by decide, rfl, rfl, rfl, rfl⟩

theorem endsExpr_colon : endsExpr (.punct .colon) := ⟨by decide, rfl, rfl, rfl, rfl⟩

theorem endsExpr_semicolon : endsExpr (.punct .semicolon) := ⟨by decide, rfl, rfl, rfl, rfl⟩

theorem not_endsExpr_mul (op : MulOp) : ¬ endsExpr (.punct op.mark) :=
  fun h => Operator.ofToken?_mark_ne_none op h.2.2.2.2

theorem not_endsExpr_add (op : AddOp) : ¬ endsExpr (.punct op.mark) :=
  fun h => Operator.ofToken?_mark_ne_none op h.2.2.2.1

theorem not_endsExpr_compare (op : CompareOp) : ¬ endsExpr (.punct op.mark) :=
  fun h => Operator.ofToken?_mark_ne_none op h.2.2.1

theorem not_endsExpr_logic (op : LogicOp) : ¬ endsExpr (.punct op.mark) :=
  fun h => Operator.ofToken?_mark_ne_none op h.2.1

theorem not_endsExpr_question : ¬ endsExpr (.punct .question) := fun h => h.1 rfl

end TokenKind

/-! ### Openings -/

namespace Grammar

variable {α ω : Type} (A : Alphabet α)

/-- The symbols start like an expression does: with a token that can open one, and behind a name
with nothing or with a token that joins operands. -/
def Opens (ts : List α) : Prop :=
  ∃ t us, ts = t :: us ∧ (A.kind t).opensExpr = true ∧
    ∀ name, A.kind t = .ident name → ∀ u vs, us = u :: vs → ¬ (A.kind u).endsExpr

variable {A}

theorem Opens.of_not_name {t : α} {us : List α} (ht : (A.kind t).opensExpr = true)
    (hn : ∀ name, A.kind t ≠ .ident name) : Opens A (t :: us) :=
  ⟨t, us, rfl, ht, fun name h => absurd h (hn name)⟩

theorem Opens.singleton {t : α} (ht : (A.kind t).opensExpr = true) : Opens A [t] :=
  ⟨t, [], rfl, ht, fun _ _ _ _ h => by cases h⟩

theorem Opens.append {ts us : List α} {sign : α} (h : Opens A ts)
    (hs : ¬ (A.kind sign).endsExpr) : Opens A (ts ++ sign :: us) := by
  obtain ⟨t, vs, rfl, ht, hv⟩ := h
  refine ⟨t, vs ++ sign :: us, rfl, ht, ?_⟩
  intro name hn u ws hu
  cases vs with
  | nil =>
    cases hu
    exact hs
  | cons v vs =>
    cases hu
    exact hv name hn _ _ rfl

theorem Opens.ne_nil {ts : List α} (h : Opens A ts) : ts ≠ [] := by
  obtain ⟨t, us, rfl, -⟩ := h
  exact List.cons_ne_nil t us

theorem Opens.first {ts : List α} (h : Opens A ts) : ∃ t us, ts = t :: us ∧ A.kind t ≠ .eof := by
  obtain ⟨t, us, rfl, ht, -⟩ := h
  refine ⟨t, us, rfl, fun hk => ?_⟩
  rw [hk] at ht
  cases ht

/-- The links of a chain start with an operator. -/
theorem Linked.uncons {mark : ω → Punct} {operand : Phrase α Expr} {us : List α}
    {rest : List (Link ω Expr)} (h : Many (Linked A mark operand) us rest) (hne : rest ≠ []) :
    ∃ sign op vs, us = sign :: vs ∧ A.kind sign = .punct (mark op) := by
  cases h with
  | nil => exact absurd rfl hne
  | cons h _ =>
    cases h with
    | mk hk _ => exact ⟨_, _, _, rfl, hk⟩

theorem Chain.opens {mark : ω → Punct} {node : Expr → List (Link ω Expr) → Span → Expr}
    {operand : Phrase α Expr} {ts : List α} {e : Expr}
    (hm : ∀ op, ¬ TokenKind.endsExpr (.punct (mark op)))
    (ho : ∀ ts e, operand ts e → Opens A ts) (h : Chain A mark node operand ts e) :
    Opens A ts := by
  cases h with
  | single h => exact ho _ _ h
  | chain h hl hne =>
    obtain ⟨sign, op, vs, rfl, hk⟩ := Linked.uncons hl hne
    exact (ho _ _ h).append (hk ▸ hm op)

variable {expr operand : Phrase α Expr} {ts : List α} {e : Expr}

theorem Parens.uncons (h : Parens A expr ts e) :
    ∃ t us, ts = t :: us ∧ A.kind t = .punct .openParen := by
  cases h with
  | mk hl _ _ => exact ⟨_, _, rfl, hl⟩

theorem Primary.opens (h : Primary A expr ts e) : Opens A ts := by
  cases h with
  | int hk => exact .singleton (by rw [hk]; rfl)
  | real hk => exact .singleton (by rw [hk]; rfl)
  | @bool t value hk => exact .singleton (by rw [hk]; cases value <;> rfl)
  | ident hk => exact .singleton (by rw [hk]; rfl)
  | emptyList hl _ => exact .of_not_name (by rw [hl]; rfl) (by simp [hl])
  | list hl _ _ _ => exact .of_not_name (by rw [hl]; rfl) (by simp [hl])
  | parens h =>
    obtain ⟨t, us, rfl, hl⟩ := h.uncons
    exact .of_not_name (by rw [hl]; rfl) (by simp [hl])

/-- No operator stands in front of a primary expression. -/
theorem Primary.unsigned (h : Primary A expr ts e) :
    ∃ t us, ts = t :: us ∧ Operator.ofToken? UnaryOp (A.kind t) = none := by
  cases h with
  | int hk => exact ⟨_, _, rfl, by rw [hk]; rfl⟩
  | real hk => exact ⟨_, _, rfl, by rw [hk]; rfl⟩
  | bool hk => exact ⟨_, _, rfl, by rw [hk]; rfl⟩
  | ident hk => exact ⟨_, _, rfl, by rw [hk]; rfl⟩
  | emptyList hl _ => exact ⟨_, _, rfl, by rw [hl]; rfl⟩
  | list hl _ _ _ => exact ⟨_, _, rfl, by rw [hl]; rfl⟩
  | parens h =>
    obtain ⟨t, us, rfl, hl⟩ := h.uncons
    exact ⟨_, _, rfl, by rw [hl]; rfl⟩

theorem Unary.opens (h : Unary A expr operand ts e) : Opens A ts := by
  cases h with
  | @unary sign op _ _ hk _ => exact .of_not_name (by rw [hk]; cases op <;> rfl) (by simp [hk])
  | primary h => exact h.opens

theorem Mul.opens (h : Mul A expr operand ts e) : Opens A ts :=
  Chain.opens TokenKind.not_endsExpr_mul (fun _ _ h => h.opens) h

theorem Add.opens (h : Add A expr operand ts e) : Opens A ts :=
  Chain.opens TokenKind.not_endsExpr_add (fun _ _ h => Mul.opens h) h

theorem Comp.opens (h : Comp A expr operand ts e) : Opens A ts := by
  cases h with
  | single h => exact Add.opens h
  | compare h hk _ => exact (Add.opens h).append (hk ▸ TokenKind.not_endsExpr_compare _)

theorem Logic.opens (h : Logic A expr operand ts e) : Opens A ts :=
  Chain.opens TokenKind.not_endsExpr_logic (fun _ _ h => h.opens) h

theorem Choice.opens (h : Choice A expr operand ts e) : Opens A ts := by
  cases h with
  | single h => exact Logic.opens h
  | ternary h hq _ _ _ => exact (Logic.opens h).append (hq ▸ TokenKind.not_endsExpr_question)

/-- Every expression starts with a token that opens expressions, and a name at its front is joined
to what follows it. -/
theorem expr_opens {levels : Nat} {ts : List α} {e : Expr} (h : Grammar.expr A levels ts e) :
    Opens A ts := by
  cases levels with
  | zero => rw [Grammar.expr] at h; exact h.elim
  | succ levels => rw [Grammar.expr] at h; exact h.opens

theorem block_uncons {levels : Nat} {ts : List α} {b : Block Stmt}
    (h : Grammar.block A levels ts b) : ∃ t us, ts = t :: us ∧ A.kind t = .punct .openBrace := by
  cases levels with
  | zero => rw [Grammar.block] at h; exact h.elim
  | succ levels =>
    rw [Grammar.block] at h
    cases h with
    | mk hl _ _ => exact ⟨_, _, rfl, hl⟩

/-- A statement starts neither with a closing brace nor with `else`. -/
theorem stmt_uncons {levels : Nat} {ts : List α} {s : Stmt} (h : Grammar.stmt A levels ts s) :
    ∃ t us, ts = t :: us ∧ A.kind t ≠ .punct .closeBrace ∧ A.kind t ≠ .keyword .elseWord := by
  cases h with
  | declare htype _ _ _ =>
    refine ⟨_, _, rfl, ?_⟩
    generalize A.kind _ = kind at htype
    cases htype with
    | @builtin word hw => cases word <;> simp [Keyword.isType] at hw ⊢
    | other x => simp
  | assign hname _ _ _ => exact ⟨_, _, rfl, by simp [hname]⟩
  | ifElse hword _ _ _ => exact ⟨_, _, rfl, by simp [hword]⟩
  | whileDo hword _ _ => exact ⟨_, _, rfl, by simp [hword]⟩
  | doWhile hword _ _ _ _ => exact ⟨_, _, rfl, by simp [hword]⟩
  | block h =>
    obtain ⟨t, us, rfl, hl⟩ := block_uncons h
    exact ⟨t, us, rfl, by simp [hl]⟩
  | expr h _ =>
    obtain ⟨t, us, rfl, ht, -⟩ := expr_opens h
    refine ⟨t, us ++ [_], rfl, ?_, ?_⟩
    · intro hk
      simp [hk, TokenKind.opensExpr] at ht
    · intro hk
      simp [hk, TokenKind.opensExpr] at ht

/-- Behind a name at the front of an expression statement stands neither a name nor `=`. -/
theorem Opens.second {ts us : List α} {t u semi : α} {x : String} (h : Opens A ts)
    (hsemi : A.kind semi = .punct .semicolon) (hx : A.kind t = .ident x)
    (hts : ts ++ [semi] = t :: u :: us) :
    (∀ y, A.kind u ≠ .ident y) ∧ A.kind u ≠ .punct .assign := by
  obtain ⟨t', vs, rfl, -, hname⟩ := h
  cases vs with
  | nil =>
    cases hts
    simp [hsemi]
  | cons v vs =>
    cases hts
    have hend := hname x hx u vs rfl
    constructor
    · intro y hy
      exact hend (hy ▸ ⟨TokenKind.noConfusion, rfl, rfl, rfl, rfl⟩)
    · intro hy
      exact hend (hy ▸ ⟨by decide, rfl, rfl, rfl, rfl⟩)

/-- What a statement that starts with a name is, by the token behind the name: a declaration if that
is a name again, an assignment if it is `=`, and else an expression. -/
def NameStatement (next : TokenKind) : Stmt → Prop
  | .declare _ _ => ∃ y, next = .ident y
  | .assign _ _ _ _ => next = .punct .assign
  | .expr _ _ => (∀ y, next ≠ .ident y) ∧ next ≠ .punct .assign
  | _ => False

theorem stmt_nameStatement {levels : Nat} {t u : α} {us : List α} {x : String} {s : Stmt}
    (h : Grammar.stmt A levels (t :: u :: us) s) (hx : A.kind t = .ident x) :
    NameStatement (A.kind u) s := by
  generalize hts : t :: u :: us = vs at h
  cases h with
  | declare _ hname _ _ =>
    cases hts
    exact ⟨_, hname⟩
  | assign _ heq _ _ =>
    cases hts
    exact heq
  | ifElse hword _ _ _ =>
    obtain ⟨rfl, -⟩ := List.cons.inj hts
    simp [hx] at hword
  | whileDo hword _ _ =>
    obtain ⟨rfl, -⟩ := List.cons.inj hts
    simp [hx] at hword
  | doWhile hword _ _ _ _ =>
    obtain ⟨rfl, -⟩ := List.cons.inj hts
    simp [hx] at hword
  | block h =>
    obtain ⟨t', vs, rfl, hl⟩ := block_uncons h
    cases hts
    simp [hx] at hl
  | expr h hsemi => exact (expr_opens h).second hsemi hx hts.symm

end Grammar

end StaticCheck
