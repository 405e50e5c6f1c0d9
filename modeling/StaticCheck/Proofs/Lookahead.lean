import StaticCheck.Proofs.Parsing
import StaticCheck.Proofs.Promptness

/-! # The parsers of the grammar fail at once

Each layer of the expression grammar accepts phrases and fails at once if the parsers for its parts
do, and so does each statement (`prompt_comparison`, `prompt_conditional`, `prompt_declaration`, …).
The proofs follow the parsers token by token; what remains to be shown at the end of each is that
the tokens it took are a phrase of its rule.

Induction on the levels ties the rules together.  If failures are looked at, the second parser has a
level more than the first one, so that there is a phrase to begin with wherever the first one may
still read on (`prompt_stmts`). -/

namespace StaticCheck

open Grammar

namespace Parser

variable {failing : Prop}

/-! ### Expressions -/

section expressions

variable {ω : Type} {expression expression' operand operand' : Parser Expr}
  {E O : Phrase TokenKind Expr}

theorem prompt_condition (hE : Prompt failing Always expression expression' (Words E)) :
    Prompt failing Always (condition expression) (condition expression')
      (Words (Parens .kinds E)) := by
  unfold condition
  refine prompt_token nofun fun _ => ?_
  refine prompt_part hE fun ks _ e he => ?_
  refine prompt_token nofun fun _ => ?_
  exact prompt_pure ⟨e, .mk rfl he rfl⟩

theorem prompt_further (hE : Prompt failing Always expression expression' (Words E)) :
    Prompt failing Always
      (do if ← accept (.punct .comma) then return some (← expression) else return none)
      (do if ← accept (.punct .comma) then return some (← expression') else return none)
      (Round (Further .kinds E)) := by
  refine prompt_bind (prompt_accept nofun) ?_
  rintro _ (_ | _) rfl
  · exact prompt_pure rfl
  · refine prompt_part hE fun ks _ e he => ?_
    refine prompt_pure ⟨nofun, e, ?_⟩
    rw [List.append_nil]
    exact .mk rfl he

theorem prompt_listLiteral (hE : Prompt failing Always expression expression' (Words E)) :
    Prompt failing Always (listLiteral expression) (listLiteral expression')
      (Words (Primary .kinds E)) := by
  unfold listLiteral
  refine prompt_place fun t => ?_
  refine prompt_token nofun fun _ => ?_
  refine prompt_place fun u => ?_
  simp only [pure_bind]
  split
  · exact prompt_closed (by decide) fun _ => ⟨_, .emptyList rfl rfl⟩
  · refine prompt_part hE fun ks _ first hfirst => ?_
    refine prompt_part (prompt_collect (prompt_further hE)) fun us _ rest hrest => ?_
    exact prompt_closed (by decide) fun _ => ⟨_, .list rfl hfirst hrest rfl⟩

theorem prompt_primary (hE : Prompt failing Always expression expression' (Words E)) :
    Prompt failing Always (primary expression) (primary expression')
      (Words (Primary .kinds E)) := by
  have atom : ∀ {kind : TokenKind} {e e' : Expr}, kind ≠ .eof → Primary .kinds E [kind] e' →
      Prompt failing (· = kind) (do let _ ← advance; return e) (do let _ ← advance; return e)
        (Words (Primary .kinds E)) := by
    intro kind e e' hk he'
    refine prompt_take hk fun _ => ?_
    exact prompt_pure ⟨e', he'⟩
  unfold primary
  refine prompt_current fun t => ?_
  generalize t.kind = kind
  split
  · exact atom nofun (.int rfl)
  · exact atom nofun (.real rfl)
  · exact atom nofun (@Primary.bool _ _ _ _ true rfl)
  · exact atom nofun (@Primary.bool _ _ _ _ false rfl)
  · exact atom nofun (.ident rfl)
  · exact (prompt_listLiteral hE).anywhere
  · refine prompt_take nofun fun _ => ?_
    refine prompt_part hE fun ks _ e he => ?_
    refine prompt_token nofun fun _ => ?_
    exact prompt_pure ⟨e, .parens (.mk rfl he rfl)⟩
  · exact prompt_fail _ fun _ =>
      ⟨_, .list [] (.point 0), _, .emptyList (l := .punct .openBracket) rfl rfl⟩

theorem prompt_unary (hE : Prompt failing Always expression expression' (Words E))
    (hO : Prompt failing Always operand operand' (Words O)) :
    Prompt failing Always (unary expression operand) (unary expression' operand')
      (Words (Unary .kinds E O)) := by
  unfold unary
  refine prompt_current fun t => ?_
  cases hop : Operator.ofToken? UnaryOp t.kind with
  | none =>
    refine ((prompt_primary hE).imp ?_).anywhere
    rintro ks _ ⟨e, he⟩
    exact ⟨e, .primary he⟩
  | some op =>
    rw [Operator.ofToken?_eq_some_iff.1 hop]
    refine prompt_take nofun fun _ => ?_
    refine prompt_part hO fun ks _ e he => ?_
    refine prompt_node fun _ => ⟨.unary op e (.point 0), ?_⟩
    rw [List.append_nil]
    exact .unary rfl he

section chains

open Operator

variable [Operator ω] {node : Expr → List (Link ω Expr) → Span → Expr}
  (hO : Prompt failing Always operand operand' (Words O))

include hO

theorem prompt_link : Prompt failing Always (link? operand : Parser (Option (Link ω Expr)))
    (link? operand') (Round (Linked .kinds (mark : ω → Punct) O)) := by
  unfold link?
  refine prompt_current fun t => ?_
  cases hop : ofToken? ω t.kind with
  | none => exact prompt_pure rfl
  | some op =>
    rw [ofToken?_eq_some_iff.1 hop]
    refine prompt_take nofun fun _ => ?_
    refine prompt_part hO fun ks _ e he => ?_
    refine prompt_pure ⟨nofun, ⟨op, e⟩, ?_⟩
    rw [List.append_nil]
    exact .mk rfl he

theorem prompt_chain : Prompt failing Always (chain node operand) (chain node operand')
    (Words (Chain .kinds mark node O)) := by
  unfold chain
  refine prompt_place fun t => ?_
  refine prompt_part hO fun ks _ first hfirst => ?_
  refine prompt_part (prompt_collect (prompt_link hO)) fun us _ rest hrest => ?_
  have hwords : ∃ e, Chain .kinds mark node O (ks ++ (us ++ [])) e := by
    rw [List.append_nil]
    cases rest with
    | nil =>
      cases hrest
      rw [List.append_nil]
      exact ⟨first, .single hfirst⟩
    | cons l rest => exact ⟨_, .chain hfirst hrest nofun⟩
  split
  · exact prompt_pure hwords
  · exact prompt_node fun _ => hwords

end chains

section layers

variable (hE : Prompt failing Always expression expression' (Words E))
  (hO : Prompt failing Always operand operand' (Words O))

include hE hO

theorem prompt_multiplicative : Prompt failing Always (multiplicative expression operand)
    (multiplicative expression' operand') (Words (Mul .kinds E O)) :=
  prompt_chain (prompt_unary hE hO)

theorem prompt_additive : Prompt failing Always (additive expression operand)
    (additive expression' operand') (Words (Add .kinds E O)) :=
  prompt_chain (prompt_multiplicative hE hO)

theorem prompt_comparison : Prompt failing Always (comparison expression operand)
    (comparison expression' operand') (Words (Comp .kinds E O)) := by
  unfold comparison
  refine prompt_place fun _ => ?_
  refine prompt_part (prompt_additive hE hO) fun ks _ left hleft => ?_
  refine prompt_current fun t => ?_
  cases hop : Operator.ofToken? CompareOp t.kind with
  | none =>
    refine prompt_pure ⟨left, ?_⟩
    rw [List.append_nil]
    exact .single hleft
  | some op =>
    rw [Operator.ofToken?_eq_some_iff.1 hop]
    refine prompt_take nofun fun _ => ?_
    refine prompt_part (prompt_additive hE hO) fun us _ right hright => ?_
    have hwords : ∃ e, Comp .kinds E O (ks ++ ([.punct op.mark] ++ (us ++ []))) e := by
      rw [List.append_nil]
      exact ⟨_, .compare hleft rfl hright⟩
    -- a second comparison is refused where the first one is complete
    refine prompt_place fun next => ?_
    split
    · exact prompt_fail _ fun _ => ⟨[], left, hwords⟩
    · exact prompt_node fun _ => hwords

theorem prompt_logical : Prompt failing Always (logical expression operand)
    (logical expression' operand') (Words (Logic .kinds E O)) :=
  prompt_chain (prompt_comparison hE hO)

theorem prompt_conditional : Prompt failing Always (conditional expression operand)
    (conditional expression' operand') (Words (Choice .kinds E O)) := by
  unfold conditional
  refine prompt_place fun _ => ?_
  refine prompt_part (prompt_logical hE hO) fun ks _ test htest => ?_
  refine prompt_bind (prompt_accept nofun) ?_
  rintro _ (_ | _) rfl
  · refine prompt_pure ⟨test, ?_⟩
    change Choice .kinds E O (ks ++ []) test
    rw [List.append_nil]
    exact .single htest
  · refine prompt_part hE fun us _ thenArm hthen => ?_
    refine prompt_token nofun fun _ => ?_
    refine prompt_part hE fun vs _ elseArm helse => ?_
    refine prompt_node fun _ => ⟨.ternary test thenArm elseArm (.point 0), ?_⟩
    rw [List.append_nil]
    exact .ternary htest rfl hthen rfl helse

end layers

end expressions

/-! ### Levels of expressions -/

/-- A name is an expression if there is a level for it. -/
theorem expr_ident {α : Type} {A : Alphabet α} {levels : Nat} {t : α} {x : String}
    (h : A.kind t = .ident x) : Grammar.expr A (levels + 1) [t] (.ident x (A.span [t])) := by
  rw [Grammar.expr]
  exact .single (.single (.single (.single (.single (.primary (.ident h))))))

theorem operand_ident {α : Type} {A : Alphabet α} {levels : Nat} {t : α} {x : String}
    (h : A.kind t = .ident x) : Grammar.operand A (levels + 1) [t] (.ident x (A.span [t])) := by
  rw [Grammar.operand]
  exact .primary (.ident h)

/-- Expressions and operands, as seen from any greater number of levels.  If failures do not matter,
the number may be the same. -/
theorem prompt_expr {room room' : Nat} (h : room ≤ room') (hlt : failing → room < room') :
    Prompt failing Always (Expr.parser room) (Expr.parser room')
        (Words (Grammar.expr .kinds room')) ∧
      Prompt failing Always (Expr.operandParser room) (Expr.operandParser room')
        (Words (Grammar.operand .kinds room')) := by
  have hname : Alphabet.kinds.kind (.ident "") = .ident "" := rfl
  induction room generalizing room' with
  | zero =>
    rw [Expr.parser, Expr.operandParser]
    constructor
    · refine prompt_tooDeep fun hf => ?_
      obtain ⟨levels, rfl⟩ := Nat.exists_eq_add_one_of_ne_zero (Nat.ne_zero_of_lt (hlt hf))
      exact ⟨_, .bool true (.point 0), _, expr_ident hname⟩
    · refine prompt_tooDeep fun hf => ?_
      obtain ⟨levels, rfl⟩ := Nat.exists_eq_add_one_of_ne_zero (Nat.ne_zero_of_lt (hlt hf))
      exact ⟨_, .bool true (.point 0), _, operand_ident hname⟩
  | succ room ih =>
    obtain ⟨levels, rfl⟩ := Nat.exists_eq_add_one_of_ne_zero (Nat.ne_zero_of_lt h)
    obtain ⟨hE, hO⟩ := ih (Nat.le_of_succ_le_succ h) fun hf => Nat.lt_of_succ_lt_succ (hlt hf)
    rw [Expr.parser, Expr.parser, Expr.operandParser, Expr.operandParser, Grammar.expr,
      Grammar.operand]
    exact ⟨prompt_conditional hE hO, prompt_unary hE hO⟩

/-! ### Statements -/

section statements

variable {expression expression' : Parser Expr} {block block' : Parser (Block Stmt)}
  {E : Phrase TokenKind Expr} {B : Phrase TokenKind (Block Stmt)}

/-- A part that is there if a certain token stands in front of it. -/
theorem prompt_optional {τ υ : Type} {p p' : Parser τ} {k k' : Option τ → Parser υ}
    {P : Phrase TokenKind τ} {R : Phrase TokenKind υ} {wanted : TokenKind} (hw : wanted ≠ .eof)
    (hp : Prompt failing Always p p' (Words P))
    (hk : ∀ ks a b, Optional .kinds wanted P ks a →
      Prompt failing Always (k b) (k' b) (After R ks)) :
    Prompt failing Always
      (accept wanted >>= fun found => if found = true then some <$> p >>= k else pure none >>= k)
      (accept wanted >>= fun found =>
        if found = true then some <$> p' >>= k' else pure none >>= k') R := by
  refine prompt_bind (prompt_accept hw) ?_
  rintro _ (_ | _) rfl
  · exact hk [] none none .none
  · simp only [if_true, map_eq_pure_bind, bind_assoc, pure_bind]
    refine prompt_part hp fun ks a b hb => ?_
    exact hk _ (some b) (some a) (.some rfl hb)

/-- The type of a declaration. -/
theorem prompt_typeName {υ : Type} {k k' : String → Parser υ} {R : Phrase TokenKind υ}
    (kind : TokenKind)
    (hk : ∀ kind name, TypeName kind name →
      Prompt failing Always (k name) (k' name) (After R [kind])) :
    Prompt failing (· = kind)
      (match kind.typeName? with
        | some name => advance >>= fun _ => pure name >>= k
        | none => expectName >>= fun (name, _) => pure name >>= k)
      (match kind.typeName? with
        | some name => advance >>= fun _ => pure name >>= k'
        | none => expectName >>= fun (name, _) => pure name >>= k') R := by
  have other : Prompt failing Always (expectName >>= fun (name, _) => pure name >>= k)
      (expectName >>= fun (name, _) => pure name >>= k') R := by
    refine prompt_bind prompt_expectName ?_
    rintro _ ⟨name, _⟩ rfl
    exact hk _ name (.other name)
  fun_cases TokenKind.typeName? kind with
  | case1 word hw =>
    refine prompt_take nofun fun _ => ?_
    exact hk _ _ (.builtin hw)
  | case2 word hw => exact other.anywhere
  | case3 => exact other.anywhere

theorem prompt_declaration (hE : Prompt failing Always expression expression' (Words E)) :
    Prompt failing Always (declaration expression) (declaration expression')
      (Words (Statement .kinds B E)) := by
  unfold declaration
  refine prompt_current fun t => ?_
  refine prompt_typeName t.kind fun kind typeName htype => ?_
  refine prompt_bind prompt_expectName ?_
  rintro _ ⟨name, nameSpan⟩ rfl
  refine prompt_optional nofun hE fun ks init _ hinit => ?_
  exact prompt_closed (by decide) fun _ => ⟨_, .declare htype rfl hinit rfl⟩

theorem prompt_assignment (hE : Prompt failing Always expression expression' (Words E)) :
    Prompt failing Always (assignment expression) (assignment expression')
      (Words (Statement .kinds B E)) := by
  unfold assignment
  refine prompt_place fun _ => ?_
  refine prompt_bind prompt_expectName ?_
  rintro _ ⟨name, nameSpan⟩ rfl
  refine prompt_token nofun fun _ => ?_
  refine prompt_part hE fun ks _ e he => ?_
  exact prompt_closed (by decide) fun _ => ⟨_, .assign rfl rfl he rfl⟩

theorem prompt_exprStmt (hE : Prompt failing Always expression expression' (Words E)) :
    Prompt failing Always (exprStmt expression) (exprStmt expression')
      (Words (Statement .kinds B E)) := by
  unfold exprStmt
  refine prompt_place fun _ => ?_
  refine prompt_part hE fun ks _ e he => ?_
  exact prompt_closed (by decide) fun _ => ⟨_, .expr he rfl⟩

section blocks

variable (hE : Prompt failing Always expression expression' (Words E))
  (hB : Prompt failing Always block block' (Words B))

include hE hB

theorem prompt_ifElse : Prompt failing Always (ifElse block expression) (ifElse block' expression')
    (Words (Statement .kinds B E)) := by
  unfold ifElse
  refine prompt_place fun _ => ?_
  refine prompt_token nofun fun _ => ?_
  refine prompt_part (prompt_condition hE) fun ks _ test htest => ?_
  refine prompt_part hB fun us _ thenBlock hthen => ?_
  refine prompt_optional nofun hB fun vs elseBlock _ helse => ?_
  refine prompt_node fun _ => ⟨.ifElse test thenBlock elseBlock (.point 0), ?_⟩
  rw [List.append_nil, List.singleton_append]
  exact .ifElse rfl htest hthen helse

theorem prompt_whileDo :
    Prompt failing Always (whileDo block expression) (whileDo block' expression')
      (Words (Statement .kinds B E)) := by
  unfold whileDo
  refine prompt_place fun _ => ?_
  refine prompt_token nofun fun _ => ?_
  refine prompt_part (prompt_condition hE) fun ks _ test htest => ?_
  refine prompt_part hB fun us _ body hbody => ?_
  refine prompt_node fun _ => ⟨.whileDo test body (.point 0), ?_⟩
  rw [List.append_nil, List.singleton_append]
  exact .whileDo rfl htest hbody

theorem prompt_doWhile :
    Prompt failing Always (doWhile block expression) (doWhile block' expression')
      (Words (Statement .kinds B E)) := by
  unfold doWhile
  refine prompt_place fun _ => ?_
  refine prompt_token nofun fun _ => ?_
  refine prompt_part hB fun ks _ body hbody => ?_
  refine prompt_token nofun fun _ => ?_
  refine prompt_part (prompt_condition hE) fun us _ test htest => ?_
  exact prompt_closed (by decide) fun _ => ⟨_, .doWhile rfl hbody rfl htest rfl⟩

end blocks

/-- Behind a name there is for each kind of statement a text that makes it one. -/
theorem exists_nameStatement {levels : Nat} {x : String} (next : TokenKind) {c : Cursor}
    (hx : c.current.kind = .ident x) : ∃ (c' : Cursor) (s : Stmt) (e : Cursor), c.Twins c' ∧
      (match next with
        | .ident _ => declaration (Expr.parser (levels + 1))
        | .punct .assign => assignment (Expr.parser (levels + 1))
        | _ => exprStmt (Expr.parser (levels + 1)) : Parser Stmt) c' = .ok s e := by
  have hE := (Symbols.handles_expr (levels + 1)).1
  let semi : Token := ⟨.punct .semicolon, .point 0⟩
  let eq : Token := ⟨.punct .assign, .point 0⟩
  have hsemi : Alphabet.tokens.kind semi = .punct .semicolon := rfl
  have heq : Alphabet.tokens.kind eq = .punct .assign := rfl
  have twin : ∀ us : List Token, (∀ t ∈ us, t.kind ≠ .eof) →
      ∃ c' e, c.Twins c' ∧ c'.Takes ((c.current :: us).map Symbols.tokens.token) e := by
    intro us hus
    have hall : ∀ t ∈ c.current :: us, t.kind ≠ .eof :=
      List.forall_mem_cons.2 ⟨by simp [hx], hus⟩
    obtain ⟨c', d', e, hc, he, -⟩ := (Cursor.Takes.nil c).exists_copy hall
    obtain rfl := hc.of_nil
    rw [Symbols.map_tokens]
    exact ⟨c', e, hc.start, he⟩
  split
  · obtain ⟨c', e, hc, he⟩ := twin ([c.current] ++ [semi]) (by simp [hx, semi])
    have htype : TypeName (Alphabet.tokens.kind c.current) x := by
      rw [Alphabet.kind_tokens, hx]
      exact .other x
    have hok := Symbols.answers_declaration hE htype hx .none hsemi he
    exact ⟨c', _, e, hc, Symbols.tokens_answers_iff.1 hok⟩
  · obtain ⟨c', e, hc, he⟩ := twin (eq :: ([c.current] ++ [semi])) (by simp [hx, semi, eq])
    have hok := Symbols.answers_assignment hE hx heq (expr_ident hx) hsemi he
    exact ⟨c', _, e, hc, Symbols.tokens_answers_iff.1 hok⟩
  · obtain ⟨c', e, hc, he⟩ := twin [semi] (by simp [semi])
    have hok := Symbols.answers_exprStmt hE (expr_ident hx) hsemi he
    exact ⟨c', _, e, hc, Symbols.tokens_answers_iff.1 hok⟩

end statements

/-! ### Levels of statements -/

theorem prompt_stmt {room room' : Nat} (h : room ≤ room') (hlt : failing → room < room')
    (hB : Prompt failing Always (Stmt.blockParser room) (Stmt.blockParser room')
      (Words (Grammar.block .kinds room'))) :
    Prompt failing Always (Stmt.parser room) (Stmt.parser room')
      (Words (Grammar.stmt .kinds room')) := by
  obtain ⟨hE, -⟩ := prompt_expr h hlt
  unfold Stmt.parser Grammar.stmt statement
  refine prompt_current fun t => ?_
  generalize t.kind = kind
  split
  · refine (prompt_part hB fun ks _ body hbody => ?_).anywhere
    refine prompt_pure ⟨.block body body.span, ?_⟩
    rw [List.append_nil]
    exact .block hbody
  · exact (prompt_ifElse hE hB).anywhere
  · exact (prompt_whileDo hE hB).anywhere
  · exact (prompt_doWhile hE hB).anywhere
  · split
    · exact (prompt_declaration hE).anywhere
    · exact (prompt_exprStmt hE).anywhere
  · refine prompt_peek (fun next => ?_) ?_ fun hf next c hc => ?_
    · split
      · exact (prompt_declaration hE).anywhere
      · exact (prompt_assignment hE).anywhere
      · exact (prompt_exprStmt hE).anywhere
    · rintro _ ⟨s, hs⟩
      obtain ⟨t, us, hnil, -⟩ := stmt_uncons hs
      cases hnil
    · obtain ⟨levels, rfl⟩ := Nat.exists_eq_add_one_of_ne_zero (Nat.ne_zero_of_lt (hlt hf))
      exact exists_nameStatement next hc
  · exact (prompt_exprStmt hE).anywhere

section lists

variable (done : TokenKind → Bool) {statement statement' : Parser Stmt} {S : Phrase TokenKind Stmt}
  (hS : Prompt failing Always statement statement' (Words S)) (hne : ∀ ks s, S ks s → ks ≠ [])

include hS hne

theorem prompt_stmtRound : Prompt failing Always
    (do if done (← current).kind then return none else return some (← statement))
    (do if done (← current).kind then return none else return some (← statement')) (Round S) := by
  refine prompt_place fun t => ?_
  split
  · exact prompt_pure rfl
  · refine prompt_part hS fun ks _ s hs => ?_
    rw [← List.append_nil ks] at hs
    exact prompt_pure ⟨hne _ s hs, s, hs⟩

theorem prompt_statementsUntil : Prompt failing Always (statementsUntil done statement)
    (statementsUntil done statement') (Words (Many S)) :=
  prompt_collect (prompt_stmtRound done hS hne)

theorem prompt_braces : Prompt failing Always (braces statement) (braces statement')
    (Words (Braces .kinds S)) := by
  unfold braces
  refine prompt_place fun _ => ?_
  refine prompt_token (by decide) fun _ => ?_
  refine prompt_part (prompt_statementsUntil _ hS hne) fun ks _ stmts hstmts => ?_
  exact prompt_closed (by decide) fun _ => ⟨_, .mk rfl hstmts rfl⟩

end lists

theorem stmt_ne_nil {levels : Nat} (ks : List TokenKind) (s : Stmt)
    (h : Grammar.stmt .kinds levels ks s) : ks ≠ [] := by
  obtain ⟨t, us, rfl, -⟩ := stmt_uncons h
  exact List.cons_ne_nil t us

theorem prompt_block {room room' : Nat} (h : room ≤ room') (hlt : failing → room < room') :
    Prompt failing Always (Stmt.blockParser room) (Stmt.blockParser room')
      (Words (Grammar.block .kinds room')) := by
  induction room generalizing room' with
  | zero =>
    rw [Stmt.blockParser]
    refine prompt_tooDeep fun hf => ?_
    obtain ⟨levels, rfl⟩ := Nat.exists_eq_add_one_of_ne_zero (Nat.ne_zero_of_lt (hlt hf))
    rw [Grammar.block]
    exact ⟨_, ⟨[], .point 0⟩, _, .mk (l := .punct .openBrace) rfl .nil rfl⟩
  | succ room ih =>
    obtain ⟨levels, rfl⟩ := Nat.exists_eq_add_one_of_ne_zero (Nat.ne_zero_of_lt h)
    have hle : room ≤ levels := Nat.le_of_succ_le_succ h
    have hlt' : failing → room < levels := fun hf => Nat.lt_of_succ_lt_succ (hlt hf)
    rw [Stmt.blockParser, Stmt.blockParser, Grammar.block]
    exact prompt_braces (prompt_stmt hle hlt' (ih hle hlt')) stmt_ne_nil

/-- Statements up to the end of the text, as seen from any greater number of levels. -/
theorem prompt_stmts {room room' : Nat} (h : room ≤ room') (hlt : failing → room < room') :
    Prompt failing Always (statementsUntil (fun kind => kind = .eof) (Stmt.parser room))
      (statementsUntil (fun kind => kind = .eof) (Stmt.parser room'))
      (Words (Many (Grammar.stmt .kinds room'))) :=
  prompt_statementsUntil _ (prompt_stmt h hlt (prompt_block h hlt)) stmt_ne_nil

/-! ### What is accepted

If failures do not matter, the levels need not be more than the room. -/

theorem accepts_expr (room : Nat) :
    Prompt False Always (Expr.parser room) (Expr.parser room)
        (Words (Grammar.expr .kinds room)) ∧
      Prompt False Always (Expr.operandParser room) (Expr.operandParser room)
        (Words (Grammar.operand .kinds room)) :=
  prompt_expr (Nat.le_refl room) False.elim

theorem accepts_stmt (room : Nat) : Prompt False Always (Stmt.parser room) (Stmt.parser room)
    (Words (Grammar.stmt .kinds room)) :=
  prompt_stmt (Nat.le_refl room) False.elim (prompt_block (Nat.le_refl room) False.elim)

end Parser

end StaticCheck
