import StaticCheck.Proofs.Reading
import StaticCheck.Stmt.Parser

/-! # Statements are read

The parser of each statement rule answers on what the rule derives, and the first tokens of a
statement decide which rule that is (`statement_eq_readerOf`).  So the statements that nest no
deeper than allowed are accepted with the tree that the grammar derives (`handles_stmt`). -/

namespace StaticCheck

open Grammar TokenKind

namespace Parser

variable {expression : Parser Expr} {blockParser : Parser (Block Stmt)}

/-! ### Which statement it is -/

/-- The parser for the rule that a statement is derived by. -/
def readerOf (blockParser : Parser (Block Stmt)) (expression : Parser Expr) : Stmt → Parser Stmt
  | .declare .. => declaration expression
  | .assign .. => assignment expression
  | .ifElse .. => ifElse blockParser expression
  | .whileDo .. => whileDo blockParser expression
  | .doWhile .. => doWhile blockParser expression
  | .block .. => do
    let body ← blockParser
    return .block body body.span
  | .expr .. => exprStmt expression

/-- A statement that starts like an expression is read as one. -/
theorem statement_of_opens {c d : Cursor} {ts : List Token} {semi : Token}
    (ho : Opens .tokens ts) (hsemi : semi.kind = .punct .semicolon)
    (ht : c.Takes (ts ++ [semi]) d) :
    statement blockParser expression c = exprStmt expression c := by
  have hsecond := fun {t u x us} => @Opens.second _ _ ts us t u semi x ho hsemi
  obtain ⟨t, us, rfl, hopen, -⟩ := ho
  rw [Alphabet.kind_tokens] at hopen
  rw [statement, bind_of_ok (current_eq_ok_iff.2 ⟨ht.current, rfl⟩)]
  cases hk : t.kind with
  | int digits => rfl
  | real text => rfl
  | eof => simp [hk, opensExpr] at hopen
  | keyword word =>
    cases word with
    | trueWord => rfl
    | falseWord => rfl
    | _ => simp [hk, opensExpr] at hopen
  | punct mark =>
    cases mark with
    | openBrace => simp [hk, opensExpr] at hopen
    | _ => rfl
  | ident x =>
    obtain ⟨u, vs, hu⟩ : ∃ u vs, us ++ [semi] = u :: vs := by
      cases us with
      | nil => exact ⟨semi, [], rfl⟩
      | cons u us => exact ⟨u, us ++ [semi], rfl⟩
    rw [List.cons_append, hu] at ht
    obtain ⟨hname, hassign⟩ := hsecond hk (by rw [List.cons_append, hu])
    refine (bind_of_ok (peek_of_takes ht)).trans ?_
    cases hk' : u.kind with
    | ident y => exact absurd hk' (hname y)
    | punct mark =>
      cases mark with
      | assign => exact absurd hk' hassign
      | _ => rfl
    | _ => rfl

end Parser

namespace Symbols

open StaticCheck.Parser

variable {α τ υ : Type} {A : Alphabet α} {S : Symbols A} {expression : Parser Expr}
  {blockParser : Parser (Block Stmt)} {E : Phrase α Expr} {B : Phrase α (Block Stmt)}

/-- The kind of the type in a declaration is that of its token. -/
theorem typeName_of_kind {x : α} {typeName : String} (h : TypeName (A.kind x) typeName) :
    S.deep x = false ∧ (S.token x).kind = A.kind x :=
  S.of_kind rfl fun hk => nomatch hk ▸ h

/-- The first tokens of a statement decide which rule it is derived by. -/
theorem statement_eq_readerOf
    (ho : ∀ {xs : List α} {e : Expr}, E xs e → Opens .tokens (xs.map S.token))
    (hb : ∀ {xs : List α} {b : Block Stmt}, B xs b →
      ∃ t ts, xs.map S.token = t :: ts ∧ t.kind = .punct .openBrace) {c d : Cursor} {xs : List α}
    {s : Stmt} (ht : c.Takes (xs.map S.token) d) (hs : Statement A B E xs s) :
    statement blockParser expression c = readerOf blockParser expression s c := by
  cases hs with
  | expr he hsemi =>
    rw [List.map_append] at ht
    exact statement_of_opens (ho he) (S.of_kind hsemi (by simp)).2 ht
  | @declare type name semi xs typeName x init htype hname hinit hsemi =>
    rw [statement, bind_of_ok (current_eq_ok_iff.2 ⟨ht.current, rfl⟩), (typeName_of_kind htype).2]
    generalize A.kind type = kind at htype
    cases htype with
    | @builtin word hw =>
      cases word with
      | int | bool | float | list => rfl
      | _ => simp [Keyword.isType] at hw
    | other y =>
      refine (bind_of_ok (peek_of_takes ht)).trans ?_
      rw [(S.of_kind hname (by simp)).2]
      rfl
  | assign hname heq he hsemi =>
    rw [statement, bind_of_ok (current_eq_ok_iff.2 ⟨ht.current, rfl⟩),
      (S.of_kind hname (by simp)).2]
    refine (bind_of_ok (peek_of_takes ht)).trans ?_
    rw [(S.of_kind heq (by simp)).2]
    rfl
  | ifElse hword _ _ _ =>
    rw [statement, bind_of_ok (current_eq_ok_iff.2 ⟨ht.current, rfl⟩),
      (S.of_kind hword (by simp)).2]
    rfl
  | whileDo hword _ _ =>
    rw [statement, bind_of_ok (current_eq_ok_iff.2 ⟨ht.current, rfl⟩),
      (S.of_kind hword (by simp)).2]
    rfl
  | doWhile hword _ _ _ _ =>
    rw [statement, bind_of_ok (current_eq_ok_iff.2 ⟨ht.current, rfl⟩),
      (S.of_kind hword (by simp)).2]
    rfl
  | block hbody =>
    obtain ⟨t, ts, hts, hk⟩ := hb hbody
    rw [hts] at ht
    rw [statement, bind_of_ok (current_eq_ok_iff.2 ⟨ht.current, rfl⟩), hk]
    rfl

/-! ### Parts of statements -/

section parts

variable {c m d : Cursor} {xs ys : List α} {b : υ}

theorem answers_congr {p q : Parser τ} {a : τ} (h : p c = q c) (hq : S.Answers q c xs a d) :
    S.Answers p c xs a d := by
  unfold Answers at hq ⊢
  rw [h]
  exact hq

theorem answers_map {p : Parser τ} {f : τ → υ} {a : τ} (h : S.Answers p c xs a d) :
    S.Answers (f <$> p) c xs (f a) d := by
  rw [map_eq_pure_bind]
  exact answers_last h rfl

/-- A part that is there if and only if a certain token stands in front of it. -/
theorem answers_optional {p : Parser τ} {P : Phrase α τ} {stop : TokenKind → Prop}
    (k : Option τ → Parser υ) {wanted : TokenKind} {a : Option τ} (hw : wanted ≠ .eof)
    (hp : S.Handles p P stop) (ho : Optional A wanted P xs a) (ht : c.Takes (xs.map S.token) m)
    (hstop : stop m.current.kind) (hm : m.current.kind ≠ wanted) (hk : S.Answers (k a) m ys b d) :
    S.Answers (accept wanted >>= fun found =>
      if found = true then some <$> p >>= k else pure none >>= k) c (xs ++ ys) b d := by
  cases ho with
  | none =>
    cases ht
    exact answers_step (accept_eq_false_iff.2 ⟨hm, rfl⟩) hk
  | some hs ha =>
    obtain ⟨hdeep, hs⟩ := S.of_kind hs hw
    obtain ⟨c₁, h₁, h₂⟩ := ht.uncons
    refine answers_token hdeep ((accept_eq_true_iff hw).2 ⟨_, hs, h₁⟩) ?_
    exact answers_bind (answers_map (hp.answers h₂ ha hstop)) hk

/-- The type of a declaration. -/
theorem answers_typeName {k : String → Parser υ} {x : α} {typeName : String}
    (htype : TypeName (A.kind x) typeName) (ht : c.Takes [S.token x] m)
    (hk : S.Answers (k typeName) m xs b d) :
    S.Answers (match c.current.kind.typeName? with
      | some name => advance >>= fun _ => pure name >>= k
      | none => expectName >>= fun (name, _) => pure name >>= k) c (x :: xs) b d := by
  obtain ⟨hdeep, hkind⟩ := typeName_of_kind (S := S) htype
  generalize A.kind x = kind at htype hkind
  rw [ht.current, hkind]
  cases htype with
  | builtin hw =>
    simp only [typeName?, hw, if_true]
    exact answers_token hdeep (takes_singleton_iff.1 ht).2 hk
  | other => exact answers_token hdeep (expectName_eq_ok_iff.2 ⟨_, hkind, rfl, ht⟩) hk

theorem endsExpr_of_semicolon {semi : α} (hsemi : A.kind semi = .punct .semicolon)
    (ht : c.Takes [S.token semi] d) : endsExpr c.current.kind := by
  rw [ht.current, (S.of_kind hsemi (by simp)).2]
  exact endsExpr_semicolon

end parts

/-! ### Statements -/

section statements

variable {c d : Cursor} {xs ys zs : List α} (hE : S.Handles expression E endsExpr)
  (hB : S.Handles blockParser B fun _ => True)

include hE

theorem handles_condition :
    S.Handles (condition expression) (Parens A E) fun _ => True := by
  constructor
  rintro c d _ e ht ⟨hl, he, hr⟩ -
  obtain ⟨c₁, h₁, h⟩ := ht.uncons
  obtain ⟨c₂, h₂, h₃⟩ := takes_append h
  refine answers_expect hl (by simp) h₁ ?_
  refine answers_bind (hE.answers h₂ he (endsExpr_of_closeParen hr h₃)) ?_
  exact answers_expect hr (by simp) h₃ rfl

theorem answers_declaration {type name semi : α} {typeName x : String} {init : Option Expr}
    (htype : TypeName (A.kind type) typeName) (hname : A.kind name = .ident x)
    (hinit : Optional A (.punct .assign) E xs init) (hsemi : A.kind semi = .punct .semicolon)
    (ht : c.Takes ((type :: name :: (xs ++ [semi])).map S.token) d) :
    S.Answers (declaration expression) c (type :: name :: (xs ++ [semi]))
      (.declare ⟨typeName, x, A.span [name], init, A.span (type :: name :: (xs ++ [semi]))⟩
        (A.span (type :: name :: (xs ++ [semi])))) d := by
  obtain ⟨hdeep, hname⟩ := S.of_kind hname (by simp)
  obtain ⟨c₁, h₁, h⟩ := ht.uncons
  obtain ⟨c₂, h₂, h⟩ := h.uncons
  obtain ⟨c₃, h₃, h₄⟩ := takes_append h
  have hnext : c₃.current.kind ≠ .punct .assign := by
    rw [h₄.current, (S.of_kind hsemi (by simp)).2]
    simp
  rw [S.span_singleton]
  refine answers_step (current_eq_ok_iff.2 ⟨rfl, rfl⟩) ?_
  refine answers_typeName htype h₁ ?_
  refine answers_token hdeep (expectName_eq_ok_iff.2 ⟨_, hname, rfl, h₂⟩) ?_
  refine answers_optional _ (by simp) hE hinit h₃ (endsExpr_of_semicolon hsemi h₄) hnext ?_
  refine answers_expect hsemi (by simp) h₄ ?_
  exact spanFrom_of_takes (fun span => Stmt.declare ⟨typeName, x, _, init, span⟩ span) ht (by simp)

theorem answers_assignment {name eq semi : α} {x : String} {e : Expr}
    (hname : A.kind name = .ident x) (heq : A.kind eq = .punct .assign) (he : E xs e)
    (hsemi : A.kind semi = .punct .semicolon)
    (ht : c.Takes ((name :: eq :: (xs ++ [semi])).map S.token) d) :
    S.Answers (assignment expression) c (name :: eq :: (xs ++ [semi]))
      (.assign x (A.span [name]) e (A.span (name :: eq :: (xs ++ [semi])))) d := by
  obtain ⟨hdeep, hname⟩ := S.of_kind hname (by simp)
  obtain ⟨c₁, h₁, h⟩ := ht.uncons
  obtain ⟨c₂, h₂, h⟩ := h.uncons
  obtain ⟨c₃, h₃, h₄⟩ := takes_append h
  rw [S.span_singleton]
  refine answers_step (current_eq_ok_iff.2 ⟨rfl, rfl⟩) ?_
  refine answers_token hdeep (expectName_eq_ok_iff.2 ⟨_, hname, rfl, h₁⟩) ?_
  refine answers_expect heq (by simp) h₂ ?_
  refine answers_bind (hE.answers h₃ he (endsExpr_of_semicolon hsemi h₄)) ?_
  exact answers_expect hsemi (by simp) h₄ (spanFrom_of_takes _ ht (by simp))

theorem answers_exprStmt {semi : α} {e : Expr} (he : E xs e)
    (hsemi : A.kind semi = .punct .semicolon) (ht : c.Takes ((xs ++ [semi]).map S.token) d) :
    S.Answers (exprStmt expression) c (xs ++ [semi]) (.expr e (A.span (xs ++ [semi]))) d := by
  obtain ⟨c₁, h₁, h₂⟩ := takes_append ht
  refine answers_step (current_eq_ok_iff.2 ⟨rfl, rfl⟩) ?_
  refine answers_bind (hE.answers h₁ he (endsExpr_of_semicolon hsemi h₂)) ?_
  exact answers_expect hsemi (by simp) h₂ (spanFrom_of_takes _ ht (by simp))

include hB

theorem answers_ifElse {word : α} {test : Expr} {thenBlock : Block Stmt}
    {elseBlock : Option (Block Stmt)} (hword : A.kind word = .keyword .ifWord)
    (htest : Parens A E xs test) (hthen : B ys thenBlock)
    (helse : Optional A (.keyword .elseWord) B zs elseBlock)
    (ht : c.Takes ((word :: (xs ++ (ys ++ zs))).map S.token) d)
    (hd : d.current.kind ≠ .keyword .elseWord) :
    S.Answers (ifElse blockParser expression) c (word :: (xs ++ (ys ++ zs)))
      (.ifElse test thenBlock elseBlock (A.span (word :: (xs ++ (ys ++ zs))))) d := by
  obtain ⟨c₁, h₁, h⟩ := ht.uncons
  obtain ⟨c₂, h₂, h⟩ := takes_append h
  obtain ⟨c₃, h₃, h₄⟩ := takes_append h
  refine answers_step (current_eq_ok_iff.2 ⟨rfl, rfl⟩) ?_
  refine answers_expect hword (by simp) h₁ ?_
  refine answers_bind ((handles_condition hE).answers h₂ htest trivial) ?_
  refine answers_bind (hB.answers h₃ hthen trivial) ?_
  let last (elseBlock : Option (Block Stmt)) : Parser Stmt := do
    return .ifElse test thenBlock elseBlock (← spanFrom c.current.span)
  have hlast : S.Answers (last elseBlock) d [] _ d := spanFrom_of_takes _ ht (by simp)
  have hoptional := answers_optional last (by simp) hB helse h₄ trivial hd hlast
  rw [List.append_nil] at hoptional
  exact hoptional

theorem answers_whileDo {word : α} {test : Expr} {body : Block Stmt}
    (hword : A.kind word = .keyword .whileWord) (htest : Parens A E xs test) (hbody : B ys body)
    (ht : c.Takes ((word :: (xs ++ ys)).map S.token) d) :
    S.Answers (whileDo blockParser expression) c (word :: (xs ++ ys))
      (.whileDo test body (A.span (word :: (xs ++ ys)))) d := by
  obtain ⟨c₁, h₁, h⟩ := ht.uncons
  obtain ⟨c₂, h₂, h₃⟩ := takes_append h
  refine answers_step (current_eq_ok_iff.2 ⟨rfl, rfl⟩) ?_
  refine answers_expect hword (by simp) h₁ ?_
  refine answers_bind ((handles_condition hE).answers h₂ htest trivial) ?_
  exact answers_last (hB.answers h₃ hbody trivial) (spanFrom_of_takes _ ht (by simp))

theorem answers_doWhile {word while' semi : α} {body : Block Stmt} {test : Expr}
    (hword : A.kind word = .keyword .doWord) (hbody : B xs body)
    (hwhile : A.kind while' = .keyword .whileWord) (htest : Parens A E ys test)
    (hsemi : A.kind semi = .punct .semicolon)
    (ht : c.Takes ((word :: (xs ++ while' :: (ys ++ [semi]))).map S.token) d) :
    S.Answers (doWhile blockParser expression) c (word :: (xs ++ while' :: (ys ++ [semi])))
      (.doWhile body test (A.span (word :: (xs ++ while' :: (ys ++ [semi]))))) d := by
  obtain ⟨c₁, h₁, h⟩ := ht.uncons
  obtain ⟨c₂, h₂, h⟩ := takes_append h
  obtain ⟨c₃, h₃, h⟩ := h.uncons
  obtain ⟨c₄, h₄, h₅⟩ := takes_append h
  refine answers_step (current_eq_ok_iff.2 ⟨rfl, rfl⟩) ?_
  refine answers_expect hword (by simp) h₁ ?_
  refine answers_bind (hB.answers h₂ hbody trivial) ?_
  refine answers_expect hwhile (by simp) h₃ ?_
  refine answers_bind ((handles_condition hE).answers h₄ htest trivial) ?_
  exact answers_expect hsemi (by simp) h₅ (spanFrom_of_takes _ ht (by simp))

/-- Any statement, if a block starts with a brace and an expression with a token that opens one. -/
theorem handles_statement
    (ho : ∀ {xs : List α} {e : Expr}, E xs e → Opens .tokens (xs.map S.token))
    (hb : ∀ {xs : List α} {b : Block Stmt}, B xs b →
      ∃ t ts, xs.map S.token = t :: ts ∧ t.kind = .punct .openBrace) :
    S.Handles (statement blockParser expression) (Statement A B E)
      fun kind => kind ≠ .keyword .elseWord := by
  constructor
  intro c d xs s ht hs hd
  refine answers_congr (statement_eq_readerOf ho hb ht hs) ?_
  cases hs with
  | declare htype hname hinit hsemi => exact answers_declaration hE htype hname hinit hsemi ht
  | assign hname heq he hsemi => exact answers_assignment hE hname heq he hsemi ht
  | ifElse hword htest hthen helse => exact answers_ifElse hE hB hword htest hthen helse ht hd
  | whileDo hword htest hbody => exact answers_whileDo hE hB hword htest hbody ht
  | doWhile hword hbody hwhile htest hsemi =>
    exact answers_doWhile hE hB hword hbody hwhile htest hsemi ht
  | block hbody => exact answers_last (hB.answers ht hbody trivial) rfl
  | expr he hsemi => exact answers_exprStmt hE he hsemi ht

end statements

/-! ### Lists of statements -/

section lists

variable {stmtParser : Parser Stmt} {P : Phrase α Stmt}
  (hS : S.Handles stmtParser P fun kind => kind ≠ .keyword .elseWord)
  (ho : ∀ {xs : List α} {s : Stmt}, P xs s → ∃ t ts, xs.map S.token = t :: ts ∧
    t.kind ≠ .punct .closeBrace ∧ t.kind ≠ .keyword .elseWord)

include hS ho

theorem handles_statementsUntil {done : TokenKind → Bool}
    (hd : ∀ kind, kind ≠ .eof → kind ≠ .punct .closeBrace → done kind = false) :
    S.Handles (statementsUntil done stmtParser) (Many P)
      fun kind => done kind = true ∧ kind ≠ .keyword .elseWord := by
  refine handles_collect ?_ ?_ ?_
  · intro c d xs s ht hs hk
    obtain ⟨t, ts, hts, hbrace, -⟩ := ho hs
    have ht' := ht
    rw [hts] at ht'
    refine answers_step (current_eq_ok_iff.2 ⟨ht'.current, rfl⟩) ?_
    rw [hd t.kind ht'.kind_ne_eof hbrace, if_neg Bool.false_ne_true]
    exact answers_last (hS.answers ht hs hk) rfl
  · intro c hk
    refine (bind_of_ok (current_eq_ok_iff.2 ⟨rfl, rfl⟩)).trans ?_
    rw [if_pos hk]
    rfl
  · intro xs s hs
    obtain ⟨t, ts, hts, -, helse⟩ := ho hs
    obtain ⟨x, ys, rfl, rfl, -⟩ := List.map_eq_cons_iff.1 hts
    exact ⟨x, ys, rfl, helse⟩

theorem handles_braces : S.Handles (braces stmtParser) (Braces A P) fun _ => True := by
  constructor
  rintro c d _ _ ht ⟨hl, hm, hr⟩ -
  obtain ⟨c₁, h₁, h⟩ := ht.uncons
  obtain ⟨c₂, h₂, h₃⟩ := takes_append h
  have hlast : c₂.current.kind = .punct .closeBrace := by
    rw [h₃.current, (S.of_kind hr (by simp)).2]
  refine answers_step (current_eq_ok_iff.2 ⟨rfl, rfl⟩) ?_
  refine answers_expect hl (by simp) h₁ ?_
  refine answers_bind ((handles_statementsUntil hS ho ?_).answers h₂ hm ?_) ?_
  · intro kind heof hbrace
    simp [heof, hbrace]
  · simp [hlast]
  · exact answers_expect hr (by simp) h₃ (spanFrom_of_takes _ ht (by simp))

/-- All statements up to the end of the text. -/
theorem answers_program {c d : Cursor} {xs : List α} {stmts : List Stmt}
    (ht : c.Takes (xs.map S.token) d) (hend : d.current.kind = .eof) (h : Many P xs stmts) :
    S.Answers (program stmtParser) c xs ⟨stmts, c.current.span.merge d.current.span⟩ d := by
  refine answers_step (current_eq_ok_iff.2 ⟨rfl, rfl⟩) ?_
  refine answers_last ((handles_statementsUntil hS ho ?_).answers ht h ?_) rfl
  · intro kind heof _
    simp [heof]
  · simp [hend]

end lists

/-! ### Levels -/

theorem tokens_block_uncons {levels : Nat} {ts : List Token} {b : Block Stmt}
    (h : block .tokens levels ts b) :
    ∃ t us, ts.map tokens.token = t :: us ∧ t.kind = .punct .openBrace := by
  rw [map_tokens]
  exact block_uncons h

theorem tokens_stmt_uncons {levels : Nat} {ts : List Token} {s : Stmt}
    (h : stmt .tokens levels ts s) : ∃ t us, ts.map tokens.token = t :: us ∧
      t.kind ≠ .punct .closeBrace ∧ t.kind ≠ .keyword .elseWord := by
  rw [map_tokens]
  exact stmt_uncons h

theorem handles_block (room : Nat) :
    tokens.Handles (Stmt.blockParser room) (block .tokens room) fun _ => True := by
  induction room with
  | zero =>
    rw [block]
    exact handles_false
  | succ room ih =>
    rw [Stmt.blockParser, block]
    refine handles_braces ?_ tokens_stmt_uncons
    exact handles_statement (handles_expr room).1 ih tokens_opens tokens_block_uncons

/-- The statements that nest no deeper than allowed are read. -/
theorem handles_stmt (room : Nat) :
    tokens.Handles (Stmt.parser room) (stmt .tokens room) fun kind => kind ≠ .keyword .elseWord :=
  handles_statement (handles_expr room).1 (handles_block room) tokens_opens tokens_block_uncons

end Symbols

end StaticCheck
