import StaticCheck.Proofs.Lookahead

/-! # Readings in lockstep

The rules of the language are made of actions, and they decide by the kinds of tokens only.  So two
ways to carry the actions out that are alike in each action are alike in every rule: they take the
same decisions and come to like ends.

`Lockstep m` is a relation between computations in `m` and parsers that holds of the actions and is
kept when computations are put together.  Every rule is then related to itself, carried out in `m`
on the one side and by a parser on the other side (`alike_conditional`, `alike_statement`,
`alike_program`).  Here `m` may be the parsers themselves, on another text, or anything else that
carries the actions out. -/

namespace StaticCheck

open StaticCheck.Parser

variable {τ υ φ : Type}

/-- A relation between computations and parsers that all actions keep.  The values of related
computations are related as well; if they are compared at all, related trees and places are
equal. -/
structure Lockstep (m : Type → Type) [Monad m] [Actions m] where
  /-- Whether trees and places are compared. -/
  comparing : Prop
  Alike {τ : Type} : (τ → τ → Prop) → m τ → Parser τ → Prop
  alike_pure {τ : Type} {V : τ → τ → Prop} {a b : τ} : V a b → Alike V (pure a) (pure b)
  alike_bind {τ υ : Type} {V : τ → τ → Prop} {W : υ → υ → Prop} {p : m τ} {q : Parser τ}
    {f : τ → m υ} {g : τ → Parser υ} : Alike V p q → (∀ a b, V a b → Alike W (f a) (g b)) →
    Alike W (p >>= f) (q >>= g)
  alike_current : Alike (fun t u => t.kind = u.kind ∧ (comparing → t = u)) current current
  alike_fail {τ : Type} {V : τ → τ → Prop} (fault : Fault) : Alike V (fail fault) (fail fault)
  alike_advance : Alike (fun t u => comparing → t = u) advance advance
  alike_peek : Alike (· = ·) peek peek
  alike_spanFrom {first first' : Span} : (comparing → first = first') →
    Alike (fun s s' => comparing → s = s') (spanFrom first) (spanFrom first')
  alike_collect {τ : Type} {step : m (Option τ)} {round : Parser (Option τ)} : Progresses round →
    Alike (fun a b => a.isSome = b.isSome ∧ (comparing → a = b)) step round →
    Alike (fun as bs => as.isEmpty = bs.isEmpty ∧ (comparing → as = bs)) (collect step)
      (collect round)

namespace Lockstep

section rules

variable {m : Type → Type} [Monad m] [Actions m] (L : Lockstep m)

/-! ### Values -/

/-- Trees and places that are equal if they are compared. -/
def Same (a b : τ) : Prop := L.comparing → a = b

variable {L}

theorem same_map {a b : τ} (f : τ → υ) (h : L.Same a b) : L.Same (f a) (f b) :=
  fun hc => congrArg f (h hc)

theorem same_app {f g : τ → υ} {a b : τ} (hf : L.Same f g) (h : L.Same a b) :
    L.Same (f a) (g b) := fun hc => congr (hf hc) (h hc)

/-! ### Single steps -/

variable (L) {V : τ → τ → Prop} {W : υ → υ → Prop}

theorem alike_map [LawfulMonad m] {p : m τ} {q : Parser τ} {f : τ → υ} (hp : L.Alike V p q)
    (hf : ∀ a b, V a b → W (f a) (f b)) : L.Alike W (f <$> p) (f <$> q) := by
  rw [map_eq_pure_bind, map_eq_pure_bind]
  exact L.alike_bind hp fun a b hab => L.alike_pure (hf a b hab)

theorem alike_ite {p p' : m τ} {q q' : Parser τ} {c : Prop} [Decidable c] (h : L.Alike V p q)
    (h' : L.Alike V p' q') : L.Alike V (if c then p else p') (if c then q else q') := by
  split
  · exact h
  · exact h'

theorem alike_accept (wanted : TokenKind) : L.Alike (· = ·) (accept wanted) (accept wanted) := by
  refine L.alike_bind L.alike_current fun t u ht => ?_
  rw [ht.1]
  exact L.alike_ite (L.alike_bind L.alike_advance fun _ _ _ => L.alike_pure rfl) (L.alike_pure rfl)

theorem alike_expect (wanted : TokenKind) : L.Alike L.Same (expect wanted) (expect wanted) := by
  refine L.alike_bind L.alike_current fun t u ht => ?_
  rw [ht.1]
  exact L.alike_ite L.alike_advance (L.alike_fail _)

theorem alike_expectName : L.Alike L.Same expectName expectName := by
  refine L.alike_bind L.alike_current fun t u ht => ?_
  rw [ht.1]
  split
  · refine L.alike_bind L.alike_advance fun _ _ _ => ?_
    exact L.alike_pure (same_map (fun t : Token => (_, t.span)) ht.2)
  · exact L.alike_fail _

/-- What follows a node is its span. -/
theorem alike_node {first first' : Span} {node node' : Span → τ} (hfirst : L.Same first first')
    (hnode : L.Same node node') : L.Alike L.Same (do return node (← spanFrom first))
      (do return node' (← spanFrom first')) :=
  L.alike_bind (L.alike_spanFrom hfirst) fun _ _ hspan => L.alike_pure (same_app hnode hspan)

/-- A part that is there if a certain token stands in front of it. -/
theorem alike_optional [LawfulMonad m] {p : m τ} {q : Parser τ} {k : Option τ → m υ}
    {k' : Option τ → Parser υ} (wanted : TokenKind) (hp : L.Alike L.Same p q)
    (hk : ∀ a b, L.Same a b → L.Alike W (k a) (k' b)) :
    L.Alike W (accept wanted >>= fun found =>
        if found = true then some <$> p >>= k else pure none >>= k)
      (accept wanted >>= fun found =>
        if found = true then some <$> q >>= k' else pure none >>= k') := by
  refine L.alike_bind (L.alike_accept _) fun found found' hfound => ?_
  subst hfound
  refine L.alike_ite (L.alike_bind (L.alike_map hp fun a b => same_map some) hk) ?_
  exact L.alike_bind (L.alike_pure fun _ => rfl) hk

/-! ### Expressions -/

section layers

variable {expression operand : m Expr} {room : Nat}
  (hE : L.Alike L.Same expression (Expr.parser room))
  (hO : L.Alike L.Same operand (Expr.operandParser room))

include hE

theorem alike_listLiteral :
    L.Alike L.Same (listLiteral expression) (listLiteral (Expr.parser room)) := by
  -- whatever the items are, the closing bracket follows
  have close : ∀ {start start' : Span} {items items' : List Expr}, L.Same start start' →
      L.Same items items' → L.Alike L.Same
        (do let _ ← expect (.punct .closeBracket); return Expr.list items (← spanFrom start))
        (do let _ ← expect (.punct .closeBracket); return Expr.list items' (← spanFrom start')) :=
    fun hstart hitems =>
      L.alike_bind (L.alike_expect _) fun _ _ _ => L.alike_node hstart (same_map Expr.list hitems)
  have more : L.Alike (fun a b => a.isSome = b.isSome ∧ L.Same a b)
      (do if ← accept (.punct .comma) then return some (← expression) else return none)
      (do if ← accept (.punct .comma) then return some (← Expr.parser room)
          else return none) := by
    refine L.alike_bind (L.alike_accept _) fun found found' hfound => ?_
    subst hfound
    refine L.alike_ite (L.alike_bind hE fun _ _ he => ?_) (L.alike_pure ⟨rfl, fun _ => rfl⟩)
    exact L.alike_pure ⟨rfl, same_map some he⟩
  refine L.alike_bind L.alike_current fun first first' hfirst => ?_
  have hstart := same_map Token.span hfirst.2
  refine L.alike_bind (L.alike_expect _) fun _ _ _ => ?_
  refine L.alike_bind L.alike_current fun t u ht => ?_
  rw [ht.1]
  refine L.alike_ite ?_ ?_
  · exact L.alike_bind (L.alike_pure fun _ => rfl) fun _ _ hitems => close hstart hitems
  · refine L.alike_bind hE fun _ _ hhead => ?_
    have progress := (prompt_further (accepts_expr room).1).progresses
    refine L.alike_bind (L.alike_collect progress more) fun _ _ hrest => ?_
    refine L.alike_bind (L.alike_pure (same_app (same_map List.cons hhead) hrest.2)) ?_
    exact fun _ _ hitems => close hstart hitems

theorem alike_primary : L.Alike L.Same (primary expression) (primary (Expr.parser room)) := by
  have atom : ∀ {e e' : Expr}, L.Same e e' →
      L.Alike L.Same (do let _ ← advance; return e) (do let _ ← advance; return e') :=
    fun he => L.alike_bind L.alike_advance fun _ _ _ => L.alike_pure he
  refine L.alike_bind L.alike_current fun t u ht => ?_
  have hspan := same_map Token.span ht.2
  rw [ht.1]
  split
  · exact atom (same_map _ hspan)
  · exact atom (same_map _ hspan)
  · exact atom (same_map _ hspan)
  · exact atom (same_map _ hspan)
  · exact atom (same_map _ hspan)
  · exact L.alike_listLiteral hE
  · refine L.alike_bind L.alike_advance fun _ _ _ => ?_
    refine L.alike_bind hE fun _ _ hinner => ?_
    exact L.alike_bind (L.alike_expect _) fun _ _ _ => L.alike_pure hinner
  · exact L.alike_fail _

omit hE in
theorem alike_chain {ω : Type} [Operator ω] {P : Phrase TokenKind Expr} {p : m Expr}
    {q : Parser Expr} (node : Expr → List (Link ω Expr) → Span → Expr) (hp : L.Alike L.Same p q)
    (hq : Prompt False Always q q (Words P)) : L.Alike L.Same (chain node p) (chain node q) := by
  have link : L.Alike (fun a b => a.isSome = b.isSome ∧ L.Same a b)
      (link? p : m (Option (Link ω Expr))) (link? q) := by
    refine L.alike_bind L.alike_current fun t u ht => ?_
    rw [ht.1]
    split
    · exact L.alike_pure ⟨rfl, fun _ => rfl⟩
    · refine L.alike_bind L.alike_advance fun _ _ _ => ?_
      refine L.alike_bind hp fun _ _ he => ?_
      exact L.alike_pure ⟨rfl, same_map (fun e => some (Link.mk _ e)) he⟩
  have progress := (prompt_link (ω := ω) hq).progresses
  refine L.alike_bind L.alike_current fun _ _ hstart => ?_
  refine L.alike_bind hp fun _ _ hfirst => ?_
  refine L.alike_bind (L.alike_collect progress link) fun _ _ hrest => ?_
  rw [hrest.1]
  refine L.alike_ite (L.alike_pure hfirst) ?_
  exact L.alike_node (same_map Token.span hstart.2) (same_app (same_map node hfirst) hrest.2)

include hO

theorem alike_unary : L.Alike L.Same (unary expression operand)
    (unary (Expr.parser room) (Expr.operandParser room)) := by
  refine L.alike_bind L.alike_current fun t u ht => ?_
  rw [ht.1]
  split
  · exact L.alike_primary hE
  · refine L.alike_bind L.alike_advance fun _ _ _ => ?_
    refine L.alike_bind hO fun _ _ hinner => ?_
    exact L.alike_node (same_map Token.span ht.2) (same_map _ hinner)

theorem alike_multiplicative : L.Alike L.Same (multiplicative expression operand)
    (multiplicative (Expr.parser room) (Expr.operandParser room)) :=
  L.alike_chain .multiplicative (L.alike_unary hE hO)
    (prompt_unary (accepts_expr room).1 (accepts_expr room).2)

theorem alike_additive : L.Alike L.Same (additive expression operand)
    (additive (Expr.parser room) (Expr.operandParser room)) :=
  L.alike_chain .additive (L.alike_multiplicative hE hO)
    (prompt_multiplicative (accepts_expr room).1 (accepts_expr room).2)

theorem alike_comparison : L.Alike L.Same (comparison expression operand)
    (comparison (Expr.parser room) (Expr.operandParser room)) := by
  refine L.alike_bind L.alike_current fun _ _ hstart => ?_
  refine L.alike_bind (L.alike_additive hE hO) fun _ _ hleft => ?_
  refine L.alike_bind L.alike_current fun t u ht => ?_
  rw [ht.1]
  split
  · exact L.alike_pure hleft
  · refine L.alike_bind L.alike_advance fun _ _ _ => ?_
    refine L.alike_bind (L.alike_additive hE hO) fun _ _ hright => ?_
    refine L.alike_bind L.alike_current fun next next' hnext => ?_
    rw [hnext.1]
    refine L.alike_ite (L.alike_fail _) ?_
    refine L.alike_node (same_map Token.span hstart.2) ?_
    exact same_app (same_map Expr.compare hleft) (same_map (fun e => some (Link.mk _ e)) hright)

theorem alike_logical : L.Alike L.Same (logical expression operand)
    (logical (Expr.parser room) (Expr.operandParser room)) :=
  L.alike_chain .logical (L.alike_comparison hE hO)
    (prompt_comparison (accepts_expr room).1 (accepts_expr room).2)

theorem alike_conditional : L.Alike L.Same (conditional expression operand)
    (conditional (Expr.parser room) (Expr.operandParser room)) := by
  refine L.alike_bind L.alike_current fun _ _ hstart => ?_
  refine L.alike_bind (L.alike_logical hE hO) fun _ _ htest => ?_
  refine L.alike_bind (L.alike_accept _) fun found found' hfound => ?_
  subst hfound
  refine L.alike_ite ?_ (L.alike_pure htest)
  refine L.alike_bind hE fun _ _ hthen => ?_
  refine L.alike_bind (L.alike_expect _) fun _ _ _ => ?_
  refine L.alike_bind hE fun _ _ helse => ?_
  refine L.alike_node (same_map Token.span hstart.2) ?_
  exact same_app (same_app (same_map Expr.ternary htest) hthen) helse

end layers

/-! ### Statements -/

section statements

variable {expression : m Expr} {block : m (Block Stmt)} {room : Nat}
  (hE : L.Alike L.Same expression (Expr.parser room))
  (hB : L.Alike L.Same block (Stmt.blockParser room))

include hE

theorem alike_declaration [LawfulMonad m] :
    L.Alike L.Same (declaration expression) (declaration (Expr.parser room)) := by
  refine L.alike_bind L.alike_current fun t u ht => ?_
  -- whatever the type is, the name and all that follows it
  have named : ∀ {typeName typeName' : String}, L.Same typeName typeName' → L.Alike L.Same
      (do
        let name ← expectName
        let init ← if ← accept (.punct .assign) then some <$> expression else pure none
        let _ ← expect (.punct .semicolon)
        let span ← spanFrom t.span
        return Stmt.declare ⟨typeName, name.1, name.2, init, span⟩ span)
      (do
        let name ← expectName
        let init ← if ← accept (.punct .assign) then some <$> Expr.parser room else pure none
        let _ ← expect (.punct .semicolon)
        let span ← spanFrom u.span
        return Stmt.declare ⟨typeName', name.1, name.2, init, span⟩ span) := by
    intro typeName typeName' htype
    refine L.alike_bind L.alike_expectName fun _ _ hname => ?_
    refine L.alike_optional _ hE fun _ _ hinit => ?_
    refine L.alike_bind (L.alike_expect _) fun _ _ _ => ?_
    refine L.alike_node (same_map Token.span ht.2) ?_
    have hdecl := same_app (same_app (same_map
      (fun typeName (name : String × Span) init span =>
        Stmt.declare ⟨typeName, name.1, name.2, init, span⟩ span) htype) hname) hinit
    exact hdecl
  rw [ht.1]
  split
  · refine L.alike_bind L.alike_advance fun _ _ _ => ?_
    exact L.alike_bind (L.alike_pure fun _ => rfl) fun _ _ htype => named htype
  · refine L.alike_bind L.alike_expectName fun _ _ hname => ?_
    exact L.alike_bind (L.alike_pure (same_map Prod.fst hname)) fun _ _ htype => named htype

theorem alike_assignment :
    L.Alike L.Same (assignment expression) (assignment (Expr.parser room)) := by
  refine L.alike_bind L.alike_current fun _ _ hstart => ?_
  refine L.alike_bind L.alike_expectName fun _ _ hname => ?_
  refine L.alike_bind (L.alike_expect _) fun _ _ _ => ?_
  refine L.alike_bind hE fun _ _ hvalue => ?_
  refine L.alike_bind (L.alike_expect _) fun _ _ _ => ?_
  refine L.alike_node (same_map Token.span hstart.2) ?_
  exact same_app (same_map (fun name : String × Span => Stmt.assign name.1 name.2) hname) hvalue

theorem alike_condition :
    L.Alike L.Same (condition expression) (condition (Expr.parser room)) := by
  refine L.alike_bind (L.alike_expect _) fun _ _ _ => ?_
  refine L.alike_bind hE fun _ _ htest => ?_
  exact L.alike_bind (L.alike_expect _) fun _ _ _ => L.alike_pure htest

theorem alike_exprStmt : L.Alike L.Same (exprStmt expression) (exprStmt (Expr.parser room)) := by
  refine L.alike_bind L.alike_current fun _ _ hstart => ?_
  refine L.alike_bind hE fun _ _ hvalue => ?_
  refine L.alike_bind (L.alike_expect _) fun _ _ _ => ?_
  exact L.alike_node (same_map Token.span hstart.2) (same_map Stmt.expr hvalue)

include hB

theorem alike_ifElse [LawfulMonad m] : L.Alike L.Same (ifElse block expression)
    (ifElse (Stmt.blockParser room) (Expr.parser room)) := by
  refine L.alike_bind L.alike_current fun _ _ hstart => ?_
  refine L.alike_bind (L.alike_expect _) fun _ _ _ => ?_
  refine L.alike_bind (L.alike_condition hE) fun _ _ htest => ?_
  refine L.alike_bind hB fun _ _ hthen => ?_
  refine L.alike_optional _ hB fun _ _ helse => ?_
  refine L.alike_node (same_map Token.span hstart.2) ?_
  exact same_app (same_app (same_map Stmt.ifElse htest) hthen) helse

theorem alike_whileDo : L.Alike L.Same (whileDo block expression)
    (whileDo (Stmt.blockParser room) (Expr.parser room)) := by
  refine L.alike_bind L.alike_current fun _ _ hstart => ?_
  refine L.alike_bind (L.alike_expect _) fun _ _ _ => ?_
  refine L.alike_bind (L.alike_condition hE) fun _ _ htest => ?_
  refine L.alike_bind hB fun _ _ hbody => ?_
  exact L.alike_node (same_map Token.span hstart.2) (same_app (same_map Stmt.whileDo htest) hbody)

theorem alike_doWhile : L.Alike L.Same (doWhile block expression)
    (doWhile (Stmt.blockParser room) (Expr.parser room)) := by
  refine L.alike_bind L.alike_current fun _ _ hstart => ?_
  refine L.alike_bind (L.alike_expect _) fun _ _ _ => ?_
  refine L.alike_bind hB fun _ _ hbody => ?_
  refine L.alike_bind (L.alike_expect _) fun _ _ _ => ?_
  refine L.alike_bind (L.alike_condition hE) fun _ _ htest => ?_
  refine L.alike_bind (L.alike_expect _) fun _ _ _ => ?_
  exact L.alike_node (same_map Token.span hstart.2) (same_app (same_map Stmt.doWhile hbody) htest)

/-- The kinds of the first tokens decide alike what a statement is. -/
theorem alike_statement [LawfulMonad m] :
    L.Alike L.Same (statement block expression) (Stmt.parser room) := by
  refine L.alike_bind L.alike_current fun t u ht => ?_
  rw [ht.1]
  split
  · refine L.alike_bind hB fun _ _ hbody => ?_
    exact L.alike_pure (same_map (fun body : Block Stmt => Stmt.block body body.span) hbody)
  · exact L.alike_ifElse hE hB
  · exact L.alike_whileDo hE hB
  · exact L.alike_doWhile hE hB
  · exact L.alike_ite (L.alike_declaration hE) (L.alike_exprStmt hE)
  · refine L.alike_bind L.alike_peek fun next next' hnext => ?_
    subst hnext
    split
    · exact L.alike_declaration hE
    · exact L.alike_assignment hE
    · exact L.alike_exprStmt hE
  · exact L.alike_exprStmt hE

end statements

section lists

variable {stmt : m Stmt} {room : Nat} (hS : L.Alike L.Same stmt (Stmt.parser room))

include hS

theorem alike_statementsUntil (done : TokenKind → Bool) :
    L.Alike (fun as bs => as.isEmpty = bs.isEmpty ∧ L.Same as bs) (statementsUntil done stmt)
      (statementsUntil done (Stmt.parser room)) := by
  refine L.alike_collect (prompt_stmtRound done (accepts_stmt room) stmt_ne_nil).progresses ?_
  refine L.alike_bind L.alike_current fun t u ht => ?_
  rw [ht.1]
  refine L.alike_ite (L.alike_pure ⟨rfl, fun _ => rfl⟩) ?_
  exact L.alike_bind hS fun _ _ hs => L.alike_pure ⟨rfl, same_map some hs⟩

theorem alike_braces : L.Alike L.Same (braces stmt) (braces (Stmt.parser room)) := by
  refine L.alike_bind L.alike_current fun _ _ hstart => ?_
  refine L.alike_bind (L.alike_expect _) fun _ _ _ => ?_
  refine L.alike_bind (L.alike_statementsUntil hS _) fun _ _ hstmts => ?_
  refine L.alike_bind (L.alike_expect _) fun _ _ _ => ?_
  exact L.alike_node (same_map Token.span hstart.2) (same_map Block.mk hstmts.2)

theorem alike_program : L.Alike L.Same (program stmt) (program (Stmt.parser room)) := by
  refine L.alike_bind L.alike_current fun _ _ hstart => ?_
  refine L.alike_bind (L.alike_statementsUntil hS _) fun _ _ hstmts => ?_
  refine L.alike_bind L.alike_current fun _ _ hend => L.alike_pure ?_
  exact same_app (same_map Program.mk hstmts.2)
    (same_app (same_map Span.merge (same_map Token.span hstart.2)) (same_map Token.span hend.2))

end lists

end rules

/-! ### Levels

If parsers are compared with parsers, the levels are tied in the same way on both sides. -/

variable (L : Lockstep Parser)

theorem alike_expr (room : Nat) : L.Alike L.Same (Expr.parser room) (Expr.parser room) ∧
    L.Alike L.Same (Expr.operandParser room) (Expr.operandParser room) := by
  induction room with
  | zero =>
    rw [Expr.parser, Expr.operandParser]
    exact ⟨L.alike_fail _, L.alike_fail _⟩
  | succ room ih =>
    rw [Expr.parser, Expr.operandParser]
    exact ⟨L.alike_conditional ih.1 ih.2, L.alike_unary ih.1 ih.2⟩

theorem alike_block (room : Nat) :
    L.Alike L.Same (Stmt.blockParser room) (Stmt.blockParser room) := by
  induction room with
  | zero =>
    rw [Stmt.blockParser]
    exact L.alike_fail _
  | succ room ih =>
    rw [Stmt.blockParser]
    exact L.alike_braces (L.alike_statement (L.alike_expr room).1 ih)

theorem alike_programParser : L.Alike L.Same Program.parser Program.parser :=
  L.alike_program (L.alike_statement (L.alike_expr _).1 (L.alike_block _))

end Lockstep

/-! ### States and errors side by side -/

/-- Which states of another kind of reading are like which cursors, and which failures are alike. -/
structure Coupling (ε σ : Type) where
  States : σ → Cursor → Prop
  Errors : ε → σ → ReadError → Cursor → Prop

namespace Coupling

variable {ε σ : Type} (C : Coupling ε σ)

/-- Both readings come to related values in like states, or to like failures. -/
inductive Results (V : τ → τ → Prop) :
    EStateM.Result ε σ τ → EStateM.Result ReadError Cursor τ → Prop
  | ok {a b : τ} {s : σ} {c : Cursor} : V a b → C.States s c → Results V (.ok a s) (.ok b c)
  | error {e : ε} {s : σ} {e' : ReadError} {c : Cursor} : C.Errors e s e' c →
      Results V (.error e s) (.error e' c)

/-- From like states both come to like ends. -/
def Alike (V : τ → τ → Prop) (p : EStateM ε σ τ) (q : Parser τ) : Prop :=
  ∀ s c, C.States s c → C.Results V (p s) (q c)

variable {C} {V : τ → τ → Prop} {W : υ → υ → Prop}

theorem alike_pure {a b : τ} (h : V a b) : C.Alike V (pure a) (pure b) := fun _ _ hs => .ok h hs

theorem results_bind {p : EStateM ε σ τ} {q : Parser τ} {f : τ → EStateM ε σ υ}
    {g : τ → Parser υ} {s : σ} {c : Cursor} (h : C.Results V (p s) (q c))
    (hf : ∀ a b, V a b → C.Alike W (f a) (g b)) : C.Results W ((p >>= f) s) ((q >>= g) c) := by
  change C.Results W (EStateM.bind p f s) (EStateM.bind q g c)
  unfold EStateM.bind
  generalize p s = r, q c = r' at h
  cases h with
  | ok hab hcd => exact hf _ _ hab _ _ hcd
  | error he => exact .error he

theorem alike_bind {p : EStateM ε σ τ} {q : Parser τ} {f : τ → EStateM ε σ υ} {g : τ → Parser υ}
    (hp : C.Alike V p q) (hf : ∀ a b, V a b → C.Alike W (f a) (g b)) :
    C.Alike W (p >>= f) (q >>= g) := fun s c hs => results_bind (hp s c hs) hf

/-- Repetitions on cursors with equally many items before them have equally many rounds. -/
theorem alike_collect {C : Coupling ReadError Cursor} {comparing : Prop}
    {step round : Parser (Option τ)} (hround : Progresses round)
    (hremaining : ∀ {c d}, C.States c d → c.remaining = d.remaining)
    (h : C.Alike (fun a b => a.isSome = b.isSome ∧ (comparing → a = b)) step round) :
    C.Alike (fun as bs => as.isEmpty = bs.isEmpty ∧ (comparing → as = bs)) (collect step)
      (collect round) := by
  intro c d hcd
  -- the induction is on the items that remain, of which every round takes one
  induction hn : d.remaining using Nat.strongRecOn generalizing c d with
  | _ n ih =>
    have hstep := h c d hcd
    generalize hs : step c = r, hr : round d = r' at hstep
    cases hstep with
    | error he =>
      rw [collect_of_error hs, collect_of_error hr]
      exact .error he
    | @ok a b c' d' hab hcd' =>
      cases a with
      | none =>
        cases b with
        | none =>
          rw [collect_of_none hs, collect_of_none hr]
          exact .ok ⟨rfl, fun _ => rfl⟩ hcd'
        | some b => cases hab.1
      | some a =>
        cases b with
        | none => cases hab.1
        | some b =>
          have hlt := hround _ _ _ hr
          have hlt' : c'.remaining < c.remaining := by rwa [hremaining hcd', hremaining hcd]
          have hrest := ih d'.remaining (hn ▸ hlt) c' d' hcd' rfl
          rw [collect_of_some hs hlt', collect_of_some hr hlt]
          refine results_bind hrest fun as bs has => alike_pure ⟨rfl, fun hc => ?_⟩
          rw [Option.some.inj (hab.2 hc), has.2 hc]

end Coupling

end StaticCheck
