import StaticCheck.Proofs.Grammar.Openings
import StaticCheck.Proofs.Offences

/-! # Parts of derived trees

A part of a tree is derived from a part of the symbols: a statement at any depth from symbols that
stand together, and so is a node of an expression (`stmt_contains_stmts`, `stmt_contains_nodes`).
Parentheses leave no node, so the symbols of a node are those without parentheses around them
(`Node`).  What is derived with few levels of nesting is also derived with more (`stmt_mono`), which
is why no level is lost for the parts. -/

namespace StaticCheck

namespace Grammar

variable {α τ υ ω : Type} {A : Alphabet α}

/-! ### More levels -/

section levels

theorem Many.imp {P Q : Phrase α τ} (h : ∀ ts a, P ts a → Q ts a) {ts : List α} {as : List τ}
    (hm : Many P ts as) : Many Q ts as := by
  induction hm with
  | nil => exact .nil
  | cons hp _ ih => exact .cons (h _ _ hp) ih

theorem Optional.imp {P Q : Phrase α τ} (h : ∀ ts a, P ts a → Q ts a) {mark : TokenKind}
    {ts : List α} {a : Option τ} (ho : Optional A mark P ts a) : Optional A mark Q ts a := by
  cases ho with
  | none => exact .none
  | some hk hp => exact .some hk (h _ _ hp)

theorem Linked.imp {O O' : Phrase α Expr} (hO : ∀ ts e, O ts e → O' ts e) {mark : ω → Punct}
    {ts : List α} {link : Link ω Expr} (h : Linked A mark O ts link) :
    Linked A mark O' ts link := by
  cases h with
  | mk hk ho => exact .mk hk (hO _ _ ho)

theorem Chain.imp {O O' : Phrase α Expr} (hO : ∀ ts e, O ts e → O' ts e) {mark : ω → Punct}
    {node : Expr → List (Link ω Expr) → Span → Expr} {ts : List α} {e : Expr}
    (h : Chain A mark node O ts e) : Chain A mark node O' ts e := by
  cases h with
  | single ho => exact .single (hO _ _ ho)
  | chain ho hm hne => exact .chain (hO _ _ ho) (hm.imp fun _ _ hl => hl.imp hO) hne

variable {E E' O O' : Phrase α Expr} (hE : ∀ ts e, E ts e → E' ts e)
  (hO : ∀ ts e, O ts e → O' ts e) {ts : List α} {e : Expr}

include hE

theorem Further.imp (h : Further A E ts e) : Further A E' ts e := by
  cases h with
  | mk hk he => exact .mk hk (hE _ _ he)

theorem Parens.imp (h : Parens A E ts e) : Parens A E' ts e := by
  cases h with
  | mk hl he hr => exact .mk hl (hE _ _ he) hr

theorem Primary.imp (h : Primary A E ts e) : Primary A E' ts e := by
  cases h with
  | int hk => exact .int hk
  | real hk => exact .real hk
  | bool hk => exact .bool hk
  | ident hk => exact .ident hk
  | emptyList hl hr => exact .emptyList hl hr
  | list hl he hm hr => exact .list hl (hE _ _ he) (hm.imp fun _ _ hf => hf.imp hE) hr
  | parens hp => exact .parens (hp.imp hE)

include hO

theorem Unary.imp (h : Unary A E O ts e) : Unary A E' O' ts e := by
  cases h with
  | unary hk ho => exact .unary hk (hO _ _ ho)
  | primary hp => exact .primary (hp.imp hE)

theorem Add.imp (h : Add A E O ts e) : Add A E' O' ts e :=
  Chain.imp (fun _ _ hm => Chain.imp (fun _ _ hu => Unary.imp hE hO hu) hm) h

theorem Comp.imp (h : Comp A E O ts e) : Comp A E' O' ts e := by
  cases h with
  | single ha => exact .single (Add.imp hE hO ha)
  | compare hl hk hr => exact .compare (Add.imp hE hO hl) hk (Add.imp hE hO hr)

theorem Logic.imp (h : Logic A E O ts e) : Logic A E' O' ts e :=
  Chain.imp (fun _ _ hc => Comp.imp hE hO hc) h

theorem Choice.imp (h : Choice A E O ts e) : Choice A E' O' ts e := by
  cases h with
  | single hl => exact .single (Logic.imp hE hO hl)
  | ternary hc hq ht hk he =>
    exact .ternary (Logic.imp hE hO hc) hq (hE _ _ ht) hk (hE _ _ he)

omit hO in
theorem Statement.imp {B B' : Phrase α (Block Stmt)} (hB : ∀ ts b, B ts b → B' ts b) {s : Stmt}
    (h : Statement A B E ts s) : Statement A B' E' ts s := by
  cases h with
  | declare htype hname hinit hsemi => exact .declare htype hname (hinit.imp hE) hsemi
  | assign hname heq he hsemi => exact .assign hname heq (hE _ _ he) hsemi
  | ifElse hword htest hthen helse =>
    exact .ifElse hword (htest.imp hE) (hB _ _ hthen) (helse.imp hB)
  | whileDo hword htest hbody => exact .whileDo hword (htest.imp hE) (hB _ _ hbody)
  | doWhile hword hbody hwhile htest hsemi =>
    exact .doWhile hword (hB _ _ hbody) hwhile (htest.imp hE) hsemi
  | block hbody => exact .block (hB _ _ hbody)
  | expr he hsemi => exact .expr (hE _ _ he) hsemi

end levels

theorem expr_succ (levels : Nat) :
    (∀ ts e, expr A levels ts e → expr A (levels + 1) ts e) ∧
      ∀ ts e, operand A levels ts e → operand A (levels + 1) ts e := by
  induction levels with
  | zero =>
    constructor
    · intro ts e h
      rw [expr] at h
      exact h.elim
    · intro ts e h
      rw [operand] at h
      exact h.elim
  | succ levels ih =>
    constructor
    · intro ts e h
      rw [expr] at h ⊢
      exact h.imp ih.1 ih.2
    · intro ts e h
      rw [operand] at h ⊢
      exact h.imp ih.1 ih.2

theorem block_succ (levels : Nat) :
    ∀ ts b, block A levels ts b → block A (levels + 1) ts b := by
  induction levels with
  | zero =>
    intro ts b h
    rw [block] at h
    exact h.elim
  | succ levels ih =>
    intro ts b h
    rw [block] at h ⊢
    cases h with
    | mk hl hm hr => exact .mk hl (hm.imp fun _ _ hs => hs.imp (expr_succ levels).1 ih) hr

section mono

variable {m n : Nat}

theorem expr_mono (hmn : m ≤ n) : ∀ ts e, expr A m ts e → expr A n ts e := by
  induction hmn with
  | refl => exact fun _ _ h => h
  | step _ ih => exact fun ts e h => (expr_succ _).1 ts e (ih ts e h)

theorem operand_mono (hmn : m ≤ n) : ∀ ts e, operand A m ts e → operand A n ts e := by
  induction hmn with
  | refl => exact fun _ _ h => h
  | step _ ih => exact fun ts e h => (expr_succ _).2 ts e (ih ts e h)

theorem block_mono (hmn : m ≤ n) : ∀ ts b, block A m ts b → block A n ts b := by
  induction hmn with
  | refl => exact fun _ _ h => h
  | step _ ih => exact fun ts b h => block_succ _ ts b (ih ts b h)

theorem stmt_mono (hmn : m ≤ n) : ∀ ts s, stmt A m ts s → stmt A n ts s :=
  fun _ _ h => h.imp (expr_mono hmn) (block_mono hmn)

end mono

/-! ### Symbols that stand together -/

/-- Derived from some of the symbols that stand together. -/
def Within (M : Phrase α υ) (ts : List α) (x : υ) : Prop := ∃ us, us <:+: ts ∧ M us x

section within

variable {M : Phrase α υ} {x : υ} {ts us : List α}

theorem Within.mono (h : Within M us x) (hts : us <:+: ts) : Within M ts x := by
  obtain ⟨vs, hvs, hx⟩ := h
  exact ⟨vs, hvs.trans hts, hx⟩

theorem Within.all (h : M ts x) : Within M ts x := ⟨ts, List.infix_refl ts, h⟩

theorem Within.left (h : Within M ts x) : Within M (ts ++ us) x :=
  h.mono (List.prefix_append ts us).isInfix

theorem Within.right (h : Within M us x) : Within M (ts ++ us) x :=
  h.mono (List.suffix_append ts us).isInfix

theorem Within.cons {t : α} (h : Within M ts x) : Within M (t :: ts) x :=
  h.mono (List.suffix_cons t ts).isInfix

end within

/-- The given parts of a tree are derived from symbols that stand together. -/
def Contains (parts : τ → List υ) (M : Phrase α υ) (P : Phrase α τ) : Prop :=
  ∀ ts a, P ts a → ∀ x ∈ parts a, Within M ts x

section repetitions

variable {parts : τ → List υ} {M : Phrase α υ} {P : Phrase α τ}

theorem contains_many (h : Contains parts M P) : Contains (List.flatMap parts) M (Many P) := by
  intro ts as hm
  induction hm with
  | nil => simp
  | cons hp _ ih =>
    rw [List.flatMap_cons, List.forall_mem_append]
    exact ⟨fun x hx => (h _ _ hp x hx).left, fun x hx => (ih x hx).right⟩

theorem contains_parens {parts : Expr → List υ} {E : Phrase α Expr} (h : Contains parts M E) :
    Contains parts M (Parens A E) := by
  intro ts e hp x hx
  cases hp with
  | mk _ he _ => exact (h _ _ he x hx).left.cons

end repetitions

/-! ### Nodes of expressions -/

/-- Derivations that end with a node of their own, without parentheses around it. -/
inductive Node (A : Alphabet α) (expr operand : Phrase α Expr) : Phrase α Expr
  | primary {ts : List α} {e : Expr} : Primary A expr ts e →
      (∀ t ∈ ts.head?, A.kind t ≠ .punct .openParen) → Node A expr operand ts e
  | unary {sign : α} {op : UnaryOp} {ts : List α} {e : Expr} : A.kind sign = .punct op.mark →
      operand ts e → Node A expr operand (sign :: ts) (.unary op e (A.span (sign :: ts)))
  | product {ts us : List α} {first : Expr} {rest : List (Link MulOp Expr)} :
      Unary A expr operand ts first → Many (Linked A MulOp.mark (Unary A expr operand)) us rest →
      rest ≠ [] →
      Node A expr operand (ts ++ us) (.multiplicative first rest (A.span (ts ++ us)))
  | sum {ts us : List α} {first : Expr} {rest : List (Link AddOp Expr)} :
      Mul A expr operand ts first → Many (Linked A AddOp.mark (Mul A expr operand)) us rest →
      rest ≠ [] → Node A expr operand (ts ++ us) (.additive first rest (A.span (ts ++ us)))
  | compare {ts us : List α} {sign : α} {op : CompareOp} {left right : Expr} :
      Add A expr operand ts left → A.kind sign = .punct op.mark → Add A expr operand us right →
      Node A expr operand (ts ++ sign :: us)
        (.compare left (some ⟨op, right⟩) (A.span (ts ++ sign :: us)))
  | logical {ts us : List α} {first : Expr} {rest : List (Link LogicOp Expr)} :
      Comp A expr operand ts first → Many (Linked A LogicOp.mark (Comp A expr operand)) us rest →
      rest ≠ [] → Node A expr operand (ts ++ us) (.logical first rest (A.span (ts ++ us)))
  | ternary {ts us vs : List α} {q k : α} {test thenArm elseArm : Expr} :
      Logic A expr operand ts test → A.kind q = .punct .question → expr us thenArm →
      A.kind k = .punct .colon → expr vs elseArm →
      Node A expr operand (ts ++ q :: (us ++ k :: vs))
        (.ternary test thenArm elseArm (A.span (ts ++ q :: (us ++ k :: vs))))

namespace Node

variable {E E' O O' : Phrase α Expr} {ts : List α} {e : Expr}

/-- A node covers the symbols it is derived from. -/
theorem span_eq (h : Node A E O ts e) : e.span = A.span ts := by
  cases h with
  | primary hp hopen =>
    cases hp with
    | parens hparens =>
      cases hparens with
      | mk hl _ _ => exact absurd hl (hopen _ rfl)
    | int _ | real _ | bool _ | ident _ | emptyList _ _ | list _ _ _ _ => rfl
  | unary | product | sum | compare | logical | ternary => rfl

theorem imp (hE : ∀ ts e, E ts e → E' ts e) (hO : ∀ ts e, O ts e → O' ts e)
    (h : Node A E O ts e) : Node A E' O' ts e := by
  have hunary : ∀ ts e, Unary A E O ts e → Unary A E' O' ts e := fun _ _ => Unary.imp hE hO
  have hmul : ∀ ts e, Mul A E O ts e → Mul A E' O' ts e := fun _ _ => Chain.imp hunary
  have hcomp : ∀ ts e, Comp A E O ts e → Comp A E' O' ts e := fun _ _ => Comp.imp hE hO
  cases h with
  | primary hp hopen => exact .primary (hp.imp hE) hopen
  | unary hk ho => exact .unary hk (hO _ _ ho)
  | product hu hm hne => exact .product (hunary _ _ hu) (hm.imp fun _ _ hl => hl.imp hunary) hne
  | sum hu hm hne => exact .sum (hmul _ _ hu) (hm.imp fun _ _ hl => hl.imp hmul) hne
  | compare hl hk hr => exact .compare (Add.imp hE hO hl) hk (Add.imp hE hO hr)
  | logical hc hm hne => exact .logical (hcomp _ _ hc) (hm.imp fun _ _ hl => hl.imp hcomp) hne
  | ternary hc hq ht hk he => exact .ternary (Logic.imp hE hO hc) hq (hE _ _ ht) hk (hE _ _ he)

/-- A node of any layer is a whole expression. -/
theorem choice (h : Node A E O ts e) : Choice A E O ts e := by
  cases h with
  | primary hp _ => exact .single (.single (.single (.single (.single (.primary hp)))))
  | unary hk ho => exact .single (.single (.single (.single (.single (.unary hk ho)))))
  | product hu hm hne => exact .single (.single (.single (.single (.chain hu hm hne))))
  | sum hu hm hne => exact .single (.single (.single (.chain hu hm hne)))
  | compare hl hk hr => exact .single (.single (.compare hl hk hr))
  | logical hc hm hne => exact .single (.chain hc hm hne)
  | ternary hc hq ht hk he => exact .ternary hc hq ht hk he

theorem opens (h : Node A E O ts e) : Opens A ts := h.choice.opens

/-- The node of a name is derived from the name alone. -/
theorem ident_inv {name : String} {span : Span} (h : Node A E O ts (.ident name span)) :
    ∃ t, ts = [t] ∧ A.kind t = .ident name := by
  cases h with
  | primary hp hopen =>
    cases hp with
    | ident hk => exact ⟨_, rfl, hk⟩
    | parens hparens =>
      cases hparens with
      | mk hl _ _ => exact absurd hl (hopen _ rfl)

/-- The node of a comparison is derived from its two sides around the sign. -/
theorem compare_inv {left right : Expr} {op : CompareOp} {span : Span}
    (h : Node A E O ts (.compare left (some ⟨op, right⟩) span)) :
    ∃ us sign vs, ts = us ++ sign :: vs ∧ Add A E O us left ∧ Add A E O vs right := by
  cases h with
  | primary hp hopen =>
    cases hp with
    | parens hparens =>
      cases hparens with
      | mk hl _ _ => exact absurd hl (hopen _ rfl)
  | compare hl _ hr => exact ⟨_, _, _, rfl, hl, hr⟩

end Node

section nodes

variable {M : Phrase α Expr} {E O : Phrase α Expr}

/-- A node is derived as `M` says, and so are those below it. -/
theorem within_nodes {ts : List α} {e : Expr} (hself : M ts e)
    (hchildren : ∀ c ∈ e.children, ∀ x ∈ c.nodes, Within M ts x) :
    ∀ x ∈ e.nodes, Within M ts x :=
  Expr.forall_mem_nodes_iff.2 ⟨hchildren, .all hself⟩

theorem contains_linked {mark : ω → Punct} (hO : Contains Expr.nodes M O) :
    Contains (fun link => link.operand.nodes) M (Linked A mark O) := by
  intro ts link h x hx
  cases h with
  | mk _ ho => exact (hO _ _ ho x hx).cons

theorem contains_further (hE : Contains Expr.nodes M E) : Contains Expr.nodes M (Further A E) := by
  intro ts e h x hx
  cases h with
  | mk _ he => exact (hE _ _ he x hx).cons

theorem contains_chain {mark : ω → Punct} {node : Expr → List (Link ω Expr) → Span → Expr}
    (hO : Contains Expr.nodes M O)
    (hchildren : ∀ first rest span, (node first rest span).children =
      first :: rest.map Link.operand)
    (hself : ∀ ts us first rest, O ts first → Many (Linked A mark O) us rest → rest ≠ [] →
      M (ts ++ us) (node first rest (A.span (ts ++ us)))) :
    Contains Expr.nodes M (Chain A mark node O) := by
  intro ts e h
  cases h with
  | single ho => exact hO _ _ ho
  | chain ho hm hne =>
    refine within_nodes (hself _ _ _ _ ho hm hne) ?_
    rw [hchildren, List.forall_mem_cons]
    refine ⟨fun x hx => (hO _ _ ho x hx).left, fun c hc x hx => ?_⟩
    obtain ⟨link, hlink, rfl⟩ := List.mem_map.1 hc
    refine (contains_many (contains_linked hO) _ _ hm x ?_).right
    exact List.mem_flatMap.2 ⟨link, hlink, hx⟩

variable (hE : Contains Expr.nodes M E) (hO : Contains Expr.nodes M O)
  (hself : ∀ ts e, Node A E O ts e → M ts e)

include hE hself

theorem contains_primary : Contains Expr.nodes M (Primary A E) := by
  intro ts e h
  cases h with
  | int hk => exact within_nodes (hself _ _ (.primary (.int hk) (by simp [hk]))) nofun
  | real hk => exact within_nodes (hself _ _ (.primary (.real hk) (by simp [hk]))) nofun
  | bool hk => exact within_nodes (hself _ _ (.primary (.bool hk) (by simp [hk]))) nofun
  | ident hk => exact within_nodes (hself _ _ (.primary (.ident hk) (by simp [hk]))) nofun
  | emptyList hl hr =>
    exact within_nodes (hself _ _ (.primary (.emptyList hl hr) (by simp [hl]))) nofun
  | list hl he hm hr =>
    refine within_nodes (hself _ _ (.primary (.list hl he hm hr) (by simp [hl]))) ?_
    refine List.forall_mem_cons.2 ⟨fun x hx => (hE _ _ he x hx).left.cons, fun c hc x hx => ?_⟩
    refine (contains_many (contains_further hE) _ _ hm x ?_).left.right.cons
    exact List.mem_flatMap.2 ⟨c, hc, hx⟩
  | parens hp => exact contains_parens hE _ _ hp

include hO

theorem contains_unary : Contains Expr.nodes M (Unary A E O) := by
  intro ts e h
  cases h with
  | unary hk ho =>
    refine within_nodes (hself _ _ (.unary hk ho)) ?_
    exact List.forall_mem_cons.2 ⟨fun x hx => (hO _ _ ho x hx).cons, nofun⟩
  | primary hp => exact contains_primary hE hself _ _ hp

theorem contains_mul : Contains Expr.nodes M (Mul A E O) :=
  contains_chain (contains_unary hE hO hself) (fun _ _ _ => rfl)
    fun _ _ _ _ hu hm hne => hself _ _ (.product hu hm hne)

theorem contains_add : Contains Expr.nodes M (Add A E O) :=
  contains_chain (contains_mul hE hO hself) (fun _ _ _ => rfl)
    fun _ _ _ _ hu hm hne => hself _ _ (.sum hu hm hne)

theorem contains_comp : Contains Expr.nodes M (Comp A E O) := by
  have hadd := contains_add hE hO hself
  intro ts e h
  cases h with
  | single ha => exact hadd _ _ ha
  | compare hl hk hr =>
    refine within_nodes (hself _ _ (.compare hl hk hr)) ?_
    refine List.forall_mem_cons.2 ⟨fun x hx => (hadd _ _ hl x hx).left, ?_⟩
    exact List.forall_mem_cons.2 ⟨fun x hx => (hadd _ _ hr x hx).cons.right, nofun⟩

theorem contains_logic : Contains Expr.nodes M (Logic A E O) :=
  contains_chain (contains_comp hE hO hself) (fun _ _ _ => rfl)
    fun _ _ _ _ hu hm hne => hself _ _ (.logical hu hm hne)

theorem contains_choice : Contains Expr.nodes M (Choice A E O) := by
  have hlogic := contains_logic hE hO hself
  intro ts e h
  cases h with
  | single hl => exact hlogic _ _ hl
  | ternary hc hq ht hk he =>
    refine within_nodes (hself _ _ (.ternary hc hq ht hk he)) ?_
    refine List.forall_mem_cons.2 ⟨fun x hx => (hlogic _ _ hc x hx).left, ?_⟩
    refine List.forall_mem_cons.2 ⟨fun x hx => (hE _ _ ht x hx).left.cons.right, ?_⟩
    exact List.forall_mem_cons.2 ⟨fun x hx => (hE _ _ he x hx).cons.right.cons.right, nofun⟩

end nodes

/-- A node of an expression below which at most so many levels nest. -/
def node (A : Alphabet α) (levels : Nat) : Phrase α Expr :=
  Node A (expr A levels) (operand A levels)

theorem node_mono {m n : Nat} (hmn : m ≤ n) (ts : List α) (e : Expr)
    (h : Node A (expr A m) (operand A m) ts e) : node A n ts e :=
  h.imp (expr_mono hmn) (operand_mono hmn)

theorem contains_expr {levels bound : Nat} (h : levels ≤ bound + 1) :
    Contains Expr.nodes (node A bound) (expr A levels) ∧
      Contains Expr.nodes (node A bound) (operand A levels) := by
  induction levels with
  | zero =>
    constructor
    · intro ts e he
      rw [expr] at he
      exact he.elim
    · intro ts e he
      rw [operand] at he
      exact he.elim
  | succ levels ih =>
    have hlevels : levels ≤ bound := Nat.le_of_succ_le_succ h
    obtain ⟨hE, hO⟩ := ih (Nat.le_succ_of_le hlevels)
    rw [expr, operand]
    exact ⟨contains_choice hE hO (node_mono hlevels), contains_unary hE hO (node_mono hlevels)⟩

/-! ### Statements in statements -/

section stmts

variable {M : Phrase α Stmt} {B : Phrase α (Block Stmt)} {E : Phrase α Expr}

theorem contains_blocks : Contains Stmt.blocks B (Statement A B E) := by
  intro ts s h
  cases h with
  | declare | assign | expr => exact nofun
  | ifElse _ _ hthen helse =>
    refine List.forall_mem_cons.2 ⟨(Within.all hthen).left.right.cons, fun b hb => ?_⟩
    cases helse with
    | none => cases hb
    | some _ hb' =>
      obtain rfl := List.mem_singleton.1 hb
      exact (Within.all hb').cons.right.right.cons
  | whileDo _ _ hbody => exact List.forall_mem_singleton.2 (Within.all hbody).right.cons
  | doWhile _ hbody _ _ _ => exact List.forall_mem_singleton.2 (Within.all hbody).left.cons
  | block hbody => exact List.forall_mem_singleton.2 (Within.all hbody)

/-- The expressions of a statement are derived from symbols of the statement. -/
theorem contains_ownExprs : Contains Stmt.ownExprs E (Statement A B E) := by
  have hparens : ∀ {ts e}, Parens A E ts e → Within E ts e := by
    intro ts e hp
    cases hp with
    | mk _ he _ => exact (Within.all he).left.cons
  intro ts s h
  cases h with
  | declare _ _ hinit _ =>
    intro e he
    cases hinit with
    | none => cases he
    | some _ he' =>
      obtain rfl := List.mem_singleton.1 he
      exact (Within.all he').cons.left.cons.cons
  | assign _ _ he _ => exact List.forall_mem_singleton.2 (Within.all he).left.cons.cons
  | ifElse _ htest _ _ => exact List.forall_mem_singleton.2 (hparens htest).left.cons
  | whileDo _ htest _ => exact List.forall_mem_singleton.2 (hparens htest).left.cons
  | doWhile _ _ _ htest _ => exact List.forall_mem_singleton.2 (hparens htest).left.cons.right.cons
  | block _ => exact nofun
  | expr he _ => exact List.forall_mem_singleton.2 (Within.all he).left

theorem contains_statement (hB : Contains (fun b => b.stmts.flatMap Stmt.nodes) M B)
    (hself : ∀ ts s, Statement A B E ts s → M ts s) :
    Contains Stmt.nodes M (Statement A B E) := by
  intro ts s h
  refine List.forall_mem_cons.2 ⟨.all (hself ts s h), fun x hx => ?_⟩
  rw [Stmt.nested_eq] at hx
  obtain ⟨b, hb, hx⟩ := List.mem_flatMap.1 hx
  obtain ⟨us, hus, hblock⟩ := contains_blocks ts s h b hb
  exact (hB us b hblock x hx).mono hus

end stmts

theorem contains_block {levels bound : Nat} (h : levels ≤ bound) :
    Contains (fun b => b.stmts.flatMap Stmt.nodes) (stmt A bound) (block A levels) := by
  induction levels with
  | zero =>
    intro ts b hb
    rw [block] at hb
    exact hb.elim
  | succ levels ih =>
    have hlevels : levels ≤ bound := Nat.le_of_succ_le h
    have hstmts := contains_statement (ih hlevels) (stmt_mono (A := A) hlevels)
    intro ts b hb x hx
    rw [block] at hb
    cases hb with
    | mk _ hm _ => exact (contains_many hstmts _ _ hm x hx).left.cons

/-- A statement at any depth is derived from symbols that stand together. -/
theorem stmt_contains_stmts (levels : Nat) :
    Contains Stmt.nodes (stmt A levels) (stmt A levels) :=
  contains_statement (contains_block (Nat.le_refl levels)) fun _ _ h => h

/-- A node of an expression of a statement is derived from symbols that stand together. -/
theorem stmt_contains_nodes {levels bound : Nat} (hbound : levels ≤ bound + 1) {ts : List α}
    {s : Stmt} {e x : Expr} (h : stmt A levels ts s) (he : e ∈ s.ownExprs) (hx : x ∈ e.nodes) :
    Within (node A bound) ts x := by
  obtain ⟨us, hus, hexpr⟩ := contains_ownExprs ts s h e he
  exact ((contains_expr hbound).1 us e hexpr x hx).mono hus

/-- A block covers the symbols it is derived from. -/
theorem block_span_eq {levels : Nat} {ts : List α} {b : Block Stmt} (h : block A levels ts b) :
    b.span = A.span ts := by
  cases levels with
  | zero =>
    rw [block] at h
    exact h.elim
  | succ levels =>
    rw [block] at h
    cases h
    rfl

/-- A statement covers the symbols it is derived from. -/
theorem stmt_span_eq {levels : Nat} {ts : List α} {s : Stmt} (h : stmt A levels ts s) :
    s.span = A.span ts := by
  cases h with
  | declare | assign | ifElse | whileDo | doWhile | expr => rfl
  | block hbody => exact block_span_eq hbody

end Grammar

end StaticCheck
