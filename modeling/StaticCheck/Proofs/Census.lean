import StaticCheck.Check
import StaticCheck.Proofs.Acceptance
import StaticCheck.Proofs.Counting

/-! # Counting tokens

The metrics of a text that checks can be counted on its tokens (`check_counts_tokens`): operators,
loops and conditionals have tokens of their own, and a declaration is either the keyword of a
built-in type or a pair of names that follow each other.

The census of some symbols is what they count.  It is not additive, since a pair of names may be
split between two parts, but it is where a symbol that is no name stands between them
(`census_append`).  Every rule of the grammar separates its parts so, or closes itself off at its
end. -/

namespace StaticCheck

/-! ### Kinds of tokens that count -/

namespace TokenKind

/-- The marks of operators. -/
def isOperator (kind : TokenKind) : Bool :=
  kind ∈ [.punct .plus, .punct .minus, .punct .star, .punct .slash, .punct .percent, .punct .bang,
    .punct .both, .punct .either, .punct .less, .punct .greater, .punct .atMost, .punct .atLeast,
    .punct .equals, .punct .notEquals]

/-- The keywords of the built-in types. -/
def isTypeWord (kind : TokenKind) : Bool :=
  kind ∈ [.keyword .int, .keyword .bool, .keyword .float, .keyword .list]

def isName : TokenKind → Bool
  | ident _ => true
  | _ => false

end TokenKind

/-! ### The census -/

namespace Alphabet

variable {α : Type} (A : Alphabet α)

/-- The number of pairs of names that follow each other. -/
def namePairs (ts : List α) : Nat :=
  (ts.zip ts.tail).countP fun p => (A.kind p.1).isName && (A.kind p.2).isName

/-- What some symbols count. -/
def census (ts : List α) : Metrics where
  declarations := ts.countP (fun t => (A.kind t).isTypeWord) + A.namePairs ts
  loops := ts.countP fun t => A.kind t == .keyword .whileWord
  conditionals := ts.countP (fun t => A.kind t == .keyword .ifWord) +
    ts.countP fun t => A.kind t == .punct .question
  operators := ts.countP fun t => (A.kind t).isOperator

variable {A}

theorem namePairs_cons_cons (a b : α) (ts : List α) : A.namePairs (a :: b :: ts) =
    A.namePairs (b :: ts) + if (A.kind a).isName && (A.kind b).isName then 1 else 0 := by
  simp only [namePairs, List.tail_cons, List.zip_cons_cons, List.countP_cons]

theorem namePairs_cons {sep : α} (h : (A.kind sep).isName = false) (ts : List α) :
    A.namePairs (sep :: ts) = A.namePairs ts := by
  cases ts with
  | nil => rfl
  | cons t ts => simp [namePairs_cons_cons, h]

/-- A symbol that is no name belongs to no pair. -/
theorem namePairs_append {sep : α} (h : (A.kind sep).isName = false) (ts us : List α) :
    A.namePairs (ts ++ sep :: us) = A.namePairs ts + A.namePairs us := by
  induction ts with
  | nil => rw [List.nil_append, namePairs_cons h]; exact (Nat.zero_add _).symm
  | cons t ts ih =>
    cases ts with
    | nil =>
      have single : A.namePairs [t] = 0 := rfl
      simp [namePairs_cons_cons, namePairs_cons h, h, single]
    | cons t' ts =>
      -- the pair of `t` and `t'` lies on this side of the separator, and the rest is the hypothesis
      simp only [List.cons_append] at ih ⊢
      rw [namePairs_cons_cons, namePairs_cons_cons, ih]
      omega

theorem census_nil : A.census [] = 0 := rfl

/-- Two parts count what they count alone if a symbol between them is no name. -/
theorem census_append {sep : α} (h : (A.kind sep).isName = false) (ts us : List α) :
    A.census (ts ++ sep :: us) = A.census ts + (A.census [sep] + A.census us) := by
  have alone : A.namePairs [sep] = 0 := rfl
  simp only [census, Metrics.add_def, namePairs_append h, alone, List.countP_append,
    List.countP_cons, List.countP_nil, Metrics.mk.injEq]
  omega

/-! ### Separators, closed and following parts -/

variable (A)

/-- A symbol that is no name, and what it counts alone. -/
structure Separates (sep : α) (m : Metrics) : Prop where
  noName : (A.kind sep).isName = false
  census : A.census [sep] = m

/-- The symbols count `m`, whatever comes after them. -/
def CountsBefore (ts : List α) (m : Metrics) : Prop := ∀ us, A.census (ts ++ us) = m + A.census us

/-- The symbols count `m`, whatever comes before them. -/
def CountsAfter (us : List α) (m : Metrics) : Prop := ∀ ts, A.census (ts ++ us) = A.census ts + m

variable {A}

theorem census_of_kind {t : α} {kind : TokenKind} (h : A.kind t = kind) :
    A.census [t] = kinds.census [kind] := by
  subst h
  rfl

theorem separates_punct {sep : α} {mark : Punct} {m : Metrics} (h : A.kind sep = .punct mark)
    (hm : kinds.census [.punct mark] = m) : A.Separates sep m :=
  ⟨by rw [h]; rfl, by rw [census_of_kind h, hm]⟩

theorem separates_keyword {sep : α} {word : Keyword} {m : Metrics} (h : A.kind sep = .keyword word)
    (hm : kinds.census [.keyword word] = m) : A.Separates sep m :=
  ⟨by rw [h]; rfl, by rw [census_of_kind h, hm]⟩

theorem Separates.census_append {sep : α} {m : Metrics} (h : A.Separates sep m) (ts us : List α) :
    A.census (ts ++ sep :: us) = A.census ts + (m + A.census us) := by
  rw [Alphabet.census_append h.noName, h.census]

theorem Separates.countsBefore {sep : α} {m : Metrics} (h : A.Separates sep m) :
    A.CountsBefore [sep] m := by
  intro us
  have := h.census_append [] us
  rwa [census_nil, zero_add] at this

theorem CountsBefore.nil : A.CountsBefore [] 0 := fun _ => (zero_add _).symm

theorem CountsBefore.append {ts us : List α} {m n : Metrics} (ht : A.CountsBefore ts m)
    (hu : A.CountsBefore us n) : A.CountsBefore (ts ++ us) (m + n) := by
  intro vs
  rw [List.append_assoc, ht, hu, add_assoc]

theorem CountsBefore.cons {sep : α} {us : List α} {m n : Metrics} (hs : A.Separates sep m)
    (hu : A.CountsBefore us n) : A.CountsBefore (sep :: us) (m + n) :=
  hs.countsBefore.append hu

/-- A symbol that counts nothing in front of a part. -/
theorem CountsBefore.open {sep : α} {us : List α} {n : Metrics} (hs : A.Separates sep 0)
    (hu : A.CountsBefore us n) : A.CountsBefore (sep :: us) n := by
  have := CountsBefore.cons hs hu
  rwa [zero_add] at this

/-- A part is closed by a symbol at its end. -/
theorem CountsBefore.close {ts : List α} {sep : α} {m : Metrics} (ht : A.census ts = m)
    (hs : A.Separates sep 0) : A.CountsBefore (ts ++ [sep]) m := by
  intro us
  rw [List.append_assoc, List.singleton_append, hs.census_append, ht, zero_add]

theorem CountsBefore.census {ts : List α} {m : Metrics} (h : A.CountsBefore ts m) :
    A.census ts = m := by
  have := h []
  rwa [List.append_nil, census_nil, add_zero] at this

theorem CountsAfter.nil : A.CountsAfter [] 0 := by
  intro ts
  rw [List.append_nil, add_zero]

theorem CountsAfter.cons {sep : α} {us vs : List α} {m n : Metrics} (hs : A.Separates sep m)
    (hv : A.CountsAfter vs n) : A.CountsAfter (sep :: (us ++ vs)) (m + (A.census us + n)) := by
  intro ts
  rw [hs.census_append, hv]

end Alphabet

/-! ### Expressions -/

namespace Expr

theorem metrics_atom {e : Expr} (hown : e.ownTally = 0) (hchildren : e.children = []) :
    e.metrics = 0 := by
  rw [metrics_eq, hown, hchildren]
  rfl

theorem metrics_list (items : List Expr) (span : Span) :
    (list items span).metrics = (items.map metrics).sum := by
  rw [metrics_eq]
  exact zero_add _

theorem metrics_unary (op : UnaryOp) (e : Expr) (span : Span) :
    (unary op e span).metrics = .ofOperators 1 + e.metrics := by
  rw [metrics_eq]
  exact congrArg _ (add_zero _)

/-- What the operators and operands behind the first operand of a chain count. -/
def linkMetrics {ω : Type} (rest : List (Link ω Expr)) : Metrics :=
  .ofOperators rest.length + (rest.map fun link => link.operand.metrics).sum

theorem linkMetrics_cons {ω : Type} (link : Link ω Expr) (rest : List (Link ω Expr)) :
    linkMetrics (link :: rest) = .ofOperators 1 + (link.operand.metrics + linkMetrics rest) := by
  have more : Metrics.ofOperators (rest.length + 1) =
      .ofOperators 1 + .ofOperators rest.length := by
    rw [Nat.add_comm]
    rfl
  rw [linkMetrics, List.length_cons, more, List.map_cons, List.sum_cons, linkMetrics]
  ac_rfl

/-- A chain counts what its first operand and its links do. -/
theorem metrics_chain {ω : Type} {e first : Expr} {rest : List (Link ω Expr)}
    (hown : e.ownTally = .ofOperators rest.length)
    (hchildren : e.children = first :: rest.map Link.operand) :
    e.metrics = first.metrics + linkMetrics rest := by
  rw [metrics_eq, hown, hchildren, List.map_cons, List.sum_cons, List.map_map, linkMetrics]
  exact add_left_comm _ _ _

theorem metrics_compare (left right : Expr) (op : CompareOp) (span : Span) :
    (compare left (some ⟨op, right⟩) span).metrics =
      left.metrics + (.ofOperators 1 + right.metrics) := by
  rw [metrics_eq]
  change _ + (_ + (_ + 0)) = _
  rw [add_zero, add_left_comm]
  rfl

theorem metrics_ternary (test thenArm elseArm : Expr) (span : Span) :
    (ternary test thenArm elseArm span).metrics =
      test.metrics + (.conditional + (thenArm.metrics + elseArm.metrics)) := by
  rw [metrics_eq]
  change _ + (_ + (_ + (_ + 0))) = _
  rw [add_zero, add_left_comm]
  rfl

end Expr

namespace Grammar

open Alphabet

variable {α ω : Type} {A : Alphabet α}

/-- The symbols of an expression count what its tree does. -/
def Counted (A : Alphabet α) (P : Phrase α Expr) : Prop :=
  ∀ {ts e}, P ts e → A.census ts = e.metrics

section rules

variable {expr operand : Phrase α Expr}

theorem countsAfter_links {mark : ω → Punct} {us : List α} {rest : List (Link ω Expr)}
    (hmark : ∀ op, kinds.census [.punct (mark op)] = .ofOperators 1) (hop : Counted A operand)
    (h : Many (Linked A mark operand) us rest) : A.CountsAfter us (Expr.linkMetrics rest) := by
  induction h with
  | nil => exact .nil
  | cons hlink _ ih =>
    cases hlink with
    | @mk sign op ts e hk he =>
      rw [Expr.linkMetrics_cons, ← hop he]
      exact .cons (separates_punct hk (hmark op)) ih

theorem counted_chain {mark : ω → Punct} {node : Expr → List (Link ω Expr) → Span → Expr}
    (hmark : ∀ op, kinds.census [.punct (mark op)] = .ofOperators 1)
    (hnode : ∀ first rest span, (node first rest span).metrics =
      first.metrics + Expr.linkMetrics rest) (hop : Counted A operand) :
    Counted A (Chain A mark node operand) := by
  intro ts e h
  cases h with
  | single he => exact hop he
  | chain hfirst hrest _ => rw [countsAfter_links hmark hop hrest, hop hfirst, hnode]

theorem countsAfter_further {us : List α} {rest : List Expr} (hexpr : Counted A expr)
    (h : Many (Further A expr) us rest) : A.CountsAfter us (rest.map Expr.metrics).sum := by
  induction h with
  | nil => exact .nil
  | cons hitem _ ih =>
    cases hitem with
    | mk hk he =>
      rw [List.map_cons, List.sum_cons, ← hexpr he, ← zero_add (_ + _)]
      exact .cons (separates_punct hk rfl) ih

theorem countsBefore_parens {ts : List α} {e : Expr} (hexpr : Counted A expr)
    (h : Parens A expr ts e) : A.CountsBefore ts e.metrics := by
  cases h with
  | mk hl he hr =>
    exact .open (separates_punct hl rfl) (.close (hexpr he) (separates_punct hr rfl))

theorem counted_primary (hexpr : Counted A expr) : Counted A (Primary A expr) := by
  intro ts e h
  cases h with
  | int hk | real hk | ident hk =>
    rw [census_of_kind hk, Expr.metrics_atom rfl rfl]
    rfl
  | @bool t value hk =>
    rw [census_of_kind hk, Expr.metrics_atom rfl rfl]
    cases value <;> rfl
  | emptyList hl hr =>
    have hcount := CountsBefore.open (separates_punct hl rfl) (separates_punct hr rfl).countsBefore
    rw [hcount.census, Expr.metrics_list]
    rfl
  | @list l r ts us first rest hl hfirst hrest hr =>
    have hitems : A.census (ts ++ us) = ((first :: rest).map Expr.metrics).sum := by
      rw [countsAfter_further hexpr hrest, hexpr hfirst, List.map_cons, List.sum_cons]
    rw [Expr.metrics_list, ← List.append_assoc]
    exact (CountsBefore.open (separates_punct hl rfl)
      (.close hitems (separates_punct hr rfl))).census
  | parens hp => exact (countsBefore_parens hexpr hp).census

theorem counted_unary (hexpr : Counted A expr) (hop : Counted A operand) :
    Counted A (Unary A expr operand) := by
  intro ts e h
  cases h with
  | @unary sign op ts e hk he =>
    have hsign : kinds.census [.punct op.mark] = .ofOperators 1 := by cases op <;> rfl
    rw [Expr.metrics_unary, ← hop he]
    exact (separates_punct hk hsign).countsBefore ts
  | primary hp => exact counted_primary hexpr hp

theorem counted_mul (hexpr : Counted A expr) (hop : Counted A operand) :
    Counted A (Mul A expr operand) :=
  counted_chain (fun op => by cases op <;> rfl) (fun _ _ _ => Expr.metrics_chain rfl rfl)
    (counted_unary hexpr hop)

theorem counted_add (hexpr : Counted A expr) (hop : Counted A operand) :
    Counted A (Add A expr operand) :=
  counted_chain (fun op => by cases op <;> rfl) (fun _ _ _ => Expr.metrics_chain rfl rfl)
    (counted_mul hexpr hop)

theorem counted_comp (hexpr : Counted A expr) (hop : Counted A operand) :
    Counted A (Comp A expr operand) := by
  intro ts e h
  cases h with
  | single he => exact counted_add hexpr hop he
  | @compare ts us sign op left right hleft hk hright =>
    have hsign : kinds.census [.punct op.mark] = .ofOperators 1 := by cases op <;> rfl
    rw [(separates_punct hk hsign).census_append, counted_add hexpr hop hleft,
      counted_add hexpr hop hright, Expr.metrics_compare]

theorem counted_logic (hexpr : Counted A expr) (hop : Counted A operand) :
    Counted A (Logic A expr operand) :=
  counted_chain (fun op => by cases op <;> rfl) (fun _ _ _ => Expr.metrics_chain rfl rfl)
    (counted_comp hexpr hop)

theorem counted_choice (hexpr : Counted A expr) (hop : Counted A operand) :
    Counted A (Choice A expr operand) := by
  intro ts e h
  cases h with
  | single he => exact counted_logic hexpr hop he
  | @ternary ts us vs q k test thenArm elseArm htest hq hthen hk helse =>
    have hquestion : A.Separates q .conditional := separates_punct hq rfl
    have hcolon : A.Separates k 0 := separates_punct hk rfl
    rw [hquestion.census_append, hcolon.census_append, counted_logic hexpr hop htest, hexpr hthen,
      hexpr helse, zero_add, Expr.metrics_ternary]

end rules

/-- Expressions and operands count alike, by induction on the levels they may nest. -/
theorem counted_expr_operand (levels : Nat) :
    Counted A (Grammar.expr A levels) ∧ Counted A (Grammar.operand A levels) := by
  induction levels with
  | zero => exact ⟨False.elim, False.elim⟩
  | succ levels ih => exact ⟨counted_choice ih.1 ih.2, counted_unary ih.1 ih.2⟩

theorem counted_expr (levels : Nat) : Counted A (Grammar.expr A levels) :=
  (counted_expr_operand levels).1

/-! ### Statements -/

/-- The symbols of a block count what its statements do, whatever comes after it. -/
def CountedBlock (A : Alphabet α) (P : Phrase α (Block Stmt)) : Prop :=
  ∀ {ts b}, P ts b → A.CountsBefore ts (Stmt.metricsAll b.stmts)

/-- The symbols of a statement count what its tree does, whatever comes after it. -/
def CountedStmt (A : Alphabet α) (P : Phrase α Stmt) : Prop :=
  ∀ {ts s}, P ts s → A.CountsBefore ts s.metrics

theorem countsBefore_many {P : Phrase α Stmt} {ts : List α} {stmts : List Stmt}
    (hstmt : CountedStmt A P) (h : Many P ts stmts) :
    A.CountsBefore ts (Stmt.metricsAll stmts) := by
  induction h with
  | nil => exact .nil
  | cons hs _ ih => exact (hstmt hs).append ih

theorem counted_braces {P : Phrase α Stmt} (hstmt : CountedStmt A P) :
    CountedBlock A (Braces A P) := by
  intro ts b h
  cases h with
  | mk hl hs hr =>
    exact .open (separates_punct hl rfl)
      (.close (countsBefore_many hstmt hs).census (separates_punct hr rfl))

/-- A type and a name are one declaration: the type is a keyword that counts, or the two are a pair
of names. -/
theorem census_typeName {type name : α} {typeName x : String} (ht : TypeName (A.kind type) typeName)
    (hx : A.kind name = .ident x) : A.census [type, name] = .declaration := by
  have hkinds : A.census [type, name] = kinds.census [A.kind type, A.kind name] := rfl
  rw [hkinds, hx]
  generalize A.kind type = kind at ht
  cases ht with
  | @builtin word hword => cases word <;> first | rfl | cases hword
  | other => rfl

theorem countsAfter_init {expr : Phrase α Expr} {ts : List α} {init : Option Expr}
    (hexpr : Counted A expr) (h : Optional A (.punct .assign) expr ts init) :
    A.CountsAfter ts (init.elim 0 Expr.metrics) := by
  cases h with
  | none => exact .nil
  | some hk he =>
    intro us
    rw [(separates_punct hk rfl).census_append, hexpr he]
    exact congrArg _ (zero_add _)

theorem counted_statement {block : Phrase α (Block Stmt)} {expr : Phrase α Expr}
    (hblock : CountedBlock A block) (hexpr : Counted A expr) :
    CountedStmt A (Statement A block expr) := by
  intro ts s h
  cases h with
  | @declare type name semi ts typeName x init ht hx hinit hsemi =>
    -- only here may two names meet, so the first two tokens are counted together
    have hdecl : A.census ([type, name] ++ ts) = .declaration + init.elim 0 Expr.metrics := by
      rw [countsAfter_init hexpr hinit, census_typeName ht hx]
    rw [Stmt.metrics]
    exact .close hdecl (separates_punct hsemi rfl)
  | @assign name eq semi ts x e hx heq he hsemi =>
    have hassign : A.census ([name] ++ eq :: ts) = e.metrics := by
      rw [(separates_punct heq rfl).census_append, census_of_kind hx, hexpr he]
      exact (zero_add _).trans (zero_add _)
    rw [Stmt.metrics]
    exact .close hassign (separates_punct hsemi rfl)
  | ifElse hword htest hbody hother =>
    have hif : A.Separates _ .conditional := separates_keyword hword rfl
    cases hother with
    | none =>
      rw [Stmt.metrics, List.append_nil]
      exact .cons hif ((countsBefore_parens hexpr htest).append (hblock hbody))
    | some helse hother =>
      rw [Stmt.metrics]
      exact .cons hif ((countsBefore_parens hexpr htest).append
        ((hblock hbody).append (.open (separates_keyword helse rfl) (hblock hother))))
  | whileDo hword htest hbody =>
    rw [Stmt.metrics]
    exact .cons (separates_keyword hword rfl)
      ((countsBefore_parens hexpr htest).append (hblock hbody))
  | doWhile hdo hbody hwhile htest hsemi =>
    -- the tokens count the loop at its `while`, which stands behind the body
    rw [Stmt.metrics, add_left_comm]
    exact .open (separates_keyword hdo rfl) ((hblock hbody).append
      (.cons (separates_keyword hwhile rfl)
        (.close (countsBefore_parens hexpr htest).census (separates_punct hsemi rfl))))
  | block hbody =>
    rw [Stmt.metrics]
    exact hblock hbody
  | expr he hsemi =>
    rw [Stmt.metrics]
    exact .close (hexpr he) (separates_punct hsemi rfl)

theorem counted_block (levels : Nat) : CountedBlock A (Grammar.block A levels) := by
  induction levels with
  | zero => exact False.elim
  | succ levels ih => exact counted_braces (counted_statement ih (counted_expr levels))

theorem counted_stmt (levels : Nat) : CountedStmt A (Grammar.stmt A levels) :=
  counted_statement (counted_block levels) (counted_expr levels)

end Grammar

/-! ### Texts -/

theorem check_eq_ok_iff {source : String} {m : Metrics} :
    check source = .ok m ↔ ∃ p, parse source = .ok p ∧ p.analyze = .ok m := by
  have silent : Options.none.tokenNotes source = .ok [] := rfl
  unfold check checkWith
  rw [silent]
  cases hparse : parse source with
  | error e => simp
  | ok p =>
    simp only [Except.ok.injEq, exists_eq_left', Program.analyze]
    cases p.check.outcome with
    | error e =>
      change Except.error (Failure.semantic e) = Except.ok m ↔ _
      simp
    | ok n =>
      change Except.ok n = Except.ok m ↔ _
      simp

/-- **The metrics are a count of tokens.**  If a text checks, its metrics are what its tokens
count: operators are the marks of operators, loops the `while`s, conditionals the `if`s and
question marks, and declarations the keywords of types and the pairs of names that follow each
other. -/
theorem check_counts_tokens (source : String) (m : Metrics) (h : check source = .ok m) :
    ∃ ts, tokenize source = .ok ts ∧
      m.operators = ts.countP (fun t => t.kind.isOperator) ∧
      m.loops = ts.countP (fun t => t.kind == .keyword .whileWord) ∧
      m.conditionals = ts.countP (fun t => t.kind == .keyword .ifWord) +
        ts.countP (fun t => t.kind == .punct .question) ∧
      m.declarations = ts.countP (fun t => t.kind.isTypeWord) +
        (ts.zip ts.tail).countP (fun p => p.1.kind.isName && p.2.kind.isName) := by
  obtain ⟨p, hparse, hm⟩ := check_eq_ok_iff.1 h
  obtain ⟨ts, stop, htok, hstmts, -⟩ := parse_eq_ok_iff.1 hparse
  have hstop : Alphabet.tokens.census [stop] = 0 :=
    Alphabet.census_of_kind (A := .tokens) (kind_of_tokenize htok)
  have hcount : m = Alphabet.tokens.census (ts ++ [stop]) := by
    rw [Grammar.countsBefore_many (Grammar.counted_stmt nestingLimit) hstmts, hstop, add_zero,
      p.metrics_of_analyze hm]
  subst hcount
  exact ⟨_, htok, rfl, rfl, rfl, rfl⟩

/-- Two operators, a loop and a declaration with a type of its own, counted on the tokens. -/
theorem check_counts_tokens_loop :
    ∃ ts, tokenize "T b; while (-1 < 2) \x7b\x7d" = .ok ts ∧
      2 = ts.countP (fun t => t.kind.isOperator) ∧
      1 = ts.countP (fun t => t.kind == .keyword .whileWord) ∧
      0 = ts.countP (fun t => t.kind == .keyword .ifWord) +
        ts.countP (fun t => t.kind == .punct .question) ∧
      1 = ts.countP (fun t => t.kind.isTypeWord) +
        (ts.zip ts.tail).countP (fun p => p.1.kind.isName && p.2.kind.isName) :=
  check_counts_tokens "T b; while (-1 < 2) \x7b\x7d" ⟨1, 1, 0, 2⟩ (by decide +kernel)

end StaticCheck
