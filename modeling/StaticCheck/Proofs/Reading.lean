import StaticCheck.Expr.Parser
import StaticCheck.Proofs.Grammar.Openings
import StaticCheck.Proofs.Taking

/-! # Phrases are read

On the symbols of a derivation a parser `Answers` with the derived tree, unless one of the symbols
opens a level of nesting beyond the limit.  Then it fails at the first of these, whatever stands
behind it.  The parts of a rule stand one behind the other, and so do the parsers of its parts: with
`answers_bind` their answers join to the answer on all symbols of the rule.  `Handles` says that a
parser answers on everything that a phrase derives, and passes from the parts of a rule to the rule
(`handles_primary`, `handles_chain`, `handles_comparison`, `handles_conditional`).

Which symbols these are is left open, as long as each stands for a token (`Symbols`).  If they are
tokens, none of them opens a level by itself: what the grammar derives is then accepted with the
same tree (`Handles.complete`). -/

namespace StaticCheck

open Grammar TokenKind

variable {α τ υ ω : Type} {A : Alphabet α}

/-- The tokens that symbols stand for. -/
structure Symbols (A : Alphabet α) where
  token : α → Token
  /-- The level that opens at the symbol is one too many. -/
  deep : α → Bool
  of_kind {x : α} {kind : TokenKind} : A.kind x = kind → kind ≠ .eof →
    deep x = false ∧ (token x).kind = kind
  span (xs : List α) : A.span xs = Alphabet.cover (xs.map token)

namespace Symbols

open StaticCheck.Parser

variable {S : Symbols A}

/-! ### Answers -/

/-- On the symbols the parser gives the value and the cursor behind them, unless levels too many
open: then it fails at the first symbol at which one does. -/
def Answers (S : Symbols A) (p : Parser τ) (c : Cursor) (xs : List α) (a : τ) (d : Cursor) : Prop :=
  match xs.find? S.deep with
  | none => p c = .ok a d
  | some x => ∃ m, p c = .error (.syntactic .tooDeep (S.token x).span) m

section answers

variable {p : Parser τ} {f : τ → Parser υ} {c m d : Cursor} {a : τ} {b : υ} {x : α} {xs ys : List α}

theorem answers_of_shallow (hxs : ∀ x ∈ xs, S.deep x = false) (h : p c = .ok a d) :
    S.Answers p c xs a d := by
  have hnone : xs.find? S.deep = none := List.find?_eq_none.2 fun x hx => by simp [hxs x hx]
  rw [Answers, hnone]
  exact h

theorem answers_bind (hp : S.Answers p c xs a m) (hf : S.Answers (f a) m ys b d) :
    S.Answers (p >>= f) c (xs ++ ys) b d := by
  unfold Answers at hp hf ⊢
  rw [List.find?_append]
  cases hxs : xs.find? S.deep with
  | none =>
    rw [hxs] at hp
    rw [Option.none_or, bind_of_ok hp]
    exact hf
  | some x =>
    rw [hxs] at hp
    obtain ⟨n, hp⟩ := hp
    exact ⟨n, bind_eq_error_iff.2 (.inl hp)⟩

/-- A parser that takes no token. -/
theorem answers_step (hp : p c = .ok a m) (hf : S.Answers (f a) m xs b d) :
    S.Answers (p >>= f) c xs b d := by
  have hnil : S.Answers p c [] a m := hp
  exact answers_bind hnil hf

/-- A parser that takes a token at which no level opens. -/
theorem answers_token (hx : S.deep x = false) (hp : p c = .ok a m)
    (hf : S.Answers (f a) m xs b d) : S.Answers (p >>= f) c (x :: xs) b d :=
  answers_bind (answers_of_shallow (List.forall_mem_singleton.2 hx) hp) hf

theorem answers_last (hp : S.Answers p c xs a m) (hf : f a m = .ok b d) :
    S.Answers (p >>= f) c xs b d := by
  have hnil : S.Answers (f a) m [] b d := hf
  have hbind := answers_bind hp hnil
  rwa [List.append_nil] at hbind

theorem answers_expect {f : Token → Parser υ} {wanted : TokenKind} (hx : A.kind x = wanted)
    (hw : wanted ≠ .eof) (ht : c.Takes [S.token x] m) (hf : S.Answers (f (S.token x)) m xs b d) :
    S.Answers (expect wanted >>= f) c (x :: xs) b d := by
  obtain ⟨hdeep, hkind⟩ := S.of_kind hx hw
  exact answers_token hdeep ((expect_eq_ok_iff hw).2 ⟨hkind, ht⟩) hf

/-- The tree is made at the end of a rule, and covers the symbols of the rule. -/
theorem spanFrom_of_takes (node : Span → τ) (ht : c.Takes (xs.map S.token) d) (hne : xs ≠ []) :
    (do return node (← spanFrom c.current.span) : Parser τ) d = .ok (node (A.span xs)) d := by
  rw [S.span xs, ht.cover_eq (by simpa using hne)]
  rfl

theorem span_singleton (S : Symbols A) (x : α) : A.span [x] = (S.token x).span := by
  rw [S.span, List.map_singleton, Alphabet.cover_singleton]

theorem takes_append (h : c.Takes ((xs ++ ys).map S.token) d) :
    ∃ m, c.Takes (xs.map S.token) m ∧ m.Takes (ys.map S.token) d := by
  rw [List.map_append] at h
  exact h.split

end answers

/-- The parser answers on all that the phrase derives, as long as a token of `stop` follows. -/
structure Handles (S : Symbols A) (p : Parser τ) (P : Phrase α τ) (stop : TokenKind → Prop) :
    Prop where
  answers {c d : Cursor} {xs : List α} {a : τ} : c.Takes (xs.map S.token) d → P xs a →
    stop d.current.kind → S.Answers p c xs a d

/-! ### Repetition -/

/-- A step answers on each phrase of a repetition, and ends the repetition where `done` holds. -/
theorem handles_collect {step : Parser (Option τ)} {P : Phrase α τ} {done stop : TokenKind → Prop}
    (hsome : ∀ {c d : Cursor} {xs : List α} {a : τ}, c.Takes (xs.map S.token) d →
      P xs a → stop d.current.kind → S.Answers step c xs (some a) d)
    (hnone : ∀ {c : Cursor}, done c.current.kind → step c = .ok none c)
    (hopen : ∀ {xs : List α} {a : τ}, P xs a → ∃ x ys, xs = x :: ys ∧ stop (S.token x).kind) :
    S.Handles (collect step) (Many P) fun kind => done kind ∧ stop kind := by
  constructor
  intro c d xs as ht hm hk
  induction hm generalizing c with
  | nil =>
    cases ht
    exact answers_of_shallow (by simp) (collect_of_none (hnone hk.1))
  | @cons xs ys a rest hp hm ih =>
    obtain ⟨m, h₁, h₂⟩ := takes_append ht
    -- behind the first phrase stands the next one or the end of the repetition
    have hstop : stop m.current.kind := by
      cases hm with
      | nil =>
        cases h₂
        exact hk.2
      | cons hp' _ =>
        obtain ⟨x, zs, rfl, hx⟩ := hopen hp'
        rw [h₂.current]
        exact hx
    have hstep := hsome h₁ hp hstop
    have hrest : S.Answers (do return a :: (← collect step)) m ys (a :: rest) d :=
      answers_last (ih h₂) rfl
    obtain ⟨x, zs, rfl, -⟩ := hopen hp
    have hlt := h₁.remaining_lt (by simp)
    unfold Answers at hstep hrest ⊢
    rw [List.find?_append]
    cases hxs : (x :: zs).find? S.deep with
    | some y =>
      rw [hxs] at hstep
      obtain ⟨n, hstep⟩ := hstep
      exact ⟨n, collect_of_error hstep⟩
    | none =>
      rw [hxs] at hstep
      rw [Option.none_or, collect_of_some hstep hlt]
      exact hrest

/-! ### Lists and parentheses -/

variable {expression operand : Parser Expr} {E O : Phrase α Expr}

/-- An expression ends where a closing parenthesis follows. -/
theorem endsExpr_of_closeParen {c d : Cursor} {r : α} (hr : A.kind r = .punct .closeParen)
    (ht : c.Takes [S.token r] d) : endsExpr c.current.kind := by
  rw [ht.current, (S.of_kind hr (by simp)).2]
  exact endsExpr_closeParen

section lists

variable (hE : S.Handles expression E endsExpr)

include hE

/-- The further items of a list, each behind a comma. -/
theorem handles_further : S.Handles
    (collect do if ← accept (.punct .comma) then return some (← expression) else return none)
    (Many (Further A E)) fun kind => kind ≠ .punct .comma ∧ endsExpr kind := by
  refine handles_collect ?_ ?_ ?_
  · rintro c d _ e ht ⟨hk, he⟩ hend
    obtain ⟨hdeep, hk⟩ := S.of_kind hk (by simp)
    obtain ⟨m, h₁, h₂⟩ := ht.uncons
    refine answers_token hdeep ((accept_eq_true_iff (by simp)).2 ⟨_, hk, h₁⟩) ?_
    rw [if_pos rfl]
    exact answers_last (hE.answers h₂ he hend) rfl
  · intro c hk
    exact bind_of_ok (accept_eq_false_iff.2 ⟨hk, rfl⟩)
  · rintro _ _ ⟨hk, -⟩
    exact ⟨_, _, rfl, (S.of_kind hk (by simp)).2 ▸ endsExpr_comma⟩

omit hE in
theorem answers_emptyList {c d : Cursor} {l r : α} (hl : A.kind l = .punct .openBracket)
    (hr : A.kind r = .punct .closeBracket) (ht : c.Takes ([l, r].map S.token) d) :
    S.Answers (listLiteral expression) c [l, r] (.list [] (A.span [l, r])) d := by
  obtain ⟨c₁, h₁, h₂⟩ := ht.uncons
  have hclose : c₁.current.kind = .punct .closeBracket := by
    rw [h₂.current, (S.of_kind hr (by simp)).2]
  refine answers_step (current_eq_ok_iff.2 ⟨rfl, rfl⟩) ?_
  refine answers_expect hl (by simp) h₁ ?_
  refine answers_step (current_eq_ok_iff.2 ⟨rfl, rfl⟩) ?_
  rw [if_pos hclose]
  exact answers_expect hr (by simp) h₂ (spanFrom_of_takes _ ht (by simp))

variable (ho : ∀ {xs : List α} {e : Expr}, E xs e → Opens .tokens (xs.map S.token))

include ho

theorem answers_list {c d : Cursor} {l r : α} {xs ys : List α} {first : Expr} {rest : List Expr}
    (hl : A.kind l = .punct .openBracket) (hf : E xs first) (hm : Many (Further A E) ys rest)
    (hr : A.kind r = .punct .closeBracket)
    (ht : c.Takes ((l :: (xs ++ (ys ++ [r]))).map S.token) d) :
    S.Answers (listLiteral expression) c (l :: (xs ++ (ys ++ [r])))
      (.list (first :: rest) (A.span (l :: (xs ++ (ys ++ [r]))))) d := by
  obtain ⟨c₁, h₁, h⟩ := ht.uncons
  obtain ⟨c₂, h₂, h⟩ := takes_append h
  obtain ⟨c₃, h₃, h₄⟩ := takes_append h
  have hopen : c₁.current.kind ≠ .punct .closeBracket := by
    obtain ⟨t, ts, hts, hopen, -⟩ := ho hf
    rw [hts] at h₂
    rw [h₂.current]
    intro hk
    rw [Alphabet.kind_tokens, hk] at hopen
    cases hopen
  have hlast : c₃.current.kind = .punct .closeBracket := by
    rw [h₄.current, (S.of_kind hr (by simp)).2]
  have hnext : endsExpr c₂.current.kind := by
    cases hm with
    | nil =>
      cases h₃
      rw [hlast]
      exact endsExpr_closeBracket
    | cons hp _ =>
      obtain ⟨hk, -⟩ := hp
      rw [h₃.current, (S.of_kind hk (by simp)).2]
      exact endsExpr_comma
  refine answers_step (current_eq_ok_iff.2 ⟨rfl, rfl⟩) ?_
  refine answers_expect hl (by simp) h₁ ?_
  refine answers_step (current_eq_ok_iff.2 ⟨rfl, rfl⟩) ?_
  rw [if_neg hopen]
  refine answers_bind (hE.answers h₂ hf hnext) ?_
  refine answers_bind ((handles_further hE).answers h₃ hm ?_) ?_
  · rw [hlast]
    exact ⟨by simp, endsExpr_closeBracket⟩
  · exact answers_expect hr (by simp) h₄ (spanFrom_of_takes _ ht (by simp))

omit hE ho in
/-- A token that is an expression by itself. -/
theorem answers_atom {c d : Cursor} {x : α} {node : Span → Expr} (hx : S.deep x = false)
    (ht : c.Takes [S.token x] d) :
    S.Answers (do let _ ← advance; return node (S.token x).span) c [x] (node (A.span [x])) d := by
  rw [S.span_singleton]
  exact answers_token hx (takes_singleton_iff.1 ht).2 rfl

theorem handles_primary : S.Handles (primary expression) (Primary A E) fun _ => True := by
  constructor
  intro c d xs e ht hp _
  refine answers_step (current_eq_ok_iff.2 ⟨rfl, rfl⟩) ?_
  cases hp with
  | int hk =>
    obtain ⟨hdeep, hk⟩ := S.of_kind hk (by simp)
    rw [ht.current, hk]
    exact answers_atom hdeep ht
  | real hk =>
    obtain ⟨hdeep, hk⟩ := S.of_kind hk (by simp)
    rw [ht.current, hk]
    exact answers_atom hdeep ht
  | @bool x value hk =>
    obtain ⟨hdeep, hk⟩ := S.of_kind hk (by simp)
    rw [ht.current, hk]
    cases value <;> exact answers_atom hdeep ht
  | ident hk =>
    obtain ⟨hdeep, hk⟩ := S.of_kind hk (by simp)
    rw [ht.current, hk]
    exact answers_atom hdeep ht
  | emptyList hl hr =>
    rw [ht.current, (S.of_kind hl (by simp)).2]
    exact answers_emptyList hl hr ht
  | list hl hf hm hr =>
    rw [ht.current, (S.of_kind hl (by simp)).2]
    exact answers_list hE ho hl hf hm hr ht
  | parens hp =>
    obtain ⟨hl, he, hr⟩ := hp
    obtain ⟨hdeep, hl⟩ := S.of_kind hl (by simp)
    obtain ⟨c₁, h₁, h⟩ := ht.uncons
    obtain ⟨c₂, h₂, h₃⟩ := takes_append h
    rw [ht.current, hl]
    refine answers_token hdeep (takes_singleton_iff.1 h₁).2 ?_
    refine answers_bind (hE.answers h₂ he (endsExpr_of_closeParen hr h₃)) ?_
    exact answers_expect hr (by simp) h₃ rfl

/-! ### Operators -/

theorem handles_unary (hO : S.Handles operand O fun _ => True) :
    S.Handles (unary expression operand) (Unary A E O) fun _ => True := by
  constructor
  intro c d xs e ht hu _
  refine answers_step (current_eq_ok_iff.2 ⟨rfl, rfl⟩) ?_
  cases hu with
  | primary hp =>
    obtain ⟨x, ys, rfl, hx⟩ := hp.opens.first
    obtain ⟨_, _, heq, hk⟩ := hp.unsigned
    cases heq
    rw [ht.current, (S.of_kind rfl hx).2, hk]
    exact (handles_primary hE ho).answers ht hp trivial
  | unary hk he =>
    obtain ⟨hdeep, hk⟩ := S.of_kind hk (by simp)
    obtain ⟨c₁, h₁, h₂⟩ := ht.uncons
    rw [ht.current, Operator.ofToken?_eq_some_iff.2 hk]
    refine answers_token hdeep (takes_singleton_iff.1 h₁).2 ?_
    refine answers_last (hO.answers h₂ he trivial) ?_
    rw [← ht.current]
    exact spanFrom_of_takes _ ht (by simp)

end lists

section chains

open Operator

variable [Operator ω] {stop : TokenKind → Prop}

/-- The links of a chain, each behind an operator. -/
theorem handles_links (hO : S.Handles operand O stop) (hs : ∀ op : ω, stop (.punct (mark op))) :
    S.Handles (collect (link? operand : Parser (Option (Link ω Expr)))) (Many (Linked A mark O))
      fun kind => ofToken? ω kind = none ∧ stop kind := by
  refine handles_collect ?_ ?_ ?_
  · rintro c d _ _ ht ⟨hk, he⟩ hend
    obtain ⟨hdeep, hk⟩ := S.of_kind hk (by simp)
    obtain ⟨m, h₁, h₂⟩ := ht.uncons
    refine answers_step (current_eq_ok_iff.2 ⟨ht.current, rfl⟩) ?_
    rw [ofToken?_eq_some_iff.2 hk]
    refine answers_token hdeep (takes_singleton_iff.1 h₁).2 ?_
    exact answers_last (hO.answers h₂ he hend) rfl
  · intro c hk
    refine (bind_of_ok (current_eq_ok_iff.2 ⟨rfl, rfl⟩)).trans ?_
    rw [hk]
    rfl
  · rintro _ _ ⟨hk, -⟩
    exact ⟨_, _, rfl, (S.of_kind hk (by simp)).2 ▸ hs _⟩

theorem handles_chain (node : Expr → List (Link ω Expr) → Span → Expr)
    (hO : S.Handles operand O stop) (hs : ∀ op : ω, stop (.punct (mark op)))
    (ho : ∀ {xs e}, O xs e → xs ≠ []) : S.Handles (chain node operand) (Chain A mark node O)
      fun kind => ofToken? ω kind = none ∧ stop kind := by
  have hlinks := handles_links hO hs
  constructor
  intro c d xs e ht hc hk
  refine answers_step (current_eq_ok_iff.2 ⟨rfl, rfl⟩) ?_
  cases hc with
  | single hf =>
    refine answers_last (hO.answers ht hf hk.2) ?_
    exact bind_of_ok (hlinks.answers (.nil d) .nil hk)
  | chain hf hm hne =>
    obtain ⟨c₁, h₁, h₂⟩ := takes_append ht
    have hstop : stop c₁.current.kind := by
      obtain ⟨sign, op, ws, rfl, hsign⟩ := Linked.uncons hm hne
      rw [h₂.current, (S.of_kind hsign (by simp)).2]
      exact hs op
    refine answers_bind (hO.answers h₁ hf hstop) ?_
    refine answers_last (hlinks.answers h₂ hm hk) ?_
    rw [if_neg (by simpa using hne)]
    exact spanFrom_of_takes _ ht (by simp [ho hf])

end chains

section layers

variable (hE : S.Handles expression E endsExpr) (hO : S.Handles operand O fun _ => True)
  (ho : ∀ {xs : List α} {e : Expr}, E xs e → Opens .tokens (xs.map S.token))

include hE hO ho

theorem handles_additive : S.Handles (additive expression operand) (Add A E O) endsAdd := by
  have hmul : S.Handles (multiplicative expression operand) (Mul A E O) endsMul := by
    have hchain := handles_chain .multiplicative (handles_unary hE ho hO)
      (fun _ => trivial) fun h => h.opens.ne_nil
    exact ⟨fun ht hp hk => hchain.answers ht hp ⟨hk, trivial⟩⟩
  exact handles_chain .additive hmul endsMul_add fun h => (Mul.opens h).ne_nil

theorem handles_comparison : S.Handles (comparison expression operand) (Comp A E O) endsComp := by
  have hadd := handles_additive hE hO ho
  constructor
  intro c d xs e ht hc hk
  refine answers_step (current_eq_ok_iff.2 ⟨rfl, rfl⟩) ?_
  cases hc with
  | single hl =>
    refine answers_last (hadd.answers ht hl hk.2) ?_
    refine (bind_of_ok (current_eq_ok_iff.2 ⟨rfl, rfl⟩)).trans ?_
    rw [hk.1]
    rfl
  | compare hl hs hr =>
    obtain ⟨hdeep, hs⟩ := S.of_kind hs (by simp)
    obtain ⟨c₁, h₁, h⟩ := takes_append ht
    obtain ⟨c₂, h₂, h₃⟩ := h.uncons
    have hstop : endsAdd c₁.current.kind := by
      rw [h₂.current, hs]
      exact endsAdd_compare _
    refine answers_bind (hadd.answers h₁ hl hstop) ?_
    refine answers_step (current_eq_ok_iff.2 ⟨h₂.current, rfl⟩) ?_
    rw [Operator.ofToken?_eq_some_iff.2 hs]
    refine answers_token hdeep (takes_singleton_iff.1 h₂).2 ?_
    refine answers_last (hadd.answers h₃ hr hk.2) ?_
    refine (bind_of_ok (current_eq_ok_iff.2 ⟨rfl, rfl⟩)).trans ?_
    rw [← CompareOp.isSome_ofToken?, hk.1, if_neg (by simp)]
    exact spanFrom_of_takes _ ht (by simp)

theorem handles_conditional :
    S.Handles (conditional expression operand) (Choice A E O) endsExpr := by
  have hlogic : S.Handles (logical expression operand) (Logic A E O) endsLogic :=
    handles_chain .logical (handles_comparison hE hO ho) endsComp_logic fun h => h.opens.ne_nil
  constructor
  intro c d xs e ht hc hk
  refine answers_step (current_eq_ok_iff.2 ⟨rfl, rfl⟩) ?_
  cases hc with
  | single hl =>
    refine answers_last (hlogic.answers ht hl hk.2) ?_
    exact bind_of_ok (accept_eq_false_iff.2 ⟨hk.1, rfl⟩)
  | ternary htest hq hthen hcolon helse =>
    obtain ⟨hdeep, hq⟩ := S.of_kind hq (by simp)
    obtain ⟨c₁, h₁, h⟩ := takes_append ht
    obtain ⟨c₂, h₂, h⟩ := h.uncons
    obtain ⟨c₃, h₃, h⟩ := takes_append h
    obtain ⟨c₄, h₄, h₅⟩ := h.uncons
    have htestEnd : endsLogic c₁.current.kind := by
      rw [h₂.current, hq]
      exact endsLogic_question
    have hthenEnd : endsExpr c₃.current.kind := by
      rw [h₄.current, (S.of_kind hcolon (by simp)).2]
      exact endsExpr_colon
    refine answers_bind (hlogic.answers h₁ htest htestEnd) ?_
    refine answers_token hdeep ((accept_eq_true_iff (by simp)).2 ⟨_, hq, h₂⟩) ?_
    rw [if_pos rfl]
    refine answers_bind (hE.answers h₃ hthen hthenEnd) ?_
    refine answers_expect hcolon (by simp) h₄ ?_
    exact answers_last (hE.answers h₅ helse hk) (spanFrom_of_takes _ ht (by simp))

end layers

/-! ### Tokens -/

/-- Tokens stand for themselves, and no level is told by them. -/
def tokens : Symbols .tokens where
  token := id
  deep _ := false
  of_kind h _ := ⟨rfl, h⟩
  span ts := by rw [List.map_id]; rfl

@[simp] theorem map_tokens (ts : List Token) : ts.map tokens.token = ts := List.map_id ts

theorem tokens_answers_iff {p : Parser τ} {c d : Cursor} {ts : List Token} {a : τ} :
    tokens.Answers p c ts a d ↔ p c = .ok a d := by
  have hnone : ts.find? tokens.deep = none := List.find?_eq_none.2 fun _ _ => Bool.false_ne_true
  rw [Answers, hnone]

/-- What a phrase derives from tokens is accepted. -/
theorem Handles.complete {p : Parser τ} {P : Phrase Token τ} {stop : TokenKind → Prop}
    (h : tokens.Handles p P stop) {c d : Cursor} {ts : List Token} {a : τ} (ht : c.Takes ts d)
    (hp : P ts a) (hk : stop d.current.kind) : p c = .ok a d := by
  rw [← map_tokens ts] at ht
  exact tokens_answers_iff.1 (h.answers ht hp hk)

theorem tokens_opens {levels : Nat} {ts : List Token} {e : Expr} (h : expr .tokens levels ts e) :
    Opens .tokens (ts.map tokens.token) := by
  rw [map_tokens]
  exact expr_opens h

theorem handles_false {p : Parser τ} {stop : TokenKind → Prop} :
    S.Handles p (fun _ _ => False) stop := ⟨fun _ h => h.elim⟩

/-- The expressions that nest no deeper than allowed are read. -/
theorem handles_expr (room : Nat) :
    tokens.Handles (Expr.parser room) (expr .tokens room) endsExpr ∧
      tokens.Handles (Expr.operandParser room) (Grammar.operand .tokens room) fun _ => True := by
  induction room with
  | zero =>
    rw [expr, Grammar.operand]
    exact ⟨handles_false, handles_false⟩
  | succ room ih =>
    obtain ⟨hE, hO⟩ := ih
    rw [Expr.parser, Expr.operandParser, expr, Grammar.operand]
    exact ⟨handles_conditional hE hO tokens_opens, handles_unary hE tokens_opens hO⟩

end Symbols

end StaticCheck
