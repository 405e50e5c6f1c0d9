import StaticCheck.Proofs.Grammar.Openings
import StaticCheck.Proofs.Trees

/-! # The grammar over different alphabets

A translation maps symbols to symbols of the same kind and spans to spans.  It carries derivations
over one alphabet to derivations over the other and back: the translated symbols derive exactly the
trees that are translated from what the symbols themselves derive (`carries_stmt`).  In particular,
the kinds of some tokens derive a bare tree if and only if the tokens derive that tree with its
places. -/

namespace StaticCheck

/-- A map of symbols that keeps kinds, and a map of spans that agrees with it. -/
structure Translation {α β : Type} (A : Alphabet α) (B : Alphabet β) (g : α → β)
    (σ : Span → Span) : Prop where
  kind (t : α) : B.kind (g t) = A.kind t
  span (ts : List α) : ts ≠ [] → B.span (ts.map g) = σ (A.span ts)

/-- From tokens with their places to bare kinds. -/
theorem Translation.ofTokens : Translation .tokens .kinds Token.kind fun _ => .point 0 :=
  ⟨fun _ => rfl, fun _ _ => rfl⟩

namespace Grammar

variable {α β τ υ ω : Type} {A : Alphabet α} {B : Alphabet β} {g : α → β} {σ : Span → Span}

/-- Translated symbols derive exactly the translated trees. -/
def Carries (g : α → β) (f : τ → υ) (P : Phrase α τ) (Q : Phrase β υ) : Prop :=
  ∀ ts b, Q (ts.map g) b ↔ ∃ a, P ts a ∧ f a = b

theorem carries_many {f : τ → υ} {P : Phrase α τ} {Q : Phrase β υ} (h : Carries g f P Q) :
    Carries g (List.map f) (Many P) (Many Q) := by
  intro ts bs
  constructor
  · intro hm
    generalize hts : ts.map g = us at hm
    induction hm generalizing ts with
    | nil =>
      obtain rfl := List.map_eq_nil_iff.1 hts
      exact ⟨[], .nil, rfl⟩
    | cons hq _ ih =>
      obtain ⟨us, vs, rfl, rfl, rfl⟩ := List.map_eq_append_iff.1 hts
      obtain ⟨a, hp, rfl⟩ := (h us _).1 hq
      obtain ⟨as, hm, rfl⟩ := ih vs rfl
      exact ⟨a :: as, .cons hp hm, rfl⟩
  · rintro ⟨as, hm, rfl⟩
    induction hm with
    | nil => exact .nil
    | cons hp _ ih =>
      rw [List.map_append, List.map_cons]
      exact .cons ((h _ _).2 ⟨_, hp, rfl⟩) ih

theorem carries_optional (T : Translation A B g σ) {mark : TokenKind} {f : τ → υ} {P : Phrase α τ}
    {Q : Phrase β υ} (h : Carries g f P Q) :
    Carries g (Option.map f) (Optional A mark P) (Optional B mark Q) := by
  intro ts b
  constructor
  · intro hi
    generalize hts : ts.map g = us at hi
    cases hi with
    | none =>
      obtain rfl := List.map_eq_nil_iff.1 hts
      exact ⟨none, .none, rfl⟩
    | some hk hq =>
      obtain ⟨t, us, rfl, rfl, rfl⟩ := List.map_eq_cons_iff.1 hts
      obtain ⟨a, ha, rfl⟩ := (h _ _).1 hq
      exact ⟨some a, .some (T.kind t ▸ hk) ha, rfl⟩
  · rintro ⟨a, ha, rfl⟩
    cases ha with
    | none => exact .none
    | some hk ha => exact .some ((T.kind _).trans hk) ((h _ _).2 ⟨_, ha, rfl⟩)

theorem carries_false {f : τ → υ} :
    Carries g f (fun _ _ => False) (fun _ _ => False) := by
  intro ts b
  simp

section rules

variable (T : Translation A B g σ)

include T

/-! ### Expressions -/

variable {E O : Phrase α Expr} {E' O' : Phrase β Expr}

theorem carries_linked {mark : ω → Punct} (h : Carries g (Expr.mapSpan σ) O O') :
    Carries g (Link.mapSpan σ) (Linked A mark O) (Linked B mark O') := by
  intro ts b
  constructor
  · intro hl
    generalize hts : ts.map g = us at hl
    cases hl with
    | mk hk ho =>
      obtain ⟨sign, us, rfl, rfl, rfl⟩ := List.map_eq_cons_iff.1 hts
      obtain ⟨e, he, rfl⟩ := (h _ _).1 ho
      exact ⟨⟨_, e⟩, .mk (T.kind sign ▸ hk) he, rfl⟩
  · rintro ⟨a, ha, rfl⟩
    cases ha with
    | mk hk he => exact .mk ((T.kind _).trans hk) ((h _ _).2 ⟨_, he, rfl⟩)

theorem carries_chain {mark : ω → Punct} {node : Expr → List (Link ω Expr) → Span → Expr}
    (hn : ∀ first rest span, (node first rest span).mapSpan σ =
      node (first.mapSpan σ) (rest.map (Link.mapSpan σ)) (σ span))
    (ho : ∀ {ts e}, O ts e → ts ≠ []) (h : Carries g (Expr.mapSpan σ) O O') :
    Carries g (Expr.mapSpan σ) (Chain A mark node O) (Chain B mark node O') := by
  have hlinks : Carries g (List.map (Link.mapSpan σ)) (Many (Linked A mark O))
      (Many (Linked B mark O')) := carries_many (carries_linked T h)
  intro ts b
  constructor
  · intro hc
    generalize hts : ts.map g = us at hc
    cases hc with
    | single hq =>
      subst hts
      obtain ⟨e, he, rfl⟩ := (h _ _).1 hq
      exact ⟨e, .single he, rfl⟩
    | chain hq hm hne =>
      rw [← hts]
      obtain ⟨us, vs, rfl, rfl, rfl⟩ := List.map_eq_append_iff.1 hts
      obtain ⟨first, hf, rfl⟩ := (h _ _).1 hq
      obtain ⟨rest, hr, rfl⟩ := (hlinks _ _).1 hm
      refine ⟨_, .chain hf hr (by simpa using hne), ?_⟩
      rw [hn, T.span _ (by simp [ho hf])]
  · rintro ⟨a, ha, rfl⟩
    cases ha with
    | single he => exact .single ((h _ _).2 ⟨_, he, rfl⟩)
    | chain hf hr hne =>
      rw [hn, ← T.span _ (by simp [ho hf]), List.map_append]
      exact .chain ((h _ _).2 ⟨_, hf, rfl⟩) ((hlinks _ _).2 ⟨_, hr, rfl⟩) (by simpa using hne)

theorem carries_further (h : Carries g (Expr.mapSpan σ) E E') :
    Carries g (Expr.mapSpan σ) (Further A E) (Further B E') := by
  intro ts b
  constructor
  · intro hf
    generalize hts : ts.map g = us at hf
    cases hf with
    | mk hk hq =>
      obtain ⟨comma, us, rfl, rfl, rfl⟩ := List.map_eq_cons_iff.1 hts
      obtain ⟨e, he, rfl⟩ := (h _ _).1 hq
      exact ⟨e, .mk (T.kind comma ▸ hk) he, rfl⟩
  · rintro ⟨a, ha, rfl⟩
    cases ha with
    | mk hk he => exact .mk ((T.kind _).trans hk) ((h _ _).2 ⟨_, he, rfl⟩)

theorem carries_parens (h : Carries g (Expr.mapSpan σ) E E') :
    Carries g (Expr.mapSpan σ) (Parens A E) (Parens B E') := by
  intro ts b
  constructor
  · intro hp
    generalize hts : ts.map g = us at hp
    cases hp with
    | mk hl hq hr =>
      obtain ⟨l, us, rfl, rfl, h₁⟩ := List.map_eq_cons_iff.1 hts
      obtain ⟨us, vs, rfl, rfl, h₂⟩ := List.map_eq_append_iff.1 h₁
      obtain ⟨r, rfl, rfl⟩ := List.map_eq_singleton_iff.1 h₂
      obtain ⟨e, he, rfl⟩ := (h _ _).1 hq
      exact ⟨e, .mk (T.kind l ▸ hl) he (T.kind r ▸ hr), rfl⟩
  · rintro ⟨a, ha, rfl⟩
    cases ha with
    | mk hl he hr =>
      rw [List.map_cons, List.map_append]
      exact .mk ((T.kind _).trans hl) ((h _ _).2 ⟨_, he, rfl⟩) ((T.kind _).trans hr)

theorem carries_primary (h : Carries g (Expr.mapSpan σ) E E') :
    Carries g (Expr.mapSpan σ) (Primary A E) (Primary B E') := by
  have hmore := carries_many (carries_further T h)
  have hparens := carries_parens T h
  intro ts b
  constructor
  · intro hp
    generalize hts : ts.map g = us at hp
    cases hp with
    | int hk =>
      rw [← hts]
      obtain ⟨t, rfl, rfl⟩ := List.map_eq_singleton_iff.1 hts
      exact ⟨_, .int (T.kind t ▸ hk), by rw [Expr.mapSpan, T.span _ (by simp)]⟩
    | real hk =>
      rw [← hts]
      obtain ⟨t, rfl, rfl⟩ := List.map_eq_singleton_iff.1 hts
      exact ⟨_, .real (T.kind t ▸ hk), by rw [Expr.mapSpan, T.span _ (by simp)]⟩
    | bool hk =>
      rw [← hts]
      obtain ⟨t, rfl, rfl⟩ := List.map_eq_singleton_iff.1 hts
      exact ⟨_, .bool (T.kind t ▸ hk), by rw [Expr.mapSpan, T.span _ (by simp)]⟩
    | ident hk =>
      rw [← hts]
      obtain ⟨t, rfl, rfl⟩ := List.map_eq_singleton_iff.1 hts
      exact ⟨_, .ident (T.kind t ▸ hk), by rw [Expr.mapSpan, T.span _ (by simp)]⟩
    | emptyList hl hr =>
      rw [← hts]
      obtain ⟨l, us, rfl, rfl, h₁⟩ := List.map_eq_cons_iff.1 hts
      obtain ⟨r, rfl, rfl⟩ := List.map_eq_singleton_iff.1 h₁
      refine ⟨_, .emptyList (T.kind l ▸ hl) (T.kind r ▸ hr), ?_⟩
      rw [Expr.mapSpan, T.span _ (by simp), List.map_nil]
    | list hl hq hm hr =>
      rw [← hts]
      obtain ⟨l, us, rfl, rfl, h₁⟩ := List.map_eq_cons_iff.1 hts
      obtain ⟨us, vs, rfl, rfl, h₂⟩ := List.map_eq_append_iff.1 h₁
      obtain ⟨vs, ws, rfl, rfl, h₃⟩ := List.map_eq_append_iff.1 h₂
      obtain ⟨r, rfl, rfl⟩ := List.map_eq_singleton_iff.1 h₃
      obtain ⟨first, hf, rfl⟩ := (h _ _).1 hq
      obtain ⟨rest, hrest, rfl⟩ := (hmore _ _).1 hm
      refine ⟨_, .list (T.kind l ▸ hl) hf hrest (T.kind r ▸ hr), ?_⟩
      rw [Expr.mapSpan, T.span _ (by simp), List.map_cons]
    | parens hp =>
      subst hts
      obtain ⟨e, he, rfl⟩ := (hparens _ _).1 hp
      exact ⟨e, .parens he, rfl⟩
  · rintro ⟨a, ha, rfl⟩
    cases ha with
    | int hk =>
      rw [Expr.mapSpan, ← T.span _ (by simp)]
      exact .int ((T.kind _).trans hk)
    | real hk =>
      rw [Expr.mapSpan, ← T.span _ (by simp)]
      exact .real ((T.kind _).trans hk)
    | bool hk =>
      rw [Expr.mapSpan, ← T.span _ (by simp)]
      exact .bool ((T.kind _).trans hk)
    | ident hk =>
      rw [Expr.mapSpan, ← T.span _ (by simp)]
      exact .ident ((T.kind _).trans hk)
    | emptyList hl hr =>
      rw [Expr.mapSpan, ← T.span _ (by simp), List.map_nil]
      exact .emptyList ((T.kind _).trans hl) ((T.kind _).trans hr)
    | list hl hf hm hr =>
      rw [Expr.mapSpan, ← T.span _ (by simp), List.map_cons, List.map_append, List.map_append,
        List.map_cons]
      exact .list ((T.kind _).trans hl) ((h _ _).2 ⟨_, hf, rfl⟩) ((hmore _ _).2 ⟨_, hm, rfl⟩)
        ((T.kind _).trans hr)
    | parens hp => exact .parens ((hparens _ _).2 ⟨_, hp, rfl⟩)

theorem carries_unary (hE : Carries g (Expr.mapSpan σ) E E')
    (hO : Carries g (Expr.mapSpan σ) O O') :
    Carries g (Expr.mapSpan σ) (Unary A E O) (Unary B E' O') := by
  have hprimary := carries_primary T hE
  intro ts b
  constructor
  · intro hu
    generalize hts : ts.map g = us at hu
    cases hu with
    | unary hk hq =>
      rw [← hts]
      obtain ⟨sign, us, rfl, rfl, rfl⟩ := List.map_eq_cons_iff.1 hts
      obtain ⟨e, he, rfl⟩ := (hO _ _).1 hq
      exact ⟨_, .unary (T.kind sign ▸ hk) he, by rw [Expr.mapSpan, T.span _ (by simp)]⟩
    | primary hp =>
      subst hts
      obtain ⟨e, he, rfl⟩ := (hprimary _ _).1 hp
      exact ⟨e, .primary he, rfl⟩
  · rintro ⟨a, ha, rfl⟩
    cases ha with
    | unary hk he =>
      rw [Expr.mapSpan, ← T.span _ (by simp), List.map_cons]
      exact .unary ((T.kind _).trans hk) ((hO _ _).2 ⟨_, he, rfl⟩)
    | primary hp => exact .primary ((hprimary _ _).2 ⟨_, hp, rfl⟩)

theorem carries_mul (hE : Carries g (Expr.mapSpan σ) E E')
    (hO : Carries g (Expr.mapSpan σ) O O') :
    Carries g (Expr.mapSpan σ) (Mul A E O) (Mul B E' O') :=
  carries_chain T (fun _ _ _ => by rw [Expr.mapSpan]; rfl) (fun h => h.opens.ne_nil)
    (carries_unary T hE hO)

theorem carries_add (hE : Carries g (Expr.mapSpan σ) E E')
    (hO : Carries g (Expr.mapSpan σ) O O') :
    Carries g (Expr.mapSpan σ) (Add A E O) (Add B E' O') :=
  carries_chain T (fun _ _ _ => by rw [Expr.mapSpan]; rfl) (fun h => (Mul.opens h).ne_nil)
    (carries_mul T hE hO)

theorem carries_comp (hE : Carries g (Expr.mapSpan σ) E E')
    (hO : Carries g (Expr.mapSpan σ) O O') :
    Carries g (Expr.mapSpan σ) (Comp A E O) (Comp B E' O') := by
  have hadd := carries_add T hE hO
  intro ts b
  constructor
  · intro hc
    generalize hts : ts.map g = us at hc
    cases hc with
    | single ha =>
      subst hts
      obtain ⟨e, he, rfl⟩ := (hadd _ _).1 ha
      exact ⟨e, .single he, rfl⟩
    | compare hl hk hr =>
      rw [← hts]
      obtain ⟨us, vs, rfl, rfl, h₁⟩ := List.map_eq_append_iff.1 hts
      obtain ⟨sign, vs, rfl, rfl, rfl⟩ := List.map_eq_cons_iff.1 h₁
      obtain ⟨left, hleft, rfl⟩ := (hadd _ _).1 hl
      obtain ⟨right, hright, rfl⟩ := (hadd _ _).1 hr
      refine ⟨_, .compare hleft (T.kind sign ▸ hk) hright, ?_⟩
      rw [Expr.mapSpan, T.span _ (by simp)]
  · rintro ⟨a, ha, rfl⟩
    cases ha with
    | single he => exact .single ((hadd _ _).2 ⟨_, he, rfl⟩)
    | compare hl hk hr =>
      rw [Expr.mapSpan, ← T.span _ (by simp), List.map_append, List.map_cons]
      exact .compare ((hadd _ _).2 ⟨_, hl, rfl⟩) ((T.kind _).trans hk) ((hadd _ _).2 ⟨_, hr, rfl⟩)

theorem carries_logic (hE : Carries g (Expr.mapSpan σ) E E')
    (hO : Carries g (Expr.mapSpan σ) O O') :
    Carries g (Expr.mapSpan σ) (Logic A E O) (Logic B E' O') :=
  carries_chain T (fun _ _ _ => by rw [Expr.mapSpan]; rfl) (fun h => h.opens.ne_nil)
    (carries_comp T hE hO)

theorem carries_choice (hE : Carries g (Expr.mapSpan σ) E E')
    (hO : Carries g (Expr.mapSpan σ) O O') :
    Carries g (Expr.mapSpan σ) (Choice A E O) (Choice B E' O') := by
  have hlogic := carries_logic T hE hO
  intro ts b
  constructor
  · intro hc
    generalize hts : ts.map g = us at hc
    cases hc with
    | single hl =>
      subst hts
      obtain ⟨e, he, rfl⟩ := (hlogic _ _).1 hl
      exact ⟨e, .single he, rfl⟩
    | ternary hc hq ht hk he =>
      rw [← hts]
      obtain ⟨us, vs, rfl, rfl, h₁⟩ := List.map_eq_append_iff.1 hts
      obtain ⟨q, vs, rfl, rfl, h₂⟩ := List.map_eq_cons_iff.1 h₁
      obtain ⟨vs, ws, rfl, rfl, h₃⟩ := List.map_eq_append_iff.1 h₂
      obtain ⟨k, ws, rfl, rfl, rfl⟩ := List.map_eq_cons_iff.1 h₃
      obtain ⟨test, htest, rfl⟩ := (hlogic _ _).1 hc
      obtain ⟨thenArm, hthen, rfl⟩ := (hE _ _).1 ht
      obtain ⟨elseArm, helse, rfl⟩ := (hE _ _).1 he
      refine ⟨_, .ternary htest (T.kind q ▸ hq) hthen (T.kind k ▸ hk) helse, ?_⟩
      rw [Expr.mapSpan, T.span _ (by simp)]
  · rintro ⟨a, ha, rfl⟩
    cases ha with
    | single he => exact .single ((hlogic _ _).2 ⟨_, he, rfl⟩)
    | ternary hc hq ht hk he =>
      rw [Expr.mapSpan, ← T.span _ (by simp), List.map_append, List.map_cons, List.map_append,
        List.map_cons]
      exact .ternary ((hlogic _ _).2 ⟨_, hc, rfl⟩) ((T.kind _).trans hq) ((hE _ _).2 ⟨_, ht, rfl⟩)
        ((T.kind _).trans hk) ((hE _ _).2 ⟨_, he, rfl⟩)

mutual

theorem carries_expr : ∀ levels : Nat,
    Carries g (Expr.mapSpan σ) (Grammar.expr A levels) (Grammar.expr B levels)
  | 0 => by
    rw [Grammar.expr, Grammar.expr]
    exact carries_false
  | levels + 1 => by
    rw [Grammar.expr, Grammar.expr]
    exact carries_choice T (carries_expr levels) (carries_operand levels)

theorem carries_operand : ∀ levels : Nat,
    Carries g (Expr.mapSpan σ) (Grammar.operand A levels) (Grammar.operand B levels)
  | 0 => by
    rw [Grammar.operand, Grammar.operand]
    exact carries_false
  | levels + 1 => by
    rw [Grammar.operand, Grammar.operand]
    exact carries_unary T (carries_expr levels) (carries_operand levels)

end

/-! ### Statements -/

variable {P : Phrase α (Block Stmt)} {P' : Phrase β (Block Stmt)} {S : Phrase α Stmt}
  {S' : Phrase β Stmt}

theorem carries_braces (h : Carries g (Stmt.mapSpan σ) S S') :
    Carries g (Block.mapSpan σ) (Braces A S) (Braces B S') := by
  have hmany := carries_many h
  intro ts b
  constructor
  · intro hb
    generalize hts : ts.map g = us at hb
    cases hb with
    | mk hl hm hr =>
      rw [← hts]
      obtain ⟨l, us, rfl, rfl, h₁⟩ := List.map_eq_cons_iff.1 hts
      obtain ⟨us, vs, rfl, rfl, h₂⟩ := List.map_eq_append_iff.1 h₁
      obtain ⟨r, rfl, rfl⟩ := List.map_eq_singleton_iff.1 h₂
      obtain ⟨stmts, hs, rfl⟩ := (hmany _ _).1 hm
      refine ⟨_, .mk (T.kind l ▸ hl) hs (T.kind r ▸ hr), ?_⟩
      rw [Block.mapSpan, T.span _ (by simp)]
  · rintro ⟨a, ha, rfl⟩
    cases ha with
    | mk hl hs hr =>
      rw [Block.mapSpan, ← T.span _ (by simp), List.map_cons, List.map_append]
      exact .mk ((T.kind _).trans hl) ((hmany _ _).2 ⟨_, hs, rfl⟩) ((T.kind _).trans hr)

/-- Translated symbols derive the translated statement. -/
theorem statement_map (hP : Carries g (Block.mapSpan σ) P P')
    (hE : Carries g (Expr.mapSpan σ) E E') {ts : List α} {s : Stmt} (h : Statement A P E ts s) :
    Statement B P' E' (ts.map g) (s.mapSpan σ) := by
  cases h with
  | @declare type name semi us typeName x init htype hname hinit hsemi =>
    rw [← T.kind] at htype
    rw [Stmt.mapSpan, Declaration.mapSpan, ← T.span _ (by simp), ← T.span _ (by simp),
      List.map_cons, List.map_cons, List.map_append]
    exact .declare htype ((T.kind _).trans hname)
      ((carries_optional T hE _ _).2 ⟨_, hinit, rfl⟩) ((T.kind _).trans hsemi)
  | assign hname heq he hsemi =>
    rw [Stmt.mapSpan, ← T.span _ (by simp), ← T.span _ (by simp), List.map_cons, List.map_cons,
      List.map_append]
    exact .assign ((T.kind _).trans hname) ((T.kind _).trans heq) ((hE _ _).2 ⟨_, he, rfl⟩)
      ((T.kind _).trans hsemi)
  | ifElse hword htest hthen helse =>
    rw [Stmt.mapSpan_ifElse, ← T.span _ (by simp), List.map_cons, List.map_append, List.map_append]
    exact .ifElse ((T.kind _).trans hword) ((carries_parens T hE _ _).2 ⟨_, htest, rfl⟩)
      ((hP _ _).2 ⟨_, hthen, rfl⟩) ((carries_optional T hP _ _).2 ⟨_, helse, rfl⟩)
  | whileDo hword htest hbody =>
    rw [Stmt.mapSpan_whileDo, ← T.span _ (by simp), List.map_cons, List.map_append]
    exact .whileDo ((T.kind _).trans hword) ((carries_parens T hE _ _).2 ⟨_, htest, rfl⟩)
      ((hP _ _).2 ⟨_, hbody, rfl⟩)
  | doWhile hword hbody hwhile htest hsemi =>
    rw [Stmt.mapSpan_doWhile, ← T.span _ (by simp), List.map_cons, List.map_append, List.map_cons,
      List.map_append]
    exact .doWhile ((T.kind _).trans hword) ((hP _ _).2 ⟨_, hbody, rfl⟩)
      ((T.kind _).trans hwhile) ((carries_parens T hE _ _).2 ⟨_, htest, rfl⟩)
      ((T.kind _).trans hsemi)
  | block hbody =>
    rw [Stmt.mapSpan_block]
    exact .block ((hP _ _).2 ⟨_, hbody, rfl⟩)
  | expr he hsemi =>
    rw [Stmt.mapSpan, ← T.span _ (by simp), List.map_append]
    exact .expr ((hE _ _).2 ⟨_, he, rfl⟩) ((T.kind _).trans hsemi)

/-- What translated symbols derive is a translated statement. -/
theorem statement_lift (hP : Carries g (Block.mapSpan σ) P P')
    (hE : Carries g (Expr.mapSpan σ) E E') {ts : List α} {s : Stmt}
    (h : Statement B P' E' (ts.map g) s) : ∃ s', Statement A P E ts s' ∧ s'.mapSpan σ = s := by
  generalize hts : ts.map g = us at h
  cases h with
  | declare htype hname hinit hsemi =>
    rw [← hts]
    obtain ⟨type, us, rfl, rfl, h₁⟩ := List.map_eq_cons_iff.1 hts
    obtain ⟨name, us, rfl, rfl, h₂⟩ := List.map_eq_cons_iff.1 h₁
    obtain ⟨us, vs, rfl, rfl, h₃⟩ := List.map_eq_append_iff.1 h₂
    obtain ⟨semi, rfl, rfl⟩ := List.map_eq_singleton_iff.1 h₃
    obtain ⟨init, hi, rfl⟩ := (carries_optional T hE _ _).1 hinit
    refine ⟨_, .declare (T.kind type ▸ htype) (T.kind name ▸ hname) hi (T.kind semi ▸ hsemi), ?_⟩
    rw [Stmt.mapSpan, Declaration.mapSpan, ← T.span _ (by simp), ← T.span _ (by simp),
      List.map_singleton]
  | assign hname heq he hsemi =>
    rw [← hts]
    obtain ⟨name, us, rfl, rfl, h₁⟩ := List.map_eq_cons_iff.1 hts
    obtain ⟨eq, us, rfl, rfl, h₂⟩ := List.map_eq_cons_iff.1 h₁
    obtain ⟨us, vs, rfl, rfl, h₃⟩ := List.map_eq_append_iff.1 h₂
    obtain ⟨semi, rfl, rfl⟩ := List.map_eq_singleton_iff.1 h₃
    obtain ⟨e, hvalue, rfl⟩ := (hE _ _).1 he
    refine ⟨_, .assign (T.kind name ▸ hname) (T.kind eq ▸ heq) hvalue (T.kind semi ▸ hsemi), ?_⟩
    rw [Stmt.mapSpan, ← T.span _ (by simp), ← T.span _ (by simp), List.map_singleton]
  | ifElse hword htest hthen helse =>
    rw [← hts]
    obtain ⟨word, us, rfl, rfl, h₁⟩ := List.map_eq_cons_iff.1 hts
    obtain ⟨us, vs, rfl, rfl, h₂⟩ := List.map_eq_append_iff.1 h₁
    obtain ⟨vs, ws, rfl, rfl, rfl⟩ := List.map_eq_append_iff.1 h₂
    obtain ⟨test, hc, rfl⟩ := (carries_parens T hE _ _).1 htest
    obtain ⟨thenBlock, ht, rfl⟩ := (hP _ _).1 hthen
    obtain ⟨elseBlock, he, rfl⟩ := (carries_optional T hP _ _).1 helse
    refine ⟨_, .ifElse (T.kind word ▸ hword) hc ht he, ?_⟩
    rw [Stmt.mapSpan_ifElse, ← T.span _ (by simp)]
  | whileDo hword htest hbody =>
    rw [← hts]
    obtain ⟨word, us, rfl, rfl, h₁⟩ := List.map_eq_cons_iff.1 hts
    obtain ⟨us, vs, rfl, rfl, rfl⟩ := List.map_eq_append_iff.1 h₁
    obtain ⟨test, hc, rfl⟩ := (carries_parens T hE _ _).1 htest
    obtain ⟨body, hb, rfl⟩ := (hP _ _).1 hbody
    refine ⟨_, .whileDo (T.kind word ▸ hword) hc hb, ?_⟩
    rw [Stmt.mapSpan_whileDo, ← T.span _ (by simp)]
  | doWhile hword hbody hwhile htest hsemi =>
    rw [← hts]
    obtain ⟨word, us, rfl, rfl, h₁⟩ := List.map_eq_cons_iff.1 hts
    obtain ⟨us, vs, rfl, rfl, h₂⟩ := List.map_eq_append_iff.1 h₁
    obtain ⟨while', vs, rfl, rfl, h₃⟩ := List.map_eq_cons_iff.1 h₂
    obtain ⟨vs, ws, rfl, rfl, h₄⟩ := List.map_eq_append_iff.1 h₃
    obtain ⟨semi, rfl, rfl⟩ := List.map_eq_singleton_iff.1 h₄
    obtain ⟨body, hb, rfl⟩ := (hP _ _).1 hbody
    obtain ⟨test, hc, rfl⟩ := (carries_parens T hE _ _).1 htest
    refine ⟨_, .doWhile (T.kind word ▸ hword) hb (T.kind while' ▸ hwhile) hc
      (T.kind semi ▸ hsemi), ?_⟩
    rw [Stmt.mapSpan_doWhile, ← T.span _ (by simp)]
  | block hbody =>
    subst hts
    obtain ⟨body, hb, rfl⟩ := (hP _ _).1 hbody
    exact ⟨_, .block hb, Stmt.mapSpan_block σ body body.span⟩
  | expr he hsemi =>
    rw [← hts]
    obtain ⟨us, vs, rfl, rfl, h₁⟩ := List.map_eq_append_iff.1 hts
    obtain ⟨semi, rfl, rfl⟩ := List.map_eq_singleton_iff.1 h₁
    obtain ⟨e, hvalue, rfl⟩ := (hE _ _).1 he
    refine ⟨_, .expr hvalue (T.kind semi ▸ hsemi), ?_⟩
    rw [Stmt.mapSpan, ← T.span _ (by simp)]

theorem carries_statement (hP : Carries g (Block.mapSpan σ) P P')
    (hE : Carries g (Expr.mapSpan σ) E E') :
    Carries g (Stmt.mapSpan σ) (Statement A P E) (Statement B P' E') := by
  intro ts s
  constructor
  · exact statement_lift T hP hE
  · rintro ⟨s', h, rfl⟩
    exact statement_map T hP hE h

theorem carries_block (levels : Nat) :
    Carries g (Block.mapSpan σ) (Grammar.block A levels) (Grammar.block B levels) := by
  induction levels with
  | zero =>
    unfold Grammar.block
    exact carries_false
  | succ levels ih =>
    unfold Grammar.block
    exact carries_braces T (carries_statement T ih (carries_expr T levels))

/-- Translated symbols derive exactly the translated statements, at every level of nesting. -/
theorem carries_stmt (levels : Nat) :
    Carries g (Stmt.mapSpan σ) (Grammar.stmt A levels) (Grammar.stmt B levels) :=
  carries_statement T (carries_block T levels) (carries_expr T levels)

end rules

end Grammar

end StaticCheck
