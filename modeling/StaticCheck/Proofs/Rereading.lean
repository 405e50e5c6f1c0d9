import StaticCheck.Proofs.Rendering

/-! # Expressions of a text, rendered and read again

The expressions in a program that was read from a text have literals and names of the right form, no
comparison without a right side and no chain without links (`Expr.Readable`), because every rule of
the grammar makes such nodes out of valid tokens (`sound_stmt`).  So rendering and reading one of
them again gives it back (`parse_render_of_parse`), under two conditions on its text.

Both conditions are needed (`exists_render_unread`): large reals are written with an exponent and no
point, and a chain is written in parentheses that nest one level deeper than its operands do. -/

namespace StaticCheck

open Grammar

namespace Expr

/-- A node as reading makes it: literals and names have the texts of tokens, chains have links, and
comparisons have a right side. -/
def Readable : Expr → Prop
  | int digits _ => (TokenKind.int digits).Valid
  | ident name _ => (TokenKind.ident name).Valid
  | additive _ rest _ => rest ≠ []
  | multiplicative _ rest _ => rest ≠ []
  | logical _ rest _ => rest ≠ []
  | compare _ rhs _ => rhs ≠ none
  | _ => True

end Expr

namespace Grammar

variable {τ ω : Type}

/-- From valid tokens the phrase derives only trees whose expressions have readable nodes.  The
expressions of a tree are given by `exprs`. -/
def Sound (exprs : τ → List Expr) (P : Phrase Token τ) : Prop :=
  ∀ ts a, P ts a → (∀ t ∈ ts, t.kind.Valid) → ∀ e ∈ exprs a, ∀ x ∈ e.nodes, x.Readable

theorem sound_many {exprs : τ → List Expr} {P : Phrase Token τ} (h : Sound exprs P) :
    Sound (List.flatMap exprs) (Many P) := by
  intro ts as hm hts
  induction hm with
  | nil => simp
  | cons hp _ ih =>
    obtain ⟨hfirst, hrest⟩ := List.forall_mem_append.1 hts
    rw [List.flatMap_cons, List.forall_mem_append]
    exact ⟨h _ _ hp hfirst, ih hrest⟩

theorem sound_optional {exprs : τ → List Expr} {P : Phrase Token τ} {mark : TokenKind}
    (h : Sound exprs P) : Sound (fun a => a.toList.flatMap exprs) (Optional .tokens mark P) := by
  intro ts a ho hts
  cases ho with
  | none => simp
  | some _ hp =>
    have hrest := (List.forall_mem_cons.1 hts).2
    simpa using h _ _ hp hrest

/-- A phrase that derives single expressions. -/
abbrev SoundExpr (P : Phrase Token Expr) : Prop := Sound (fun e => [e]) P

theorem SoundExpr.nodes {P : Phrase Token Expr} (h : SoundExpr P) {ts : List Token} {e : Expr}
    (hp : P ts e) (hts : ∀ t ∈ ts, t.kind.Valid) : ∀ x ∈ e.nodes, x.Readable :=
  h ts e hp hts e (List.mem_singleton_self e)

theorem soundExpr_iff {P : Phrase Token Expr} : SoundExpr P ↔
    ∀ ts e, P ts e → (∀ t ∈ ts, t.kind.Valid) → ∀ x ∈ e.nodes, x.Readable := by
  simp [Sound]

/-! ### Expressions -/

section expressions

variable {E O : Phrase Token Expr}

theorem sound_linked {mark : ω → Punct} (h : SoundExpr O) :
    Sound (fun link => [link.operand]) (Linked .tokens mark O) := by
  intro ts link hl hts
  cases hl with
  | mk _ ho => exact h _ _ ho (List.forall_mem_cons.1 hts).2

theorem soundExpr_chain {mark : ω → Punct} {node : Expr → List (Link ω Expr) → Span → Expr}
    (hchildren : ∀ first rest span, (node first rest span).children =
      first :: rest.map Link.operand)
    (hnode : ∀ first rest span, rest ≠ [] → (node first rest span).Readable)
    (h : SoundExpr O) : SoundExpr (Chain .tokens mark node O) := by
  rw [soundExpr_iff]
  intro ts e hc hts
  cases hc with
  | single ho => exact h.nodes ho hts
  | chain ho hm hne =>
    obtain ⟨hfirst, hrest⟩ := List.forall_mem_append.1 hts
    refine Expr.forall_mem_nodes_iff.2 ⟨?_, hnode _ _ _ hne⟩
    rw [hchildren, List.forall_mem_cons]
    refine ⟨h.nodes ho hfirst, ?_⟩
    have hlinks := sound_many (sound_linked h) _ _ hm hrest
    intro c hc
    obtain ⟨link, hlink, rfl⟩ := List.mem_map.1 hc
    exact hlinks _ (List.mem_flatMap.2 ⟨link, hlink, List.mem_singleton_self _⟩)

theorem soundExpr_further (h : SoundExpr E) : SoundExpr (Further .tokens E) := by
  intro ts e hf hts
  cases hf with
  | mk _ he => exact h _ _ he (List.forall_mem_cons.1 hts).2

theorem soundExpr_parens (h : SoundExpr E) : SoundExpr (Parens .tokens E) := by
  intro ts e hp hts
  cases hp with
  | mk _ he _ =>
    obtain ⟨-, hrest⟩ := List.forall_mem_cons.1 hts
    exact h _ _ he (List.forall_mem_append.1 hrest).1

theorem soundExpr_primary (h : SoundExpr E) : SoundExpr (Primary .tokens E) := by
  rw [soundExpr_iff]
  intro ts e hp hts
  cases hp with
  | int hk =>
    have hvalid := hts _ List.mem_cons_self
    rw [← Alphabet.kind_tokens, hk] at hvalid
    exact Expr.forall_mem_nodes_iff.2 ⟨by simp [Expr.children], hvalid⟩
  | real hk => exact Expr.forall_mem_nodes_iff.2 ⟨by simp [Expr.children], trivial⟩
  | bool hk => exact Expr.forall_mem_nodes_iff.2 ⟨by simp [Expr.children], trivial⟩
  | ident hk =>
    have hvalid := hts _ List.mem_cons_self
    rw [← Alphabet.kind_tokens, hk] at hvalid
    exact Expr.forall_mem_nodes_iff.2 ⟨by simp [Expr.children], hvalid⟩
  | emptyList _ _ => exact Expr.forall_mem_nodes_iff.2 ⟨by simp [Expr.children], trivial⟩
  | list _ hf hm _ =>
    obtain ⟨-, hrest⟩ := List.forall_mem_cons.1 hts
    obtain ⟨hfirst, hrest⟩ := List.forall_mem_append.1 hrest
    have hitems := sound_many (soundExpr_further h) _ _ hm (List.forall_mem_append.1 hrest).1
    rw [List.flatMap_singleton'] at hitems
    exact Expr.forall_mem_nodes_iff.2 ⟨List.forall_mem_cons.2 ⟨h.nodes hf hfirst, hitems⟩, trivial⟩
  | parens hp => exact (soundExpr_parens h).nodes hp hts

theorem soundExpr_unary (hE : SoundExpr E) (hO : SoundExpr O) :
    SoundExpr (Unary .tokens E O) := by
  rw [soundExpr_iff]
  intro ts e hu hts
  cases hu with
  | unary _ ho =>
    have hoperand := hO.nodes ho (List.forall_mem_cons.1 hts).2
    exact Expr.forall_mem_nodes_iff.2 ⟨List.forall_mem_singleton.2 hoperand, trivial⟩
  | primary hp => exact (soundExpr_primary hE).nodes hp hts

theorem soundExpr_add (hE : SoundExpr E) (hO : SoundExpr O) : SoundExpr (Add .tokens E O) :=
  soundExpr_chain (fun _ _ _ => rfl) (fun _ _ _ h => h)
    (soundExpr_chain (fun _ _ _ => rfl) (fun _ _ _ h => h) (soundExpr_unary hE hO))

theorem soundExpr_comp (hE : SoundExpr E) (hO : SoundExpr O) : SoundExpr (Comp .tokens E O) := by
  have hadd := soundExpr_add hE hO
  rw [soundExpr_iff]
  intro ts e hc hts
  cases hc with
  | single ha => exact hadd.nodes ha hts
  | compare hl _ hr =>
    obtain ⟨hleft, hrest⟩ := List.forall_mem_append.1 hts
    have hright := hadd.nodes hr (List.forall_mem_cons.1 hrest).2
    refine Expr.forall_mem_nodes_iff.2 ⟨?_, Option.some_ne_none _⟩
    exact List.forall_mem_cons.2 ⟨hadd.nodes hl hleft, List.forall_mem_singleton.2 hright⟩

theorem soundExpr_choice (hE : SoundExpr E) (hO : SoundExpr O) :
    SoundExpr (Choice .tokens E O) := by
  have hlogic : SoundExpr (Logic .tokens E O) :=
    soundExpr_chain (fun _ _ _ => rfl) (fun _ _ _ h => h) (soundExpr_comp hE hO)
  rw [soundExpr_iff]
  intro ts e hc hts
  cases hc with
  | single hl => exact hlogic.nodes hl hts
  | ternary hc _ ht _ he =>
    obtain ⟨htest, hrest⟩ := List.forall_mem_append.1 hts
    obtain ⟨hthen, hrest⟩ := List.forall_mem_append.1 (List.forall_mem_cons.1 hrest).2
    have helse := hE.nodes he (List.forall_mem_cons.1 hrest).2
    refine Expr.forall_mem_nodes_iff.2 ⟨?_, trivial⟩
    exact List.forall_mem_cons.2 ⟨hlogic.nodes hc htest, List.forall_mem_cons.2
      ⟨hE.nodes ht hthen, List.forall_mem_singleton.2 helse⟩⟩

end expressions

theorem soundExpr_expr (levels : Nat) :
    SoundExpr (expr .tokens levels) ∧ SoundExpr (operand .tokens levels) := by
  induction levels with
  | zero =>
    rw [expr, operand]
    exact ⟨fun _ _ h => h.elim, fun _ _ h => h.elim⟩
  | succ levels ih =>
    rw [expr, operand]
    exact ⟨soundExpr_choice ih.1 ih.2, soundExpr_unary ih.1 ih.2⟩

/-! ### Statements -/

theorem exprsAll_eq (stmts : List Stmt) : Stmt.exprsAll stmts = stmts.flatMap Stmt.exprs := by
  induction stmts with
  | nil => rfl
  | cons s stmts ih => rw [Stmt.exprsAll, ih, List.flatMap_cons]

/-- The outermost expressions of a block. -/
def blockExprs (b : Block Stmt) : List Expr := Stmt.exprsAll b.stmts

theorem sound_braces {S : Phrase Token Stmt} (h : Sound Stmt.exprs S) :
    Sound blockExprs (Braces .tokens S) := by
  intro ts b hb hts
  cases hb with
  | mk _ hm _ =>
    obtain ⟨-, hrest⟩ := List.forall_mem_cons.1 hts
    unfold blockExprs
    rw [exprsAll_eq]
    exact sound_many h _ _ hm (List.forall_mem_append.1 hrest).1

theorem exprs_ifElse (test : Expr) (thenBlock : Block Stmt) (elseBlock : Option (Block Stmt))
    (span : Span) : (Stmt.ifElse test thenBlock elseBlock span).exprs =
      test :: (blockExprs thenBlock ++ elseBlock.toList.flatMap blockExprs) := by
  cases elseBlock with
  | none => simp [Stmt.exprs, blockExprs]
  | some elseBlock => simp [Stmt.exprs, blockExprs]

theorem sound_statement {B : Phrase Token (Block Stmt)} {E : Phrase Token Expr}
    (hB : Sound blockExprs B) (hE : SoundExpr E) : Sound Stmt.exprs (Statement .tokens B E) := by
  have hparens := soundExpr_parens hE
  intro ts s hs hts
  cases hs with
  | declare _ _ hinit _ =>
    obtain ⟨-, hrest⟩ := List.forall_mem_cons.1 (List.forall_mem_cons.1 hts).2
    have hvalue := sound_optional hE _ _ hinit (List.forall_mem_append.1 hrest).1
    simp only [List.flatMap_singleton'] at hvalue
    exact hvalue
  | assign _ _ he _ =>
    obtain ⟨-, hrest⟩ := List.forall_mem_cons.1 (List.forall_mem_cons.1 hts).2
    exact hE _ _ he (List.forall_mem_append.1 hrest).1
  | ifElse _ htest hthen helse =>
    obtain ⟨htests, hrest⟩ := List.forall_mem_append.1 (List.forall_mem_cons.1 hts).2
    obtain ⟨hthens, helses⟩ := List.forall_mem_append.1 hrest
    rw [exprs_ifElse, List.forall_mem_cons, List.forall_mem_append]
    exact ⟨hparens.nodes htest htests, hB _ _ hthen hthens, sound_optional hB _ _ helse helses⟩
  | whileDo _ htest hbody =>
    obtain ⟨htests, hbodies⟩ := List.forall_mem_append.1 (List.forall_mem_cons.1 hts).2
    exact List.forall_mem_cons.2 ⟨hparens.nodes htest htests, hB _ _ hbody hbodies⟩
  | doWhile _ hbody _ htest _ =>
    obtain ⟨hbodies, hrest⟩ := List.forall_mem_append.1 (List.forall_mem_cons.1 hts).2
    obtain ⟨htests, -⟩ := List.forall_mem_append.1 (List.forall_mem_cons.1 hrest).2
    exact List.forall_mem_append.2 ⟨hB _ _ hbody hbodies, hparens _ _ htest htests⟩
  | block hbody => exact hB _ _ hbody hts
  | expr he _ => exact hE _ _ he (List.forall_mem_append.1 hts).1

theorem sound_block (levels : Nat) : Sound blockExprs (block .tokens levels) := by
  induction levels with
  | zero =>
    unfold block
    exact fun _ _ h => h.elim
  | succ levels ih =>
    unfold block
    exact sound_braces (sound_statement ih (soundExpr_expr levels).1)

theorem sound_stmt (levels : Nat) : Sound Stmt.exprs (stmt .tokens levels) :=
  sound_statement (sound_block levels) (soundExpr_expr levels).1

end Grammar

/-- Every node of every expression of a program that was read is readable. -/
theorem readable_of_parse {source : String} {p : Program} (h : parse source = .ok p) :
    ∀ e ∈ p.exprs, ∀ x ∈ e.nodes, x.Readable := by
  obtain ⟨ts, stop, htok, hmany, -⟩ := parse_eq_ok_iff.1 h
  unfold Program.exprs
  rw [exprsAll_eq]
  exact sound_many (sound_stmt nestingLimit) _ _ hmany (valid_of_tokenize htok)

/-! ### Reading again -/

namespace Expr

/-- The nodes of a node are nodes of the whole. -/
theorem mem_nodes_trans {e x y : Expr} (hx : x ∈ e.nodes) (hy : y ∈ x.nodes) : y ∈ e.nodes := by
  -- `x` is `e` itself or stands among the nodes of one of its operands
  induction e using childInduction with
  | node e ih =>
    rw [nodes_eq, List.mem_append, List.mem_flatMap, List.mem_singleton] at hx
    obtain ⟨c, hc, hxc⟩ | rfl := hx
    · rw [nodes_eq, List.mem_append, List.mem_flatMap]
      exact .inl ⟨c, hc, ih c hc hxc⟩
    · exact hy

theorem chained_collapse {ω : Type} {node : Expr → List (Link ω Expr) → Span → Expr} {first : Expr}
    {rest : List (Link ω Expr)} {span : Span}
    (h : ∀ c ∈ first :: rest.map Link.operand, ∀ x ∈ c.nodes, x.Readable) (hne : rest ≠ [])
    (hfirst : (∀ x ∈ first.nodes, x.Readable) → first.collapse = first)
    (hrest : ∀ link ∈ rest, (∀ x ∈ link.operand.nodes, x.Readable) →
      link.operand.collapse = link.operand) :
    chained node first.collapse (rest.map fun link => ⟨link.op, link.operand.collapse⟩) span =
      node first rest span := by
  obtain ⟨hhead, hlinks⟩ := List.forall_mem_cons.1 h
  have hmap : rest.map (fun link => (⟨link.op, link.operand.collapse⟩ : Link ω Expr)) = rest := by
    refine (List.map_congr_left fun link hlink => ?_).trans (List.map_id rest)
    rw [hrest link hlink (hlinks _ (List.mem_map_of_mem hlink))]
    rfl
  rw [hfirst hhead, hmap, chained, if_neg (by simpa using hne)]

/-- A readable expression has no wrappers. -/
theorem collapse_eq_self (e : Expr) (h : ∀ x ∈ e.nodes, x.Readable) : e.collapse = e := by
  induction e with
  | int digits span => rw [collapse]
  | real value span => rw [collapse]
  | bool value span => rw [collapse]
  | list items span ih =>
    obtain ⟨hchildren, -⟩ := forall_mem_nodes_iff.1 h
    have hmap : items.map (fun e => e.collapse) = items :=
      (List.map_congr_left fun e he => ih e he (hchildren e he)).trans (List.map_id items)
    rw [collapse, hmap]
  | ident name span => rw [collapse]
  | unary op operand span ih =>
    obtain ⟨hchildren, -⟩ := forall_mem_nodes_iff.1 h
    rw [collapse, ih (hchildren operand List.mem_cons_self)]
  | additive first rest span ih ihs =>
    obtain ⟨hchildren, hnode⟩ := forall_mem_nodes_iff.1 h
    rw [collapse]
    exact chained_collapse hchildren hnode ih ihs
  | multiplicative first rest span ih ihs =>
    obtain ⟨hchildren, hnode⟩ := forall_mem_nodes_iff.1 h
    rw [collapse]
    exact chained_collapse hchildren hnode ih ihs
  | logical first rest span ih ihs =>
    obtain ⟨hchildren, hnode⟩ := forall_mem_nodes_iff.1 h
    rw [collapse]
    exact chained_collapse hchildren hnode ih ihs
  | single left span ih => exact absurd rfl (forall_mem_nodes_iff.1 h).2
  | compare left op right span ihl ihr =>
    obtain ⟨hchildren, -⟩ := forall_mem_nodes_iff.1 h
    rw [collapse, ihl (hchildren left (by simp [children])),
      ihr (hchildren right (by simp [children]))]
  | ternary test thenArm elseArm span ihc iht ihe =>
    obtain ⟨hchildren, -⟩ := forall_mem_nodes_iff.1 h
    rw [collapse, ihc (hchildren test (by simp [children])),
      iht (hchildren thenArm (by simp [children])), ihe (hchildren elseArm (by simp [children]))]

/-- A readable node can be written if its real literal, should it be one, can. -/
theorem Readable.writable {e : Expr} (h : e.Readable)
    (hreal : ∀ value span, e = .real value span → IsReal value.render.toList) : e.Writable := by
  cases e with
  | int digits span => exact h
  | real value span => exact hreal value span rfl
  | ident name span => exact h
  | _ => exact trivial

end Expr

/-- An expression of a text that a test finds. -/
theorem exists_expr_of_any {source : String} {test : Expr → Bool}
    (h : ((parse source).toOption.any fun p => p.exprs.any test) = true) :
    ∃ p e, parse source = .ok p ∧ e ∈ p.exprs ∧ test e = true := by
  cases hp : parse source with
  | error f =>
    rw [hp] at h
    cases h
  | ok p =>
    rw [hp] at h
    obtain ⟨e, he, htest⟩ := List.any_eq_true.1 h
    exact ⟨p, e, rfl, he, htest⟩

/-- **Expressions of a text are read back.**  An expression of a program that was read, whose real
literals are written as literals and whose text nests less deeply than statements may, is read again
from its text. -/
theorem parse_render_of_parse (source : String) (p : Program) (h : parse source = .ok p) (e : Expr)
    (he : e ∈ p.exprs.flatMap Expr.nodes)
    (hreal : ∀ value span, .real value span ∈ e.nodes → IsReal value.render.toList)
    (hnesting : e.nesting < nestingLimit) :
    ∃ q value span, parse (e.render ++ ";") = .ok q ∧ q.stmts = [.expr value span] ∧
      value.bare = e.bare := by
  obtain ⟨root, hroot, hmem⟩ := List.mem_flatMap.1 he
  have hreadable : ∀ x ∈ e.nodes, x.Readable := fun x hx =>
    readable_of_parse h root hroot x (Expr.mem_nodes_trans hmem hx)
  have hwritable : ∀ x ∈ e.nodes, x.Writable := fun x hx =>
    (hreadable x hx).writable fun value span hvalue => hreal value span (hvalue ▸ hx)
  have hwritten := e.readsBack hwritable (nestingLimit - 1) (Nat.le_pred_of_lt hnesting)
  -- the wrappers that rendering drops are never read in the first place
  rw [e.collapse_eq_self hreadable] at hwritten
  exact parse_of_written (hwritten.mono expr_of_operand)

/-- A comparison with a signed real in it. -/
theorem parse_render_of_parse_signed :
    ∃ p e q value span, parse "x = -1.5 * y < 2;" = .ok p ∧ e ∈ p.exprs ∧
      e.render = "((-1.5 * y) < 2)" ∧ parse (e.render ++ ";") = .ok q ∧
      q.stmts = [.expr value span] ∧ value.bare = e.bare := by
  have hsearch : ((parse "x = -1.5 * y < 2;").toOption.any fun p => p.exprs.any fun e =>
      e.render == "((-1.5 * y) < 2)" && e.nesting == 3 && e.nodes.all fun x =>
        match x with
        | .real value _ => value.render == "1.5"
        | _ => true) = true := by
    decide +kernel
  obtain ⟨p, e, hp, he, htest⟩ := exists_expr_of_any hsearch
  simp only [Bool.and_eq_true, beq_iff_eq, List.all_eq_true] at htest
  obtain ⟨⟨hrender, hnesting⟩, hreals⟩ := htest
  have hreal : ∀ value span, .real value span ∈ e.nodes → IsReal value.render.toList := by
    intro value span hvalue
    have htext : value.render = "1.5" := beq_iff_eq.1 (hreals _ hvalue)
    have h1 : IsDigits ['1'] := isDigits_singleton rfl
    have h5 : IsDigits ['5'] := isDigits_singleton rfl
    rw [htext]
    exact .mk h1 h5 .none
  obtain ⟨q, value, span, hq⟩ := parse_render_of_parse "x = -1.5 * y < 2;" p hp e
    (List.mem_flatMap.2 ⟨e, he, e.mem_nodes_self⟩) hreal (hnesting ▸ by decide)
  exact ⟨p, e, q, value, span, hp, he, hrender, hq⟩

/-- Two texts with expressions that are not read again: a large real, and a sum whose first operand
has as many signs as may nest. -/
theorem exists_render_unread :
    (∃ p e, parse "10000000000000000.0;" = .ok p ∧ e ∈ p.exprs.flatMap Expr.nodes ∧
      ∀ q, parse (e.render ++ ";") ≠ .ok q) ∧
    ∃ p e, parse (String.ofList (List.replicate 99 '-') ++ "0+0;") = .ok p ∧
      e ∈ p.exprs.flatMap Expr.nodes ∧ ∀ q, parse (e.render ++ ";") ≠ .ok q := by
  have hsearch : ∀ {source : String}, ((parse source).toOption.any fun p => p.exprs.any fun e =>
      (parse (e.render ++ ";")).toOption.isNone) = true → ∃ p e, parse source = .ok p ∧
        e ∈ p.exprs.flatMap Expr.nodes ∧ ∀ q, parse (e.render ++ ";") ≠ .ok q := by
    intro source h
    obtain ⟨p, e, hp, he, htest⟩ := exists_expr_of_any h
    refine ⟨p, e, hp, List.mem_flatMap.2 ⟨e, he, e.mem_nodes_self⟩, fun q hq => ?_⟩
    rw [hq] at htest
    cases htest
  exact ⟨hsearch (by decide +kernel), hsearch (by decide +kernel)⟩

end StaticCheck
