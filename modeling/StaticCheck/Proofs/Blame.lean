import StaticCheck.Proofs.Locations

/-! # The spans of violations

A violation is reported at the span of a node: of an expression, of a statement, or of the name that
a statement declares or assigns to.  There is one exception.  Operands of a comparison that do not
fit are reported from the start of the left one to the end of the right one, and parentheses belong
to the comparison but to neither operand.  So a comparison with a parenthesis at one of its ends is
reported at less than its own span (`span_mem_nodeSpans_or`), which need not be the span of any node
(`span_not_mem_nodeSpans`). -/

namespace StaticCheck

open Grammar

namespace Program

/-- The spans of the nodes of a program: statements, names of statements, and expressions. -/
def nodeSpans (p : Program) : List Span :=
  p.stmtNodes.flatMap (fun s => s.span :: s.nameSpan?.toList) ++ p.exprNodes.map Expr.span

section members

variable {p : Program}

theorem span_mem_nodeSpans {s : Stmt} (hs : s ∈ p.stmtNodes) : s.span ∈ p.nodeSpans :=
  List.mem_append_left _ (List.mem_flatMap.2 ⟨s, hs, List.mem_cons_self⟩)

theorem nameSpan_mem_nodeSpans {s : Stmt} {span : Span} (hs : s ∈ p.stmtNodes)
    (hspan : s.nameSpan? = some span) : span ∈ p.nodeSpans := by
  refine List.mem_append_left _ (List.mem_flatMap.2 ⟨s, hs, List.mem_cons_of_mem _ ?_⟩)
  rw [hspan]
  exact List.mem_singleton_self span

theorem expr_mem_nodeSpans {x : Expr} (hx : x ∈ p.exprNodes) : x.span ∈ p.nodeSpans :=
  List.mem_append_right _ (List.mem_map_of_mem hx)

end members

end Program

/-! ### Tokens one behind the other -/

/-- Tokens that stand one behind the other, each on some text. -/
structure Separated (ts : List Token) : Prop where
  apart : ts.Pairwise fun t u => t.span.stop ≤ u.span.start
  nonempty : ∀ t ∈ ts, t.span.start < t.span.stop

namespace Separated

variable {ts us vs ws : List Token} {l r t : Token}

theorem of_items {source : String} (h : items source = ts.map .ok) : Separated ts where
  apart := separated_of_locate h
  nonempty := fun _ ht =>
    (located_of_mem_items (mem_items_of_part h (List.infix_refl ts) _ ht)).start_lt_stop

theorem part (h : Separated ts) (hus : us <:+: ts) : Separated us where
  apart := h.apart.sublist hus.sublist
  nonempty := fun t ht => h.nonempty t (hus.subset ht)

theorem stop_le_getLast (h : Separated ts) (ht : t ∈ ts) (hne : ts ≠ []) :
    t.span.stop ≤ (ts.getLast hne).span.stop := by
  obtain ⟨front, last, rfl⟩ := (List.eq_nil_or_concat' ts).resolve_left hne
  rw [List.getLast_append_singleton]
  have hlast := h.nonempty last (by simp)
  rcases List.mem_append.1 ht with hfront | hself
  · have hapart := (List.pairwise_append.1 h.apart).2.2 t hfront last (List.mem_singleton_self last)
    omega
  · rw [List.mem_singleton.1 hself]

theorem cover_eq (h : Separated ts) (hne : ts ≠ []) :
    Alphabet.cover ts = ⟨(ts.head hne).span.start, (ts.getLast hne).span.stop⟩ := by
  rw [cover_of_ne_nil hne, Nat.max_eq_left (h.stop_le_getLast (List.head_mem hne) hne)]

/-- Tokens in front of others end before these start, and all together cover both. -/
theorem cover_append (h : Separated (us ++ vs)) (hus : us ≠ []) (hvs : vs ≠ []) :
    (Alphabet.cover us).stop ≤ (Alphabet.cover vs).start ∧
      (Alphabet.cover (us ++ vs)).start = (Alphabet.cover us).start ∧
      (Alphabet.cover (us ++ vs)).stop = (Alphabet.cover vs).stop := by
  have hne : us ++ vs ≠ [] := List.append_ne_nil_of_left_ne_nil hus vs
  rw [h.cover_eq hne, (h.part (List.prefix_append us vs).isInfix).cover_eq hus,
    (h.part (List.suffix_append us vs).isInfix).cover_eq hvs]
  refine ⟨?_, ?_, ?_⟩
  · exact (List.pairwise_append.1 h.apart).2.2 _ (List.getLast_mem hus) _ (List.head_mem hvs)
  · rw [List.head_append_of_ne_nil hus]
  · rw [List.getLast_append_of_ne_nil _ hvs]

/-- Tokens on the two sides of another one. -/
theorem cover_around (h : Separated (us ++ t :: vs)) (hus : us ≠ []) (hvs : vs ≠ []) :
    (Alphabet.cover us).stop ≤ (Alphabet.cover vs).start ∧
      (Alphabet.cover (us ++ t :: vs)).start = (Alphabet.cover us).start ∧
      (Alphabet.cover (us ++ t :: vs)).stop = (Alphabet.cover vs).stop := by
  have hbehind : Separated ([t] ++ vs) := h.part (List.suffix_append us (t :: vs)).isInfix
  obtain ⟨hbefore, hstart, hstop⟩ := h.cover_append hus (List.cons_ne_nil t vs)
  obtain ⟨hafter, hfirst, hlast⟩ := hbehind.cover_append (List.cons_ne_nil t []) hvs
  rw [List.singleton_append, Alphabet.cover_singleton] at hfirst
  rw [Alphabet.cover_singleton] at hafter
  have ht := hbehind.nonempty t List.mem_cons_self
  refine ⟨by omega, hstart, ?_⟩
  rw [hstop, ← hlast, List.singleton_append]

/-- Tokens between two others stand between the places of these. -/
theorem cover_between (h : Separated (l :: (ws ++ [r]))) (hus : us <:+: ws) (hne : us ≠ []) :
    (Alphabet.cover (l :: (ws ++ [r]))).start = l.span.start ∧
      l.span.stop ≤ (Alphabet.cover us).start ∧ (Alphabet.cover us).stop ≤ r.span.start ∧
      (Alphabet.cover (l :: (ws ++ [r]))).stop = r.span.stop := by
  have hall : l :: (ws ++ [r]) ≠ [] := List.cons_ne_nil _ _
  have hinner : ws <:+: l :: (ws ++ [r]) := ⟨[l], [r], by simp⟩
  obtain ⟨hleft, hapart⟩ := List.pairwise_cons.1 h.apart
  have hright := (List.pairwise_append.1 hapart).2.2
  have hlast : (l :: (ws ++ [r])).getLast hall = r := by simp
  rw [h.cover_eq hall, hlast, (h.part (hus.trans hinner)).cover_eq hne]
  refine ⟨rfl, ?_, ?_, rfl⟩
  · exact hleft _ (List.mem_append_left _ (hus.subset (List.head_mem hne)))
  · exact hright _ (hus.subset (List.getLast_mem hne)) r (List.mem_singleton_self r)

end Separated

/-! ### The sides of a comparison -/

section sides

variable {ts us vs : List Token} {e left right : Expr} {levels : Nat}

/-- A side of a comparison covers its symbols, or stands in parentheses. -/
theorem span_or_parens {A : Alphabet Token} {E O : Phrase Token Expr} (h : Add A E O ts e) :
    e.span = A.span ts ∨ Parens A E ts e := by
  cases h with
  | chain => exact .inl rfl
  | single hmul =>
    cases hmul with
    | chain => exact .inl rfl
    | single hunary =>
      cases hunary with
      | unary => exact .inl rfl
      | primary hprimary =>
        cases hprimary with
        | parens hparens => exact .inr hparens
        | int _ | real _ | bool _ | ident _ | emptyList _ _ | list _ _ _ _ => exact .inl rfl

/-- The place of a side among its tokens. -/
inductive Side (ts : List Token) (span : Span) : Prop
  | exact : span = Alphabet.cover ts → Side ts span
  | parens {l r : Token} : l ∈ ts → r ∈ ts → l.kind = .punct .openParen →
      r.kind = .punct .closeParen → (Alphabet.cover ts).start = l.span.start →
      l.span.stop ≤ span.start → span.stop ≤ r.span.start →
      (Alphabet.cover ts).stop = r.span.stop → Side ts span

theorem side_of_add (hts : Separated ts)
    (h : Add .tokens (expr .tokens levels) (operand .tokens levels) ts e) : Side ts e.span := by
  rcases span_or_parens h with hspan | hparens
  · exact .exact hspan
  · cases hparens with
    | mk hl he hr =>
      -- the node stands somewhere between the parentheses, perhaps in further ones
      obtain ⟨us, hus, hnode⟩ := (contains_expr (Nat.le_succ levels)).1 _ _ he e e.mem_nodes_self
      have hspan : e.span = Alphabet.cover us := hnode.span_eq
      obtain ⟨hstart, hopen, hclose, hstop⟩ := hts.cover_between hus hnode.opens.ne_nil
      rw [← hspan] at hopen hclose
      exact .parens (by simp) (by simp) hl hr hstart hopen hclose hstop

theorem Side.bounds {span : Span} (h : Side ts span) (hts : Separated ts) :
    (Alphabet.cover ts).start ≤ span.start ∧ span.stop ≤ (Alphabet.cover ts).stop := by
  cases h with
  | exact hspan =>
    rw [hspan]
    exact ⟨Nat.le_refl _, Nat.le_refl _⟩
  | parens hl hr _ _ hstart hopen hclose hstop =>
    have hleft := hts.nonempty _ hl
    have hright := hts.nonempty _ hr
    omega

/-- What a comparison covers, against what its two sides cover: both agree but for parentheses at
the ends of the comparison. -/
theorem compare_span {op : CompareOp} {span : Span} (hts : Separated ts)
    (h : node .tokens levels ts (.compare left (some ⟨op, right⟩) span))
    (hleft : left.span.start < left.span.stop) (hright : right.span.start < right.span.stop) :
    span.start ≤ (left.span.merge right.span).start ∧
      (left.span.merge right.span).stop ≤ span.stop ∧
      (left.span.merge right.span = span ∨
        (∃ l ∈ ts, l.kind = .punct .openParen ∧ l.span.start = span.start ∧
          l.span.stop ≤ (left.span.merge right.span).start) ∨
        ∃ r ∈ ts, r.kind = .punct .closeParen ∧ r.span.stop = span.stop ∧
          (left.span.merge right.span).stop ≤ r.span.start) := by
  have hspan : span = Alphabet.cover ts := h.span_eq
  obtain ⟨us, sign, vs, rfl, hus, hvs⟩ := h.compare_inv
  have husSeparated := hts.part (List.prefix_append us (sign :: vs)).isInfix
  have hvsSeparated := hts.part
    ((List.suffix_cons sign vs).trans (List.suffix_append us (sign :: vs))).isInfix
  obtain ⟨hbetween, hstart, hstop⟩ := hts.cover_around hus.opens.ne_nil hvs.opens.ne_nil
  have hsideLeft := side_of_add husSeparated hus
  have hsideRight := side_of_add hvsSeparated hvs
  have hboundsLeft := hsideLeft.bounds husSeparated
  have hboundsRight := hsideRight.bounds hvsSeparated
  have hmerge : left.span.merge right.span = ⟨left.span.start, right.span.stop⟩ := by
    unfold Span.merge
    rw [Nat.min_eq_left (by omega), Nat.max_eq_right (by omega)]
  rw [hmerge, hspan]
  refine ⟨by simp only; omega, by simp only; omega, ?_⟩
  cases hsideLeft with
  | parens hl _ hkind _ hopenStart hopen _ _ =>
    exact .inr (.inl ⟨_, List.mem_append_left _ hl, hkind, by omega, hopen⟩)
  | exact hexactLeft =>
    cases hsideRight with
    | parens _ hr _ hkind _ _ hclose hcloseStop =>
      refine .inr (.inr ⟨_, ?_, hkind, by omega, hclose⟩)
      exact List.mem_append_right _ (List.mem_cons_of_mem _ hr)
    | exact hexactRight =>
      refine .inl ?_
      rw [hexactLeft, hexactRight, ← hstart, ← hstop]

/-- The sides of a comparison in a text, and the parentheses at its ends. -/
theorem comparison_in_text {source : String} {op : CompareOp} {span : Span}
    (hitems : items source = ts.map .ok)
    (hnodes : ∀ x ∈ e.nodes, Within (node .tokens levels) ts x)
    (hx : .compare left (some ⟨op, right⟩) span ∈ e.nodes) :
    left.span.merge right.span = span ∨
      span.start ≤ (left.span.merge right.span).start ∧
      (left.span.merge right.span).stop ≤ span.stop ∧
      ((∃ sign : Span, sign.Shows source "(" ∧ sign.start = span.start ∧
          sign.stop ≤ (left.span.merge right.span).start) ∨
        ∃ sign : Span, sign.Shows source ")" ∧ sign.stop = span.stop ∧
          (left.span.merge right.span).stop ≤ sign.start) := by
  have hlong : ∀ x ∈ e.nodes, x.span.start < x.span.stop := fun x hx =>
    (located_of_within hitems (hnodes x hx)).start_lt_stop
  have hleft := hlong left (Expr.mem_nodes_of_mem_nodes hx (by simp [Expr.children]))
  have hright := hlong right (Expr.mem_nodes_of_mem_nodes hx (by simp [Expr.children]))
  obtain ⟨us, hus, hnode⟩ := hnodes _ hx
  have hshows : ∀ t ∈ us, t.span.Shows source t.kind.spelling := fun t ht =>
    (shows_of_mem_items (mem_items_of_part hitems hus t ht)).2
  obtain ⟨hstart, hstop, hsides⟩ :=
    compare_span ((Separated.of_items hitems).part hus) hnode hleft hright
  rcases hsides with heq | ⟨l, hl, hkind, hlstart, hlstop⟩ | ⟨r, hr, hkind, hrstop, hrstart⟩
  · exact .inl heq
  · have hopen := hshows l hl
    rw [hkind] at hopen
    exact .inr ⟨hstart, hstop, .inl ⟨l.span, hopen, hlstart, hlstop⟩⟩
  · have hclose := hshows r hr
    rw [hkind] at hclose
    exact .inr ⟨hstart, hstop, .inr ⟨r.span, hclose, hrstop, hrstart⟩⟩

end sides

/-! ### Violations -/

/-- **Where violations are reported.**  The span of a violation is that of a node, unless the two
sides of a comparison do not fit.  Then it is merged from the spans of the sides, and falls short of
the comparison only by a parenthesis at the start or at the end of the comparison. -/
theorem span_mem_nodeSpans_or {source : String} {p : Program} {err : SemanticError}
    (hparse : parse source = .ok p) (hcheck : check source = .error (.semantic err)) :
    err.span ∈ p.nodeSpans ∨
      ∃ left op right span, .compare left (some ⟨op, right⟩) span ∈ p.exprNodes ∧
        err = .expression (left.span.merge right.span) ∧
        span.start ≤ err.span.start ∧ err.span.stop ≤ span.stop ∧
        ((∃ sign : Span, sign.Shows source "(" ∧ sign.start = span.start ∧
            sign.stop ≤ err.span.start) ∨
          ∃ sign : Span, sign.Shows source ")" ∧ sign.stop = span.stop ∧
            err.span.stop ≤ sign.start) := by
  obtain ⟨other, hother, hoffence⟩ := offence_of_check hparse hcheck
  cases hother
  obtain ⟨ts, hitems, hstmts, hnodes⟩ := exists_tokens_of_parse hparse
  cases hoffence with
  | redeclared hs => exact .inl (Program.nameSpan_mem_nodeSpans hs rfl)
  | undeclared hs => exact .inl (Program.nameSpan_mem_nodeSpans hs rfl)
  | assigned hs => exact .inl (Program.span_mem_nodeSpans hs)
  | initial hs =>
    obtain ⟨us, -, hstmt⟩ := hstmts _ hs
    refine .inl ?_
    have hmem := Program.span_mem_nodeSpans hs
    rwa [Stmt.span, ← stmt_declare_span hstmt] at hmem
  | @expr s e _ hs he herr =>
    have hsub : ∀ x ∈ e.nodes, x ∈ p.exprNodes := fun x hx =>
      List.mem_flatMap.2 ⟨s, hs, List.mem_flatMap.2 ⟨e, he, hx⟩⟩
    cases herr with
    | undeclared hx => exact .inl (Program.expr_mem_nodeSpans (hsub _ hx))
    | expression hx => exact .inl (Program.expr_mem_nodeSpans (hsub _ hx))
    | condition hx => exact .inl (Program.expr_mem_nodeSpans (hsub _ hx))
    | @comparison left right op span hx =>
      have hnode := fun x hx => hnodes x (hsub x hx)
      rcases comparison_in_text hitems hnode hx with heq | ⟨hstart, hstop, hsigns⟩
      · have hmem := Program.expr_mem_nodeSpans (hsub _ hx)
        rw [Expr.span, ← heq] at hmem
        exact .inl hmem
      · exact .inr ⟨left, op, right, span, hsub _ hx, rfl, hstart, hstop, hsigns⟩

/-- A comparison whose two sides end in parentheses, twice on the left. -/
theorem span_mem_nodeSpans_or_nested :
    ∃ p, parse "bool b = ((1)) == (true && false);" = .ok p ∧
      check "bool b = ((1)) == (true && false);" = .error (.semantic (.expression ⟨11, 32⟩)) ∧
      (⟨11, 32⟩ ∈ p.nodeSpans ∨
        ∃ left op right span, .compare left (some ⟨op, right⟩) span ∈ p.exprNodes ∧
          SemanticError.expression ⟨11, 32⟩ = .expression (left.span.merge right.span) ∧
          span.start ≤ 11 ∧ 32 ≤ span.stop ∧
          ((∃ sign : Span, sign.Shows "bool b = ((1)) == (true && false);" "(" ∧
              sign.start = span.start ∧ sign.stop ≤ 11) ∨
            ∃ sign : Span, sign.Shows "bool b = ((1)) == (true && false);" ")" ∧
              sign.stop = span.stop ∧ 32 ≤ sign.start)) := by
  have hread :
      ((parse "bool b = ((1)) == (true && false);").toOption.any fun _ => true) = true := by
    decide +kernel
  have hcheck : check "bool b = ((1)) == (true && false);" =
      .error (.semantic (.expression ⟨11, 32⟩)) := by
    decide +kernel
  obtain ⟨p, hparse, -⟩ := exists_program_of_any hread
  exact ⟨p, hparse, hcheck, span_mem_nodeSpans_or hparse hcheck⟩

/-- A comparison that is reported at the span of no node: its left side stands in parentheses. -/
theorem span_not_mem_nodeSpans :
    ∃ p, parse "(1) < true;" = .ok p ∧
      check "(1) < true;" = .error (.semantic (.expression ⟨1, 10⟩)) ∧ ⟨1, 10⟩ ∉ p.nodeSpans := by
  have hsearch : ((parse "(1) < true;").toOption.any fun p =>
      decide (⟨1, 10⟩ ∉ p.nodeSpans)) = true := by
    decide +kernel
  have hcheck : check "(1) < true;" = .error (.semantic (.expression ⟨1, 10⟩)) := by
    decide +kernel
  obtain ⟨p, hparse, hspan⟩ := exists_program_of_any hsearch
  exact ⟨p, hparse, hcheck, of_decide_eq_true hspan⟩

end StaticCheck
