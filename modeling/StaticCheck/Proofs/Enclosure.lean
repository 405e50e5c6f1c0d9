import StaticCheck.Proofs.Blame

/-! # The places of a tree

In the tree of a text every node lies inside the node around it, and the parts of a node stand one
behind the other, in the order in which they are written (`parse_placed`).

Reading never compares two places.  The order comes from the tokens: the parts of a node cover
tokens of the node, one group of tokens behind the other (`Row`).  Between the groups any tokens may
be left out, signs and brackets as well as the parentheses around a part, which belong to no
node. -/

namespace StaticCheck

open Grammar

/-! ### Parts in order -/

/-- The parts lie inside the span, none of them is empty, and each ends before the next one
starts. -/
structure Span.Encloses (outer : Span) (parts : List Span) : Prop where
  nonempty : ∀ part ∈ parts, part.start < part.stop
  within : ∀ part ∈ parts, outer.start ≤ part.start ∧ part.stop ≤ outer.stop
  ordered : parts.Pairwise fun a b => a.stop ≤ b.start

theorem Span.Encloses.nil (outer : Span) : outer.Encloses [] :=
  ⟨List.forall_mem_nil _, List.forall_mem_nil _, .nil⟩

theorem Span.Encloses.widen {outer wider : Span} {parts : List Span} (h : outer.Encloses parts)
    (hstart : wider.start ≤ outer.start) (hstop : outer.stop ≤ wider.stop) :
    wider.Encloses parts where
  nonempty := h.nonempty
  within part hpart := by
    have hwithin := h.within part hpart
    omega
  ordered := h.ordered

/-- The spans cover groups of the tokens, one behind the other. -/
inductive Row : List Token → List Span → Prop
  | nil (ts : List Token) : Row ts []
  | cons (before : List Token) {us ts : List Token} {spans : List Span} : us ≠ [] → Row ts spans →
      Row (before ++ (us ++ ts)) (Alphabet.cover us :: spans)

namespace Row

variable {ts us : List Token} {spans more : List Span}

theorem single (hne : us ≠ []) (hus : us <:+: ts) : Row ts [Alphabet.cover us] := by
  obtain ⟨before, after, rfl⟩ := hus
  rw [List.append_assoc]
  exact .cons before hne (.nil after)

theorem right (h : Row ts spans) (us : List Token) : Row (us ++ ts) spans := by
  cases h with
  | nil => exact .nil _
  | cons before hne hrest =>
    rw [← List.append_assoc]
    exact .cons (us ++ before) hne hrest

theorem behind (h : Row ts spans) (t : Token) : Row (t :: ts) spans := h.right [t]

theorem append (h : Row ts spans) (hmore : Row us more) : Row (ts ++ us) (spans ++ more) := by
  induction h with
  | nil ts => exact hmore.right ts
  | cons before hne _ ih =>
    rw [List.append_assoc, List.append_assoc]
    exact .cons before hne ih

theorem left (h : Row ts spans) (us : List Token) : Row (ts ++ us) spans := by
  have happend := h.append (.nil us)
  rwa [List.append_nil] at happend

/-- Every span covers a token. -/
theorem ne_nil (h : Row ts spans) (hne : spans ≠ []) : ts ≠ [] := by
  cases h with
  | nil => exact absurd rfl hne
  | cons before hus _ =>
    intro hnil
    exact hus (List.append_eq_nil_iff.1 (List.append_eq_nil_iff.1 hnil).2).1

end Row

/-! ### Groups of separated tokens -/

namespace Separated

variable {ts us : List Token}

theorem head_start_le {t : Token} (h : Separated ts) (ht : t ∈ ts) (hne : ts ≠ []) :
    (ts.head hne).span.start ≤ t.span.start := by
  obtain ⟨first, rest, rfl⟩ := List.exists_cons_of_ne_nil hne
  rw [List.head_cons]
  have hfirst := h.nonempty first List.mem_cons_self
  rcases List.mem_cons.1 ht with rfl | hrest
  · exact Nat.le_refl _
  · have hapart := (List.pairwise_cons.1 h.apart).1 t hrest
    omega

/-- Tokens that stand together cover a part of what all tokens cover. -/
theorem cover_part (h : Separated ts) (hus : us <:+: ts) (hne : us ≠ []) :
    (Alphabet.cover ts).start ≤ (Alphabet.cover us).start ∧
      (Alphabet.cover us).start < (Alphabet.cover us).stop ∧
      (Alphabet.cover us).stop ≤ (Alphabet.cover ts).stop := by
  have hts : ts ≠ [] := by
    rintro rfl
    exact hne (List.infix_nil.1 hus)
  have hpart := h.part hus
  have hhead := List.head_mem hne
  rw [h.cover_eq hts, hpart.cover_eq hne]
  refine ⟨?_, ?_, ?_⟩
  · exact h.head_start_le (hus.subset hhead) hts
  · have hlong := hpart.nonempty _ hhead
    have hlast := hpart.stop_le_getLast hhead hne
    exact Nat.lt_of_lt_of_le hlong hlast
  · exact h.stop_le_getLast (hus.subset (List.getLast_mem hne)) hts

/-- Spans of groups of tokens, one behind the other, are enclosed by what all tokens cover. -/
theorem encloses (h : Separated ts) {spans : List Span} (hrow : Row ts spans) :
    (Alphabet.cover ts).Encloses spans := by
  induction hrow with
  | nil ts => exact .nil _
  | @cons before us ts spans hne hlast ih =>
    have hgroup := h.cover_part ⟨before, ts, by rw [List.append_assoc]⟩ hne
    have hrest : us ++ ts <:+: before ++ (us ++ ts) := (List.suffix_append _ _).isInfix
    have hbehind : ts <:+: before ++ (us ++ ts) := (List.suffix_append us ts).isInfix.trans hrest
    have hspans := ih (h.part hbehind)
    -- what the later spans cover starts behind the group
    have hlater : ∀ part ∈ spans, (Alphabet.cover us).stop ≤ part.start ∧
        part.stop ≤ (Alphabet.cover (before ++ (us ++ ts))).stop := by
      intro part hpart
      have hts : ts ≠ [] := hlast.ne_nil (List.ne_nil_of_mem hpart)
      have hinner := hspans.within part hpart
      have hapart := ((h.part hrest).cover_append hne hts).1
      have houter := h.cover_part hbehind hts
      omega
    refine ⟨?_, ?_, ?_⟩
    · exact List.forall_mem_cons.2 ⟨hgroup.2.1, hspans.nonempty⟩
    · refine List.forall_mem_cons.2 ⟨⟨hgroup.1, hgroup.2.2⟩, fun part hpart => ?_⟩
      have := hlater part hpart
      omega
    · exact List.pairwise_cons.2 ⟨fun part hpart => (hlater part hpart).1, hspans.ordered⟩

end Separated

/-! ### Derived trees -/

/-- Whatever tokens the phrase derives a tree from, the spans of the tree cover groups of these. -/
def Lays {τ : Type} (spans : τ → List Span) (P : Phrase Token τ) : Prop :=
  ∀ ts a, P ts a → Row ts (spans a)

/-- An expression covers a group of the tokens it is derived from: all but parentheses around it. -/
abbrev LaysExpr (P : Phrase Token Expr) : Prop := Lays (fun e => [e.span]) P

section repetitions

variable {τ : Type} {P : Phrase Token τ} {E O : Phrase Token Expr}

theorem lays_many {span : τ → Span} (h : Lays (fun a => [span a]) P) :
    Lays (List.map span) (Many P) := by
  intro ts as hm
  induction hm with
  | nil => exact .nil []
  | cons hp _ ih => exact (h _ _ hp).append ih

theorem lays_optional {span : τ → Span} {mark : TokenKind} (h : Lays (fun a => [span a]) P) :
    Lays (fun a => a.toList.map span) (Optional .tokens mark P) := by
  intro ts a ho
  cases ho with
  | none => exact .nil []
  | some _ hp => exact (h _ _ hp).behind _

theorem lays_linked {ω : Type} {mark : ω → Punct} (h : LaysExpr O) :
    Lays (fun link => [link.operand.span]) (Linked .tokens mark O) := by
  intro ts link hl
  cases hl with
  | mk _ ho => exact (h _ _ ho).behind _

theorem lays_links {ω : Type} {mark : ω → Punct} (h : LaysExpr O) :
    Lays (fun links => (links.map Link.operand).map Expr.span) (Many (Linked .tokens mark O)) := by
  have hlink : Lays (fun link => [(Expr.span ∘ Link.operand) link]) (Linked .tokens mark O) :=
    lays_linked h
  intro ts links hm
  show Row ts ((links.map Link.operand).map Expr.span)
  rw [List.map_map]
  exact lays_many hlink ts links hm

theorem lays_further (h : LaysExpr E) : LaysExpr (Further .tokens E) := by
  intro ts e hf
  cases hf with
  | mk _ he => exact (h _ _ he).behind _

theorem lays_parens (h : LaysExpr E) : LaysExpr (Parens .tokens E) := by
  intro ts e hp
  cases hp with
  | mk _ he _ => exact ((h _ _ he).left _).behind _

theorem lays_of_contains {levels : Nat} (h : Contains Expr.nodes (node .tokens levels) E) :
    LaysExpr E := by
  intro ts e he
  obtain ⟨us, hus, hnode⟩ := h ts e he e e.mem_nodes_self
  have hspan : e.span = Alphabet.cover us := hnode.span_eq
  show Row ts [e.span]
  rw [hspan]
  exact .single hnode.opens.ne_nil hus

end repetitions

section trees

variable (levels : Nat)

theorem lays_expr : LaysExpr (expr .tokens levels) :=
  lays_of_contains (contains_expr (Nat.le_succ levels)).1

/-- The operands of a node stand one behind the other. -/
theorem lays_children :
    Lays (fun e => e.children.map Expr.span) (node .tokens levels) := by
  obtain ⟨containsE, containsO⟩ := contains_expr (A := .tokens) (Nat.le_succ levels)
  have own : ∀ ts e, Node .tokens (expr .tokens levels) (operand .tokens levels) ts e →
      node .tokens levels ts e := fun _ _ h => h
  have hE := lays_of_contains containsE
  have hO := lays_of_contains containsO
  have hunary := lays_of_contains (contains_unary containsE containsO own)
  have hmul := lays_of_contains (contains_mul containsE containsO own)
  have hadd := lays_of_contains (contains_add containsE containsO own)
  have hcomp := lays_of_contains (contains_comp containsE containsO own)
  have hlogic := lays_of_contains (contains_logic containsE containsO own)
  intro ts e h
  cases h with
  | primary hp hopen =>
    cases hp with
    | int | real | bool | ident | emptyList => exact .nil _
    | @list _ r _ _ _ _ _ he hm _ =>
      have hfurther := (lays_many (lays_further hE) _ _ hm).left [r]
      exact ((hE _ _ he).append hfurther).behind _
    | parens hparens =>
      cases hparens with
      | mk hl _ _ => exact absurd hl (hopen _ rfl)
  | unary _ ho => exact (hO _ _ ho).behind _
  | product hu hm _ => exact (hunary _ _ hu).append (lays_links hunary _ _ hm)
  | sum hu hm _ => exact (hmul _ _ hu).append (lays_links hmul _ _ hm)
  | compare hl _ hr => exact (hadd _ _ hl).append ((hadd _ _ hr).behind _)
  | logical hc hm _ => exact (hcomp _ _ hc).append (lays_links hcomp _ _ hm)
  | @ternary _ _ _ q k _ _ _ hc _ ht _ he =>
    have harms := (hE _ _ ht).append ((hE _ _ he).behind k)
    exact (hlogic _ _ hc).append (harms.behind q)

theorem lays_block : Lays (fun b => [b.span]) (block .tokens levels) := by
  intro ts b hb
  obtain ⟨t, us, rfl, -⟩ := block_uncons hb
  have hspan : b.span = Alphabet.cover (t :: us) := block_span_eq hb
  show Row (t :: us) [b.span]
  rw [hspan]
  exact .single (List.cons_ne_nil t us) (List.infix_refl _)

theorem lays_stmt : Lays (fun s => [s.span]) (stmt .tokens levels) := by
  intro ts s hs
  obtain ⟨t, us, rfl, -⟩ := stmt_uncons hs
  have hspan : s.span = Alphabet.cover (t :: us) := stmt_span_eq hs
  show Row (t :: us) [s.span]
  rw [hspan]
  exact .single (List.cons_ne_nil t us) (List.infix_refl _)

/-- The statements of a block stand one behind the other between its braces. -/
theorem lays_blockStmts : Lays (fun b => b.stmts.map Stmt.span) (block .tokens levels) := by
  intro ts b hb
  cases levels with
  | zero =>
    rw [block] at hb
    exact hb.elim
  | succ levels =>
    rw [block] at hb
    cases hb with
    | mk _ hm _ => exact ((lays_many (lays_stmt levels) _ _ hm).left _).behind _

end trees

/-- The spans of the parts of a statement in the order in which they are written: the name that it
declares or assigns to, its expressions and its blocks. -/
def Stmt.partSpans : Stmt → List Span
  | declare decl _ => decl.nameSpan :: decl.init.toList.map Expr.span
  | assign _ targetSpan value _ => [targetSpan, value.span]
  | ifElse test thenBlock elseBlock _ =>
    test.span :: thenBlock.span :: elseBlock.toList.map Block.span
  | whileDo test body _ => [test.span, body.span]
  | doWhile body test _ => [body.span, test.span]
  | block body _ => [body.span]
  | expr value _ => [value.span]

/-- The parts of a statement stand one behind the other. -/
theorem lays_partSpans (levels : Nat) : Lays Stmt.partSpans (stmt .tokens levels) := by
  have hE := lays_expr levels
  have hB := lays_block levels
  intro ts s h
  cases h with
  | @declare type name semi ts _ _ _ _ _ hinit _ =>
    have hvalue := (lays_optional hE _ _ hinit).left [semi]
    exact .cons [type] (List.cons_ne_nil name []) hvalue
  | @assign name eq semi ts _ _ _ _ he _ =>
    have hvalue := ((hE _ _ he).left [semi]).behind eq
    exact .cons [] (List.cons_ne_nil name []) hvalue
  | ifElse _ htest hthen helse =>
    have hblocks := (hB _ _ hthen).append (lays_optional hB _ _ helse)
    exact ((lays_parens hE _ _ htest).append hblocks).behind _
  | whileDo _ htest hbody =>
    exact ((lays_parens hE _ _ htest).append (hB _ _ hbody)).behind _
  | @doWhile _ loop semi _ _ _ _ _ hbody _ htest _ =>
    have hcondition := ((lays_parens hE _ _ htest).left [semi]).behind loop
    exact ((hB _ _ hbody).append hcondition).behind _
  | block hbody => exact hB _ _ hbody
  | expr he _ => exact (hE _ _ he).left _

/-! ### Programs -/

/-- The places of a program that is read from a text.  The program reaches from the first token to
the end of the text; the statements, the parts of a statement, the statements of a block and the
operands of an expression are enclosed by what they belong to. -/
structure Program.Placed (p : Program) (source : String) : Prop where
  span_eq : ∃ first rest, tokenize source = .ok (first :: rest) ∧
    p.span = ⟨first.span.start, source.utf8ByteSize⟩
  span_of_empty : p.stmts = [] → p.span = .point source.utf8ByteSize
  stmts : p.span.Encloses (p.stmts.map Stmt.span)
  parts : ∀ s ∈ p.stmtNodes, s.span.Encloses s.partSpans
  blocks : ∀ s ∈ p.stmtNodes, ∀ b ∈ s.blocks, b.span.Encloses (b.stmts.map Stmt.span)
  operands : ∀ x ∈ p.exprNodes, x.span.Encloses (x.children.map Expr.span)
  declared : ∀ decl span, .declare decl span ∈ p.stmtNodes → decl.span = span

section programs

variable {source : String} {p : Program}

/-- A program is derived from the tokens of the text, and reaches from the first of them to the end
of the text. -/
theorem exists_span_of_parse (h : parse source = .ok p) : ∃ ts : List Token,
    items source = ts.map .ok ∧ Many (stmt .tokens nestingLimit) ts p.stmts ∧
      tokenize source = .ok (ts ++ [.atEnd source.utf8ByteSize]) ∧
      p.span = ⟨(ts.headD (.atEnd source.utf8ByteSize)).span.start, source.utf8ByteSize⟩ := by
  obtain ⟨ts, stop, htokens, hstmts, hspan⟩ := parse_eq_ok_iff.1 h
  obtain ⟨us, hitems, hts⟩ := tokenize_eq_ok_iff.1 htokens
  obtain ⟨rfl, hstop⟩ := List.append_inj' hts rfl
  rw [← utf8ByteSize_eq, List.singleton_inj] at hstop
  subst hstop
  refine ⟨ts, hitems, hstmts, htokens, ?_⟩
  rw [hspan]
  cases ts with
  | nil => exact Span.merge_self _
  | cons t ts =>
    have ht := mem_items_of_part hitems (List.infix_refl _) t List.mem_cons_self
    have hle := (shows_of_mem_items ht).2.le
    show (⟨min t.span.start _, max t.span.stop _⟩ : Span) = ⟨t.span.start, _⟩
    rw [Span.mk.injEq]
    constructor
    · exact Nat.min_eq_left (Nat.le_trans hle.1 hle.2)
    · exact Nat.max_eq_right hle.2

theorem encloses_stmts {ts : List Token} (hitems : items source = ts.map .ok)
    (hstmts : Many (stmt .tokens nestingLimit) ts p.stmts)
    (hspan : p.span = ⟨(ts.headD (.atEnd source.utf8ByteSize)).span.start, source.utf8ByteSize⟩) :
    p.span.Encloses (p.stmts.map Stmt.span) := by
  have hrow := lays_many (lays_stmt nestingLimit) ts p.stmts hstmts
  have hseparated := Separated.of_items hitems
  cases ts with
  | nil =>
    have hnone : p.stmts.map Stmt.span = [] := by
      by_contra hsome
      exact hrow.ne_nil hsome rfl
    rw [hnone]
    exact .nil _
  | cons t ts =>
    have hne := List.cons_ne_nil t ts
    have hlast := mem_items_of_part hitems (List.infix_refl _) _ (List.getLast_mem hne)
    rw [hspan]
    apply (hseparated.encloses hrow).widen
    · exact Nat.le_refl _
    · rw [hseparated.cover_eq hne]
      exact (shows_of_mem_items hlast).2.le.2

/-- What is derived from tokens of a text covers these, and so encloses its parts. -/
theorem encloses_of_within {τ : Type} {M : Phrase Token τ} {span : τ → Span}
    {parts : τ → List Span} {ts : List Token} {a : τ} (hts : Separated ts)
    (hspan : ∀ us a, M us a → span a = Alphabet.cover us) (hparts : Lays parts M)
    (h : Within M ts a) : (span a).Encloses (parts a) := by
  obtain ⟨us, hus, ha⟩ := h
  rw [hspan us a ha]
  exact (hts.part hus).encloses (hparts us a ha)

/-- **Places nest.**  The tree of a text has the places of its nodes inside each other and its parts
in the order of the text. -/
theorem parse_placed (h : parse source = .ok p) : p.Placed source := by
  obtain ⟨ts, hitems, hmany, htokens, hspan⟩ := exists_span_of_parse h
  obtain ⟨us, hus, hstmts, hnodes⟩ := exists_tokens_of_parse h
  have hseparated := Separated.of_items hus
  refine ⟨?_, ?_, encloses_stmts hitems hmany hspan, ?_, ?_, ?_, ?_⟩
  · cases ts with
    | nil => exact ⟨_, _, htokens, hspan⟩
    | cons t ts => exact ⟨_, _, htokens, hspan⟩
  · intro hempty
    rw [hempty] at hmany
    cases hmany
    exact hspan
  · intro s hs
    exact encloses_of_within hseparated (fun _ _ => stmt_span_eq) (lays_partSpans _) (hstmts s hs)
  · intro s hs b hb
    obtain ⟨vs, hvs, hstmt⟩ := hstmts s hs
    have hblock := (contains_blocks vs s hstmt b hb).mono hvs
    exact encloses_of_within hseparated (fun _ _ => block_span_eq) (lays_blockStmts _) hblock
  · intro x hx
    exact encloses_of_within hseparated (fun _ _ => Node.span_eq) (lays_children _) (hnodes x hx)
  · intro decl span hs
    obtain ⟨vs, -, hstmt⟩ := hstmts _ hs
    exact stmt_declare_span hstmt

end programs

/-- Redundant parentheses around operands and around a condition, behind a comment with characters
of several bytes. -/
theorem parse_placed_parens :
    ∃ p, parse "/* é */ if (((a)) < -(2)) { x = [b, (c)]; } else { do {} while ((d)); }" = .ok p ∧
      p.span = ⟨9, 72⟩ ∧
      p.Placed "/* é */ if (((a)) < -(2)) { x = [b, (c)]; } else { do {} while ((d)); }" := by
  have hread : ((parse
      "/* é */ if (((a)) < -(2)) { x = [b, (c)]; } else { do {} while ((d)); }").toOption.any
        fun p => decide (p.span = ⟨9, 72⟩)) = true := by
    decide +kernel
  obtain ⟨p, hparse, hspan⟩ := exists_program_of_any hread
  exact ⟨p, hparse, of_decide_eq_true hspan, parse_placed hparse⟩

end StaticCheck
