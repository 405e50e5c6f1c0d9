import Mathlib.Data.List.Forall2
import StaticCheck.Proofs.Grammar.Openings

/-! # Levels of nesting

Blocks, expressions and operands of unary operators open a level of nesting each, at their first
token.  In a marked derivation every token shows the level that opens at it: the levels of a program
are counted from one, and a level inside another one is one higher (`markedStmt`).

Marks only show what a derivation does.  Tokens that derive statements can be marked, and marked
tokens derive the same statements without their marks (`exists_marked_iff`). -/

namespace StaticCheck

/-- A token, and the level of nesting that opens at it, if one does. -/
structure Marked where
  token : Token
  level? : Option Nat

/-- Marked tokens.  One that shows a level is no symbol by itself: the phrase that opens the level
takes the mark away first. -/
def Alphabet.marked : Alphabet Marked where
  kind s := match s.level? with
    | none => s.token.kind
    | some _ => .eof
  span ss := cover (ss.map Marked.token)

namespace Grammar

/-! ### Marked derivations -/

/-- The phrase opens the level at its first token. -/
def Opening {τ : Type} (level : Nat) (P : Phrase Marked τ) : Phrase Marked τ := fun ss a =>
  ∃ t rest, ss = ⟨t, some level⟩ :: rest ∧ P (⟨t, none⟩ :: rest) a

mutual

/-- Expressions that open the level and nest at most so many levels, their own one included. -/
def markedExpr : (levels level : Nat) → Phrase Marked Expr
  | 0, _ => fun _ _ => False
  | levels + 1, level => Opening level
      (Choice .marked (markedExpr levels (level + 1)) (markedOperand levels (level + 1)))

/-- Operands of unary operators that open the level and nest at most so many levels. -/
def markedOperand : (levels level : Nat) → Phrase Marked Expr
  | 0, _ => fun _ _ => False
  | levels + 1, level => Opening level
      (Unary .marked (markedExpr levels (level + 1)) (markedOperand levels (level + 1)))

end

/-- Blocks that open the level and nest at most so many levels, their own one included. -/
def markedBlock : (levels level : Nat) → Phrase Marked (Block Stmt)
  | 0, _ => fun _ _ => False
  | levels + 1, level => Opening level (Braces .marked
      (Statement .marked (markedBlock levels (level + 1)) (markedExpr levels (level + 1))))

/-- Statements whose parts open the level and nest at most so many levels. -/
def markedStmt (levels level : Nat) : Phrase Marked Stmt :=
  Statement .marked (markedBlock levels level) (markedExpr levels level)

/-- The marked tokens derive the statements of a program, and its levels are counted from one. -/
def MarkedProgram (ss : List Marked) (stmts : List Stmt) : Prop :=
  ∃ levels, Many (markedStmt levels 1) ss stmts

/-! ### Derivations from related symbols -/

variable {α β τ ω : Type} {A : Alphabet α} {B : Alphabet β} {R : α → β → Prop}

/-- Symbols of the one alphabet have related symbols of the other, and related symbols have the same
span. -/
structure Matching (A : Alphabet α) (B : Alphabet β) (R : α → β → Prop) : Prop where
  symbol (x : α) : A.kind x ≠ .eof → ∃ y, R x y ∧ B.kind y = A.kind x
  span {xs : List α} {ys : List β} : List.Forall₂ R xs ys → B.span ys = A.span xs

theorem Matching.of_kind (M : Matching A B R) {x : α} {kind : TokenKind} (h : A.kind x = kind)
    (hkind : kind ≠ .eof) : ∃ y, R x y ∧ B.kind y = kind := by
  subst h
  exact M.symbol x hkind

/-- What the one phrase derives, the other one derives from related symbols. -/
def Relates (R : α → β → Prop) (P : Phrase α τ) (Q : Phrase β τ) : Prop :=
  ∀ xs a, P xs a → ∃ ys, List.Forall₂ R xs ys ∧ Q ys a

theorem relates_false : Relates R (fun _ _ => False : Phrase α τ) fun _ _ => False :=
  fun _ _ h => h.elim

theorem relates_many {P : Phrase α τ} {Q : Phrase β τ} (h : Relates R P Q) :
    Relates R (Many P) (Many Q) := by
  intro xs as hm
  induction hm with
  | nil => exact ⟨[], .nil, .nil⟩
  | cons hp _ ih =>
    obtain ⟨ys, hys, hq⟩ := h _ _ hp
    obtain ⟨zs, hzs, hm⟩ := ih
    exact ⟨ys ++ zs, List.rel_append hys hzs, .cons hq hm⟩

section rules

variable (M : Matching A B R)

include M

theorem relates_optional {mark : TokenKind} (hmark : mark ≠ .eof) {P : Phrase α τ}
    {Q : Phrase β τ} (h : Relates R P Q) : Relates R (Optional A mark P) (Optional B mark Q) := by
  intro xs a ho
  cases ho with
  | none => exact ⟨[], .nil, .none⟩
  | some hk hp =>
    obtain ⟨y, hy, hk⟩ := M.of_kind hk hmark
    obtain ⟨ys, hys, hq⟩ := h _ _ hp
    exact ⟨y :: ys, .cons hy hys, .some hk hq⟩

variable {E O : Phrase α Expr} {E' O' : Phrase β Expr}

theorem relates_chain {mark : ω → Punct} {node : Expr → List (Link ω Expr) → Span → Expr}
    (h : Relates R O O') : Relates R (Chain A mark node O) (Chain B mark node O') := by
  have hlinked : Relates R (Linked A mark O) (Linked B mark O') := by
    rintro _ _ ⟨hk, ho⟩
    obtain ⟨y, hy, hk⟩ := M.of_kind hk (by simp)
    obtain ⟨ys, hys, ho⟩ := h _ _ ho
    exact ⟨y :: ys, .cons hy hys, .mk hk ho⟩
  intro xs e hc
  cases hc with
  | single ho =>
    obtain ⟨ys, hys, ho⟩ := h _ _ ho
    exact ⟨ys, hys, .single ho⟩
  | chain ho hm hne =>
    obtain ⟨ys, hys, ho⟩ := h _ _ ho
    obtain ⟨zs, hzs, hm⟩ := relates_many hlinked _ _ hm
    have hall : List.Forall₂ R (_ ++ _) (ys ++ zs) := List.rel_append hys hzs
    rw [← M.span hall]
    exact ⟨ys ++ zs, hall, .chain ho hm hne⟩

theorem relates_parens (h : Relates R E E') : Relates R (Parens A E) (Parens B E') := by
  rintro _ _ ⟨hl, he, hr⟩
  obtain ⟨l, hlR, hl⟩ := M.of_kind hl (by simp)
  obtain ⟨ys, hys, he⟩ := h _ _ he
  obtain ⟨r, hrR, hr⟩ := M.of_kind hr (by simp)
  exact ⟨l :: (ys ++ [r]), .cons hlR (List.rel_append hys (.cons hrR .nil)), .mk hl he hr⟩

theorem relates_primary (h : Relates R E E') : Relates R (Primary A E) (Primary B E') := by
  have hfurther : Relates R (Further A E) (Further B E') := by
    rintro _ _ ⟨hk, he⟩
    obtain ⟨y, hy, hk⟩ := M.of_kind hk (by simp)
    obtain ⟨ys, hys, he⟩ := h _ _ he
    exact ⟨y :: ys, .cons hy hys, .mk hk he⟩
  have hone : ∀ {x y}, R x y → List.Forall₂ R [x] [y] := fun h => .cons h .nil
  intro xs e hp
  cases hp with
  | int hk =>
    obtain ⟨y, hy, hk⟩ := M.of_kind hk (by simp)
    rw [← M.span (hone hy)]
    exact ⟨[y], hone hy, .int hk⟩
  | real hk =>
    obtain ⟨y, hy, hk⟩ := M.of_kind hk (by simp)
    rw [← M.span (hone hy)]
    exact ⟨[y], hone hy, .real hk⟩
  | bool hk =>
    obtain ⟨y, hy, hk⟩ := M.of_kind hk (by simp)
    rw [← M.span (hone hy)]
    exact ⟨[y], hone hy, .bool hk⟩
  | ident hk =>
    obtain ⟨y, hy, hk⟩ := M.of_kind hk (by simp)
    rw [← M.span (hone hy)]
    exact ⟨[y], hone hy, .ident hk⟩
  | emptyList hl hr =>
    obtain ⟨l, hlR, hl⟩ := M.of_kind hl (by simp)
    obtain ⟨r, hrR, hr⟩ := M.of_kind hr (by simp)
    have hall : List.Forall₂ R _ [l, r] := .cons hlR (hone hrR)
    rw [← M.span hall]
    exact ⟨[l, r], hall, .emptyList hl hr⟩
  | list hl he hm hr =>
    obtain ⟨l, hlR, hl⟩ := M.of_kind hl (by simp)
    obtain ⟨ys, hys, he⟩ := h _ _ he
    obtain ⟨zs, hzs, hm⟩ := relates_many hfurther _ _ hm
    obtain ⟨r, hrR, hr⟩ := M.of_kind hr (by simp)
    have hall : List.Forall₂ R (_ :: (_ ++ (_ ++ [_]))) (l :: (ys ++ (zs ++ [r]))) :=
      .cons hlR (List.rel_append hys (List.rel_append hzs (hone hrR)))
    rw [← M.span hall]
    exact ⟨_, hall, .list hl he hm hr⟩
  | parens hp =>
    obtain ⟨ys, hys, hp⟩ := relates_parens M h _ _ hp
    exact ⟨ys, hys, .parens hp⟩

theorem relates_unary (hE : Relates R E E') (hO : Relates R O O') :
    Relates R (Unary A E O) (Unary B E' O') := by
  intro xs e hu
  cases hu with
  | unary hk ho =>
    obtain ⟨y, hy, hk⟩ := M.of_kind hk (by simp)
    obtain ⟨ys, hys, ho⟩ := hO _ _ ho
    have hall : List.Forall₂ R (_ :: _) (y :: ys) := .cons hy hys
    rw [← M.span hall]
    exact ⟨_, hall, .unary hk ho⟩
  | primary hp =>
    obtain ⟨ys, hys, hp⟩ := relates_primary M hE _ _ hp
    exact ⟨ys, hys, .primary hp⟩

theorem relates_comp (hE : Relates R E E') (hO : Relates R O O') :
    Relates R (Comp A E O) (Comp B E' O') := by
  have hadd : Relates R (Add A E O) (Add B E' O') :=
    relates_chain M (relates_chain M (relates_unary M hE hO))
  intro xs e hc
  cases hc with
  | single ha =>
    obtain ⟨ys, hys, ha⟩ := hadd _ _ ha
    exact ⟨ys, hys, .single ha⟩
  | compare hl hk hr =>
    obtain ⟨ys, hys, hl⟩ := hadd _ _ hl
    obtain ⟨sign, hsign, hk⟩ := M.of_kind hk (by simp)
    obtain ⟨zs, hzs, hr⟩ := hadd _ _ hr
    have hall : List.Forall₂ R (_ ++ _ :: _) (ys ++ sign :: zs) :=
      List.rel_append hys (.cons hsign hzs)
    rw [← M.span hall]
    exact ⟨_, hall, .compare hl hk hr⟩

theorem relates_choice (hE : Relates R E E') (hO : Relates R O O') :
    Relates R (Choice A E O) (Choice B E' O') := by
  have hlogic : Relates R (Logic A E O) (Logic B E' O') := relates_chain M (relates_comp M hE hO)
  intro xs e hc
  cases hc with
  | single hl =>
    obtain ⟨ys, hys, hl⟩ := hlogic _ _ hl
    exact ⟨ys, hys, .single hl⟩
  | ternary htest hq hthen hk helse =>
    obtain ⟨ys, hys, htest⟩ := hlogic _ _ htest
    obtain ⟨q, hqR, hq⟩ := M.of_kind hq (by simp)
    obtain ⟨zs, hzs, hthen⟩ := hE _ _ hthen
    obtain ⟨k, hkR, hk⟩ := M.of_kind hk (by simp)
    obtain ⟨ws, hws, helse⟩ := hE _ _ helse
    have hall : List.Forall₂ R (_ ++ _ :: (_ ++ _ :: _)) (ys ++ q :: (zs ++ k :: ws)) :=
      List.rel_append hys (.cons hqR (List.rel_append hzs (.cons hkR hws)))
    rw [← M.span hall]
    exact ⟨_, hall, .ternary htest hq hthen hk helse⟩

variable {K : Phrase α (Block Stmt)} {K' : Phrase β (Block Stmt)}

theorem relates_statement (hK : Relates R K K') (hE : Relates R E E') :
    Relates R (Statement A K E) (Statement B K' E') := by
  have hparens := relates_parens M hE
  intro xs s hs
  cases hs with
  | declare htype hname hinit hsemi =>
    obtain ⟨type, htypeR, htypeKind⟩ := M.symbol _ fun hk => nomatch hk ▸ htype
    obtain ⟨name, hnameR, hname⟩ := M.of_kind hname (by simp)
    obtain ⟨ys, hys, hinit⟩ := relates_optional M (by simp) hE _ _ hinit
    obtain ⟨semi, hsemiR, hsemi⟩ := M.of_kind hsemi (by simp)
    have hall : List.Forall₂ R (_ :: _ :: (_ ++ [_])) (type :: name :: (ys ++ [semi])) :=
      .cons htypeR (.cons hnameR (List.rel_append hys (.cons hsemiR .nil)))
    have hone : List.Forall₂ R [_] [name] := .cons hnameR .nil
    rw [← M.span hall, ← M.span hone]
    exact ⟨_, hall, .declare (htypeKind ▸ htype) hname hinit hsemi⟩
  | assign hname heq he hsemi =>
    obtain ⟨name, hnameR, hname⟩ := M.of_kind hname (by simp)
    obtain ⟨eq, heqR, heq⟩ := M.of_kind heq (by simp)
    obtain ⟨ys, hys, he⟩ := hE _ _ he
    obtain ⟨semi, hsemiR, hsemi⟩ := M.of_kind hsemi (by simp)
    have hall : List.Forall₂ R (_ :: _ :: (_ ++ [_])) (name :: eq :: (ys ++ [semi])) :=
      .cons hnameR (.cons heqR (List.rel_append hys (.cons hsemiR .nil)))
    have hone : List.Forall₂ R [_] [name] := .cons hnameR .nil
    rw [← M.span hall, ← M.span hone]
    exact ⟨_, hall, .assign hname heq he hsemi⟩
  | ifElse hword htest hthen helse =>
    obtain ⟨word, hwordR, hword⟩ := M.of_kind hword (by simp)
    obtain ⟨ys, hys, htest⟩ := hparens _ _ htest
    obtain ⟨zs, hzs, hthen⟩ := hK _ _ hthen
    obtain ⟨ws, hws, helse⟩ := relates_optional M (by simp) hK _ _ helse
    have hall : List.Forall₂ R (_ :: (_ ++ (_ ++ _))) (word :: (ys ++ (zs ++ ws))) :=
      .cons hwordR (List.rel_append hys (List.rel_append hzs hws))
    rw [← M.span hall]
    exact ⟨_, hall, .ifElse hword htest hthen helse⟩
  | whileDo hword htest hbody =>
    obtain ⟨word, hwordR, hword⟩ := M.of_kind hword (by simp)
    obtain ⟨ys, hys, htest⟩ := hparens _ _ htest
    obtain ⟨zs, hzs, hbody⟩ := hK _ _ hbody
    have hall : List.Forall₂ R (_ :: (_ ++ _)) (word :: (ys ++ zs)) :=
      .cons hwordR (List.rel_append hys hzs)
    rw [← M.span hall]
    exact ⟨_, hall, .whileDo hword htest hbody⟩
  | doWhile hword hbody hwhile htest hsemi =>
    obtain ⟨word, hwordR, hword⟩ := M.of_kind hword (by simp)
    obtain ⟨ys, hys, hbody⟩ := hK _ _ hbody
    obtain ⟨while', hwhileR, hwhile⟩ := M.of_kind hwhile (by simp)
    obtain ⟨zs, hzs, htest⟩ := hparens _ _ htest
    obtain ⟨semi, hsemiR, hsemi⟩ := M.of_kind hsemi (by simp)
    have hall : List.Forall₂ R (_ :: (_ ++ _ :: (_ ++ [_])))
        (word :: (ys ++ while' :: (zs ++ [semi]))) :=
      .cons hwordR (List.rel_append hys (.cons hwhileR (List.rel_append hzs (.cons hsemiR .nil))))
    rw [← M.span hall]
    exact ⟨_, hall, .doWhile hword hbody hwhile htest hsemi⟩
  | block hbody =>
    obtain ⟨ys, hys, hbody⟩ := hK _ _ hbody
    exact ⟨ys, hys, .block hbody⟩
  | expr he hsemi =>
    obtain ⟨ys, hys, he⟩ := hE _ _ he
    obtain ⟨semi, hsemiR, hsemi⟩ := M.of_kind hsemi (by simp)
    have hall : List.Forall₂ R (_ ++ [_]) (ys ++ [semi]) :=
      List.rel_append hys (.cons hsemiR .nil)
    rw [← M.span hall]
    exact ⟨_, hall, .expr he hsemi⟩

theorem relates_braces {S : Phrase α Stmt} {S' : Phrase β Stmt} (h : Relates R S S') :
    Relates R (Braces A S) (Braces B S') := by
  rintro _ _ ⟨hl, hm, hr⟩
  obtain ⟨l, hlR, hl⟩ := M.of_kind hl (by simp)
  obtain ⟨ys, hys, hm⟩ := relates_many h _ _ hm
  obtain ⟨r, hrR, hr⟩ := M.of_kind hr (by simp)
  have hall : List.Forall₂ R (_ :: (_ ++ [_])) (l :: (ys ++ [r])) :=
    .cons hlR (List.rel_append hys (.cons hrR .nil))
  rw [← M.span hall]
  exact ⟨_, hall, .mk hl hm hr⟩

end rules

/-! ### Setting marks and taking them away -/

section marks

/-- A symbol that is part of a rule opens no level. -/
theorem unmarked_of_kind {s : Marked} {kind : TokenKind} (h : Alphabet.marked.kind s = kind)
    (hkind : kind ≠ .eof) : s.level? = none ∧ s.token.kind = kind := by
  obtain ⟨t, _ | level⟩ := s
  · exact ⟨rfl, h⟩
  · exact absurd h.symm hkind

theorem forall₂_token_iff {ss : List Marked} {ts : List Token} :
    List.Forall₂ (fun s t => s.token = t) ss ts ↔ ss.map Marked.token = ts := by
  rw [← List.forall₂_map_left_iff (R := Eq), List.forall₂_eq_eq_eq]

theorem matching_unmark : Matching .marked .tokens fun s t => s.token = t where
  symbol s hs := ⟨s.token, rfl, (unmarked_of_kind rfl hs).2⟩
  span h := by
    obtain rfl := forall₂_token_iff.1 h
    rfl

theorem matching_mark : Matching .tokens .marked fun t s => s.token = t where
  symbol t _ := ⟨⟨t, none⟩, rfl, rfl⟩
  span h := by
    obtain rfl := forall₂_token_iff.1 (List.Forall₂.flip h)
    rfl

variable {P : Phrase Marked τ} {Q : Phrase Token τ} {level : Nat}

theorem relates_unmark (h : Relates (fun s t => s.token = t) P Q) :
    Relates (fun s t => s.token = t) (Opening level P) Q := by
  rintro _ a ⟨t, rest, rfl, hp⟩
  obtain ⟨ts, hts, hq⟩ := h _ a hp
  rw [forall₂_token_iff] at hts
  exact ⟨ts, forall₂_token_iff.2 hts, hq⟩

theorem relates_mark (h : Relates (fun t s => s.token = t) Q P)
    (hfirst : ∀ ss a, P ss a → ∃ s rest, ss = s :: rest ∧ Alphabet.marked.kind s ≠ .eof) :
    Relates (fun t s => s.token = t) Q (Opening level P) := by
  intro ts a hq
  obtain ⟨ss, hss, hp⟩ := h ts a hq
  obtain ⟨⟨t, level?⟩, rest, rfl, hs⟩ := hfirst ss a hp
  obtain rfl : level? = none := (unmarked_of_kind rfl hs).1
  cases hss with
  | cons ht hrest => exact ⟨⟨t, some level⟩ :: rest, .cons ht hrest, t, rest, rfl, hp⟩

theorem relates_unmark_expr (levels level : Nat) :
    Relates (fun s t => s.token = t) (markedExpr levels level) (expr .tokens levels) ∧
      Relates (fun s t => s.token = t) (markedOperand levels level) (operand .tokens levels) := by
  induction levels generalizing level with
  | zero =>
    rw [markedExpr, markedOperand, expr, operand]
    exact ⟨relates_false, relates_false⟩
  | succ levels ih =>
    obtain ⟨hE, hO⟩ := ih (level + 1)
    rw [markedExpr, markedOperand, expr, operand]
    exact ⟨relates_unmark (relates_choice matching_unmark hE hO),
      relates_unmark (relates_unary matching_unmark hE hO)⟩

theorem relates_unmark_block (levels level : Nat) :
    Relates (fun s t => s.token = t) (markedBlock levels level) (block .tokens levels) := by
  induction levels generalizing level with
  | zero =>
    rw [markedBlock, block]
    exact relates_false
  | succ levels ih =>
    rw [markedBlock, block]
    exact relates_unmark (relates_braces matching_unmark (relates_statement matching_unmark
      (ih (level + 1)) (relates_unmark_expr levels (level + 1)).1))

theorem relates_unmark_stmt (levels level : Nat) :
    Relates (fun s t => s.token = t) (markedStmt levels level) (stmt .tokens levels) :=
  relates_statement matching_unmark (relates_unmark_block levels level)
    (relates_unmark_expr levels level).1

theorem markedExpr_opens {levels level : Nat} {ss : List Marked} {e : Expr}
    (h : markedExpr levels level ss e) : Opens .tokens (ss.map Marked.token) := by
  obtain ⟨ts, hts, he⟩ := (relates_unmark_expr levels level).1 ss e h
  rw [forall₂_token_iff.1 hts]
  exact expr_opens he

theorem markedBlock_uncons {levels level : Nat} {ss : List Marked} {b : Block Stmt}
    (h : markedBlock levels level ss b) :
    ∃ t ts, ss.map Marked.token = t :: ts ∧ t.kind = .punct .openBrace := by
  obtain ⟨ts, hts, hb⟩ := relates_unmark_block levels level ss b h
  rw [forall₂_token_iff.1 hts]
  exact block_uncons hb

theorem markedStmt_uncons {levels level : Nat} {ss : List Marked} {s : Stmt}
    (h : markedStmt levels level ss s) : ∃ t ts, ss.map Marked.token = t :: ts ∧
      t.kind ≠ .punct .closeBrace ∧ t.kind ≠ .keyword .elseWord := by
  obtain ⟨ts, hts, hs⟩ := relates_unmark_stmt levels level ss s h
  rw [forall₂_token_iff.1 hts]
  exact stmt_uncons hs

theorem relates_mark_expr (levels level : Nat) :
    Relates (fun t s => s.token = t) (expr .tokens levels) (markedExpr levels level) ∧
      Relates (fun t s => s.token = t) (operand .tokens levels) (markedOperand levels level) := by
  induction levels generalizing level with
  | zero =>
    rw [markedExpr, markedOperand, expr, operand]
    exact ⟨relates_false, relates_false⟩
  | succ levels ih =>
    obtain ⟨hE, hO⟩ := ih (level + 1)
    rw [markedExpr, markedOperand, expr, operand]
    exact ⟨relates_mark (relates_choice matching_mark hE hO) fun _ _ h => h.opens.first,
      relates_mark (relates_unary matching_mark hE hO) fun _ _ h => h.opens.first⟩

theorem relates_mark_block (levels level : Nat) :
    Relates (fun t s => s.token = t) (block .tokens levels) (markedBlock levels level) := by
  induction levels generalizing level with
  | zero =>
    rw [markedBlock, block]
    exact relates_false
  | succ levels ih =>
    rw [markedBlock, block]
    refine relates_mark (relates_braces matching_mark (relates_statement matching_mark
      (ih (level + 1)) (relates_mark_expr levels (level + 1)).1)) ?_
    rintro _ _ ⟨hl, -, -⟩
    exact ⟨_, _, rfl, by simp [hl]⟩

/-- Tokens derive statements if and only if they can be marked with the levels that open. -/
theorem exists_marked_iff {levels level : Nat} {ts : List Token} {stmts : List Stmt} :
    Many (stmt .tokens levels) ts stmts ↔
      ∃ ss, ss.map Marked.token = ts ∧ Many (markedStmt levels level) ss stmts := by
  constructor
  · intro h
    have hmark := relates_many (relates_statement matching_mark (relates_mark_block levels level)
      (relates_mark_expr levels level).1)
    obtain ⟨ss, hss, hs⟩ := hmark ts stmts h
    exact ⟨ss, forall₂_token_iff.1 (List.Forall₂.flip hss), hs⟩
  · rintro ⟨ss, rfl, h⟩
    obtain ⟨ts, hts, hs⟩ := relates_many (relates_unmark_stmt levels level) ss stmts h
    rwa [← forall₂_token_iff.1 hts] at hs

end marks

end Grammar

end StaticCheck
