import StaticCheck.Proofs.Acceptance
import StaticCheck.Proofs.Nodes
import StaticCheck.Proofs.Reals

/-! # Rendered expressions are read back

The text of an expression, with a semicolon behind it, is a program of one expression statement.
Its tree is the expression that was written, except that wrappers which write nothing of their own
are gone: comparisons without a right side and chains without links (`Expr.collapse`).

A text is followed from the end: `Spells text kinds` says that a text is cut into tokens of the
given kinds whatever delimiter follows it, and `Written text P tree` that some phrase `P` of the
grammar derives the tree from these kinds.  Every rule of the grammar that rendering uses has its
lemma about what is written (`written_parens`, `written_many`, …). -/

namespace StaticCheck

open Grammar

namespace Expr

/-! ### Trees that can be written -/

def bare (e : Expr) : Expr := e.mapSpan fun _ => .point 0

/-- A literal or a name whose text is that of a token; nodes of other kinds are no obstacle. -/
def Writable : Expr → Prop
  | int digits _ => (TokenKind.int digits).Valid
  | real value _ => (TokenKind.real value.render).Valid
  | ident name _ => (TokenKind.ident name).Valid
  | _ => True

/-- The levels of nesting in the text of an expression: one for each pair of brackets that is not
empty and for each unary operator, and one more for the arms of a choice. -/
def nesting : Expr → Nat
  | int _ _ | real _ _ | bool _ _ | ident _ _ => 0
  | list items _ => if items.isEmpty then 0 else (items.map fun e => e.nesting).foldr max 0 + 1
  | unary _ operand _ => operand.nesting + 1
  | additive first rest _ =>
    max first.nesting ((rest.map fun link => link.operand.nesting).foldr max 0) + 1
  | multiplicative first rest _ =>
    max first.nesting ((rest.map fun link => link.operand.nesting).foldr max 0) + 1
  | logical first rest _ =>
    max first.nesting ((rest.map fun link => link.operand.nesting).foldr max 0) + 1
  | compare left none _ => left.nesting
  | compare left (some ⟨_, right⟩) _ => max left.nesting right.nesting + 1
  | ternary test thenArm elseArm _ =>
    max test.nesting (max thenArm.nesting elseArm.nesting + 1) + 1
termination_by e => sizeOf e
decreasing_by all_goals exact sizeOf_lt_of_mem_children (by grind [children])

/-- A chain, or its first operand if it has no links. -/
def chained {ω : Type} (node : Expr → List (Link ω Expr) → Span → Expr) (first : Expr)
    (rest : List (Link ω Expr)) (span : Span) : Expr :=
  if rest.isEmpty then first else node first rest span

/-- The expression with every comparison without a right side and every chain without links
replaced by its single operand. -/
def collapse : Expr → Expr
  | int digits span => int digits span
  | real value span => real value span
  | bool value span => bool value span
  | list items span => list (items.map fun e => e.collapse) span
  | ident name span => ident name span
  | unary op operand span => unary op operand.collapse span
  | additive first rest span =>
    chained additive first.collapse (rest.map fun link => ⟨link.op, link.operand.collapse⟩) span
  | multiplicative first rest span =>
    chained multiplicative first.collapse (rest.map fun link => ⟨link.op, link.operand.collapse⟩)
      span
  | logical first rest span =>
    chained logical first.collapse (rest.map fun link => ⟨link.op, link.operand.collapse⟩) span
  | compare left none _ => left.collapse
  | compare left (some ⟨op, right⟩) span => compare left.collapse (some ⟨op, right.collapse⟩) span
  | ternary test thenArm elseArm span =>
    ternary test.collapse thenArm.collapse elseArm.collapse span
termination_by e => sizeOf e
decreasing_by all_goals exact sizeOf_lt_of_mem_children (by grind [children])

end Expr

/-! ### Texts in front of a delimiter -/

/-- Behind a number or a word, the text ends it. -/
def Delimits (text : List Char) : Prop := ∀ rest, Ends rest → Ends (text ++ rest)

/-- The text is cut into tokens of the given kinds if what follows ends a number or a word. -/
def Spells (text : List Char) (kinds : List TokenKind) : Prop :=
  ∀ rest more, Ends rest → Lexes rest more → Lexes (text ++ rest) (kinds ++ more)

theorem delimits_nil : Delimits [] := fun _ h => h

theorem delimits_cons {c : Char} (h : isNamePart c = false ∧ c ≠ '.') (cs : List Char) :
    Delimits (c :: cs) :=
  fun _ _ => ends_cons.2 h

theorem Delimits.append {a b : List Char} (ha : Delimits a) (hb : Delimits b) :
    Delimits (a ++ b) := by
  intro rest hrest
  rw [List.append_assoc]
  exact ha _ (hb _ hrest)

theorem delimits_flatMap {ι : Type} {text : ι → List Char} (h : ∀ i, Delimits (text i))
    (items : List ι) : Delimits (items.flatMap text) := by
  induction items with
  | nil => exact delimits_nil
  | cons i items ih => exact (h i).append ih

/-- A mark of one character that makes no other mark with a character behind it. -/
structure Punct.Lone (mark : Punct) (c : Char) : Prop where
  text : mark.spelling.toList = [c]
  pair (d : Char) : Punct.pair? c d = none
  slash : c ≠ '/'

theorem Punct.pair?_blank (c : Char) : Punct.pair? c ' ' = none := by
  unfold Punct.pair?
  split
  all_goals first | rfl | contradiction

namespace Spells

theorem nil : Spells [] [] := fun _ _ _ h => h

theorem append {a b : List Char} {us vs : List TokenKind} (ha : Spells a us) (hb : Spells b vs)
    (hd : Delimits b) : Spells (a ++ b) (us ++ vs) := by
  intro rest more hrest hmore
  rw [List.append_assoc, List.append_assoc]
  exact ha _ _ (hd _ hrest) (hb _ _ hrest hmore)

theorem blank {text : List Char} {us : List TokenKind} (h : Spells text us) :
    Spells (' ' :: text) us :=
  fun rest more hrest hmore => .blank (by decide) (h rest more hrest hmore)

/-- A word or a number. -/
theorem word {kind : TokenKind} {text : String} (hvalid : kind.Valid)
    (hmark : ∀ mark, kind ≠ .punct mark) (htext : kind.spelling = text) :
    Spells text.toList [kind] := by
  subst htext
  intro rest more hrest hmore
  refine .spelling hvalid ?_ hmore
  cases kind with
  | punct mark => exact absurd rfl (hmark mark)
  | _ => exact hrest

/-- A mark in front of a text that does not go on with it. -/
theorem mark {mark : Punct} {text : List Char} {us : List TokenKind}
    (hmark : ∀ rest, (TokenKind.punct mark).EndsBefore (text ++ rest)) (h : Spells text us) :
    Spells (mark.spelling.toList ++ text) (.punct mark :: us) := by
  intro rest more hrest hmore
  have hvalid : (TokenKind.punct mark).Valid := trivial
  rw [List.append_assoc]
  change Lexes ((TokenKind.punct mark).spelling.toList ++ (text ++ rest)) _
  exact .spelling hvalid (hmark rest) (h rest more hrest hmore)

/-- A mark that stands alone may be followed by anything. -/
theorem lone {mark : Punct} {c : Char} (hmark : mark.Lone c) {text : List Char}
    {us : List TokenKind} (h : Spells text us) : Spells (c :: text) (.punct mark :: us) := by
  have hends : ∀ rest, (TokenKind.punct mark).EndsBefore (text ++ rest) := by
    intro rest c' d hc' _
    rw [hmark.text] at hc'
    cases hc'
    exact ⟨hmark.pair d, fun h => absurd h hmark.slash⟩
  have hspells := Spells.mark hends h
  rwa [hmark.text] at hspells

/-- An operator between blanks. -/
theorem operator (mark : Punct) {text : List Char} {us : List TokenKind} (h : Spells text us) :
    Spells (' ' :: (mark.spelling.toList ++ ' ' :: text)) (.punct mark :: us) := by
  have hends : ∀ rest, (TokenKind.punct mark).EndsBefore ((' ' :: text) ++ rest) := by
    intro rest c d _ hd
    cases hd
    exact ⟨Punct.pair?_blank c, fun _ => by decide⟩
  exact (Spells.mark hends h.blank).blank

end Spells

/-! ### What is written in the grammar -/

section written

variable {τ ω ι : Type} {E O : Phrase TokenKind Expr}

/-- The text writes symbols from which the phrase derives the tree. -/
def Written (text : List Char) (P : Phrase TokenKind τ) (a : τ) : Prop :=
  ∃ us, P us a ∧ Spells text us

theorem Written.mono {text : List Char} {P Q : Phrase TokenKind τ} {a : τ} (h : Written text P a)
    (hpq : ∀ {us}, P us a → Q us a) : Written text Q a := by
  obtain ⟨us, hp, hs⟩ := h
  exact ⟨us, hpq hp, hs⟩

/-- Parts that each end the part before them, one after the other. -/
theorem written_many {P : Phrase TokenKind τ} {items : List ι} {text : ι → List Char} {tree : ι → τ}
    (hd : ∀ i, Delimits (text i)) (h : ∀ i ∈ items, Written (text i) P (tree i)) :
    Written (items.flatMap text) (Many P) (items.map tree) := by
  induction items with
  | nil => exact ⟨[], .nil, .nil⟩
  | cons i items ih =>
    obtain ⟨hi, hitems⟩ := List.forall_mem_cons.1 h
    obtain ⟨us, hp, hs⟩ := hi
    obtain ⟨vs, hm, ht⟩ := ih hitems
    exact ⟨us ++ vs, .cons hp hm, hs.append ht (delimits_flatMap hd items)⟩

/-- `'(' expr ')'` -/
theorem written_parens {text : List Char} {e : Expr} (h : Written text E e) :
    Written ('(' :: (text ++ [')'])) (Parens .kinds E) e := by
  obtain ⟨us, he, hs⟩ := h
  refine ⟨_, .mk rfl he rfl, .lone ⟨rfl, fun _ => rfl, by decide⟩ (hs.append ?_ ?_)⟩
  · exact .lone ⟨rfl, fun _ => rfl, by decide⟩ .nil
  · exact delimits_cons (by decide) []

/-- `op operand` -/
theorem written_linked {mark : ω → Punct} {text : List Char} {op : ω} {e : Expr}
    (h : Written text O e) : Written (' ' :: ((mark op).spelling.toList ++ ' ' :: text))
      (Linked .kinds mark O) ⟨op, e⟩ := by
  obtain ⟨us, ho, hs⟩ := h
  exact ⟨_, .mk rfl ho, hs.operator (mark op)⟩

/-- `operand (op operand)*` -/
theorem written_chain {mark : ω → Punct} {node : Expr → List (Link ω Expr) → Span → Expr}
    {text : List Char} {first : Expr} {links : List (Link ω Expr)}
    {linkText : Link ω Expr → List Char} {tree : Link ω Expr → Expr} (hfirst : Written text O first)
    (hrest : ∀ link ∈ links, Written (linkText link) O (tree link)) :
    Written (text ++ links.flatMap fun link =>
        ' ' :: ((mark link.op).spelling.toList ++ ' ' :: linkText link))
      (Chain .kinds mark node O)
      (Expr.chained node first (links.map fun link => ⟨link.op, tree link⟩) (.point 0)) := by
  have hdelimits : ∀ link : Link ω Expr,
      Delimits (' ' :: ((mark link.op).spelling.toList ++ ' ' :: linkText link)) :=
    fun _ => delimits_cons (by decide) _
  have hlinked : ∀ link ∈ links, Written
      (' ' :: ((mark link.op).spelling.toList ++ ' ' :: linkText link)) (Linked .kinds mark O)
      ⟨link.op, tree link⟩ := fun link hlink => written_linked (hrest link hlink)
  obtain ⟨us, hf, hs⟩ := hfirst
  obtain ⟨vs, hm, ht⟩ := written_many hdelimits hlinked
  refine ⟨us ++ vs, ?_, hs.append ht (delimits_flatMap hdelimits links)⟩
  cases links with
  | nil =>
    cases hm
    rw [List.append_nil]
    exact .single hf
  | cons link links => exact .chain hf hm (List.cons_ne_nil _ _)

/-- `'[' expr (',' expr)* ']'` -/
theorem written_list (text : ι → List Char) (tree : ι → Expr) {first : ι} {rest : List ι}
    (h : ∀ i ∈ first :: rest, Written (text i) E (tree i)) :
    Written ('[' :: (text first ++ (rest.flatMap (fun i => ',' :: ' ' :: text i) ++ [']'])))
      (Primary .kinds E) (.list ((first :: rest).map tree) (.point 0)) := by
  have hdelimits : ∀ i, Delimits (',' :: ' ' :: text i) := fun _ => delimits_cons (by decide) _
  obtain ⟨hfirst, hrest⟩ := List.forall_mem_cons.1 h
  obtain ⟨us, hf, hs⟩ := hfirst
  have hfurther : ∀ i ∈ rest, Written (',' :: ' ' :: text i) (Further .kinds E) (tree i) := by
    intro i hi
    obtain ⟨vs, he, ht⟩ := hrest i hi
    exact ⟨_, .mk rfl he, .lone ⟨rfl, fun _ => rfl, by decide⟩ ht.blank⟩
  obtain ⟨vs, hm, ht⟩ := written_many hdelimits hfurther
  have hclose : Spells [']'] [.punct .closeBracket] := .lone ⟨rfl, fun _ => rfl, by decide⟩ .nil
  refine ⟨_, .list rfl hf hm rfl, .lone ⟨rfl, fun _ => rfl, by decide⟩ (hs.append ?_ ?_)⟩
  · exact ht.append hclose (delimits_cons (by decide) [])
  · exact (delimits_flatMap hdelimits rest).append (delimits_cons (by decide) [])

/-- `logic '?' expr ':' expr` -/
theorem written_ternary {a b c : List Char} {test thenArm elseArm : Expr}
    (htest : Written a (Logic .kinds E O) test) (hthen : Written b E thenArm)
    (helse : Written c E elseArm) :
    Written (a ++ (' ' :: '?' :: ' ' :: (b ++ ' ' :: ':' :: ' ' :: c))) (Choice .kinds E O)
      (.ternary test thenArm elseArm (.point 0)) := by
  obtain ⟨us, hc, hs⟩ := htest
  obtain ⟨vs, ht, ht'⟩ := hthen
  obtain ⟨ws, he, he'⟩ := helse
  refine ⟨_, .ternary hc rfl ht rfl he, hs.append (.operator .question (ht'.append ?_ ?_)) ?_⟩
  · exact .operator .colon he'
  · exact delimits_cons (by decide) _
  · exact delimits_cons (by decide) _

end written

/-! ### Levels -/

section levels

variable {m : Nat} {us : List TokenKind} {e : Expr}

theorem mul_of_operand (h : operand .kinds (m + 1) us e) :
    Mul .kinds (expr .kinds m) (operand .kinds m) us e := by
  rw [operand] at h
  exact .single h

theorem add_of_operand (h : operand .kinds (m + 1) us e) :
    Add .kinds (expr .kinds m) (operand .kinds m) us e :=
  .single (mul_of_operand h)

theorem comp_of_operand (h : operand .kinds (m + 1) us e) :
    Comp .kinds (expr .kinds m) (operand .kinds m) us e :=
  .single (add_of_operand h)

theorem logic_of_operand (h : operand .kinds (m + 1) us e) :
    Logic .kinds (expr .kinds m) (operand .kinds m) us e :=
  .single (comp_of_operand h)

theorem expr_of_logic (h : Logic .kinds (expr .kinds m) (operand .kinds m) us e) :
    expr .kinds (m + 1) us e := by
  rw [expr]
  exact .single h

theorem expr_of_comp (h : Comp .kinds (expr .kinds m) (operand .kinds m) us e) :
    expr .kinds (m + 1) us e :=
  expr_of_logic (.single h)

theorem expr_of_add (h : Add .kinds (expr .kinds m) (operand .kinds m) us e) :
    expr .kinds (m + 1) us e :=
  expr_of_comp (.single h)

theorem expr_of_mul (h : Mul .kinds (expr .kinds m) (operand .kinds m) us e) :
    expr .kinds (m + 1) us e :=
  expr_of_add (.single h)

theorem expr_of_operand (h : operand .kinds (m + 1) us e) : expr .kinds (m + 1) us e :=
  expr_of_logic (logic_of_operand h)

theorem operand_of_primary (h : Primary .kinds (expr .kinds m) us e) :
    operand .kinds (m + 1) us e := by
  rw [operand]
  exact .primary h

theorem written_group {text : List Char} (h : Written text (expr .kinds (m + 1)) e) :
    Written ('(' :: (text ++ [')'])) (operand .kinds (m + 2)) e :=
  (written_parens h).mono fun hp => operand_of_primary (.parens hp)

end levels

/-! ### Texts of nodes -/

namespace Expr

theorem toList_renderChain (first : String) (rest : List (Link Punct String)) :
    (renderChain first rest).toList = '(' :: ((first.toList ++ rest.flatMap fun link =>
      ' ' :: (link.op.spelling.toList ++ ' ' :: link.operand.toList)) ++ [')']) := by
  simp [renderChain, String.toList_append, String.toList_join, List.flatMap_map]

/-- Every text but the first stands behind a separator. -/
theorem intercalate_cons (separator first : List Char) (rest : List (List Char)) :
    separator.intercalate (first :: rest) = first ++ rest.flatMap (separator ++ ·) := by
  induction rest generalizing first with
  | nil => simp [List.intercalate]
  | cons next rest ih =>
    rw [List.intercalate_cons_cons, ih, List.flatMap_cons, List.append_assoc, List.append_assoc]

theorem toList_render_list (first : Expr) (rest : List Expr) (span : Span) :
    (list (first :: rest) span).render.toList =
      '[' :: (first.render.toList ++ (rest.flatMap (fun e => ',' :: ' ' :: e.render.toList) ++
        [']'])) := by
  rw [render]
  simp [String.toList_append, String.toList_intercalate, intercalate_cons, List.flatMap_map]

theorem toList_render_ternary (test thenArm elseArm : Expr) (span : Span) :
    (ternary test thenArm elseArm span).render.toList =
      '(' :: ((test.render.toList ++ (' ' :: '?' :: ' ' :: (thenArm.render.toList ++
        ' ' :: ':' :: ' ' :: elseArm.render.toList))) ++ [')']) := by
  rw [render]
  simp [String.toList_append]

/-- No text of an expression starts with what makes a comparison of a mark before it. -/
theorem toList_render_start (e : Expr) (h : ∀ x ∈ e.nodes, x.Writable) :
    ∃ c cs, e.render.toList = c :: cs ∧ c ≠ '=' := by
  have hdigit : ∀ c, isDigit c = true → c ≠ '=' := by
    rintro c hc rfl
    exact absurd hc (by decide)
  induction e with
  | int digits span =>
    obtain ⟨hne, hall⟩ := (forall_mem_nodes_iff.1 h).2
    obtain ⟨c, cs, hcs⟩ := List.exists_cons_of_ne_nil hne
    exact ⟨c, cs, by rw [render, hcs], hdigit c (hall c (hcs ▸ List.mem_cons_self))⟩
  | real value span =>
    obtain ⟨-, c, cs, hcs, hc⟩ := IsReal.uncons (forall_mem_nodes_iff.1 h).2
    exact ⟨c, cs, by rw [render, hcs], hdigit c hc⟩
  | bool value span =>
    cases value with
    | true => exact ⟨_, _, by rw [render]; rfl, by decide⟩
    | false => exact ⟨_, _, by rw [render]; rfl, by decide⟩
  | list items span =>
    rw [render]
    exact ⟨'[', _, by simp only [String.toList_append, List.append_assoc]; rfl, by decide⟩
  | ident name span =>
    obtain ⟨hname, -⟩ := (forall_mem_nodes_iff.1 h).2
    rw [render]
    generalize name.toList = text at hname
    obtain ⟨hc, -⟩ := hname
    refine ⟨_, _, rfl, ?_⟩
    rintro rfl
    exact absurd hc (by decide)
  | unary op operand span ih =>
    rw [render]
    cases op with
    | neg => exact ⟨'-', _, String.toList_append, by decide⟩
    | not => exact ⟨'!', _, String.toList_append, by decide⟩
  | additive first rest span =>
    rw [render]
    exact ⟨'(', _, toList_renderChain _ _, by decide⟩
  | multiplicative first rest span =>
    rw [render]
    exact ⟨'(', _, toList_renderChain _ _, by decide⟩
  | logical first rest span =>
    rw [render]
    exact ⟨'(', _, toList_renderChain _ _, by decide⟩
  | single left span ih =>
    rw [render]
    exact ih ((forall_mem_nodes_iff.1 h).1 left List.mem_cons_self)
  | compare left op right span =>
    rw [render]
    exact ⟨'(', _, toList_renderChain _ _, by decide⟩
  | ternary test thenArm elseArm span => exact ⟨'(', _, toList_render_ternary _ _ _ _, by decide⟩

theorem endsBefore_unary (op : UnaryOp) {c : Char} (hc : c ≠ '=') (cs : List Char) :
    (TokenKind.punct op.mark).EndsBefore (c :: cs) := by
  intro sign d hsign hd
  cases hd
  cases op with
  | neg =>
    obtain rfl : '-' = sign := (List.cons.inj hsign).1
    exact ⟨rfl, fun h => absurd h (by decide)⟩
  | not =>
    obtain rfl : '!' = sign := (List.cons.inj hsign).1
    refine ⟨?_, fun h => absurd h (by decide)⟩
    unfold Punct.pair?
    split
    all_goals first | rfl | contradiction

/-! ### Reading back -/

theorem mapSpan_chained {ω : Type} {node : Expr → List (Link ω Expr) → Span → Expr}
    {σ : Span → Span} (hnode : ∀ first rest span, (node first rest span).mapSpan σ =
      node (first.mapSpan σ) (rest.map fun link => ⟨link.op, link.operand.mapSpan σ⟩) (σ span))
    (first : Expr) (rest : List (Link ω Expr)) (span : Span) :
    (chained node first rest span).mapSpan σ =
      chained node (first.mapSpan σ) (rest.map fun link => ⟨link.op, link.operand.mapSpan σ⟩)
        (σ span) := by
  cases rest with
  | nil => rfl
  | cons link rest => exact hnode first (link :: rest) span

theorem le_deepest {ι : Type} {f : ι → Nat} {items : List ι} {i : ι} (h : i ∈ items) :
    f i ≤ (items.map f).foldr max 0 := by
  induction items with
  | nil => cases h
  | cons j items ih =>
    rw [List.map_cons, List.foldr_cons]
    rcases List.mem_cons.1 h with rfl | h
    · exact Nat.le_max_left _ _
    · exact (ih h).trans (Nat.le_max_right _ _)

/-- The text of an expression writes the expression as an operand, wrappers apart, with a level of
nesting to spare. -/
def ReadsBack (e : Expr) : Prop :=
  (∀ x ∈ e.nodes, x.Writable) → ∀ n, e.nesting ≤ n →
    Written e.render.toList (Grammar.operand .kinds (n + 1)) e.collapse.bare

/-- The chain of a layer `O` of operands, in parentheses. -/
theorem readsBack_chain {ω : Type} {mark : ω → Punct}
    {node : Expr → List (Link ω Expr) → Span → Expr} {O : Phrase TokenKind Expr} {n : Nat}
    (hin : ∀ {us e}, Grammar.operand .kinds (n + 1) us e → O us e)
    (hout : ∀ {us e}, Chain .kinds mark node O us e → Grammar.expr .kinds (n + 1) us e)
    {first : Expr} {rest : List (Link ω Expr)} (hfirst : first.ReadsBack)
    (hrest : ∀ link ∈ rest, link.operand.ReadsBack)
    (h : ∀ c ∈ first :: rest.map Link.operand, ∀ x ∈ c.nodes, x.Writable)
    (hn : max first.nesting ((rest.map fun link => link.operand.nesting).foldr max 0) ≤ n) :
    Written (renderChain first.render
        (rest.map fun link => ⟨mark link.op, link.operand.render⟩)).toList
      (Grammar.operand .kinds (n + 2))
      (chained node first.collapse.bare
        (rest.map fun link => ⟨link.op, link.operand.collapse.bare⟩) (.point 0)) := by
  obtain ⟨hw, hws⟩ := List.forall_mem_cons.1 h
  have hlinks : ∀ link ∈ rest, Written link.operand.render.toList O link.operand.collapse.bare := by
    intro link hlink
    have hle := le_deepest (f := fun link => link.operand.nesting) hlink
    exact (hrest link hlink (hws _ (List.mem_map_of_mem hlink)) n (by omega)).mono hin
  rw [toList_renderChain, List.flatMap_map]
  refine written_group (Written.mono ?_ hout)
  exact written_chain ((hfirst hw n (by omega)).mono hin) hlinks

theorem readsBack (e : Expr) : e.ReadsBack := by
  induction e with
  | int digits span =>
    intro h n _
    have hvalid : (TokenKind.int digits).Valid := (forall_mem_nodes_iff.1 h).2
    rw [render, collapse, bare, mapSpan]
    exact ⟨_, operand_of_primary (.int rfl), .word hvalid (by simp) rfl⟩
  | real value span =>
    intro h n _
    have hvalid : (TokenKind.real value.render).Valid := (forall_mem_nodes_iff.1 h).2
    have hread := operand_of_primary (m := n) (.real (A := .kinds) (t := .real value.render) rfl)
    rw [Binary64.ofLiteral_render hvalid] at hread
    rw [render, collapse, bare, mapSpan]
    exact ⟨_, hread, .word hvalid (by simp) rfl⟩
  | bool value span =>
    intro h n _
    have hword : Spells (bool value span).render.toList
        [.keyword (if value then .trueWord else .falseWord)] := by
      rw [render]
      have hvalid : ∀ word, (TokenKind.keyword word).Valid := fun _ => trivial
      cases value with
      | true => exact .word (hvalid .trueWord) (by simp) rfl
      | false => exact .word (hvalid .falseWord) (by simp) rfl
    rw [collapse, bare, mapSpan]
    exact ⟨_, operand_of_primary (.bool rfl), hword⟩
  | list items span ih =>
    intro h n hn
    have hwritable := (forall_mem_nodes_iff.1 h).1
    rw [nesting] at hn
    rw [collapse, bare, mapSpan]
    cases items with
    | nil =>
      have hclose : Spells [']'] [.punct .closeBracket] := .lone ⟨rfl, fun _ => rfl, by decide⟩ .nil
      have hboth : Spells ['[', ']'] [.punct .openBracket, .punct .closeBracket] :=
        .lone ⟨rfl, fun _ => rfl, by decide⟩ hclose
      rw [render]
      exact ⟨_, operand_of_primary (.emptyList rfl rfl), hboth⟩
    | cons first rest =>
      rw [List.isEmpty_cons, if_neg Bool.false_ne_true] at hn
      obtain ⟨m, rfl⟩ : ∃ m, n = m + 1 := ⟨n - 1, by omega⟩
      have hitems : ∀ e ∈ first :: rest,
          Written e.render.toList (Grammar.expr .kinds (m + 1)) e.collapse.bare := by
        intro e he
        have hle := le_deepest (f := fun e : Expr => e.nesting) he
        exact (ih e he (hwritable e he) m (by omega)).mono expr_of_operand
      rw [toList_render_list, List.map_map]
      exact (written_list (fun e : Expr => e.render.toList) (fun e => e.collapse.bare) hitems).mono
        operand_of_primary
  | ident name span =>
    intro h n _
    have hvalid : (TokenKind.ident name).Valid := (forall_mem_nodes_iff.1 h).2
    rw [render, collapse, bare, mapSpan]
    exact ⟨_, operand_of_primary (.ident rfl), .word hvalid (by simp) rfl⟩
  | unary op operand span ih =>
    intro h n hn
    have hwritable := (forall_mem_nodes_iff.1 h).1 operand List.mem_cons_self
    rw [nesting] at hn
    obtain ⟨m, rfl⟩ : ∃ m, n = m + 1 := ⟨n - 1, by omega⟩
    obtain ⟨us, hus, hs⟩ := ih hwritable m (by omega)
    -- an operand never starts with `=`, which would make `!=` of the sign before it
    obtain ⟨c, cs, htext, hc⟩ := toList_render_start operand hwritable
    rw [render, collapse, bare, mapSpan, String.toList_append]
    refine ⟨.punct op.mark :: us, ?_, .mark (fun rest => ?_) hs⟩
    · rw [Grammar.operand]
      exact .unary rfl hus
    · rw [htext]
      exact endsBefore_unary op hc _
  | additive first rest span ih ihs =>
    intro h n hn
    rw [nesting] at hn
    obtain ⟨m, rfl⟩ : ∃ m, n = m + 1 := ⟨n - 1, by omega⟩
    rw [render, collapse, bare, mapSpan_chained (fun _ _ _ => by rw [mapSpan]), List.map_map]
    exact readsBack_chain mul_of_operand expr_of_add ih ihs (forall_mem_nodes_iff.1 h).1 (by omega)
  | multiplicative first rest span ih ihs =>
    intro h n hn
    rw [nesting] at hn
    obtain ⟨m, rfl⟩ : ∃ m, n = m + 1 := ⟨n - 1, by omega⟩
    rw [render, collapse, bare, mapSpan_chained (fun _ _ _ => by rw [mapSpan]), List.map_map]
    refine readsBack_chain (fun h => ?_) expr_of_mul ih ihs (forall_mem_nodes_iff.1 h).1 (by omega)
    rwa [Grammar.operand] at h
  | logical first rest span ih ihs =>
    intro h n hn
    rw [nesting] at hn
    obtain ⟨m, rfl⟩ : ∃ m, n = m + 1 := ⟨n - 1, by omega⟩
    rw [render, collapse, bare, mapSpan_chained (fun _ _ _ => by rw [mapSpan]), List.map_map]
    exact readsBack_chain comp_of_operand expr_of_logic ih ihs (forall_mem_nodes_iff.1 h).1
      (by omega)
  | single left span ih =>
    intro h n hn
    rw [render, collapse]
    rw [nesting] at hn
    exact ih ((forall_mem_nodes_iff.1 h).1 left List.mem_cons_self) n hn
  | compare left op right span ihl ihr =>
    intro h n hn
    have hwritable := (forall_mem_nodes_iff.1 h).1
    rw [nesting] at hn
    obtain ⟨m, rfl⟩ : ∃ m, n = m + 1 := ⟨n - 1, by omega⟩
    obtain ⟨us, hleft, hs⟩ := ihl (hwritable left List.mem_cons_self) m (by omega)
    obtain ⟨vs, hright, ht⟩ := ihr
      (hwritable right (List.mem_cons_of_mem _ List.mem_cons_self)) m (by omega)
    rw [render, toList_renderChain, collapse, bare, mapSpan]
    refine written_group ⟨_, expr_of_comp (.compare (add_of_operand hleft) rfl
      (add_of_operand hright)), hs.append ?_ (delimits_cons (by decide) _)⟩
    simpa using ht.operator op.mark
  | ternary test thenArm elseArm span ihc iht ihe =>
    intro h n hn
    have hwritable := (forall_mem_nodes_iff.1 h).1
    rw [nesting] at hn
    -- the test is read at the level of the whole choice, the arms one level deeper
    obtain ⟨m, rfl⟩ : ∃ m, n = m + 2 := ⟨n - 2, by omega⟩
    have htest := ihc (hwritable test (by simp [children])) (m + 1) (by omega)
    have hthen := iht (hwritable thenArm (by simp [children])) m (by omega)
    have helse := ihe (hwritable elseArm (by simp [children])) m (by omega)
    rw [toList_render_ternary, collapse, bare, mapSpan]
    have hchoice := written_ternary (htest.mono logic_of_operand) (hthen.mono expr_of_operand)
      (helse.mono expr_of_operand)
    refine written_group (hchoice.mono fun hc => ?_)
    rw [Grammar.expr]
    exact hc

end Expr

/-! ### Programs of one expression -/

theorem Stmt.of_mapSpan_eq_expr {σ : Span → Span} {s : Stmt} {e : Expr} {span : Span}
    (h : s.mapSpan σ = .expr e span) :
    ∃ value place, s = .expr value place ∧ value.mapSpan σ = e := by
  cases s with
  | expr value place =>
    rw [mapSpan, Stmt.expr.injEq] at h
    exact ⟨value, place, rfl, h.1⟩
  | declare decl place => rw [mapSpan] at h; cases h
  | assign target targetSpan value place => rw [mapSpan] at h; cases h
  | ifElse test thenBlock elseBlock place => rw [mapSpan_ifElse] at h; cases h
  | whileDo test body place => rw [mapSpan_whileDo] at h; cases h
  | doWhile body test place => rw [mapSpan_doWhile] at h; cases h
  | block body place => rw [mapSpan_block] at h; cases h

/-- A text that writes an expression is a program once a semicolon follows it. -/
theorem parse_of_written {text : String} {e : Expr}
    (h : Written text.toList (Grammar.expr .kinds nestingLimit) e) :
    ∃ p value span, parse (text ++ ";") = .ok p ∧ p.stmts = [.expr value span] ∧
      value.bare = e := by
  obtain ⟨us, he, hs⟩ := h
  have hsemicolon : Spells [';'] [.punct .semicolon] := .lone ⟨rfl, fun _ => rfl, by decide⟩ .nil
  have hlexes : Lexes (text ++ ";").toList (us ++ [.punct .semicolon]) := by
    rw [String.toList_append]
    exact hs _ _ (ends_cons.2 (by decide)) (hsemicolon [] [] ends_nil .nil)
  obtain ⟨ts, htok, hkinds⟩ := hlexes.tokenize
  have hmany : Many (Grammar.stmt .kinds nestingLimit) (ts.map Token.kind)
      [.expr e (.point 0)] := by
    rw [hkinds, ← List.append_nil (us ++ _)]
    exact .cons (.expr he rfl) .nil
  -- kinds have no places; the tokens of the text derive the same statement with places of its own
  obtain ⟨stmts, hstmts, hbare⟩ := (carries_stmts nestingLimit _ _).1 hmany
  obtain ⟨s, rfl, hexpr⟩ := List.map_eq_singleton_iff.1 hbare
  obtain ⟨value, span, rfl, hvalue⟩ := Stmt.of_mapSpan_eq_expr hexpr
  exact ⟨⟨[.expr value span], _⟩, value, span, parse_eq_ok_iff.2 ⟨ts, _, htok, hstmts, rfl⟩, rfl,
    hvalue⟩

/-- **Rendered expressions are read back.**  If the literals and names of an expression have the
texts of tokens and its text nests less deeply than statements may, its text with a semicolon is a
program of one statement, which is the expression without its empty wrappers. -/
theorem parse_render (e : Expr) (hwritable : ∀ x ∈ e.nodes, x.Writable)
    (hnesting : e.nesting < nestingLimit) :
    ∃ p value span, parse (e.render ++ ";") = .ok p ∧ p.stmts = [.expr value span] ∧
      value.bare = e.collapse.bare := by
  have hwritten := e.readsBack hwritable (nestingLimit - 1) (Nat.le_pred_of_lt hnesting)
  exact parse_of_written (hwritten.mono expr_of_operand)

/-- A sum in an empty product, with a sign behind an operator. -/
theorem parse_render_signed :
    ∃ p value span, parse ((Expr.multiplicative (.additive (.real (.ofLiteral "1.5") default)
        [⟨.sub, .compare (.unary .neg (.ident "x" default) default) none default⟩] default) []
        default).render ++ ";") = .ok p ∧ p.stmts = [.expr value span] ∧
      value.bare = (Expr.multiplicative (.additive (.real (.ofLiteral "1.5") default)
        [⟨.sub, .compare (.unary .neg (.ident "x" default) default) none default⟩] default) []
        default).collapse.bare := by
  have hreal : (TokenKind.real (Binary64.ofLiteral "1.5").render).Valid := by
    have hrender : (Binary64.ofLiteral "1.5").render = "1.5" := by decide +kernel
    rw [hrender]
    have h1 : IsDigits ['1'] := isDigits_singleton rfl
    have h5 : IsDigits ['5'] := isDigits_singleton rfl
    exact .mk h1 h5 .none
  have hname : (TokenKind.ident "x").Valid :=
    ⟨.mk rfl (List.forall_mem_nil _), by decide +kernel⟩
  refine parse_render _ ?_ ?_
  · simp [Expr.nodes_eq, Expr.children, Expr.Writable, hreal, hname]
  · simp [Expr.nesting, nestingLimit]

end StaticCheck
