import StaticCheck.Proofs.Locations
import StaticCheck.Proofs.Rereading

/-! # How tall trees grow

Chains and lists make a tree wide and not tall.  What makes it tall is nesting, and the number of
levels is limited: a level is a block, an expression or an operand of a unary operator.  One level
of an expression stacks at most six nodes, from a choice through a chain of conditions, a
comparison, a sum and a product down to an operator or a list, before the next level opens
(`height_le_of_expr`).  Every block around an expression takes a level away from it
(`parse_height_le`). -/

namespace StaticCheck

open Grammar

/-! ### Heights of expressions -/

namespace Expr

/-- The number of nodes on the longest path from the root to a leaf. -/
def height (e : Expr) : Nat := (e.children.attach.map fun c => c.1.height).foldr max 0 + 1
termination_by sizeOf e
decreasing_by exact sizeOf_lt_of_mem_children c.2

theorem height_le_succ_iff {e : Expr} {n : Nat} :
    e.height ≤ n + 1 ↔ ∀ c ∈ e.children, c.height ≤ n := by
  have hmax : ∀ heights : List Nat, heights.foldr max 0 ≤ n ↔ ∀ k ∈ heights, k ≤ n := by
    intro heights
    induction heights with
    | nil => simp
    | cons k heights ih => simp [ih]
  rw [height, List.attach_map_val (f := height), Nat.add_le_add_iff_right, hmax,
    List.forall_mem_map]

end Expr

/-! ### Statements and the blocks around them -/

namespace Stmt

mutual

/-- The statements in the blocks of a statement, each with the number of blocks around it, if so
many blocks are around the statement itself. -/
def nestedWithin (around : Nat) : Stmt → List (Nat × Stmt)
  | ifElse _ ⟨thenStmts, _⟩ none _ => nodesWithin (around + 1) thenStmts
  | ifElse _ ⟨thenStmts, _⟩ (some ⟨elseStmts, _⟩) _ =>
    nodesWithin (around + 1) thenStmts ++ nodesWithin (around + 1) elseStmts
  | whileDo _ ⟨stmts, _⟩ _ => nodesWithin (around + 1) stmts
  | doWhile ⟨stmts, _⟩ _ _ => nodesWithin (around + 1) stmts
  | block ⟨stmts, _⟩ _ => nodesWithin (around + 1) stmts
  | declare _ _ => []
  | assign _ _ _ _ => []
  | expr _ _ => []
termination_by structural s => s

/-- The statements of a list and those in their blocks, each with the number of blocks around it, if
so many blocks are around the list. -/
def nodesWithin (around : Nat) : List Stmt → List (Nat × Stmt)
  | [] => []
  | s :: rest => (around, s) :: (s.nestedWithin around ++ nodesWithin around rest)
termination_by structural rest => rest

end

theorem nodesWithin_eq (around : Nat) (stmts : List Stmt) : nodesWithin around stmts =
    stmts.flatMap fun s => (around, s) :: s.nestedWithin around := by
  induction stmts with
  | nil => rfl
  | cons s rest ih => rw [nodesWithin, ih, List.flatMap_cons, List.cons_append]

theorem nestedWithin_eq (around : Nat) (s : Stmt) :
    s.nestedWithin around = s.blocks.flatMap fun b => nodesWithin (around + 1) b.stmts := by
  cases s with
  | ifElse test thenBlock elseBlock span =>
    cases elseBlock with
    | none => simp [nestedWithin, blocks]
    | some elseBlock => simp [nestedWithin, blocks]
  | whileDo test body span => simp [nestedWithin, blocks]
  | doWhile body test span => simp [nestedWithin, blocks]
  | block body span => simp [nestedWithin, blocks]
  | declare decl span => rfl
  | assign target targetSpan value span => rfl
  | expr value span => rfl

/-- No statement is left out. -/
theorem map_snd_nestedWithin (around : Nat) (s : Stmt) :
    (s.nestedWithin around).map Prod.snd = s.nested := by
  induction s using blockInduction generalizing around with
  | node s ih =>
    rw [nestedWithin_eq, nested_eq, List.map_flatMap]
    refine List.flatMap_congr fun b hb => ?_
    rw [nodesWithin_eq, List.map_flatMap]
    refine List.flatMap_congr fun x hx => ?_
    rw [List.map_cons, ih b hb x hx, nodes]

/-- The outermost expressions of a statement are its own and those of its blocks. -/
theorem mem_exprs_iff {s : Stmt} {e : Expr} : e ∈ s.exprs ↔
    e ∈ s.ownExprs ∨ ∃ b ∈ s.blocks, ∃ x ∈ b.stmts, e ∈ x.exprs := by
  cases s with
  | ifElse test thenBlock elseBlock span =>
    rw [exprs_ifElse]
    simp [blockExprs, exprsAll_eq, ownExprs, blocks]
  | whileDo test body span => simp [exprs, exprsAll_eq, ownExprs, blocks]
  | doWhile body test span => simp [exprs, exprsAll_eq, ownExprs, blocks, or_comm]
  | block body span => simp [exprs, exprsAll_eq, ownExprs, blocks]
  | declare decl span => simp [exprs, ownExprs, blocks]
  | assign target targetSpan value span => simp [exprs, ownExprs, blocks]
  | expr value span => simp [exprs, ownExprs, blocks]

theorem exists_node_of_mem_exprs {s : Stmt} {e : Expr} (h : e ∈ s.exprs) :
    ∃ x ∈ s.nodes, e ∈ x.ownExprs := by
  induction s using blockInduction with
  | node s ih =>
    obtain hown | ⟨b, hb, x, hx, he⟩ := mem_exprs_iff.1 h
    · exact ⟨s, s.mem_nodes_self, hown⟩
    · obtain ⟨y, hy, he⟩ := ih b hb x hx he
      exact ⟨y, mem_nodes_of_mem_blocks hb hx hy, he⟩

end Stmt

namespace Program

/-- All statements of a program, each with the number of blocks around it. -/
def nestedStmts (p : Program) : List (Nat × Stmt) := Stmt.nodesWithin 0 p.stmts

/-- The outermost expressions of a program, each with the number of blocks around it. -/
def nestedExprs (p : Program) : List (Nat × Expr) :=
  p.nestedStmts.flatMap fun (around, s) => s.ownExprs.map fun e => (around, e)

theorem mem_nestedExprs_iff {p : Program} {around : Nat} {e : Expr} :
    (around, e) ∈ p.nestedExprs ↔ ∃ s, (around, s) ∈ p.nestedStmts ∧ e ∈ s.ownExprs := by
  simp only [nestedExprs, List.mem_flatMap, List.mem_map, Prod.mk.injEq, Prod.exists]
  constructor
  · rintro ⟨_, s, hs, e, he, rfl, rfl⟩
    exact ⟨s, hs, he⟩
  · rintro ⟨s, hs, he⟩
    exact ⟨around, s, hs, e, he, rfl, rfl⟩

theorem map_snd_nestedStmts (p : Program) : p.nestedStmts.map Prod.snd = p.stmtNodes := by
  rw [nestedStmts, Stmt.nodesWithin_eq, List.map_flatMap, stmtNodes]
  refine List.flatMap_congr fun s _ => ?_
  rw [List.map_cons, Stmt.map_snd_nestedWithin, Stmt.nodes]

theorem exists_mem_nestedExprs {p : Program} {e : Expr} (h : e ∈ p.exprs) :
    ∃ around, (around, e) ∈ p.nestedExprs := by
  rw [exprs, exprsAll_eq] at h
  obtain ⟨s, hs, he⟩ := List.mem_flatMap.1 h
  obtain ⟨x, hx, he⟩ := Stmt.exists_node_of_mem_exprs he
  have hnode : x ∈ p.nestedStmts.map Prod.snd := by
    rw [map_snd_nestedStmts]
    exact List.mem_flatMap.2 ⟨s, hs, hx⟩
  obtain ⟨⟨around, _⟩, hmem, rfl⟩ := List.mem_map.1 hnode
  exact ⟨around, mem_nestedExprs_iff.2 ⟨_, hmem, he⟩⟩

end Program

/-! ### Heights of phrases -/

namespace Grammar

variable {α τ ω : Type} {A : Alphabet α}

/-- Each tree of a repetition is derived on its own. -/
theorem Many.exists_of_mem {P : Phrase α τ} {ts : List α} {as : List τ} (h : Many P ts as) {a : τ}
    (ha : a ∈ as) : ∃ us, P us a := by
  induction h with
  | nil => cases ha
  | cons hp _ ih =>
    obtain rfl | ha := List.mem_cons.1 ha
    · exact ⟨_, hp⟩
    · exact ih ha

/-- The expressions that the phrase derives are at most so high. -/
def Grows (n : Nat) (P : Phrase α Expr) : Prop := ∀ ts e, P ts e → e.height ≤ n

theorem Grows.mono {m n : Nat} {P : Phrase α Expr} (h : Grows m P) (hmn : m ≤ n) : Grows n P :=
  fun ts e he => Nat.le_trans (h ts e he) hmn

section phrases

variable {n : Nat} {E O : Phrase α Expr}

theorem grows_primary (hE : Grows n E) : Grows (n + 1) (Primary A E) := by
  intro ts e h
  cases h with
  | parens hp =>
    cases hp with
    | mk _ he _ => exact Nat.le_succ_of_le (hE _ _ he)
  | int | real | bool | ident | emptyList => exact Expr.height_le_succ_iff.2 (List.forall_mem_nil _)
  | list _ hfirst hrest _ =>
    refine Expr.height_le_succ_iff.2 (List.forall_mem_cons.2 ⟨hE _ _ hfirst, fun e he => ?_⟩)
    obtain ⟨_, -, he⟩ := hrest.exists_of_mem he
    exact hE _ _ he

theorem grows_unary (hE : Grows n E) (hO : Grows n O) : Grows (n + 1) (Unary A E O) := by
  intro ts e h
  cases h with
  | primary hp => exact grows_primary hE ts e hp
  | unary _ ho => exact Expr.height_le_succ_iff.2 (List.forall_mem_singleton.2 (hO _ _ ho))

/-- A chain is one node above its operands, however many there are. -/
theorem grows_chain {mark : ω → Punct} {node : Expr → List (Link ω Expr) → Span → Expr}
    (hnode : ∀ first rest span, (node first rest span).children = first :: rest.map Link.operand)
    (hO : Grows n O) : Grows (n + 1) (Chain A mark node O) := by
  intro ts e h
  cases h with
  | single ho => exact Nat.le_succ_of_le (hO _ _ ho)
  | chain hfirst hrest _ =>
    rw [Expr.height_le_succ_iff, hnode, List.forall_mem_cons, List.forall_mem_map]
    refine ⟨hO _ _ hfirst, fun link hlink => ?_⟩
    obtain ⟨_, -, ho⟩ := hrest.exists_of_mem hlink
    exact hO _ _ ho

theorem grows_comp (hA : Grows n (Add A E O)) : Grows (n + 1) (Comp A E O) := by
  intro ts e h
  cases h with
  | single ha => exact Nat.le_succ_of_le (hA _ _ ha)
  | compare hl _ hr =>
    refine Expr.height_le_succ_iff.2 (List.forall_mem_cons.2 ⟨hA _ _ hl, ?_⟩)
    exact List.forall_mem_singleton.2 (hA _ _ hr)

theorem grows_choice (hL : Grows n (Logic A E O)) (hE : Grows n E) :
    Grows (n + 1) (Choice A E O) := by
  intro ts e h
  cases h with
  | single hl => exact Nat.le_succ_of_le (hL _ _ hl)
  | ternary htest _ hthen _ helse =>
    refine Expr.height_le_succ_iff.2 (List.forall_mem_cons.2 ⟨hL _ _ htest, ?_⟩)
    exact List.forall_mem_cons.2 ⟨hE _ _ hthen, List.forall_mem_singleton.2 (hE _ _ helse)⟩

end phrases

/-- Each level adds at most six nodes to a path, and the level of an operand at most one. -/
theorem grows_expr (levels : Nat) :
    Grows (6 * levels) (expr A levels) ∧ Grows (6 * levels) (operand A levels) := by
  induction levels with
  | zero =>
    rw [expr, operand]
    exact ⟨fun _ _ h => h.elim, fun _ _ h => h.elim⟩
  | succ levels ih =>
    obtain ⟨hE, hO⟩ := ih
    have hunary : Grows (6 * levels + 1) (Unary A (expr A levels) (operand A levels)) :=
      grows_unary hE hO
    have hmul : Grows (6 * levels + 2) (Mul A (expr A levels) (operand A levels)) :=
      grows_chain (fun _ _ _ => rfl) hunary
    have hadd : Grows (6 * levels + 3) (Add A (expr A levels) (operand A levels)) :=
      grows_chain (fun _ _ _ => rfl) hmul
    have hcomp : Grows (6 * levels + 4) (Comp A (expr A levels) (operand A levels)) :=
      grows_comp hadd
    have hlogic : Grows (6 * levels + 5) (Logic A (expr A levels) (operand A levels)) :=
      grows_chain (fun _ _ _ => rfl) hcomp
    rw [expr, operand]
    constructor
    · exact grows_choice hlogic (hE.mono (Nat.le_add_right _ 5))
    · exact hunary.mono (by omega)

theorem height_le_of_expr {levels : Nat} {ts : List α} {e : Expr} (h : expr A levels ts e) :
    0 < levels ∧ e.height ≤ 6 * levels := by
  refine ⟨?_, (grows_expr levels).1 ts e h⟩
  cases levels with
  | zero =>
    rw [expr] at h
    exact h.elim
  | succ levels => exact Nat.succ_pos levels

/-- A block takes one level, and its statements have the others. -/
theorem exists_many_of_block {levels : Nat} {ts : List α} {b : Block Stmt}
    (h : block A levels ts b) : ∃ rest us, levels = rest + 1 ∧ Many (stmt A rest) us b.stmts := by
  cases levels with
  | zero =>
    rw [block] at h
    exact h.elim
  | succ levels =>
    rw [block] at h
    cases h with
    | mk _ hm _ => exact ⟨levels, _, rfl, hm⟩

/-- A statement has the levels that the blocks around it leave. -/
theorem exists_stmt_of_mem_nodesWithin {levels around : Nat} {ts : List α} {stmts : List Stmt}
    (h : Many (stmt A levels) ts stmts) {n : Nat} {s : Stmt}
    (hs : (n, s) ∈ Stmt.nodesWithin around stmts) :
    ∃ rest us, n + rest = around + levels ∧ stmt A rest us s := by
  induction levels using Nat.strongRecOn generalizing around ts stmts with
  | ind levels ih =>
    rw [Stmt.nodesWithin_eq] at hs
    obtain ⟨x, hx, hs⟩ := List.mem_flatMap.1 hs
    obtain ⟨us, hstmt⟩ := h.exists_of_mem hx
    obtain heq | hs := List.mem_cons.1 hs
    · cases heq
      exact ⟨levels, us, rfl, hstmt⟩
    · rw [Stmt.nestedWithin_eq] at hs
      obtain ⟨b, hb, hs⟩ := List.mem_flatMap.1 hs
      obtain ⟨vs, -, hblock⟩ := contains_blocks us x hstmt b hb
      obtain ⟨rest, ws, rfl, hmany⟩ := exists_many_of_block hblock
      obtain ⟨left, us, hsum, hstmt⟩ := ih rest (Nat.lt_succ_self rest) hmany hs
      exact ⟨left, us, by omega, hstmt⟩

end Grammar

/-! ### Programs -/

/-- **Trees are at most so tall.**  A statement of a program that was read stands in no more blocks
than there are levels, and an expression has at most six times as many nodes on a path as the blocks
around it leave levels. -/
theorem parse_height_le {source : String} {p : Program} (h : parse source = .ok p) :
    p.nestedStmts.map Prod.snd = p.stmtNodes ∧
    (∀ e ∈ p.exprs, ∃ around, (around, e) ∈ p.nestedExprs) ∧
    (∀ around s, (around, s) ∈ p.nestedStmts → around ≤ nestingLimit) ∧
    ∀ around e, (around, e) ∈ p.nestedExprs →
      around < nestingLimit ∧ e.height ≤ 6 * (nestingLimit - around) := by
  obtain ⟨ts, stop, -, hstmts, -⟩ := parse_eq_ok_iff.1 h
  refine ⟨p.map_snd_nestedStmts, fun e he => Program.exists_mem_nestedExprs he, ?_, ?_⟩
  · intro around s hs
    obtain ⟨rest, us, hsum, -⟩ := exists_stmt_of_mem_nodesWithin hstmts hs
    omega
  · intro around e he
    obtain ⟨s, hs, he⟩ := Program.mem_nestedExprs_iff.1 he
    obtain ⟨rest, us, hsum, hstmt⟩ := exists_stmt_of_mem_nodesWithin hstmts hs
    obtain ⟨vs, -, hexpr⟩ := contains_ownExprs us s hstmt e he
    obtain ⟨hpos, hheight⟩ := height_le_of_expr hexpr
    have hrest : nestingLimit - around = rest := by omega
    rw [hrest]
    exact ⟨by omega, hheight⟩

/-- A condition that stacks all kinds of nodes, inside two blocks. -/
theorem parse_height_le_stacked :
    ∃ p e, parse "{ if (a) { x = b || 1 < 2 + 3 * -[4] ? c : d; } }" = .ok p ∧
      (2, e) ∈ p.nestedExprs ∧ e.height = 8 ∧ 2 < nestingLimit ∧
      e.height ≤ 6 * (nestingLimit - 2) := by
  have hread : ((parse "{ if (a) { x = b || 1 < 2 + 3 * -[4] ? c : d; } }").toOption.any fun p =>
      p.nestedExprs.any fun entry => entry.1 = 2 && entry.2.height = 8) = true := by
    decide +kernel
  obtain ⟨p, hparse, hentry⟩ := exists_program_of_any hread
  obtain ⟨⟨around, e⟩, hmem, htest⟩ := List.any_eq_true.1 hentry
  simp only [Bool.and_eq_true, decide_eq_true_eq] at htest
  obtain ⟨rfl, hheight⟩ := htest
  exact ⟨p, e, hparse, hmem, hheight, (parse_height_le hparse).2.2.2 2 e hmem⟩

end StaticCheck
