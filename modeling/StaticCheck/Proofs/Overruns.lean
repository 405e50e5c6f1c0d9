import StaticCheck.Proofs.Grammar.Levels
import StaticCheck.Proofs.Viability

/-! # Programs that nest too deep

A program that opens a level beyond the limit is rejected for that reason alone, at the first token
at which such a level opens (`parse_marked`).  The room that a parser has left and the level that it
is to open add up to one more than the limit.  Without room the level is beyond the limit, and the
parser fails at the token it stands on, which opens the level (`handles_markedExpr`,
`handles_markedBlock`). -/

namespace StaticCheck

open Grammar TokenKind

/-- The level that opens at the token is one too many. -/
def Marked.deep (s : Marked) : Bool := s.level?.any fun level => nestingLimit < level

namespace Symbols

/-- Marked tokens tell where a level too many opens. -/
def marked : Symbols .marked where
  token := Marked.token
  deep := Marked.deep
  of_kind {s kind} h hkind := by
    obtain ⟨hlevel, htoken⟩ := unmarked_of_kind h hkind
    refine ⟨?_, htoken⟩
    rw [Marked.deep, hlevel]
    rfl
  span _ := rfl

/-! ### Levels -/

section levels

variable {τ : Type} {p : Parser τ} {P : Phrase Marked τ} {stop : TokenKind → Prop} {level : Nat}

/-- A level within the limit makes no difference. -/
theorem handles_opening (hlevel : level ≤ nestingLimit) (h : marked.Handles p P stop) :
    marked.Handles p (Opening level P) stop := by
  constructor
  rintro c d _ a ht ⟨t, rest, rfl, hp⟩ hk
  have hanswers : marked.Answers p c (⟨t, none⟩ :: rest) a d := h.answers ht hp hk
  unfold Answers at hanswers ⊢
  rw [List.find?_cons_of_neg (by simp [marked, Marked.deep])] at hanswers
  rwa [List.find?_cons_of_neg (by simpa [marked, Marked.deep] using hlevel)]

/-- At a level beyond the limit the parser fails at once, which is at the token that opens it. -/
theorem handles_fail (hlevel : nestingLimit < level) :
    marked.Handles (Parser.fail .tooDeep) (Opening level P) stop := by
  constructor
  rintro c d _ a ht ⟨t, rest, rfl, hp⟩ hk
  have hdeep : marked.deep ⟨t, some level⟩ = true := by simpa [marked, Marked.deep] using hlevel
  have hfail : (Parser.fail .tooDeep : Parser τ) c = .error (.syntactic .tooDeep t.span) c := by
    rw [Parser.fail_eq_error, ht.current]
    rfl
  rw [Answers, List.find?_cons_of_pos hdeep]
  exact ⟨c, hfail⟩

end levels

theorem handles_markedExpr (levels : Nat) {room level : Nat} (h : level + room = nestingLimit + 1) :
    marked.Handles (Expr.parser room) (markedExpr levels level) endsExpr ∧
      marked.Handles (Expr.operandParser room) (markedOperand levels level) fun _ => True := by
  induction levels generalizing room level with
  | zero =>
    rw [markedExpr, markedOperand]
    exact ⟨handles_false, handles_false⟩
  | succ levels ih =>
    rw [markedExpr, markedOperand]
    cases room with
    | zero =>
      rw [Expr.parser, Expr.operandParser]
      exact ⟨handles_fail (by omega), handles_fail (by omega)⟩
    | succ room =>
      have hroom : level + 1 + room = nestingLimit + 1 := by omega
      obtain ⟨hE, hO⟩ := ih hroom
      rw [Expr.parser, Expr.operandParser]
      exact ⟨handles_opening (by omega) (handles_conditional hE hO markedExpr_opens),
        handles_opening (by omega) (handles_unary hE markedExpr_opens hO)⟩

theorem handles_markedBlock (levels : Nat) {room level : Nat}
    (h : level + room = nestingLimit + 1) :
    marked.Handles (Stmt.blockParser room) (markedBlock levels level) fun _ => True := by
  induction levels generalizing room level with
  | zero =>
    rw [markedBlock]
    exact handles_false
  | succ levels ih =>
    rw [markedBlock]
    cases room with
    | zero =>
      rw [Stmt.blockParser]
      exact handles_fail (by omega)
    | succ room =>
      have hroom : level + 1 + room = nestingLimit + 1 := by omega
      rw [Stmt.blockParser]
      refine handles_opening (by omega) (handles_braces ?_ markedStmt_uncons)
      exact handles_statement (handles_markedExpr levels hroom).1 (ih hroom) markedExpr_opens
        markedBlock_uncons

theorem handles_markedStmt (levels : Nat) :
    marked.Handles (Stmt.parser nestingLimit) (markedStmt levels 1)
      fun kind => kind ≠ .keyword .elseWord := by
  have hroom : 1 + nestingLimit = nestingLimit + 1 := Nat.add_comm 1 nestingLimit
  exact handles_statement (handles_markedExpr levels hroom).1 (handles_markedBlock levels hroom)
    markedExpr_opens markedBlock_uncons

end Symbols

/-! ### Programs -/

section programs

variable {source : String} {ts : List Token} {stop : Token}

/-- The kinds of tokens derive a program if and only if the tokens can be marked with the levels
that it opens. -/
theorem derivable_iff_marked : Derivable (ts.map Token.kind) ↔
    ∃ ss stmts, ss.map Marked.token = ts ∧ MarkedProgram ss stmts := by
  rw [derivable_iff]
  constructor
  · rintro ⟨levels, bare, h⟩
    obtain ⟨stmts, hstmts, -⟩ := (carries_stmts levels ts bare).1 h
    obtain ⟨ss, hss, hmarked⟩ := exists_marked_iff.1 hstmts
    exact ⟨ss, stmts, hss, levels, hmarked⟩
  · rintro ⟨ss, stmts, hss, levels, hmarked⟩
    have hstmts := exists_marked_iff.2 ⟨ss, hss, hmarked⟩
    exact ⟨levels, _, (carries_stmts levels ts _).2 ⟨stmts, hstmts, rfl⟩⟩

/-- Reading a text answers on its marked tokens. -/
theorem parse_of_marked (htok : tokenize source = .ok (ts ++ [stop])) {ss : List Marked}
    {stmts : List Stmt} (hss : ss.map Marked.token = ts) (h : MarkedProgram ss stmts) :
    match ss.find? Marked.deep with
    | none => ∃ p, parse source = .ok p ∧ p.stmts = stmts
    | some s => parse source = .error (.syntactic .tooDeep s.token.span) := by
  obtain ⟨levels, h⟩ := h
  obtain ⟨c, d, hc, ht, rfl, hend⟩ := exists_takes_iff.2 htok
  subst hss
  have hanswers : Symbols.marked.Answers Program.parser c ss _ d :=
    Symbols.answers_program (Symbols.handles_markedStmt levels) markedStmt_uncons ht hend h
  have hdeep : ss.find? Symbols.marked.deep = ss.find? Marked.deep := rfl
  rw [Symbols.Answers, hdeep] at hanswers
  have hparse : parse source = c.parseProgram.1 := by
    rw [parse, hc]
  rw [hparse, Cursor.parseProgram]
  cases hfind : ss.find? Marked.deep with
  | none =>
    rw [hfind] at hanswers
    rw [hanswers]
    exact ⟨_, rfl, rfl⟩
  | some s =>
    rw [hfind] at hanswers
    obtain ⟨m, hanswers⟩ := hanswers
    rw [hanswers]
    rfl

/-- **A program that nests too deep fails only for that.**  The tokens of a text derive a program,
however deep it nests, if and only if they can be marked with the levels that open, one for each
block, each expression and each operand of a unary operator.  However they are marked, the text is
read as the program if no level is beyond the limit.  Else it is rejected for its nesting, at the
first token at which a level beyond the limit opens. -/
theorem parse_marked (htok : tokenize source = .ok (ts ++ [stop])) :
    (Derivable (ts.map Token.kind) ↔
      ∃ ss stmts, ss.map Marked.token = ts ∧ MarkedProgram ss stmts) ∧
    (∀ ss stmts, ss.map Marked.token = ts → MarkedProgram ss stmts →
      ((∀ s ∈ ss, s.deep = false) → ∃ p, parse source = .ok p ∧ p.stmts = stmts) ∧
      ∀ before s after, ss = before ++ s :: after → (∀ b ∈ before, b.deep = false) →
        s.deep = true → parse source = .error (.syntactic .tooDeep s.token.span)) ∧
    Fault.tooDeep.detail = "nesting deeper than 100 levels" := by
  refine ⟨derivable_iff_marked, fun ss stmts hss h => ⟨fun hall => ?_, ?_⟩, by decide⟩
  · have hread := parse_of_marked htok hss h
    have hnone : ss.find? Marked.deep = none := List.find?_eq_none.2 fun s hs => by simp [hall s hs]
    rwa [hnone] at hread
  · rintro before s after rfl hbefore hs
    have hread := parse_of_marked htok hss h
    have hnone : before.find? Marked.deep = none :=
      List.find?_eq_none.2 fun b hb => by simp [hbefore b hb]
    rwa [List.find?_append, hnone, Option.none_or, List.find?_cons_of_pos hs] at hread

end programs

/-- So many signs in front of a number, each at a level of its own. -/
def signs (n : Nat) : String := .ofList (List.replicate n '-' ++ ['1', ';'])

def signTokens (n : Nat) : List Token :=
  (List.range n).map (fun i => ⟨.punct .minus, ⟨i, i + 1⟩⟩) ++
    [⟨.int "1", ⟨n, n + 1⟩⟩, ⟨.punct .semicolon, ⟨n + 1, n + 2⟩⟩]

theorem exists_unary_signs (n : Nat) : ∃ e, Unary .kinds (expr .kinds n) (operand .kinds n)
    (List.replicate n (.punct .minus) ++ [.int "1"]) e := by
  induction n with
  | zero => exact ⟨_, .primary (.int rfl)⟩
  | succ n ih =>
    obtain ⟨e, he⟩ := ih
    have hsign : Alphabet.kinds.kind (.punct .minus) = .punct UnaryOp.neg.mark := rfl
    have hoperand : operand .kinds (n + 1) (List.replicate n (.punct .minus) ++ [.int "1"]) e := by
      rw [operand]
      exact he
    exact ⟨_, .unary hsign hoperand⟩

theorem derivable_signs (n : Nat) :
    Derivable (List.replicate n (.punct .minus) ++ [.int "1", .punct .semicolon]) := by
  obtain ⟨e, he⟩ := exists_unary_signs n
  have hexpr : expr .kinds (n + 1) (List.replicate n (.punct .minus) ++ [.int "1"]) e := by
    rw [expr]
    exact .single (.single (.single (.single (.single he))))
  have hsemi : Alphabet.kinds.kind (.punct .semicolon) = .punct .semicolon := rfl
  have hstmt : stmt .kinds (n + 1) _ _ := .expr hexpr hsemi
  have hmany := Many.cons hstmt .nil
  rw [List.append_nil, List.append_assoc] at hmany
  exact derivable_iff.2 ⟨n + 1, _, hmany⟩

/-- Each of 101 signs opens a level, and the last of them is the first one beyond the limit. -/
theorem parse_marked_signs :
    ∃ ss stmts before s after, ss.map Marked.token = signTokens 101 ∧ MarkedProgram ss stmts ∧
      ss = before ++ s :: after ∧ (∀ b ∈ before, b.deep = false) ∧ s.deep = true ∧
      s.token.span = ⟨100, 101⟩ ∧
      parse (signs 101) = .error (.syntactic .tooDeep s.token.span) := by
  have htok : tokenize (signs 101) = .ok (signTokens 101 ++ [.atEnd 103]) := by
    decide +kernel
  have herror : parse (signs 101) = .error (.syntactic .tooDeep ⟨100, 101⟩) := by
    refine parse_eq_error ?_
    decide +kernel
  have hkinds : (signTokens 101).map Token.kind =
      List.replicate 101 (.punct .minus) ++ [.int "1", .punct .semicolon] := by
    decide +kernel
  obtain ⟨hiff, hread, -⟩ := parse_marked htok
  obtain ⟨ss, stmts, hss, h⟩ := hiff.1 (hkinds ▸ derivable_signs 101)
  obtain ⟨hshallow, hdeep⟩ := hread ss stmts hss h
  cases hfind : ss.find? Marked.deep with
  | none =>
    obtain ⟨p, hp, -⟩ := hshallow fun s hs => by simpa using List.find?_eq_none.1 hfind s hs
    rw [herror] at hp
    cases hp
  | some s =>
    obtain ⟨hs, before, after, hsplit, hbefore⟩ := List.find?_eq_some_iff_append.1 hfind
    have hfirst : ∀ b ∈ before, b.deep = false := by simpa using hbefore
    have hfail := hdeep before s after hsplit hfirst hs
    have hspan : s.token.span = ⟨100, 101⟩ :=
      (ReadError.syntactic.inj (Except.error.inj (hfail.symm.trans herror))).2
    exact ⟨ss, stmts, before, s, after, hss, h, hsplit, hfirst, hs, hspan, hfail⟩

end StaticCheck
