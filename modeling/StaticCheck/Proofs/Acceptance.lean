import StaticCheck.Proofs.Grammar.Translation
import StaticCheck.Proofs.Lookahead

/-! # The texts that are programs

What is accepted is derived, and what is derived is accepted with the tree of the derivation.  So
the tree that a text is read as need not be followed on the way: it is the one that the tokens
derive (`program_eq_ok_iff`).

A text is read as a program exactly if the kinds of its tokens derive that program in the grammar,
with at most `nestingLimit` levels on every path of the derivation (`exists_parse_iff_derives`).
Trees are compared without their places. -/

namespace StaticCheck

open Grammar

theorem kind_of_tokenize {source : String} {ts : List Token} {stop : Token}
    (h : tokenize source = .ok (ts ++ [stop])) : stop.kind = .eof := by
  obtain ⟨c, d, -, -, -, hend⟩ := exists_takes_iff.2 h
  exact hend

/-- Lists of tokens and their kinds derive the same statements, up to places. -/
theorem carries_stmts (levels : Nat) :
    Carries Token.kind (List.map (Stmt.mapSpan fun _ => .point 0))
      (Many (Grammar.stmt .tokens levels)) (Many (Grammar.stmt .kinds levels)) :=
  carries_many (carries_stmt .ofTokens levels)

/-! ### Programs -/

/-- Tokens that derive statements are read as a program. -/
theorem program_of_takes {c d : Cursor} {ts : List Token} {stmts : List Stmt} (ht : c.Takes ts d)
    (hend : d.current.kind = .eof) (hs : Many (Grammar.stmt .tokens nestingLimit) ts stmts) :
    Program.parser c = .ok ⟨stmts, c.current.span.merge d.current.span⟩ d := by
  rw [← Symbols.map_tokens ts] at ht
  exact Symbols.tokens_answers_iff.1
    (Symbols.answers_program (Symbols.handles_stmt _) Symbols.tokens_stmt_uncons ht hend hs)

/-- Statements are read up to a token at which they are to end. -/
theorem done_of_statementsUntil {done : TokenKind → Bool} {room : Nat} {c d : Cursor}
    {stmts : List Stmt} (h : Parser.statementsUntil done (Stmt.parser room) c = .ok stmts d) :
    done d.current.kind = true := by
  have hround := Parser.prompt_stmtRound done (Parser.accepts_stmt room) Parser.stmt_ne_nil
  obtain ⟨m, hm⟩ := Parser.last_of_collect hround.progresses h
  obtain ⟨_, _, ⟨rfl, rfl⟩, hm⟩ := Parser.bind_eq_ok_iff.1 hm
  split at hm
  · rename_i hdone
    obtain ⟨-, rfl⟩ := Parser.pure_eq_ok_iff.1 hm
    exact hdone
  · obtain ⟨s, _, -, hs⟩ := Parser.bind_eq_ok_iff.1 hm
    cases (Parser.pure_eq_ok_iff.1 hs).1

/-- A cursor is read as a program up to the end of the text. -/
theorem program_eq_ok_iff {c d : Cursor} {p : Program} : Program.parser c = .ok p d ↔
    ∃ ts, c.Takes ts d ∧ d.current.kind = .eof ∧
      Many (Grammar.stmt .tokens nestingLimit) ts p.stmts ∧
      p.span = c.current.span.merge d.current.span := by
  constructor
  · intro h
    obtain ⟨_, _, ⟨rfl, rfl⟩, hrest⟩ := Parser.bind_eq_ok_iff.1 h
    obtain ⟨read, m, hread, hrest⟩ := Parser.bind_eq_ok_iff.1 hrest
    obtain ⟨_, _, ⟨rfl, rfl⟩, hlast⟩ := Parser.bind_eq_ok_iff.1 hrest
    obtain ⟨-, rfl⟩ := Parser.pure_eq_ok_iff.1 hlast
    have hend : m.current.kind = .eof := by simpa using done_of_statementsUntil hread
    have haccepts := Parser.accepts_stmt nestingLimit
    obtain ⟨ts, ht, ⟨bare, hbare⟩, -⟩ :=
      (Parser.prompt_statementsUntil _ haccepts Parser.stmt_ne_nil).ok trivial hread
    -- the tokens derive a tree, and so it is the one that was read
    obtain ⟨stmts, hstmts, -⟩ := (carries_stmts nestingLimit ts bare).1 hbare
    rw [program_of_takes ht hend hstmts] at h
    cases h
    exact ⟨ts, ht, hend, hstmts, rfl⟩
  · rintro ⟨ts, ht, hend, hs, hspan⟩
    rw [program_of_takes ht hend hs, ← hspan]

theorem Cursor.Takes.headD {c d : Cursor} {ts : List Token} (h : c.Takes ts d) :
    ts.headD d.current = c.current := by
  cases h with
  | nil => rfl
  | cons _ ha _ => exact (Parser.advance_token ha).symm

/-- A text is read as a program exactly if its tokens derive the statements of the program; the
program extends from the first token to the end of the text. -/
theorem parse_eq_ok_iff {source : String} {p : Program} :
    parse source = .ok p ↔ ∃ ts stop, tokenize source = .ok (ts ++ [stop]) ∧
      Many (Grammar.stmt .tokens nestingLimit) ts p.stmts ∧
      p.span = (ts.headD stop).span.merge stop.span := by
  have hparse : parse source = .ok p ↔
      ∃ c d, Cursor.ofSource source = .ok c ∧ Program.parser c = .ok p d := by
    unfold parse Cursor.parseProgram
    cases hc : Cursor.ofSource source with
    | error e => simp
    | ok c => cases hp : Program.parser c <;> simp [hp]
  rw [hparse]
  simp only [program_eq_ok_iff]
  constructor
  · rintro ⟨c, d, hc, ts, ht, hend, hs, hspan⟩
    refine ⟨ts, d.current, exists_takes_iff.1 ⟨c, d, hc, ht, rfl, hend⟩, hs, ?_⟩
    rw [ht.headD, hspan]
  · rintro ⟨ts, stop, htok, hs, hspan⟩
    obtain ⟨c, d, hc, ht, rfl, hend⟩ := exists_takes_iff.2 htok
    rw [ht.headD] at hspan
    exact ⟨c, d, hc, ts, ht, hend, hs, hspan⟩

/-- **Reading is deriving.**  A text is read as a program if and only if it consists of tokens
whose kinds derive the program within the nesting limit.  In the grammar, what a statement that
starts with a name is depends on the token behind the name alone. -/
theorem exists_parse_iff_derives (source : String) (p : StaticCheck.Program) :
    ((∃ q, parse source = .ok q ∧ q.bare = p.bare) ↔
      ∃ ts, tokenize source = .ok ts ∧
        Grammar.Program .kinds nestingLimit (ts.map Token.kind) p.bare) ∧
    ∀ levels x next rest s, Grammar.stmt .kinds levels (.ident x :: next :: rest) s →
      NameStatement next s := by
  refine ⟨⟨?_, ?_⟩, fun levels x next rest s h => stmt_nameStatement h rfl⟩
  · rintro ⟨q, hq, hbare⟩
    obtain ⟨ts, stop, htok, hs, -⟩ := parse_eq_ok_iff.1 hq
    refine ⟨ts ++ [stop], htok, ?_⟩
    rw [← hbare, List.map_append]
    exact .mk ((carries_stmts nestingLimit _ _).2 ⟨_, hs, rfl⟩) (kind_of_tokenize htok)
  · rintro ⟨ts, htok, hp⟩
    generalize hks : ts.map Token.kind = ks at hp
    generalize hbare : p.bare = b at hp
    cases hp with
    | mk hs hstop =>
      obtain ⟨us, vs, rfl, rfl, h₁⟩ := List.map_eq_append_iff.1 hks
      obtain ⟨stop, rfl, rfl⟩ := List.map_eq_singleton_iff.1 h₁
      obtain ⟨stmts, hstmts, rfl⟩ := (carries_stmts nestingLimit _ _).1 hs
      refine ⟨⟨stmts, (us.headD stop).span.merge stop.span⟩,
        parse_eq_ok_iff.2 ⟨us, stop, htok, hstmts, rfl⟩, ?_⟩
      obtain ⟨-, rfl⟩ := Program.mk.inj hbare
      rfl

end StaticCheck
