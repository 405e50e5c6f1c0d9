import StaticCheck.Proofs.Acceptance
import StaticCheck.Proofs.Grammar.Parts
import StaticCheck.Proofs.Lookahead

/-! # The first token that cannot follow

A text that is no program has a first token with which no program goes on, and this is where the
error is reported (`parse_error_first`), unless the nesting limit was reached before.

The tokens before it begin some program because every parser can be led to the end of its rule from
wherever it stands.  That no program begins with the token included is shown with the text of such a
program: read with enough room, it would be read like the text at hand up to the token, and it would
fail there like it. -/

namespace StaticCheck

open Cursor Grammar

/-! ### No part of a phrase is the end of the text -/

namespace Grammar

variable {α τ ω : Type} {A : Alphabet α}

/-- The phrase derives no symbol for the end of the text. -/
def Solid (A : Alphabet α) (P : Phrase α τ) : Prop := ∀ ts a, P ts a → ∀ t ∈ ts, A.kind t ≠ .eof

theorem solid_many {P : Phrase α τ} (h : Solid A P) : Solid A (Many P) := by
  intro ts as hts
  induction hts with
  | nil => simp
  | cons hp _ ih => exact List.forall_mem_append.2 ⟨h _ _ hp, ih⟩

theorem solid_optional {mark : TokenKind} (hmark : mark ≠ .eof) {P : Phrase α τ}
    (h : Solid A P) : Solid A (Optional A mark P) := by
  rintro _ _ (_ | ⟨hk, hp⟩)
  · simp
  · exact List.forall_mem_cons.2 ⟨hk ▸ hmark, h _ _ hp⟩

variable {E O : Phrase α Expr} {B : Phrase α (Block Stmt)} {S : Phrase α Stmt}

theorem solid_chain {mark : ω → Punct} {node : Expr → List (Link ω Expr) → Span → Expr}
    (h : Solid A O) : Solid A (Chain A mark node O) := by
  have hlinked : Solid A (Linked A mark O) := by
    rintro _ _ ⟨hk, he⟩
    exact List.forall_mem_cons.2 ⟨by simp [hk], h _ _ he⟩
  rintro _ _ (he | ⟨hfirst, hrest, -⟩)
  · exact h _ _ he
  · exact List.forall_mem_append.2 ⟨h _ _ hfirst, solid_many hlinked _ _ hrest⟩

theorem solid_parens (h : Solid A E) : Solid A (Parens A E) := by
  rintro _ _ ⟨hl, he, hr⟩
  simpa [hl, hr, or_imp, forall_and] using h _ _ he

theorem solid_primary (h : Solid A E) : Solid A (Primary A E) := by
  have hfurther : Solid A (Further A E) := by
    rintro _ _ ⟨hk, he⟩
    exact List.forall_mem_cons.2 ⟨by simp [hk], h _ _ he⟩
  intro ts e he
  cases he with
  | int hk => simp [hk]
  | real hk => simp [hk]
  | bool hk => simp [hk]
  | ident hk => simp [hk]
  | emptyList hl hr => simp [hl, hr]
  | list hl hfirst hrest hr =>
    simpa [hl, hr, or_imp, forall_and] using ⟨h _ _ hfirst, solid_many hfurther _ _ hrest⟩
  | parens hp => exact solid_parens h _ _ hp

theorem solid_unary (hE : Solid A E) (hO : Solid A O) : Solid A (Unary A E O) := by
  rintro _ _ (⟨hk, he⟩ | hp)
  · exact List.forall_mem_cons.2 ⟨by simp [hk], hO _ _ he⟩
  · exact solid_primary hE _ _ hp

theorem solid_comp (hE : Solid A E) (hO : Solid A O) : Solid A (Comp A E O) := by
  have hadd : Solid A (Add A E O) := solid_chain (solid_chain (solid_unary hE hO))
  rintro _ _ (he | ⟨hleft, hk, hright⟩)
  · exact hadd _ _ he
  · simpa [hk, or_imp, forall_and] using ⟨hadd _ _ hleft, hadd _ _ hright⟩

theorem solid_choice (hE : Solid A E) (hO : Solid A O) : Solid A (Choice A E O) := by
  have hlogic : Solid A (Logic A E O) := solid_chain (solid_comp hE hO)
  rintro _ _ (he | ⟨htest, hq, hthen, hk, helse⟩)
  · exact hlogic _ _ he
  · simpa [hq, hk, or_imp, forall_and] using
      ⟨hlogic _ _ htest, hE _ _ hthen, hE _ _ helse⟩

theorem solid_expr (levels : Nat) : Solid A (expr A levels) ∧ Solid A (operand A levels) := by
  induction levels with
  | zero =>
    rw [expr, operand]
    exact ⟨fun _ _ h => h.elim, fun _ _ h => h.elim⟩
  | succ levels ih =>
    rw [expr, operand]
    exact ⟨solid_choice ih.1 ih.2, solid_unary ih.1 ih.2⟩

theorem solid_statement (hB : Solid A B) (hE : Solid A E) : Solid A (Statement A B E) := by
  have hparens := solid_parens hE
  intro ts s hs
  cases hs with
  | declare htype hname hinit hsemi =>
    have htypeName : A.kind _ ≠ .eof := fun hk => nomatch hk ▸ htype
    simpa [htypeName, hname, hsemi, or_imp, forall_and] using
      solid_optional (by decide) hE _ _ hinit
  | assign hname heq he hsemi =>
    simpa [hname, heq, hsemi, or_imp, forall_and] using hE _ _ he
  | ifElse hword htest hthen helse =>
    simpa [hword, or_imp, forall_and] using
      ⟨hparens _ _ htest, hB _ _ hthen, solid_optional (by decide) hB _ _ helse⟩
  | whileDo hword htest hbody =>
    simpa [hword, or_imp, forall_and] using ⟨hparens _ _ htest, hB _ _ hbody⟩
  | doWhile hword hbody hwhile htest hsemi =>
    simpa [hword, hwhile, hsemi, or_imp, forall_and] using ⟨hB _ _ hbody, hparens _ _ htest⟩
  | block hbody => exact hB _ _ hbody
  | expr he hsemi => simpa [hsemi, or_imp, forall_and] using hE _ _ he

theorem solid_block (levels : Nat) : Solid A (block A levels) := by
  induction levels with
  | zero =>
    rw [block]
    exact fun _ _ h => h.elim
  | succ levels ih =>
    rw [block]
    rintro _ _ ⟨hl, hstmts, hr⟩
    simpa [hl, hr, or_imp, forall_and] using
      solid_many (solid_statement ih (solid_expr levels).1) _ _ hstmts

theorem solid_stmts (levels : Nat) : Solid A (Many (stmt A levels)) :=
  solid_many (solid_statement (solid_block levels) (solid_expr levels).1)

end Grammar

/-! ### Programs -/

/-- Kinds of tokens that derive a program, however deep it nests. -/
def Derivable (kinds : List TokenKind) : Prop :=
  ∃ levels p, Grammar.Program .kinds levels (kinds ++ [.eof]) p

/-- Kinds of tokens with which a program begins. -/
def Begins (kinds : List TokenKind) : Prop := ∃ rest, Derivable (kinds ++ rest)

theorem derivable_iff {kinds : List TokenKind} :
    Derivable kinds ↔ ∃ levels stmts, Many (Grammar.stmt .kinds levels) kinds stmts := by
  constructor
  · rintro ⟨levels, p, hp⟩
    generalize hks : kinds ++ [.eof] = ks at hp
    cases hp with
    | mk hs _ =>
      obtain ⟨rfl, -⟩ := List.append_inj' hks rfl
      exact ⟨levels, _, hs⟩
  · rintro ⟨levels, stmts, hs⟩
    exact ⟨levels, ⟨stmts, .point 0⟩, .mk hs rfl⟩

/-- Tokens whose kinds derive a program are read if there is room enough. -/
theorem Derivable.read {ts : List Token} (h : Derivable (ts.map Token.kind)) :
    ∃ levels, ∀ room, levels ≤ room → ∀ c d, c.Takes ts d → d.current.kind = .eof →
      ∃ stmts, Parser.statementsUntil (fun kind => kind = .eof) (Stmt.parser room) c =
        .ok stmts d := by
  obtain ⟨levels, stmts, hs⟩ := derivable_iff.1 h
  obtain ⟨stmts, hs, -⟩ := (carries_stmts levels ts stmts).1 hs
  refine ⟨levels, fun room hroom c d ht hend => ⟨stmts, ?_⟩⟩
  have hdone : ∀ kind : TokenKind, kind ≠ .eof → kind ≠ .punct .closeBrace →
      decide (kind = .eof) = false := fun kind h _ => decide_eq_false h
  have hmany := Symbols.handles_statementsUntil (Symbols.handles_stmt room)
    Symbols.tokens_stmt_uncons hdone
  exact hmany.complete ht (hs.imp (stmt_mono hroom)) (by simp [hend])

/-- Failures are looked at from more levels than the limit allows. -/
theorem prompt_program {room : Nat} (h : nestingLimit < room) : Parser.Prompt True Parser.Always
    (Parser.statementsUntil (fun kind => kind = .eof) (Stmt.parser nestingLimit))
    (Parser.statementsUntil (fun kind => kind = .eof) (Stmt.parser room))
    (Parser.Words (Many (Grammar.stmt .kinds room))) :=
  Parser.prompt_stmts (Nat.le_of_lt h) fun _ => h

/-- Where the statements of a text cannot be read, they cannot be read in any other text that is
the same up to the token at fault, whatever the room. -/
theorem not_read {c d : Cursor} {ts : List Token} {fault : Fault} {span : Span} {room : Nat}
    (hs : Parser.statementsUntil (fun kind => kind = .eof) (Stmt.parser nestingLimit) c =
      .error (.syntactic fault span) d)
    (hdeep : fault ≠ .tooDeep) (ht : c.Takes ts d) (hroom : nestingLimit < room) {c' d' : Cursor}
    (hc : c.Copies ts d c' d') (stmts : List Stmt) (e : Cursor) :
    Parser.statementsUntil (fun kind => kind = .eof) (Stmt.parser room) c' ≠ .ok stmts e := by
  obtain ⟨us, hu, -, -, hcopy⟩ := (prompt_program hroom).error trivial trivial hs hdeep
  obtain rfl := ht.unique hu
  exact hcopy c' d' hc stmts e

theorem program_error {c d : Cursor} {fault : Fault} {span : Span}
    (h : Program.parser c = .error (.syntactic fault span) d) :
    Parser.statementsUntil (fun kind => kind = .eof) (Stmt.parser nestingLimit) c =
      .error (.syntactic fault span) d := by
  unfold Program.parser Parser.program at h
  obtain h | ⟨_, _, ⟨rfl, rfl⟩, h⟩ := Parser.bind_eq_error_iff.1 h
  · cases h
  · obtain h | ⟨stmts, m, -, h⟩ := Parser.bind_eq_error_iff.1 h
    · exact h
    · obtain h | ⟨_, _, ⟨rfl, rfl⟩, h⟩ := Parser.bind_eq_error_iff.1 h <;> cases h

/-- What was taken before the token at fault, which no program has there. -/
theorem program_error_first {c d : Cursor} {fault : Fault} {span : Span}
    (h : Program.parser c = .error (.syntactic fault span) d) (hdeep : fault ≠ .tooDeep) :
    ∃ ts, c.Takes ts d ∧ span = d.current.span ∧ Begins (ts.map Token.kind) ∧
      (d.current.kind ≠ .eof → ¬ Begins ((ts ++ [d.current]).map Token.kind)) ∧
      (d.current.kind = .eof → ¬ Derivable (ts.map Token.kind)) := by
  have hs := program_error h
  obtain ⟨ts, ht, hspan, ⟨rest, -, stmts, hstmts⟩, -⟩ :=
    (prompt_program (Nat.lt_succ_self nestingLimit)).error trivial trivial hs hdeep
  refine ⟨ts, ht, hspan, ⟨rest, derivable_iff.2 ⟨_, stmts, hstmts⟩⟩, ?_, ?_⟩
  · rintro hk ⟨rest, hder⟩
    -- a program that goes on like this would be read with enough room
    let us : List Token := rest.map fun kind => ⟨kind, .point 0⟩
    have hkinds : (ts ++ [d.current]).map Token.kind ++ rest =
        (ts ++ d.current :: us).map Token.kind := by
      simp [us, Function.comp_def]
    rw [hkinds] at hder
    have hus : ∀ t ∈ d.current :: us, t.kind ≠ .eof := by
      intro t hm
      obtain ⟨levels, stmts, hstmts⟩ := derivable_iff.1 hder
      exact solid_stmts levels _ _ hstmts _ (List.mem_map_of_mem (List.mem_append_right ts hm))
    obtain ⟨c', d', e, hc, he, hend⟩ := ht.exists_copy hus
    obtain ⟨levels, hread⟩ := hder.read
    obtain ⟨stmts, hok⟩ := hread (levels + (nestingLimit + 1)) (by omega) c' e
      (hc.takes.append he) hend
    exact not_read hs hdeep ht (by omega) hc stmts e hok
  · intro hk hder
    obtain ⟨levels, hread⟩ := hder.read
    obtain ⟨stmts, hok⟩ := hread (levels + (nestingLimit + 1)) (by omega) c d ht hk
    exact not_read hs hdeep ht (by omega) ⟨⟨rfl, rfl⟩, ht, ⟨rfl, rfl⟩⟩ stmts d hok

/-- The tokens that were taken and the one that follows stand at the front of the text. -/
theorem Cursor.Takes.front {source : String} {c d : Cursor} {ts : List Token}
    (h : c.Takes ts d) (hc : ofSource source = .ok c) : (ts ++ [d.current]).map Except.ok <+:
      items source ++ [.ok (.atEnd (byteLength source.toList))] := by
  obtain ⟨hahead, hfinish⟩ := ahead_ofSource hc
  obtain ⟨rest, hitems, hd, hf⟩ := h.ahead hahead
  rw [hitems, List.map_append, List.append_assoc]
  apply (List.prefix_append_right_inj _).2
  obtain ⟨rfl, hend, -⟩ | rfl := hd
  · rw [hend, hf, hfinish]
    exact List.prefix_refl _
  · exact ⟨_, rfl⟩

/-- An error can be looked for without comparing programs. -/
theorem parse_eq_error {source : String} {e : ReadError}
    (h : (parse source).map (fun _ => ()) = .error e) : parse source = .error e := by
  cases hp : parse source with
  | ok p =>
    rw [hp] at h
    cases h
  | error f =>
    rw [hp] at h
    cases h
    rfl

/-- **Syntax errors are found at once.**  If a text is no program and the nesting limit is not the
reason, then the error stands at a token of the text, perhaps its end.  A program begins with the
tokens before it, but none begins with these tokens and the token itself; and if it is the end of
the text, then the tokens before it are no program.  Programs may nest to any depth here. -/
theorem parse_error_first (source : String) (fault : Fault) (span : Span)
    (h : parse source = .error (.syntactic fault span)) (hdeep : fault ≠ .tooDeep) :
    ∃ before t, (before ++ [t]).map Except.ok <+:
        items source ++ [.ok (.atEnd (byteLength source.toList))] ∧
      span = t.span ∧ Begins (before.map Token.kind) ∧
      (t.kind ≠ .eof → ¬ Begins ((before ++ [t]).map Token.kind)) ∧
      (t.kind = .eof → ¬ Derivable (before.map Token.kind)) := by
  unfold parse Cursor.parseProgram at h
  split at h
  · cases h
  · rename_i c hc
    cases hp : Program.parser c with
    | ok p d =>
      rw [hp] at h
      cases h
    | error e d =>
      rw [hp] at h
      cases h
      obtain ⟨ts, ht, hfirst⟩ := program_error_first hp hdeep
      exact ⟨ts, d.current, ht.front hc, hfirst⟩

theorem parse_error_first_chained :
    parse "a < b < c;" = .error (.syntactic (.chainedComparison (.punct .less)) ⟨6, 7⟩) ∧
      ∃ before t, (before ++ [t]).map Except.ok <+:
          items "a < b < c;" ++ [.ok (.atEnd (byteLength "a < b < c;".toList))] ∧
        ⟨6, 7⟩ = t.span ∧ Begins (before.map Token.kind) ∧
        (t.kind ≠ .eof → ¬ Begins ((before ++ [t]).map Token.kind)) ∧
        (t.kind = .eof → ¬ Derivable (before.map Token.kind)) := by
  have h : parse "a < b < c;" =
      .error (.syntactic (.chainedComparison (.punct .less)) ⟨6, 7⟩) := by
    apply parse_eq_error
    decide +kernel
  exact ⟨h, parse_error_first _ _ _ h nofun⟩

end StaticCheck
