import StaticCheck.Proofs.Slices
import StaticCheck.Session

/-! # One text behind another

Two programs, one behind the other with a line end between them, are one program: its statements are
those of both, the second ones further to the right (`parse_newline`).  Its check goes through the
first program as before, and then through the second one from where the first one left off
(`check_newline`). -/

namespace StaticCheck

open Grammar

/-! ### Reading -/

/-- A line end divides a text: what stands in front of it is cut as it is cut alone. -/
theorem pieces_newline {a : List Char} (hproper : ∀ p ∈ pieces a, ∀ text, p ≠ .stray text)
    (b : List Char) : pieces (a ++ '\n' :: b) = pieces a ++ .trivia ['\n'] :: pieces b := by
  have hdivides : Divides ('\n' :: b) := by
    intro x hx
    cases hx
    decide
  have hline : ∀ text, (pieces a).getLast? = some (.trivia text) →
      ∀ x ∈ ('\n' :: b).head?, x = '\n' := by
    intro _ _ x hx
    cases hx
    rfl
  have halone : pieces ((pieces a).flatMap Piece.text ++ []) = pieces a ++ [] := by
    rw [flatMap_text_pieces, List.append_nil, List.append_nil]
  have hcut : cut '\n' b = (.trivia ['\n'], b) := rfl
  have hrecut := pieces_recut halone hproper hdivides hline
  rwa [flatMap_text_pieces, pieces, hcut] at hrecut

variable {s₁ s₂ : String}

theorem items_newline {us₁ us₂ : List Token} (h₁ : items s₁ = us₁.map .ok)
    (h₂ : items s₂ = us₂.map .ok) : items (s₁ ++ "\n" ++ s₂) =
      (us₁ ++ us₂.map (Token.shift (byteLength s₁.toList + 1))).map .ok := by
  have htext : (s₁ ++ "\n" ++ s₂).toList = s₁.toList ++ '\n' :: s₂.toList := by
    simp
  have hlength : byteLength (Piece.trivia ['\n']).text = 1 := rfl
  have hshifted := locate_shift h₂ (byteLength s₁.toList + 1)
  unfold items at h₁ ⊢
  rw [htext, pieces_newline (proper_of_locate h₁), locate_append, h₁, flatMap_text_pieces, locate,
    hlength, List.map_append, ← hshifted, Nat.add_assoc]
  rfl

theorem Grammar.Many.append {α τ : Type} {P : Phrase α τ} {ts us : List α} {as bs : List τ}
    (h₁ : Many P ts as) (h₂ : Many P us bs) : Many P (ts ++ us) (as ++ bs) := by
  induction h₁ with
  | nil => exact h₂
  | cons h _ ih =>
    rw [List.append_assoc, List.cons_append]
    exact .cons h ih

/-- The statements of a program that stands behind `n` bytes of text. -/
def Program.shifted (n : Nat) (p : Program) : List Stmt := p.stmts.map (Stmt.mapSpan (Span.shift n))

/-- Two programs, one behind the other, are one program. -/
theorem parse_newline {p₁ p₂ : Program} (h₁ : parse s₁ = .ok p₁) (h₂ : parse s₂ = .ok p₂) :
    ∃ p, parse (s₁ ++ "\n" ++ s₂) = .ok p ∧
      p.stmts = p₁.stmts ++ p₂.shifted (byteLength s₁.toList + 1) := by
  obtain ⟨ts₁, stop₁, htok₁, hmany₁, -⟩ := parse_eq_ok_iff.1 h₁
  obtain ⟨ts₂, stop₂, htok₂, hmany₂, -⟩ := parse_eq_ok_iff.1 h₂
  obtain ⟨us₁, hitems₁, hts₁⟩ := tokenize_eq_ok_iff.1 htok₁
  obtain ⟨us₂, hitems₂, hts₂⟩ := tokenize_eq_ok_iff.1 htok₂
  obtain ⟨rfl, -⟩ := List.append_inj' hts₁ rfl
  obtain ⟨rfl, -⟩ := List.append_inj' hts₂ rfl
  have hshifted := (carries_many (carries_stmt (translation_shift (byteLength s₁.toList + 1))
    nestingLimit) ts₂ _).2 ⟨p₂.stmts, hmany₂, rfl⟩
  have htok := tokenize_eq_ok_iff.2 ⟨_, items_newline hitems₁ hitems₂, rfl⟩
  exact ⟨⟨_, _⟩, parse_eq_ok_iff.2 ⟨_, _, htok, hmany₁.append hshifted, rfl⟩, rfl⟩

/-! ### Checking -/

namespace Stmt

variable {scope : Scope} {stmts more : List Stmt}

/-- Statements that fail keep those behind them from being checked. -/
theorem checkAll_append_of_error {e : SemanticError}
    (h : (checkAll scope stmts).1.outcome = .error e) :
    checkAll scope (stmts ++ more) = checkAll scope stmts := by
  induction stmts generalizing scope with
  | nil => cases h
  | cons s rest ih =>
    cases hs : (s.check scope).1.outcome with
    | error _ => rw [List.cons_append, checkAll_cons_of_error hs, checkAll_cons_of_error hs]
    | ok u =>
      rw [checkAll_cons_of_ok hs, Run.outcome_bind_of_ok hs] at h
      rw [List.cons_append, checkAll_cons_of_ok hs, checkAll_cons_of_ok hs, ih h]

/-- Statements behind others are checked from the scope that those leave. -/
theorem checkAll_append_of_ok (h : (checkAll scope stmts).1.outcome = .ok ()) :
    checkAll scope (stmts ++ more) =
      ((checkAll scope stmts).1 >>= fun _ => (checkAll (checkAll scope stmts).2 more).1,
        (checkAll (checkAll scope stmts).2 more).2) := by
  induction stmts generalizing scope with
  | nil =>
    change checkAll scope more = (Run.andThen (Run.succeed ()) _, _)
    rw [Run.andThen_succeed]
    rfl
  | cons s rest ih =>
    obtain ⟨hs, hrest⟩ := checkAll_cons_eq_ok_iff.1 h
    rw [List.cons_append, checkAll_cons_of_ok hs, checkAll_cons_of_ok hs, ih hrest, bind_assoc]

end Stmt

namespace Session

/-- The verdict on statements that a session checks: its counters behind them, or the failure. -/
def verdict (session : Session) (stmts : List Stmt) : Except Failure Metrics :=
  (session.checkStmts stmts).1.map fun _ => (session.checkStmts stmts).2.metrics

variable {session : Session} {stmts more : List Stmt}

theorem verdict_eq : session.verdict stmts =
    ((Stmt.checkAll session.scope stmts).1.outcome.map fun _ =>
      session.metrics + (Stmt.checkAll session.scope stmts).1.tally).mapError .semantic := by
  change (((Stmt.checkAll session.scope stmts).1.outcome.map fun _ => Reply.done).mapError
    Failure.semantic).map
      (fun _ => session.metrics + (Stmt.checkAll session.scope stmts).1.tally) = _
  cases (Stmt.checkAll session.scope stmts).1.outcome <;> rfl

/-- What fails in front fails with anything behind it. -/
theorem verdict_append_of_error {failure : Failure} (h : session.verdict stmts = .error failure) :
    session.verdict (stmts ++ more) = .error failure := by
  rw [← h, verdict_eq, verdict_eq]
  cases hrun : (Stmt.checkAll session.scope stmts).1.outcome with
  | error e => rw [Stmt.checkAll_append_of_error hrun, hrun]
  | ok u =>
    rw [verdict_eq, hrun] at h
    cases h

/-- Behind statements that check, the session goes on with what they leave. -/
theorem verdict_append_of_ok {m : Metrics} (h : session.verdict stmts = .ok m) :
    session.verdict (stmts ++ more) = (session.checkStmts stmts).2.verdict more := by
  cases hrun : (Stmt.checkAll session.scope stmts).1.outcome with
  | error e =>
    rw [verdict_eq, hrun] at h
    cases h
  | ok u =>
    have htally : ((Stmt.checkAll session.scope stmts).1 >>= fun _ =>
        (Stmt.checkAll (Stmt.checkAll session.scope stmts).2 more).1).tally =
          (Stmt.checkAll session.scope stmts).1.tally +
            (Stmt.checkAll (Stmt.checkAll session.scope stmts).2 more).1.tally :=
      congrArg Effects.tally (Run.effects_bind hrun)
    rw [verdict_eq, verdict_eq, Stmt.checkAll_append_of_ok hrun, Run.outcome_bind_of_ok hrun,
      htally, ← Metrics.add_assoc]
    rfl

end Session

/-- A text is checked like its statements in a fresh session. -/
theorem check_eq_verdict {source : String} {p : Program} (h : parse source = .ok p) :
    check source = Session.start.verdict p.stmts := by
  rw [check_of_parse_ok h, Program.analyze_eq, Session.verdict_eq]
  change _ = (Except.map (fun _ => 0 + _) _).mapError _
  rw [Metrics.zero_add]
  rfl

/-- **Checking goes on behind a line end.**  A program, a line end and another program are read as
one: the statements of the first and then those of the second, moved to the right.  If the first
program fails alone, the whole fails with the same failure.  Otherwise the outcome is that of the
second one, moved to the right, in the session that the first one leaves behind. -/
theorem check_newline (s₁ s₂ : String) (p₁ p₂ : Program) (h₁ : parse s₁ = .ok p₁)
    (h₂ : parse s₂ = .ok p₂) :
    (∃ p, parse (s₁ ++ "\n" ++ s₂) = .ok p ∧
      p.stmts = p₁.stmts ++ p₂.shifted (byteLength s₁.toList + 1)) ∧
    (∀ failure, check s₁ = .error failure → check (s₁ ++ "\n" ++ s₂) = .error failure) ∧
    ∀ m, check s₁ = .ok m → check (s₁ ++ "\n" ++ s₂) =
      (Session.start.checkStmts p₁.stmts).2.verdict (p₂.shifted (byteLength s₁.toList + 1)) := by
  obtain ⟨p, hp, hstmts⟩ := parse_newline h₁ h₂
  refine ⟨⟨p, hp, hstmts⟩, fun failure hfail => ?_, fun m hok => ?_⟩
  · rw [check_eq_verdict h₁] at hfail
    rw [check_eq_verdict hp, hstmts]
    exact Session.verdict_append_of_error hfail
  · rw [check_eq_verdict h₁] at hok
    rw [check_eq_verdict hp, hstmts]
    exact Session.verdict_append_of_ok hok

theorem exists_parse_of_isOk {source : String} (h : (parse source).isOk = true) :
    ∃ p, parse source = .ok p := by
  cases hp : parse source with
  | ok p => exact ⟨p, rfl⟩
  | error e =>
    rw [hp] at h
    cases h

/-- A comment that only the line end closes, and behind it a value that does not fit the type that
was declared in front of it. -/
theorem check_newline_comment :
    ∃ p₁ p₂, parse "int x = 1; // one" = .ok p₁ ∧ parse "x = true;" = .ok p₂ ∧
      check "int x = 1; // one" = .ok Metrics.declaration ∧
      check ("int x = 1; // one" ++ "\n" ++ "x = true;") =
        .error (.semantic (.assignment "x" ⟨18, 27⟩)) ∧
      check ("int x = 1; // one" ++ "\n" ++ "x = true;") =
        (Session.start.checkStmts p₁.stmts).2.verdict (p₂.shifted 18) := by
  have hcheck : check "int x = 1; // one" = .ok Metrics.declaration := by decide +kernel
  have hok₁ : (parse "int x = 1; // one").isOk = true := by decide +kernel
  have hok₂ : (parse "x = true;").isOk = true := by decide +kernel
  obtain ⟨p₁, h₁⟩ := exists_parse_of_isOk hok₁
  obtain ⟨p₂, h₂⟩ := exists_parse_of_isOk hok₂
  obtain ⟨-, -, hverdict⟩ := check_newline "int x = 1; // one" "x = true;" p₁ p₂ h₁ h₂
  exact ⟨p₁, p₂, h₁, h₂, hcheck, by decide +kernel, hverdict _ hcheck⟩

end StaticCheck
