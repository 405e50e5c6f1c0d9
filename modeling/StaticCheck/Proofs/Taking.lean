import StaticCheck.Cursor
import StaticCheck.Proofs.Grammar

/-! # Tokens taken from a cursor

`c.Takes ts d` says that the tokens `ts` can be taken one after the other from the cursor `c`, and
that the cursor is `d` afterwards.  Each primitive parser succeeds exactly if some tokens can be
taken (`expect_eq_ok_iff`, `accept_eq_true_iff`, `expectName_eq_ok_iff`), so that a sequence of
parsers takes the tokens of its parts in order. -/

namespace StaticCheck

namespace Cursor

/-- Taking the tokens `ts`, none of which is the end of the text, leads from `c` to `d`. -/
inductive Takes : Cursor → List Token → Cursor → Prop
  | nil (c : Cursor) : Takes c [] c
  | cons {c d e : Cursor} {t : Token} {ts : List Token} : t.kind ≠ .eof →
      (Parser.advance : Parser Token) c = .ok t d → Takes d ts e → Takes c (t :: ts) e

namespace Takes

theorem append {c d e : Cursor} {ts us : List Token} (h₁ : c.Takes ts d) (h₂ : d.Takes us e) :
    c.Takes (ts ++ us) e := by
  induction h₁ with
  | nil => exact h₂
  | cons ht ha _ ih => exact .cons ht ha (ih h₂)

theorem split {c e : Cursor} {ts us : List Token} (h : c.Takes (ts ++ us) e) :
    ∃ d, c.Takes ts d ∧ d.Takes us e := by
  induction ts generalizing c with
  | nil => exact ⟨c, .nil c, h⟩
  | cons t ts ih =>
    cases h with
    | cons ht ha h =>
      obtain ⟨d, h₁, h₂⟩ := ih h
      exact ⟨d, .cons ht ha h₁, h₂⟩

/-- The first token apart from the others. -/
theorem uncons {c e : Cursor} {t : Token} {ts : List Token} (h : c.Takes (t :: ts) e) :
    ∃ d, c.Takes [t] d ∧ d.Takes ts e := by
  rw [← List.singleton_append] at h
  exact h.split

end Takes

end Cursor

/-! ### One token -/

namespace Parser

open Cursor

variable {τ υ : Type}

theorem advance_nil {c : Cursor} (h : c.upcoming = []) : (advance : Parser Token) c =
    .ok c.current ⟨.atEnd c.finish, [], c.finish, c.current.span.stop⟩ := by
  simp only [advance, h]

theorem advance_cons {c : Cursor} {u : Token} {rest : List Item} (h : c.upcoming = .ok u :: rest) :
    (advance : Parser Token) c = .ok c.current ⟨u, rest, c.finish, c.current.span.stop⟩ := by
  simp only [advance, h]

theorem advance_error {c : Cursor} {e : LexicalError} {rest : List Item}
    (h : c.upcoming = .error e :: rest) :
    (advance : Parser Token) c = .error (.lexical e) { c with upcoming := rest } := by
  simp only [advance, h]

/-- Taking a token fails for a lexical error only. -/
theorem advance_ne_syntactic {c d : Cursor} {fault : Fault} {span : Span} :
    (advance : Parser Token) c ≠ .error (.syntactic fault span) d := by
  match hu : c.upcoming with
  | [] => simp [advance_nil hu]
  | .ok u :: rest => simp [advance_cons hu]
  | .error e :: rest => simp [advance_error hu]

/-- What a cursor is after its token was taken. -/
theorem advance_cases {c d : Cursor} {t : Token} (h : (advance : Parser Token) c = .ok t d) :
    c.current = t ∧ ((c.upcoming = [] ∧ d = ⟨.atEnd c.finish, [], c.finish, t.span.stop⟩) ∨
      ∃ u rest, c.upcoming = .ok u :: rest ∧ d = ⟨u, rest, c.finish, t.span.stop⟩) := by
  match hu : c.upcoming with
  | [] =>
    rw [advance_nil hu] at h
    cases h
    exact ⟨rfl, .inl ⟨rfl, rfl⟩⟩
  | .ok u :: rest =>
    rw [advance_cons hu] at h
    cases h
    exact ⟨rfl, .inr ⟨u, rest, rfl, rfl⟩⟩
  | .error e :: rest =>
    rw [advance_error hu] at h
    cases h

theorem advance_token {c d : Cursor} {t : Token} (h : (advance : Parser Token) c = .ok t d) :
    c.current = t := (advance_cases h).1

theorem advance_lastEnd {c d : Cursor} {t : Token} (h : (advance : Parser Token) c = .ok t d) :
    d.lastEnd = t.span.stop := by
  obtain ⟨-, ⟨-, rfl⟩ | ⟨u, rest, -, rfl⟩⟩ := advance_cases h <;> rfl

theorem advance_remaining {c d : Cursor} {t : Token} (h : (advance : Parser Token) c = .ok t d)
    (ht : t.kind ≠ .eof) : d.remaining < c.remaining := by
  obtain ⟨rfl, ⟨hu, rfl⟩ | ⟨u, rest, hu, rfl⟩⟩ := advance_cases h
  · simp [remaining, hu, ht, Token.atEnd]
  · simp only [remaining, hu, ht, List.length_cons, if_false]
    split <;> omega

theorem takes_singleton_iff {c d : Cursor} {t : Token} :
    c.Takes [t] d ↔ t.kind ≠ .eof ∧ (advance : Parser Token) c = .ok t d := by
  constructor
  · intro h
    cases h with
    | cons ht ha h =>
      cases h
      exact ⟨ht, ha⟩
  · rintro ⟨ht, ha⟩
    exact .cons ht ha (.nil d)

end Parser

namespace Cursor.Takes

variable {c d : Cursor} {t : Token} {ts : List Token}

theorem current (h : c.Takes (t :: ts) d) : c.current = t := by
  cases h with
  | cons _ ha _ => exact Parser.advance_token ha

theorem kind_ne_eof (h : c.Takes (t :: ts) d) : t.kind ≠ .eof := by
  cases h with
  | cons ht _ _ => exact ht

theorem remaining_le (h : c.Takes ts d) : d.remaining ≤ c.remaining := by
  induction h with
  | nil => exact Nat.le_refl _
  | cons ht ha _ ih => exact Nat.le_trans ih (Nat.le_of_lt (Parser.advance_remaining ha ht))

theorem remaining_lt (h : c.Takes ts d) (hne : ts ≠ []) : d.remaining < c.remaining := by
  cases h with
  | nil => exact absurd rfl hne
  | cons ht ha h => exact Nat.lt_of_le_of_lt h.remaining_le (Parser.advance_remaining ha ht)

theorem lastEnd (h : c.Takes ts d) (hne : ts ≠ []) : d.lastEnd = (ts.getLast hne).span.stop := by
  induction h with
  | nil => exact absurd rfl hne
  | @cons c d e t ts _ ha h ih =>
    cases ts with
    | nil =>
      cases h
      exact Parser.advance_lastEnd ha
    | cons u us =>
      rw [ih (List.cons_ne_nil u us), List.getLast_cons (List.cons_ne_nil u us)]

/-- The token behind the first one is known to a cursor that can take both. -/
theorem upcoming {u : Token} (h : c.Takes (t :: u :: ts) d) :
    ∃ rest, c.upcoming = .ok u :: rest := by
  obtain ⟨m, h₁, h₂⟩ := h.uncons
  have hu := h₂.current
  obtain ⟨-, ⟨-, rfl⟩ | ⟨v, rest, hv, rfl⟩⟩ :=
    Parser.advance_cases (Parser.takes_singleton_iff.1 h₁).2
  · exact absurd (congrArg Token.kind hu.symm) h₂.kind_ne_eof
  · exact ⟨rest, by rw [hv, ← hu]⟩

/-- Where a node that starts at `c` and ends before `d` stands. -/
theorem cover_eq (h : c.Takes ts d) (hne : ts ≠ []) :
    Alphabet.cover ts = ⟨c.current.span.start, max d.lastEnd c.current.span.stop⟩ := by
  cases ts with
  | nil => exact absurd rfl hne
  | cons t ts => rw [Alphabet.cover, h.current, h.lastEnd hne]

end Cursor.Takes

/-! ### Outcomes of parsers -/

namespace Parser

open Cursor

variable {τ υ : Type}

theorem bind_eq_ok_iff {p : Parser τ} {f : τ → Parser υ} {c e : Cursor} {b : υ} :
    (p >>= f) c = .ok b e ↔ ∃ a d, p c = .ok a d ∧ f a d = .ok b e := by
  change EStateM.bind p f c = _ ↔ _
  unfold EStateM.bind
  cases p c with
  | ok a d =>
    constructor
    · exact fun h => ⟨a, d, rfl, h⟩
    · rintro ⟨_, _, ⟨rfl, rfl⟩, h⟩
      exact h
  | error e d => simp

theorem bind_of_ok {p : Parser τ} {f : τ → Parser υ} {c d : Cursor} {a : τ} (h : p c = .ok a d) :
    (p >>= f) c = f a d := by
  change EStateM.bind p f c = f a d
  rw [EStateM.bind, h]

theorem bind_eq_error_iff {p : Parser τ} {f : τ → Parser υ} {c d : Cursor} {e : ReadError} :
    (p >>= f) c = .error e d ↔ p c = .error e d ∨ ∃ a m, p c = .ok a m ∧ f a m = .error e d := by
  change EStateM.bind p f c = _ ↔ _
  unfold EStateM.bind
  cases p c with
  | ok a m =>
    constructor
    · exact fun h => .inr ⟨a, m, rfl, h⟩
    · rintro (h | ⟨_, _, ⟨rfl, rfl⟩, h⟩)
      · cases h
      · exact h
  | error e' m => simp

theorem pure_eq_ok_iff {a b : τ} {c d : Cursor} :
    (pure a : Parser τ) c = .ok b d ↔ a = b ∧ c = d := by
  change EStateM.Result.ok a c = _ ↔ _
  simp

theorem fail_eq_error (fault : Fault) (c : Cursor) :
    (fail fault : Parser τ) c = .error (.syntactic fault c.current.span) c := rfl

theorem fail_eq_ok_iff {fault : Fault} {c d : Cursor} {a : τ} :
    (fail fault : Parser τ) c = .ok a d ↔ False := by
  simp [fail]

theorem current_eq_ok_iff {c d : Cursor} {t : Token} :
    (current : Parser Token) c = .ok t d ↔ c.current = t ∧ c = d := by
  simp [current]

theorem spanFrom_eq_ok_iff {c d : Cursor} {first span : Span} :
    (spanFrom first : Parser Span) c = .ok span d ↔
      ⟨first.start, max c.lastEnd first.stop⟩ = span ∧ c = d := by
  simp [spanFrom]

theorem expect_eq_ok_iff {wanted : TokenKind} (hw : wanted ≠ .eof) {c d : Cursor} {t : Token} :
    (expect wanted : Parser Token) c = .ok t d ↔ t.kind = wanted ∧ c.Takes [t] d := by
  simp only [expect, bind_eq_ok_iff, current_eq_ok_iff]
  constructor
  · rintro ⟨_, _, ⟨rfl, rfl⟩, h⟩
    split at h
    · rename_i hk
      have ht := advance_token h
      subst ht
      exact ⟨hk, takes_singleton_iff.2 ⟨hk ▸ hw, h⟩⟩
    · exact (fail_eq_ok_iff.1 h).elim
  · rintro ⟨hk, h⟩
    refine ⟨_, _, ⟨rfl, rfl⟩, ?_⟩
    rw [h.current, if_pos hk]
    exact (takes_singleton_iff.1 h).2

theorem accept_eq_true_iff {wanted : TokenKind} (hw : wanted ≠ .eof) {c d : Cursor} :
    (accept wanted : Parser Bool) c = .ok true d ↔ ∃ t, t.kind = wanted ∧ c.Takes [t] d := by
  simp only [accept, bind_eq_ok_iff, current_eq_ok_iff]
  constructor
  · rintro ⟨_, _, ⟨rfl, rfl⟩, h⟩
    split at h
    · rename_i hk
      simp only [bind_eq_ok_iff, pure_eq_ok_iff] at h
      obtain ⟨t, _, ha, -, rfl⟩ := h
      have ht := advance_token ha
      subst ht
      exact ⟨_, hk, takes_singleton_iff.2 ⟨hk ▸ hw, ha⟩⟩
    · simp [pure_eq_ok_iff] at h
  · rintro ⟨t, hk, h⟩
    refine ⟨_, _, ⟨rfl, rfl⟩, ?_⟩
    rw [h.current, if_pos hk]
    simp only [bind_eq_ok_iff, pure_eq_ok_iff]
    exact ⟨t, d, (takes_singleton_iff.1 h).2, trivial, rfl⟩

theorem accept_eq_false_iff {wanted : TokenKind} {c d : Cursor} :
    (accept wanted : Parser Bool) c = .ok false d ↔ c.current.kind ≠ wanted ∧ c = d := by
  simp only [accept, bind_eq_ok_iff, current_eq_ok_iff]
  constructor
  · rintro ⟨_, _, ⟨rfl, rfl⟩, h⟩
    split at h
    · simp only [bind_eq_ok_iff, pure_eq_ok_iff, Bool.true_eq_false, false_and, and_false,
        exists_false] at h
    · rename_i hk
      exact ⟨hk, (pure_eq_ok_iff.1 h).2⟩
  · rintro ⟨hk, rfl⟩
    refine ⟨_, _, ⟨rfl, rfl⟩, ?_⟩
    rw [if_neg hk, pure_eq_ok_iff]
    exact ⟨rfl, rfl⟩

theorem expectName_eq_ok_iff {c d : Cursor} {name : String} {span : Span} :
    (expectName : Parser (String × Span)) c = .ok (name, span) d ↔
      ∃ t, t.kind = .ident name ∧ t.span = span ∧ c.Takes [t] d := by
  simp only [expectName, bind_eq_ok_iff, current_eq_ok_iff]
  constructor
  · rintro ⟨_, _, ⟨rfl, rfl⟩, h⟩
    cases hk : c.current.kind with
    | ident x =>
      simp only [hk, bind_eq_ok_iff, pure_eq_ok_iff, Prod.mk.injEq] at h
      obtain ⟨t, _, ha, ⟨rfl, rfl⟩, rfl⟩ := h
      have ht := advance_token ha
      subst ht
      exact ⟨_, hk, rfl, takes_singleton_iff.2 ⟨by simp [hk], ha⟩⟩
    | _ => simp only [hk, fail_eq_ok_iff] at h
  · rintro ⟨t, hk, rfl, h⟩
    refine ⟨t, c, ⟨h.current, rfl⟩, ?_⟩
    simp only [hk, bind_eq_ok_iff, pure_eq_ok_iff]
    exact ⟨t, d, (takes_singleton_iff.1 h).2, trivial, rfl⟩

theorem peek_nil {c : Cursor} (h : c.upcoming = []) : (peek : Parser TokenKind) c = .ok .eof c := by
  simp only [peek, h]

theorem peek_cons {c : Cursor} {u : Token} {rest : List Item} (h : c.upcoming = .ok u :: rest) :
    (peek : Parser TokenKind) c = .ok u.kind c := by
  simp only [peek, h]

theorem peek_error {c : Cursor} {e : LexicalError} {rest : List Item}
    (h : c.upcoming = .error e :: rest) :
    (peek : Parser TokenKind) c = .error (.lexical e) { c with upcoming := rest } := by
  simp only [peek, h]

/-- Looking ahead fails for a lexical error only. -/
theorem peek_ne_syntactic {c d : Cursor} {fault : Fault} {span : Span} :
    (peek : Parser TokenKind) c ≠ .error (.syntactic fault span) d := by
  match hu : c.upcoming with
  | [] => simp [peek_nil hu]
  | .ok u :: rest => simp [peek_cons hu]
  | .error e :: rest => simp [peek_error hu]

theorem peek_cursor {c d : Cursor} {kind : TokenKind}
    (h : (peek : Parser TokenKind) c = .ok kind d) : c = d := by
  match hu : c.upcoming with
  | [] =>
    rw [peek_nil hu] at h
    cases h
    rfl
  | .ok u :: rest =>
    rw [peek_cons hu] at h
    cases h
    rfl
  | .error e :: rest =>
    rw [peek_error hu] at h
    cases h

theorem peek_of_takes {c d : Cursor} {t u : Token} {ts : List Token}
    (h : c.Takes (t :: u :: ts) d) : (peek : Parser TokenKind) c = .ok u.kind c := by
  obtain ⟨rest, hu⟩ := h.upcoming
  exact peek_cons hu

/-! ### Repetitions -/

section collecting

variable {step : Parser (Option τ)} {c d : Cursor}

theorem collect_of_error {e : ReadError} (h : step c = .error e d) :
    collect step c = .error e d := by
  change Cursor.collect step c = _
  rw [Cursor.collect, h]

theorem collect_of_none (h : step c = .ok none d) : collect step c = .ok [] d := by
  change Cursor.collect step c = _
  rw [Cursor.collect, h]

/-- A round that took a token is followed by the rest of the repetition. -/
theorem collect_of_some {a : τ} (h : step c = .ok (some a) d) (hlt : d.remaining < c.remaining) :
    collect step c = (do return a :: (← collect step) : Parser (List τ)) d := by
  change Cursor.collect step c = EStateM.bind (Cursor.collect step) _ d
  rw [Cursor.collect, h]
  unfold EStateM.bind
  simp only [hlt, if_true]
  cases Cursor.collect step d <;> rfl

/-- A repetition that succeeds has a first round that does. -/
theorem step_of_collect {as : List τ} (h : collect step c = .ok as d) :
    ∃ o m, step c = .ok o m := by
  cases hs : step c with
  | ok o m => exact ⟨o, m, rfl⟩
  | error e m =>
    rw [collect_of_error hs] at h
    cases h

/-- Every round that goes on takes a token. -/
def Progresses (step : Parser (Option τ)) : Prop :=
  ∀ c d a, step c = .ok (some a) d → d.remaining < c.remaining

/-- A repetition ends with a round that gives nothing. -/
theorem last_of_collect (hstep : Progresses step) {as : List τ} (h : collect step c = .ok as d) :
    ∃ m, step m = .ok none d := by
  change Cursor.collect step c = _ at h
  fun_induction Cursor.collect step c generalizing as d with
  | case1 c e after hs => cases h
  | case2 c after hs =>
    cases h
    exact ⟨c, hs⟩
  | case3 c a after hs hlt e last hmore ih => cases h
  | case4 c a after hs hlt more last hmore ih =>
    cases h
    exact ih hmore
  | case5 c a after hs hlt => exact absurd (hstep _ _ _ hs) hlt

end collecting

end Parser

end StaticCheck
