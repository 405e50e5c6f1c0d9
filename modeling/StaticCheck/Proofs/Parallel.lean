import Mathlib.Data.List.Forall2
import StaticCheck.Proofs.Lockstep

/-! # Two readings side by side

Two texts with the same kinds of tokens are read in step: a parser that stands on corresponding
tokens of both takes the same decisions, and in the end it either succeeds on both or fails on both,
with the same fault and at corresponding tokens (`program_cases`).  No decision hangs on a place or
on a tree, so these are not compared. -/

namespace StaticCheck

/-- Tokens of one text that correspond to tokens of another one, and have the same kinds. -/
structure Pairing where
  Pairs : Token → Token → Prop
  kind {t u : Token} : Pairs t u → t.kind = u.kind

namespace Pairing

variable (P : Pairing)

/-- Items of two texts that are corresponding tokens. -/
inductive Items : Item → Item → Prop
  | ok {t u : Token} : P.Pairs t u → Items (.ok t) (.ok u)

/-- Cursors that have corresponding tokens before them. -/
structure Cursors (c d : Cursor) : Prop where
  current : P.Pairs c.current d.current
  upcoming : List.Forall₂ P.Items c.upcoming d.upcoming
  atEnd : P.Pairs (.atEnd c.finish) (.atEnd d.finish)

/-- The same fault at corresponding tokens. -/
inductive Errors : ReadError → ReadError → Prop
  | mk (fault : Fault) {t u : Token} : P.Pairs t u →
      Errors (.syntactic fault t.span) (.syntactic fault u.span)

/-- Readings that have corresponding tokens before them. -/
def coupling : Coupling ReadError Cursor where
  States := P.Cursors
  Errors e _ e' _ := P.Errors e e'

variable {P}

theorem Cursors.remaining {c d : Cursor} (h : P.Cursors c d) : c.remaining = d.remaining := by
  unfold Cursor.remaining
  rw [h.upcoming.length_eq, P.kind h.current]

theorem alike_advance :
    P.coupling.Alike (fun t u => False → t = u) Parser.advance Parser.advance := by
  intro c d hc
  have hup := hc.upcoming
  generalize hus : c.upcoming = us, hvs : d.upcoming = vs at hup
  cases hup with
  | nil =>
    rw [Parser.advance_nil hus, Parser.advance_nil hvs]
    exact .ok False.elim ⟨hc.atEnd, .nil, hc.atEnd⟩
  | cons hitem hrest =>
    cases hitem with
    | ok ht =>
      rw [Parser.advance_cons hus, Parser.advance_cons hvs]
      exact .ok False.elim ⟨ht, hrest, hc.atEnd⟩

theorem alike_peek : P.coupling.Alike (· = ·) Parser.peek Parser.peek := by
  intro c d hc
  have hup := hc.upcoming
  generalize hus : c.upcoming = us, hvs : d.upcoming = vs at hup
  cases hup with
  | nil =>
    rw [Parser.peek_nil hus, Parser.peek_nil hvs]
    exact .ok rfl hc
  | cons hitem hrest =>
    cases hitem with
    | ok ht =>
      rw [Parser.peek_cons hus, Parser.peek_cons hvs]
      exact .ok (P.kind ht) hc

variable (P)

/-- Every action passes from corresponding tokens to corresponding tokens. -/
def lockstep : Lockstep Parser where
  comparing := False
  Alike := P.coupling.Alike
  alike_pure := Coupling.alike_pure
  alike_bind := Coupling.alike_bind
  alike_current _ _ hc := .ok ⟨P.kind hc.current, False.elim⟩ hc
  alike_fail fault _ _ hc := .error (.mk fault hc.current)
  alike_advance := alike_advance
  alike_peek := alike_peek
  alike_spanFrom _ _ _ hc := .ok False.elim hc
  alike_collect hround := Coupling.alike_collect hround Cursors.remaining

variable {P}

/-- **Reading goes by kinds.**  From corresponding tokens a program is read alike: to the end in
both texts, or with the same fault at corresponding tokens. -/
theorem program_cases {c d : Cursor} (h : P.Cursors c d) :
    (∃ p q c' d', Program.parser c = .ok p c' ∧ Program.parser d = .ok q d') ∨
      ∃ fault t u c' d', P.Pairs t u ∧
        Program.parser c = .error (.syntactic fault t.span) c' ∧
        Program.parser d = .error (.syntactic fault u.span) d' := by
  have hresults := P.lockstep.alike_programParser c d h
  generalize Program.parser c = r, Program.parser d = r' at hresults
  cases hresults with
  | ok => exact .inl ⟨_, _, _, _, rfl, rfl⟩
  | error he =>
    cases he with
    | mk fault ht => exact .inr ⟨fault, _, _, _, _, ht, rfl, rfl⟩

end Pairing

end StaticCheck
