import StaticCheck.Proofs.Lockstep

/-! # What every reading keeps

A parser looks at a cursor only through its tokens.  So a property of cursors that taking one token
keeps is kept by every parser, and a reading that fails stops at a cursor with that property: at its
token, or at the lexical error behind its token (`program_cases`).

Used for the property that the cursor stands in a given text, this says where a text that is no
program stops being read: at one of its tokens, at its end, or at its first lexical error
(`parse_error_cases`). -/

namespace StaticCheck

/-- A property of cursors that taking a token keeps, and what is known of the errors that are raised
at such cursors. -/
structure Invariant where
  Holds : Cursor → Prop
  Raised : ReadError → Prop
  taking {c d : Cursor} {t : Token} : Holds c → (Parser.advance : Parser Token) c = .ok t d →
    Holds d
  lexical {c : Cursor} {e : LexicalError} {rest : List Item} : Holds c →
    c.upcoming = .error e :: rest → Raised (.lexical e)
  fault {c : Cursor} (f : Fault) : Holds c → Raised (.syntactic f c.current.span)

namespace Invariant

variable (I : Invariant)

/-- One reading from cursors with the property, taken as two readings side by side. -/
def coupling : Coupling ReadError Cursor where
  States c d := c = d ∧ I.Holds d
  Errors _ _ e _ := I.Raised e

theorem alike_advance :
    I.coupling.Alike (fun t u => True → t = u) Parser.advance Parser.advance := by
  rintro c _ ⟨rfl, hc⟩
  match hu : c.upcoming with
  | [] =>
    have ha := Parser.advance_nil hu
    rw [ha]
    exact .ok (fun _ => rfl) ⟨rfl, I.taking hc ha⟩
  | .ok u :: rest =>
    have ha := Parser.advance_cons hu
    rw [ha]
    exact .ok (fun _ => rfl) ⟨rfl, I.taking hc ha⟩
  | .error e :: rest =>
    rw [Parser.advance_error hu]
    exact .error (I.lexical hc hu)

theorem alike_peek : I.coupling.Alike (· = ·) Parser.peek Parser.peek := by
  rintro c _ ⟨rfl, hc⟩
  match hu : c.upcoming with
  | [] =>
    rw [Parser.peek_nil hu]
    exact .ok rfl ⟨rfl, hc⟩
  | .ok u :: rest =>
    rw [Parser.peek_cons hu]
    exact .ok rfl ⟨rfl, hc⟩
  | .error e :: rest =>
    rw [Parser.peek_error hu]
    exact .error (I.lexical hc hu)

/-- Every action keeps the property. -/
def lockstep : Lockstep Parser where
  comparing := True
  Alike := I.coupling.Alike
  alike_pure := Coupling.alike_pure
  alike_bind := Coupling.alike_bind
  alike_current := by
    rintro c _ ⟨rfl, hc⟩
    exact .ok ⟨rfl, fun _ => rfl⟩ ⟨rfl, hc⟩
  alike_fail fault := by
    rintro c _ ⟨rfl, hc⟩
    exact .error (I.fault fault hc)
  alike_advance := I.alike_advance
  alike_peek := I.alike_peek
  alike_spanFrom hfirst := by
    rintro c _ ⟨rfl, hc⟩
    obtain rfl := hfirst trivial
    exact .ok (fun _ => rfl) ⟨rfl, hc⟩
  alike_collect hround :=
    Coupling.alike_collect hround fun hstates => congrArg Cursor.remaining hstates.1

/-- **Reading keeps every invariant** of cursors, and stops at a cursor that has it. -/
theorem program_cases {c : Cursor} (hc : I.Holds c) :
    (∃ p d, Program.parser c = .ok p d ∧ I.Holds d) ∨
      ∃ e d, Program.parser c = .error e d ∧ I.Raised e := by
  have hresults := I.lockstep.alike_programParser c c ⟨rfl, hc⟩
  generalize Program.parser c = r at hresults
  cases hresults with
  | ok _ hd => exact .inl ⟨_, _, rfl, hd.2⟩
  | error he => exact .inr ⟨_, _, rfl, he⟩

end Invariant

/-! ### Where reading stops -/

/-- A token that a reading of the items can stand on: one of them with no error in front of it, or
the end of the text if there is no error at all. -/
inductive Reachable (finish : Nat) : List Item → Token → Prop
  | token (taken : List Token) (t : Token) (rest : List Item) :
      Reachable finish (taken.map .ok ++ .ok t :: rest) t
  | atEnd (taken : List Token) : Reachable finish (taken.map .ok) (.atEnd finish)

namespace Cursor.Ahead

variable {c d : Cursor} {its : List Item}

/-- Taking a token passes one item, and none at the end of the text. -/
theorem tail {t : Token} (h : c.Ahead its) (ha : (Parser.advance : Parser Token) c = .ok t d) :
    d.Ahead its.tail ∧ d.finish = c.finish := by
  obtain ⟨rfl, hcase⟩ := Parser.advance_cases ha
  obtain ⟨rfl, -, hend⟩ | rfl := h
  · obtain ⟨-, rfl⟩ | ⟨u, rest, hu, -⟩ := hcase
    · exact ⟨.inl ⟨rfl, rfl, rfl⟩, rfl⟩
    · rw [hend] at hu
      cases hu
  · obtain ⟨hu, rfl⟩ | ⟨u, rest, hu, rfl⟩ := hcase
    · exact ⟨.inl ⟨hu, rfl, rfl⟩, rfl⟩
    · exact ⟨.inr hu, rfl⟩

theorem reachable {taken : List Token} {rest : List Item} (h : c.Ahead rest) :
    Reachable c.finish (taken.map .ok ++ rest) c.current := by
  obtain ⟨rfl, hend, -⟩ | rfl := h
  · rw [List.append_nil, hend]
    exact .atEnd taken
  · exact .token taken c.current c.upcoming

end Cursor.Ahead

/-- The cursor stands in the text with the given items.  An error is a fault at a token of the text,
or the first lexical error of the text. -/
def Invariant.within (its : List Item) (finish : Nat) : Invariant where
  Holds c := ∃ (taken : List Token) (rest : List Item),
    its = taken.map .ok ++ rest ∧ c.Ahead rest ∧ c.finish = finish
  Raised
    | .lexical e => ∃ (taken : List Token) (rest : List Item),
        its = taken.map .ok ++ .error e :: rest
    | .syntactic _ span => ∃ t, Reachable finish its t ∧ span = t.span
  taking := by
    rintro c d t ⟨taken, rest, rfl, hc, rfl⟩ ha
    obtain ⟨hd, hf⟩ := hc.tail ha
    obtain ⟨rfl, -⟩ | rfl := hc
    · exact ⟨taken, [], rfl, hd, hf⟩
    · exact ⟨taken ++ [c.current], c.upcoming, by simp, hd, hf⟩
  lexical := by
    rintro c e later ⟨taken, rest, rfl, ⟨-, -, hu⟩ | rfl, -⟩ hup
    · rw [hu] at hup
      cases hup
    · exact ⟨taken ++ [c.current], later, by simp [hup]⟩
  fault := by
    rintro c f ⟨taken, rest, rfl, hc, rfl⟩
    exact ⟨c.current, hc.reachable, rfl⟩

/-- **Where reading stops.**  The error of a text that is no program is a fault at one of the tokens
in front of its first lexical error, or that lexical error itself. -/
theorem parse_error_cases {source : String} {e : ReadError} (h : parse source = .error e) :
    (∃ (lexical : LexicalError) (us : List Token) (rest : List Item), e = .lexical lexical ∧
      items source = us.map .ok ++ .error lexical :: rest) ∨
    ∃ fault t, e = .syntactic fault t.span ∧
      Reachable (byteLength source.toList) (items source) t := by
  unfold parse at h
  cases hc : Cursor.ofSource source with
  | error lexical =>
    simp only [hc] at h
    cases h
    unfold Cursor.ofSource at hc
    split at hc
    · cases hc
    · cases hc
    · rename_i hitems
      cases hc
      exact .inl ⟨_, [], _, rfl, hitems⟩
  | ok c =>
    simp only [hc] at h
    obtain ⟨hahead, hfinish⟩ := Cursor.ahead_ofSource hc
    have hholds : (Invariant.within (items source) _).Holds c :=
      ⟨[], items source, rfl, hahead, hfinish⟩
    unfold Cursor.parseProgram at h
    obtain ⟨p, after, hr, -⟩ | ⟨raised, after, hr, hraised⟩ := Invariant.program_cases _ hholds
    · simp only [hr] at h
      cases h
    · simp only [hr] at h
      cases h
      cases e with
      | lexical lexical =>
        obtain ⟨us, rest, hitems⟩ := hraised
        exact .inl ⟨lexical, us, rest, rfl, hitems⟩
      | syntactic fault span =>
        obtain ⟨t, ht, rfl⟩ := hraised
        exact .inr ⟨fault, t, rfl, ht⟩

end StaticCheck
