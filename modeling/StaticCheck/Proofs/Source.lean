import StaticCheck.Proofs.Taking

/-! # The tokens of a source text

No piece of a text is the end of the text, so the end token stands behind the last token and nowhere
else.  A cursor that starts on a text without lexical errors takes exactly the tokens that
`tokenize` lists, and a cursor that reaches the end has taken them all (`exists_takes_iff`). -/

namespace StaticCheck

/-! ### No piece is the end -/

/-- A piece is not the end of the text. -/
def Piece.Solid : Piece → Prop
  | .token kind _ => kind ≠ .eof
  | _ => True

theorem solid_cutSingle (c : Char) (cs : List Char) : (cutSingle c cs).1.Solid := by
  unfold cutSingle
  split
  · exact TokenKind.noConfusion
  · exact trivial

theorem solid_cutPunct (c : Char) (cs : List Char) : (cutPunct c cs).1.Solid := by
  fun_cases cutPunct c cs with
  | case1 => exact solid_cutSingle c []
  | case2 => exact TokenKind.noConfusion
  | case3 d cs => exact solid_cutSingle c (d :: cs)

theorem solid_cutWord (c : Char) (cs : List Char) : (cutWord c cs).1.Solid := by
  change wordKind _ ≠ .eof
  unfold wordKind
  split
  · exact TokenKind.noConfusion
  · exact TokenKind.noConfusion

theorem solid_cutNumber (c : Char) (cs : List Char) : (cutNumber c cs).1.Solid := by
  unfold cutNumber
  split
  · exact TokenKind.noConfusion
  · exact TokenKind.noConfusion

theorem solid_cut (c : Char) (cs : List Char) : (cut c cs).1.Solid := by
  fun_cases cut c cs with
  | case1 => exact trivial
  | case2 =>
    fun_cases cutSlash cs with
    | case1 => exact trivial
    | case2 => exact trivial
    | case3 => exact trivial
    | case4 cs => exact solid_cutPunct '/' cs
  | case3 => exact solid_cutNumber c cs
  | case4 => exact solid_cutWord c cs
  | case5 => exact solid_cutPunct c cs

/-- What holds of every piece that is cut off holds of all pieces of a text. -/
theorem forall_mem_pieces {motive : Piece → Prop} (h : ∀ c cs, motive (cut c cs).1)
    (text : List Char) : ∀ piece ∈ pieces text, motive piece := by
  fun_induction pieces text with
  | case1 => simp
  | case2 c cs ih => exact List.forall_mem_cons.2 ⟨h c cs, ih⟩

theorem mem_of_mem_locate {offset : Nat} {ps : List Piece} {t : Token}
    (h : .ok t ∈ locate offset ps) : ∃ text, .token t.kind text ∈ ps := by
  fun_induction locate offset ps with
  | case1 => simp at h
  | case2 offset piece rest later hitem ih =>
    obtain ⟨text, htext⟩ := ih h
    exact ⟨text, List.mem_cons_of_mem piece htext⟩
  | case3 offset piece rest later item hitem ih =>
    rcases List.mem_cons.1 h with rfl | h
    · cases piece with
      | token kind text =>
        cases hitem
        exact ⟨text, List.mem_cons_self⟩
      | trivia text => cases hitem
      | stray text => cases hitem
    · obtain ⟨text, htext⟩ := ih h
      exact ⟨text, List.mem_cons_of_mem piece htext⟩

/-- A token of a text is one of its pieces. -/
theorem mem_pieces_of_mem_items {source : String} {t : Token} (h : .ok t ∈ items source) :
    ∃ text, .token t.kind text ∈ pieces source.toList :=
  mem_of_mem_locate h

theorem kind_ne_eof_of_mem_items {source : String} {t : Token} (h : .ok t ∈ items source) :
    t.kind ≠ .eof := by
  obtain ⟨text, htext⟩ := mem_pieces_of_mem_items h
  exact forall_mem_pieces solid_cut _ _ htext

/-! ### The listing of tokens -/

theorem mapM_id_eq_ok_iff {its : List Item} {ts : List Token} :
    its.mapM id = .ok ts ↔ its = ts.map .ok := by
  induction its generalizing ts with
  | nil => cases ts <;> simp [pure, Except.pure]
  | cons item its ih =>
    rw [List.mapM_cons]
    cases item with
    | error e => cases ts <;> simp [bind, Except.bind]
    | ok t =>
      cases hm : its.mapM id with
      | error e =>
        have hne : ∀ us : List Token, its ≠ us.map .ok := by
          intro us hus
          rw [ih.2 hus] at hm
          cases hm
        cases ts <;> simp [bind, Except.bind, hne]
      | ok us =>
        obtain rfl := ih.1 hm
        have hinj : ∀ vs : List Token, us.map (Except.ok (ε := LexicalError)) = vs.map .ok ↔
            us = vs := fun vs => List.map_inj_right fun _ _ h => Except.ok.inj h
        cases ts <;> simp [bind, Except.bind, pure, Except.pure, hinj]

theorem tokenize_eq_ok_iff {source : String} {ts : List Token} :
    tokenize source = .ok ts ↔ ∃ us, items source = us.map .ok ∧
      ts = us ++ [.atEnd (byteLength source.toList)] := by
  unfold tokenize
  cases hm : (items source).mapM id with
  | error e =>
    have hne : ∀ us : List Token, items source ≠ us.map .ok := by
      intro us hus
      rw [mapM_id_eq_ok_iff.2 hus] at hm
      cases hm
    simp [bind, Except.bind, hne]
  | ok us =>
    have hitems := mapM_id_eq_ok_iff.1 hm
    constructor
    · intro h
      cases h
      exact ⟨us, hitems, rfl⟩
    · rintro ⟨vs, hvs, rfl⟩
      rw [mapM_id_eq_ok_iff.2 hvs] at hm
      cases hm
      rfl

/-! ### Cursors on a text -/

namespace Cursor

/-- The items that the cursor has before it. -/
def Ahead (c : Cursor) (its : List Item) : Prop :=
  (its = [] ∧ c.current = .atEnd c.finish ∧ c.upcoming = []) ∨ its = .ok c.current :: c.upcoming

theorem ahead_ofSource {source : String} {c : Cursor} (h : ofSource source = .ok c) :
    c.Ahead (items source) ∧ c.finish = byteLength source.toList := by
  unfold ofSource at h
  split at h
  · rename_i hi
    cases h
    exact ⟨.inl ⟨hi, rfl, rfl⟩, rfl⟩
  · rename_i hi
    cases h
    exact ⟨.inr hi, rfl⟩
  · cases h

theorem Ahead.advance {c d : Cursor} {t : Token} {its : List Item} (h : c.Ahead its)
    (ht : t.kind ≠ .eof) (ha : (Parser.advance : Parser Token) c = .ok t d) :
    ∃ rest, its = .ok t :: rest ∧ d.Ahead rest ∧ d.finish = c.finish := by
  obtain ⟨rfl, hcase⟩ := Parser.advance_cases ha
  obtain ⟨-, hend, -⟩ | rfl := h
  · rw [hend] at ht
    exact absurd rfl ht
  · refine ⟨c.upcoming, rfl, ?_⟩
    obtain ⟨hu, rfl⟩ | ⟨u, rest, hu, rfl⟩ := hcase
    · exact ⟨.inl ⟨hu, rfl, rfl⟩, rfl⟩
    · exact ⟨.inr hu, rfl⟩

theorem Takes.ahead {c d : Cursor} {ts : List Token} {its : List Item} (h : c.Takes ts d)
    (hc : c.Ahead its) : ∃ rest, its = ts.map .ok ++ rest ∧ d.Ahead rest ∧ d.finish = c.finish := by
  induction h generalizing its with
  | nil c => exact ⟨its, rfl, hc, rfl⟩
  | cons ht ha _ ih =>
    obtain ⟨rest, rfl, hd, hf⟩ := hc.advance ht ha
    obtain ⟨last, rfl, he, hf'⟩ := ih hd
    exact ⟨last, rfl, he, hf'.trans hf⟩

theorem Ahead.takes {c : Cursor} {ts : List Token} (h : c.Ahead (ts.map .ok))
    (hts : ∀ t ∈ ts, t.kind ≠ .eof) : ∃ d, c.Takes ts d ∧ d.current = .atEnd c.finish := by
  induction ts generalizing c with
  | nil =>
    obtain ⟨-, hend, -⟩ | h := h
    · exact ⟨c, .nil c, hend⟩
    · cases h
  | cons t ts ih =>
    obtain ⟨h, -⟩ | h := h
    · cases h
    · rw [List.map_cons, List.cons.injEq, Except.ok.injEq] at h
      obtain ⟨rfl, hu⟩ := h
      obtain ⟨d, ha, hd, hf⟩ : ∃ d, (Parser.advance : Parser Token) c = .ok c.current d ∧
          d.Ahead (ts.map .ok) ∧ d.finish = c.finish := by
        cases ts with
        | nil => exact ⟨_, Parser.advance_nil hu.symm, .inl ⟨rfl, rfl, rfl⟩, rfl⟩
        | cons u us => exact ⟨_, Parser.advance_cons hu.symm, .inr rfl, rfl⟩
      obtain ⟨e, he, hend⟩ := ih hd fun t ht => hts t (List.mem_cons_of_mem _ ht)
      exact ⟨e, .cons (hts _ List.mem_cons_self) ha he, hf ▸ hend⟩

/-- A cursor at the end of the text has no items before it. -/
theorem Ahead.eq_nil {c : Cursor} {its : List Item} (h : c.Ahead its)
    (hits : ∀ t, .ok t ∈ its → t.kind ≠ .eof) (hend : c.current.kind = .eof) :
    its = [] ∧ c.current = .atEnd c.finish := by
  obtain ⟨h, hc, -⟩ | rfl := h
  · exact ⟨h, hc⟩
  · exact absurd hend (hits _ List.mem_cons_self)

end Cursor

/-- A cursor on a text takes tokens up to the end exactly if they are all the tokens of the text. -/
theorem exists_takes_iff {source : String} {ts : List Token} {stop : Token} :
    (∃ c d, Cursor.ofSource source = .ok c ∧ c.Takes ts d ∧ d.current = stop ∧ stop.kind = .eof) ↔
      tokenize source = .ok (ts ++ [stop]) := by
  rw [tokenize_eq_ok_iff]
  constructor
  · rintro ⟨c, d, hc, ht, rfl, hend⟩
    obtain ⟨hahead, hfinish⟩ := Cursor.ahead_ofSource hc
    obtain ⟨rest, hitems, hd, hf⟩ := ht.ahead hahead
    have hsolid : ∀ t, .ok t ∈ rest → t.kind ≠ .eof := by
      intro t hm
      apply kind_ne_eof_of_mem_items
      rw [hitems]
      exact List.mem_append_right _ hm
    obtain ⟨rfl, hcur⟩ := hd.eq_nil hsolid hend
    exact ⟨ts, by rw [hitems, List.append_nil], by rw [hcur, hf, hfinish]⟩
  · rintro ⟨us, hitems, hts⟩
    obtain ⟨rfl, hstop⟩ := List.append_inj' hts rfl
    cases hstop
    have hsolid : ∀ t ∈ ts, t.kind ≠ .eof := fun t ht =>
      kind_ne_eof_of_mem_items (hitems ▸ List.mem_map_of_mem ht)
    obtain ⟨c, hc⟩ : ∃ c, Cursor.ofSource source = .ok c := by
      cases ts with
      | nil => exact ⟨_, by simp [Cursor.ofSource, hitems]; rfl⟩
      | cons t ts => exact ⟨_, by simp [Cursor.ofSource, hitems]; rfl⟩
    obtain ⟨hahead, hfinish⟩ := Cursor.ahead_ofSource hc
    rw [hitems] at hahead
    obtain ⟨d, hd, hend⟩ := hahead.takes hsolid
    exact ⟨c, d, hc, hd, by rw [hend, hfinish], rfl⟩

end StaticCheck
