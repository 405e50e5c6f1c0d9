import StaticCheck.Proofs.Locations

/-! # The text of a node

The span of a node marks exactly its own text.  The text under a statement is read as that
statement, and the text under an expression, with a semicolon behind it, as a statement that is that
expression (`parse_extract`).  This is so at any depth: a part was read with the levels of nesting
that were left for it, and a whole text has no fewer. -/

namespace StaticCheck

open Grammar

theorem divides_semicolon : Divides ";".toList := by
  intro x hx
  cases hx
  decide

def semicolonAt (offset : Nat) : Token := ⟨.punct .semicolon, ⟨offset, offset + 1⟩⟩

theorem locate_semicolon (offset : Nat) :
    locate offset (pieces ";".toList) = [.ok (semicolonAt offset)] := by
  have hcut : cut ';' [] = (.token (.punct .semicolon) [';'], []) := rfl
  change locate offset (pieces [';']) = _
  rw [pieces, hcut, pieces]
  rfl

section extracts

variable {source : String} {ts us : List Token}

/-- The text under a node, with a semicolon behind it, is read as the expression of the node, placed
from the start of the text. -/
theorem parse_node {x : Expr} (hitems : items source = ts.map .ok) (hus : us <:+: ts)
    (h : node .tokens (nestingLimit - 1) us x) :
    ∃ text, x.span.Shows source text ∧ ∃ q e span, parse (text ++ ";") = .ok q ∧
      q.stmts = [.expr e span] ∧ e.mapSpan (Span.shift x.span.start) = x := by
  have hspan : x.span = Alphabet.cover us := h.span_eq
  obtain ⟨its₁, its₂, hsplit⟩ := items_around hitems hus
  obtain ⟨ws, last, rfl⟩ := (List.eq_nil_or_concat' us).resolve_left h.opens.ne_nil
  obtain ⟨text, front, vs, hshows, -, hshift, htail⟩ := exists_slice_before hsplit
  rw [← hspan] at hshows hshift
  -- a node of any layer is an expression one level further out
  have hexpr : expr .tokens nestingLimit (ws ++ [last]) x := h.choice
  rw [hshift] at hexpr
  obtain ⟨e, he, hmap⟩ := (carries_expr (translation_shift _) nestingLimit vs x).1 hexpr
  have htokens : items (text ++ ";") = (vs ++ [semicolonAt (byteLength text.toList)]).map .ok := by
    rw [htail ";" divides_semicolon, locate_semicolon, List.map_append]
    rfl
  obtain ⟨q, hq, hstmts⟩ := exists_parse_of_stmt htokens (.expr he rfl)
  exact ⟨text, hshows, q, e, _, hq, hstmts, hmap⟩

/-- **A span marks the text of its node.**  In a program that was read, the text under the span of a
statement at any depth is read as that statement alone, and the text under the span of an expression
at any depth, with a semicolon behind it, as a statement that is that expression alone.  All places
are moved to the left by the start of the span. -/
theorem parse_extract {p : Program} (h : parse source = .ok p) :
    (∀ s ∈ p.stmtNodes, ∃ text, s.span.Shows source text ∧ ∃ q t, parse text = .ok q ∧
      q.stmts = [t] ∧ t.mapSpan (Span.shift s.span.start) = s) ∧
    ∀ x ∈ p.exprNodes, ∃ text, x.span.Shows source text ∧ ∃ q e span,
      parse (text ++ ";") = .ok q ∧ q.stmts = [.expr e span] ∧
        e.mapSpan (Span.shift x.span.start) = x := by
  obtain ⟨ts, hitems, hstmts, hnodes⟩ := exists_tokens_of_parse h
  constructor
  · intro s hs
    obtain ⟨us, hus, hstmt⟩ := hstmts s hs
    have hne : us ≠ [] := by
      obtain ⟨t, rest, rfl, -⟩ := stmt_uncons hstmt
      exact List.cons_ne_nil t rest
    obtain ⟨ws, last, rfl⟩ := (List.eq_nil_or_concat' us).resolve_left hne
    obtain ⟨text, -, hshows, -, hread⟩ := parse_part hitems hus hstmt
    exact ⟨text, hshows, hread⟩
  · intro x hx
    obtain ⟨us, hus, hnode⟩ := hnodes x hx
    exact parse_node hitems hus hnode

end extracts

/-- A sum in parentheses below a sign, in a block behind a character of two bytes. -/
theorem parse_extract_nested :
    ∃ p s x, parse "/* é */ do { x = -(a + 1) * 2; } while ((a) < b);" = .ok p ∧
      s ∈ p.stmtNodes ∧ s.span = ⟨14, 31⟩ ∧ x ∈ p.exprNodes ∧ x.span = ⟨20, 25⟩ ∧
      (∃ text, s.span.Shows "/* é */ do { x = -(a + 1) * 2; } while ((a) < b);" text ∧
        ∃ q t, parse text = .ok q ∧ q.stmts = [t] ∧ t.mapSpan (Span.shift s.span.start) = s) ∧
      ∃ text, x.span.Shows "/* é */ do { x = -(a + 1) * 2; } while ((a) < b);" text ∧
        ∃ q e span, parse (text ++ ";") = .ok q ∧ q.stmts = [.expr e span] ∧
          e.mapSpan (Span.shift x.span.start) = x := by
  have hsearch : ((parse "/* é */ do { x = -(a + 1) * 2; } while ((a) < b);").toOption.any fun p =>
      decide ((∃ s ∈ p.stmtNodes, s.span = ⟨14, 31⟩) ∧ ∃ x ∈ p.exprNodes, x.span = ⟨20, 25⟩)) =
        true := by
    decide +kernel
  obtain ⟨p, hparse, hnodes⟩ := exists_program_of_any hsearch
  obtain ⟨⟨s, hs, hsspan⟩, x, hx, hxspan⟩ := of_decide_eq_true hnodes
  obtain ⟨hstmts, hexprs⟩ := parse_extract hparse
  exact ⟨p, s, x, hparse, hs, hsspan, hx, hxspan, hstmts s hs, hexprs x hx⟩

end StaticCheck
