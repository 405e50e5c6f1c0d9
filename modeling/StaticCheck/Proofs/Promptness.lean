import StaticCheck.Proofs.Source

/-! # Parsers that fail at once

What a parser accepts is a phrase, and a parser fails at once if it never takes a token that spoils
everything: what it has taken when it fails is the beginning of a phrase, and no phrase begins with
these tokens and the token at which it stands.  `Prompt failing starts p q P` says so of the parser
`p` and the phrase `P`, for cursors on a token of which `starts` holds.  Failures are looked at only
if `failing` holds: where there is no room to complete a phrase, there is nothing to be said of
them.

Whether a token can follow is not for one rule alone to tell, because the rule behind it may take
the token up.  This half is therefore put in terms of a second parser `q`, which is `p` with more
room for nesting: on any text in which the same tokens are followed by the same token, `q` does what
`p` does.  It succeeds with the same tree if `p` succeeds, and it does not succeed if `p` fails.  No
phrase that `q` accepts then begins like that. -/

namespace StaticCheck

open Grammar

/-! ### The same tokens in another text -/

namespace Cursor

/-- Cursors on the same token, behind tokens that end alike. -/
structure Twins (c c' : Cursor) : Prop where
  current : c.current = c'.current
  lastEnd : c.lastEnd = c'.lastEnd

/-- The tokens that lead from `c` to `d` lead from `c'` to `d'`, and the same token follows. -/
structure Copies (c : Cursor) (ts : List Token) (d c' d' : Cursor) : Prop where
  start : c.Twins c'
  takes : c'.Takes ts d'
  stop : d.Twins d'

variable {c d c' d' : Cursor} {ts us : List Token}

theorem Copies.split {m : Cursor} (h : c.Copies (ts ++ us) d c' d') (h₁ : c.Takes ts m)
    (h₂ : m.Takes us d) : ∃ m', c.Copies ts m c' m' ∧ m.Copies us d m' d' := by
  obtain ⟨m', h₁', h₂'⟩ := h.takes.split
  have hm : m.Twins m' := by
    constructor
    · cases us with
      | nil =>
        cases h₂
        cases h₂'
        exact h.stop.current
      | cons u us => rw [h₂.current, h₂'.current]
    · cases ts with
      | nil =>
        cases h₁
        cases h₁'
        exact h.start.lastEnd
      | cons t ts => rw [h₁.lastEnd (List.cons_ne_nil t ts), h₁'.lastEnd (List.cons_ne_nil t ts)]
  exact ⟨m', ⟨h.start, h₁', hm⟩, ⟨hm, h₂', h.stop⟩⟩

theorem Copies.of_nil (h : c.Copies [] d c' d') : c' = d' := by
  obtain ⟨-, h, -⟩ := h
  cases h
  rfl

theorem Takes.unique (h₁ : c.Takes ts d) (h₂ : c.Takes us d) : ts = us := by
  induction h₁ generalizing us with
  | nil c =>
    cases us with
    | nil => rfl
    | cons u us => exact absurd (h₂.remaining_lt (List.cons_ne_nil u us)) (Nat.lt_irrefl _)
  | @cons c m d t ts ht ha h ih =>
    cases h₂ with
    | nil =>
      have hlt := (Takes.cons ht ha h).remaining_lt (List.cons_ne_nil t ts)
      exact absurd hlt (Nat.lt_irrefl _)
    | cons _ ha' h' =>
      rw [ha] at ha'
      cases ha'
      rw [ih h']

/-- The token behind the first one is the next one taken or the one at which the taking ends. -/
theorem Takes.peek {t : Token} (h : c.Takes (t :: ts) d) :
    (Parser.peek : Parser TokenKind) c = .ok (ts.headD d.current).kind c := by
  cases ts with
  | cons u us => exact Parser.peek_of_takes h
  | nil =>
    obtain ⟨-, ha⟩ := Parser.takes_singleton_iff.1 h
    obtain ⟨-, ⟨hu, rfl⟩ | ⟨v, rest, hu, rfl⟩⟩ := Parser.advance_cases ha
    · exact Parser.peek_nil hu
    · exact Parser.peek_cons hu

/-- Tokens that were taken, and the one behind them, can be followed by any others. -/
theorem Takes.exists_copy (h : c.Takes ts d) (hus : ∀ t ∈ d.current :: us, t.kind ≠ .eof) :
    ∃ c' d' e, c.Copies ts d c' d' ∧ d'.Takes (d.current :: us) e ∧ e.current.kind = .eof := by
  induction h with
  | nil c =>
    let c' : Cursor := ⟨c.current, us.map .ok, 0, c.lastEnd⟩
    have hahead : c'.Ahead ((c.current :: us).map .ok) := .inr rfl
    obtain ⟨e, he, hend⟩ := hahead.takes hus
    exact ⟨c', c', e, ⟨⟨rfl, rfl⟩, .nil c', ⟨rfl, rfl⟩⟩, he, by rw [hend]; rfl⟩
  | @cons c m d t ts ht ha _ ih =>
    obtain ⟨m', d', e, ⟨hm, hts, hstop⟩, he⟩ := ih hus
    obtain rfl := Parser.advance_token ha
    let c' : Cursor := ⟨c.current, .ok m'.current :: m'.upcoming, m'.finish, c.lastEnd⟩
    have ha' : (Parser.advance : Parser Token) c' = .ok c.current m' := by
      have hlast : m'.lastEnd = c.current.span.stop := by
        rw [← hm.lastEnd, Parser.advance_lastEnd ha]
      have hnext : c'.upcoming = .ok m'.current :: m'.upcoming := rfl
      rw [Parser.advance_cons hnext, ← hlast]
    exact ⟨c', d', e, ⟨⟨rfl, rfl⟩, .cons ht ha' hts, hstop⟩, he⟩

end Cursor

namespace Parser

variable {τ υ : Type}

/-! ### Failing at once -/

/-- Started on a token of which `starts` holds, `p` succeeds with a phrase or, if failures are
looked at, fails at the first token that cannot go on, unless it runs out of levels; and `q` does
the same on every copy. -/
structure Prompt (failing : Prop) (starts : TokenKind → Prop) (p q : Parser τ)
    (P : Phrase TokenKind τ) : Prop where
  inhabited : failing → ∃ ks a, P ks a
  ok {c d : Cursor} {a : τ} : starts c.current.kind → p c = .ok a d →
    ∃ ts, c.Takes ts d ∧ P (ts.map Token.kind) a ∧ ∀ c' d', c.Copies ts d c' d' → q c' = .ok a d'
  error {c d : Cursor} {fault : Fault} {span : Span} : failing → starts c.current.kind →
    p c = .error (.syntactic fault span) d → fault ≠ .tooDeep →
    ∃ ts, c.Takes ts d ∧ span = d.current.span ∧ (∃ ks a, P (ts.map Token.kind ++ ks) a) ∧
      ∀ c' d', c.Copies ts d c' d' → ∀ a e, q c' ≠ .ok a e

/-- Any token will do. -/
def Always (_ : TokenKind) : Prop := True

/-- The words of a phrase, whatever tree they stand for. -/
abbrev Words (P : Phrase TokenKind τ) : Phrase TokenKind υ := fun ks _ => ∃ a, P ks a

/-- What stands behind the beginning `ks` of a phrase. -/
abbrev After (R : Phrase TokenKind υ) (ks : List TokenKind) : Phrase TokenKind υ :=
  fun us b => R (ks ++ us) b

variable {failing : Prop} {starts : TokenKind → Prop} {p q : Parser τ} {f g : τ → Parser υ}
  {P : Phrase TokenKind τ} {R : Phrase TokenKind υ}

theorem Prompt.anywhere (h : Prompt failing Always p q P) : Prompt failing starts p q P where
  inhabited := h.inhabited
  ok _ := h.ok trivial
  error hf _ := h.error hf trivial

theorem Prompt.imp {P' : Phrase TokenKind τ} (h : Prompt failing starts p q P)
    (hP : ∀ ks a, P ks a → P' ks a) : Prompt failing starts p q P' where
  inhabited hf := by
    obtain ⟨ks, a, ha⟩ := h.inhabited hf
    exact ⟨ks, a, hP ks a ha⟩
  ok hk ha := by
    obtain ⟨ts, ht, hp, hcopy⟩ := h.ok hk ha
    exact ⟨ts, ht, hP _ _ hp, hcopy⟩
  error hf hk he hdeep := by
    obtain ⟨ts, ht, hspan, ⟨ks, a, ha⟩, hcopy⟩ := h.error hf hk he hdeep
    exact ⟨ts, ht, hspan, ⟨ks, a, hP _ _ ha⟩, hcopy⟩

theorem prompt_pure {a : τ} (h : P [] a) : Prompt failing starts (pure a) (pure a) P where
  inhabited _ := ⟨[], a, h⟩
  ok _ ha := by
    obtain ⟨rfl, rfl⟩ := pure_eq_ok_iff.1 ha
    refine ⟨[], .nil _, h, fun c' d' hc => ?_⟩
    exact pure_eq_ok_iff.2 ⟨rfl, hc.of_nil⟩
  error _ _ ha := by cases ha

theorem prompt_fail (fault : Fault) (h : failing → ∃ ks a, P ks a) :
    Prompt failing starts (fail fault) (fail fault) P where
  inhabited := h
  ok _ ha := (fail_eq_ok_iff.1 ha).elim
  error hf _ ha _ := by
    cases ha
    exact ⟨[], .nil _, rfl, h hf, fun _ _ _ _ _ h => fail_eq_ok_iff.1 h⟩

/-- Running out of levels says nothing about the tokens. -/
theorem prompt_tooDeep (h : failing → ∃ ks a, P ks a) :
    Prompt failing starts (fail .tooDeep) q P where
  inhabited := h
  ok _ ha := (fail_eq_ok_iff.1 ha).elim
  error _ _ ha hdeep := by
    cases ha
    exact absurd rfl hdeep

/-- One parser after the other: the second one reads what is left of the phrase. -/
theorem prompt_bind (hp : Prompt failing starts p q P)
    (hf : ∀ ks a, P ks a → Prompt failing Always (f a) (g a) (After R ks)) :
    Prompt failing starts (p >>= f) (q >>= g) R where
  inhabited hfail := by
    obtain ⟨ks, a, ha⟩ := hp.inhabited hfail
    obtain ⟨us, b, hb⟩ := (hf ks a ha).inhabited hfail
    exact ⟨ks ++ us, b, hb⟩
  ok {c d b} hs h := by
    obtain ⟨a, m, hpa, hfa⟩ := bind_eq_ok_iff.1 h
    obtain ⟨ts, h₁, ha, hq⟩ := hp.ok hs hpa
    obtain ⟨us, h₂, hb, hg⟩ := (hf _ a ha).ok trivial hfa
    refine ⟨ts ++ us, h₁.append h₂, by rwa [List.map_append], fun c' d' hc => ?_⟩
    obtain ⟨m', hc₁, hc₂⟩ := hc.split h₁ h₂
    exact bind_eq_ok_iff.2 ⟨a, m', hq c' m' hc₁, hg m' d' hc₂⟩
  error {c d fault span} hfail hs h hdeep := by
    obtain h | ⟨a, m, hpa, hfa⟩ := bind_eq_error_iff.1 h
    · -- the first parser fails: its phrase is completed, and then the second one's
      obtain ⟨ts, h₁, hspan, ⟨ks, a, ha⟩, hq⟩ := hp.error hfail hs h hdeep
      obtain ⟨us, b, hb⟩ := (hf _ a ha).inhabited hfail
      refine ⟨ts, h₁, hspan, ⟨ks ++ us, b, by rwa [← List.append_assoc]⟩, ?_⟩
      intro c' d' hc b e hbe
      obtain ⟨a, m, hqa, -⟩ := bind_eq_ok_iff.1 hbe
      exact hq c' d' hc a m hqa
    · obtain ⟨ts, h₁, ha, hq⟩ := hp.ok hs hpa
      obtain ⟨us, h₂, hspan, ⟨ks, b, hb⟩, hg⟩ := (hf _ a ha).error hfail trivial hfa hdeep
      refine ⟨ts ++ us, h₁.append h₂, hspan, ⟨ks, b, ?_⟩, ?_⟩
      · rwa [List.map_append, List.append_assoc]
      · intro c' d' hc b e hbe
        obtain ⟨m', hc₁, hc₂⟩ := hc.split h₁ h₂
        obtain ⟨a', n, hqa, hga⟩ := bind_eq_ok_iff.1 hbe
        rw [hq c' m' hc₁] at hqa
        cases hqa
        exact hg m' d' hc₂ b e hga

/-- A part of a rule whose tree is not looked at. -/
theorem prompt_part {σ : Type} {P : Phrase TokenKind σ} (hp : Prompt failing starts p q (Words P))
    (hf : ∀ ks a b, P ks b → Prompt failing Always (f a) (g a) (After R ks)) :
    Prompt failing starts (p >>= f) (q >>= g) R := by
  refine prompt_bind hp ?_
  rintro ks a ⟨b, hb⟩
  exact hf ks a b hb

/-! ### Single tokens -/

/-- A decision by the token at hand, which is the same on every copy. -/
theorem prompt_current {f g : Token → Parser υ}
    (hf : ∀ t, Prompt failing (· = t.kind) (f t) (g t) R) :
    Prompt failing Always (current >>= f) (current >>= g) R where
  inhabited hfail := (hf (.atEnd 0)).inhabited hfail
  ok {c d b} _ h := by
    obtain ⟨_, _, ⟨rfl, rfl⟩, h⟩ := bind_eq_ok_iff.1 h
    obtain ⟨ts, ht, hb, hg⟩ := (hf c.current).ok rfl h
    refine ⟨ts, ht, hb, fun c' d' hc => ?_⟩
    refine bind_eq_ok_iff.2 ⟨c'.current, c', rfl, ?_⟩
    rw [← hc.start.current]
    exact hg c' d' hc
  error {c d fault span} hfail _ h hdeep := by
    obtain h | ⟨_, _, ⟨rfl, rfl⟩, h⟩ := bind_eq_error_iff.1 h
    · cases h
    · obtain ⟨ts, ht, hspan, hb, hg⟩ := (hf c.current).error hfail rfl h hdeep
      refine ⟨ts, ht, hspan, hb, fun c' d' hc b e hbe => ?_⟩
      obtain ⟨_, _, ⟨rfl, rfl⟩, hge⟩ := bind_eq_ok_iff.1 hbe
      rw [← hc.start.current] at hge
      exact hg c' d' hc b e hge

/-- The token at hand is looked at for its place only. -/
theorem prompt_place {f g : Token → Parser υ} (hf : ∀ t, Prompt failing Always (f t) (g t) R) :
    Prompt failing Always (current >>= f) (current >>= g) R :=
  prompt_current fun t => (hf t).anywhere

theorem prompt_advance {kind : TokenKind} (hk : kind ≠ .eof) :
    Prompt failing (· = kind) advance advance fun ks _ => ks = [kind] where
  inhabited _ := ⟨[kind], ⟨kind, .point 0⟩, rfl⟩
  ok {c d t} hc h := by
    obtain rfl := advance_token h
    refine ⟨[c.current], takes_singleton_iff.2 ⟨hc ▸ hk, h⟩, by rw [← hc]; rfl, ?_⟩
    intro c' d' hc
    exact (takes_singleton_iff.1 hc.takes).2
  error {c d fault span} _ _ h := absurd h advance_ne_syntactic

/-- The token at hand is taken, whatever stands in it. -/
theorem prompt_take {f g : Token → Parser υ} {kind : TokenKind} (hk : kind ≠ .eof)
    (hf : ∀ t, Prompt failing Always (f t) (g t) (After R [kind])) :
    Prompt failing (· = kind) (advance >>= f) (advance >>= g) R := by
  refine prompt_bind (prompt_advance hk) ?_
  rintro _ t rfl
  exact hf t

theorem prompt_accept {wanted : TokenKind} (hw : wanted ≠ .eof) :
    Prompt failing Always (accept wanted) (accept wanted) fun ks found =>
      ks = if found then [wanted] else [] := by
  unfold accept
  refine prompt_current fun t => ?_
  split
  · rename_i hk
    refine prompt_take (hk ▸ hw) fun _ => ?_
    exact prompt_pure (congrArg (fun k => [k]) hk)
  · exact prompt_pure rfl

theorem prompt_expect {wanted : TokenKind} (hw : wanted ≠ .eof) :
    Prompt failing Always (expect wanted) (expect wanted) fun ks _ => ks = [wanted] := by
  unfold expect
  refine prompt_current fun t => ?_
  split
  · rename_i hk
    subst hk
    exact prompt_advance hw
  · exact prompt_fail _ fun _ => ⟨_, ⟨wanted, .point 0⟩, rfl⟩

/-- A token that the rule requires. -/
theorem prompt_token {f g : Token → Parser υ} {wanted : TokenKind} (hw : wanted ≠ .eof)
    (hf : ∀ t, Prompt failing Always (f t) (g t) (After R [wanted])) :
    Prompt failing Always (expect wanted >>= f) (expect wanted >>= g) R := by
  refine prompt_bind (prompt_expect hw) ?_
  rintro _ t rfl
  exact hf t

theorem prompt_expectName :
    Prompt failing Always expectName expectName fun ks name => ks = [.ident name.1] := by
  unfold expectName
  refine prompt_current fun t => ?_
  cases hk : t.kind with
  | ident x =>
    refine prompt_take nofun fun _ => ?_
    exact prompt_pure rfl
  | _ => exact prompt_fail _ fun _ => ⟨_, ("", .point 0), rfl⟩

theorem prompt_spanFrom (first : Span) :
    Prompt failing Always (spanFrom first) (spanFrom first) fun ks _ => ks = [] where
  inhabited _ := ⟨[], .point 0, rfl⟩
  ok {c d span} _ h := by
    obtain ⟨rfl, rfl⟩ := spanFrom_eq_ok_iff.1 h
    refine ⟨[], .nil c, rfl, fun c' d' hc => spanFrom_eq_ok_iff.2 ⟨?_, hc.of_nil⟩⟩
    rw [hc.start.lastEnd]
  error _ _ h := by cases h

/-- A node that is made when all its tokens are taken. -/
theorem prompt_node {first : Span} {node : Span → υ} (h : ∀ span, R [] (node span)) :
    Prompt failing Always (spanFrom first >>= fun span => pure (node span))
      (spanFrom first >>= fun span => pure (node span)) R := by
  refine prompt_bind (prompt_spanFrom first) ?_
  rintro _ span rfl
  exact prompt_pure (h span)

/-- A node that ends with a certain token. -/
theorem prompt_closed {wanted : TokenKind} (hw : wanted ≠ .eof) {first : Span} {node : Span → υ}
    (h : ∀ span, R [wanted] (node span)) :
    Prompt failing Always
      (expect wanted >>= fun _ => spanFrom first >>= fun span => pure (node span))
      (expect wanted >>= fun _ => spanFrom first >>= fun span => pure (node span)) R :=
  prompt_token hw fun _ => prompt_node h

/-- A look at the token behind a name.  It is settled by the tokens that the parser takes
afterwards, because on some text the parser goes past the name. -/
theorem prompt_peek {x : String} {f g : TokenKind → Parser υ}
    (hf : ∀ next, Prompt failing (· = .ident x) (f next) (g next) R) (hR : ∀ b, ¬ R [] b)
    (hg : failing → ∀ next (c : Cursor), c.current.kind = .ident x →
      ∃ c' b e, c.Twins c' ∧ g next c' = .ok b e) :
    Prompt failing (· = .ident x) (peek >>= f) (peek >>= g) R where
  inhabited hfail := (hf .eof).inhabited hfail
  ok {c d b} hk h := by
    obtain ⟨next, m, hp, h⟩ := bind_eq_ok_iff.1 h
    obtain rfl := peek_cursor hp
    obtain ⟨ts, ht, hb, hcopy⟩ := (hf next).ok hk h
    refine ⟨ts, ht, hb, fun c' d' hc => ?_⟩
    cases ts with
    | nil => exact absurd hb (hR b)
    | cons t ts =>
      rw [ht.peek] at hp
      cases hp
      have hp' := hc.takes.peek
      rw [← hc.stop.current] at hp'
      exact bind_eq_ok_iff.2 ⟨_, c', hp', hcopy c' d' hc⟩
  error {c d fault span} hfail hk h hdeep := by
    obtain h | ⟨next, m, hp, h⟩ := bind_eq_error_iff.1 h
    · exact absurd h peek_ne_syntactic
    · obtain rfl := peek_cursor hp
      obtain ⟨ts, ht, hspan, hb, hcopy⟩ := (hf next).error hfail hk h hdeep
      refine ⟨ts, ht, hspan, hb, fun c' d' hc b e hbe => ?_⟩
      cases ts with
      | nil =>
        -- the parser cannot fail at the name, or it would fail at it in every text
        cases ht
        obtain ⟨n, b, e, htwin, hok⟩ := hg hfail next c hk
        exact hcopy n n ⟨htwin, .nil n, htwin⟩ b e hok
      | cons t ts =>
        rw [ht.peek] at hp
        cases hp
        have hp' := hc.takes.peek
        rw [← hc.stop.current] at hp'
        obtain ⟨_, _, hpeek, hge⟩ := bind_eq_ok_iff.1 hbe
        rw [hp'] at hpeek
        cases hpeek
        exact hcopy c' d' hc b e hge

/-! ### Repetitions -/

/-- A round of a repetition: nothing, or a phrase, which is not empty. -/
def Round (P : Phrase TokenKind υ) : Phrase TokenKind (Option τ)
  | ks, none => ks = []
  | ks, some _ => ks ≠ [] ∧ ∃ a, P ks a

section collect

variable {step step' : Parser (Option τ)} {P : Phrase TokenKind υ}

/-- A round that gives a value takes a token. -/
theorem Prompt.progresses (hstep : Prompt failing Always step step' (Round P)) :
    Progresses step := by
  intro c d a hs
  obtain ⟨ts, ht, ⟨hne, -⟩, -⟩ := hstep.ok trivial hs
  exact ht.remaining_lt (mt List.map_eq_nil_iff.2 hne)

theorem collect_ok (hstep : Prompt failing Always step step' (Round P)) {c d : Cursor} {as : List τ}
    (h : collect step c = .ok as d) : ∃ ts, c.Takes ts d ∧ (∃ bs, Many P (ts.map Token.kind) bs) ∧
      ∀ c' d', c.Copies ts d c' d' → collect step' c' = .ok as d' := by
  change Cursor.collect step c = _ at h
  fun_induction Cursor.collect step c generalizing as d with
  | case1 c e after hs => cases h
  | case2 c after hs =>
    cases h
    obtain ⟨ts, ht, hround, hcopy⟩ := hstep.ok trivial hs
    obtain rfl := List.map_eq_nil_iff.1 hround
    exact ⟨[], ht, ⟨[], .nil⟩, fun c' d' hc => collect_of_none (hcopy c' d' hc)⟩
  | case3 c a after hs hlt e last hmore ih => cases h
  | case4 c a after hs hlt more last hmore ih =>
    cases h
    obtain ⟨ts, ht, ⟨hne, b, hb⟩, hcopy⟩ := hstep.ok trivial hs
    obtain ⟨us, hu, ⟨bs, hbs⟩, hrest⟩ := ih hmore
    refine ⟨ts ++ us, ht.append hu, ⟨b :: bs, ?_⟩, fun c' d' hc => ?_⟩
    · rw [List.map_append]
      exact .cons hb hbs
    · obtain ⟨m', hc₁, hc₂⟩ := hc.split ht hu
      have hlt' := hc₁.takes.remaining_lt (mt List.map_eq_nil_iff.2 hne)
      rw [collect_of_some (hcopy c' m' hc₁) hlt']
      exact bind_of_ok (hrest m' d' hc₂)
  | case5 c a after hs hlt => exact absurd (hstep.progresses _ _ _ hs) hlt

theorem collect_error (hstep : Prompt failing Always step step' (Round P)) (hfail : failing)
    {c d : Cursor} {fault : Fault} {span : Span}
    (h : collect step c = .error (.syntactic fault span) d) (hdeep : fault ≠ .tooDeep) :
    ∃ ts, c.Takes ts d ∧ span = d.current.span ∧
      (∃ ks bs, Many P (ts.map Token.kind ++ ks) bs) ∧
      ∀ c' d', c.Copies ts d c' d' → ∀ as e, collect step' c' ≠ .ok as e := by
  change Cursor.collect step c = _ at h
  fun_induction Cursor.collect step c generalizing d with
  | case1 c e after hs =>
    cases h
    obtain ⟨ts, ht, hspan, ⟨ks, o, ho⟩, hcopy⟩ := hstep.error hfail trivial hs hdeep
    have hmany : ∃ bs, Many P (ts.map Token.kind ++ ks) bs := by
      cases o with
      | none =>
        rw [ho]
        exact ⟨[], .nil⟩
      | some a =>
        obtain ⟨-, b, hb⟩ := ho
        rw [← List.append_nil (_ ++ ks)]
        exact ⟨[b], .cons hb .nil⟩
    refine ⟨ts, ht, hspan, ⟨ks, hmany⟩, fun c' d' hc as e hok => ?_⟩
    obtain ⟨o, m, hok⟩ := step_of_collect hok
    exact hcopy c' d' hc o m hok
  | case2 c after hs => cases h
  | case3 c a after hs hlt e last hmore ih =>
    cases h
    obtain ⟨ts, ht, ⟨hne, b, hb⟩, hcopy⟩ := hstep.ok trivial hs
    obtain ⟨us, hu, hspan, ⟨ks, bs, hbs⟩, hrest⟩ := ih hmore
    refine ⟨ts ++ us, ht.append hu, hspan, ⟨ks, b :: bs, ?_⟩, fun c' d' hc as e hok => ?_⟩
    · rw [List.map_append, List.append_assoc]
      exact .cons hb hbs
    · obtain ⟨m', hc₁, hc₂⟩ := hc.split ht hu
      have hlt' := hc₁.takes.remaining_lt (mt List.map_eq_nil_iff.2 hne)
      rw [collect_of_some (hcopy c' m' hc₁) hlt'] at hok
      obtain ⟨more, n, hmore, -⟩ := bind_eq_ok_iff.1 hok
      exact hrest m' d' hc₂ more n hmore
  | case4 c a after hs hlt more last hmore ih => cases h
  | case5 c a after hs hlt => cases h

theorem prompt_collect (hstep : Prompt failing Always step step' (Round P)) :
    Prompt failing Always (collect step) (collect step') (Words (Many P)) where
  inhabited _ := ⟨[], [], [], .nil⟩
  ok _ h := collect_ok hstep h
  error hfail _ h hdeep := by
    obtain ⟨ts, ht, hspan, ⟨ks, bs, hbs⟩, hcopy⟩ := collect_error hstep hfail h hdeep
    exact ⟨ts, ht, hspan, ⟨ks, [], bs, hbs⟩, hcopy⟩

end collect

end Parser

end StaticCheck
