import Mathlib.Computability.Language
import StaticCheck.Proofs.Spacing

/-! # Where block comments end

The rule for block comments is a regular expression, `/\*[^*]*\*+(?:[^/*][^*]*\*+)*/`: a slash and a
star, then runs of other characters and runs of stars in turn, where no run of stars is followed by
a slash before the last one.  It says in a roundabout way that a comment reaches up to the first
`*/` behind the two characters that open it (`blockComment_ends_first`), which is how a text is
cut.

Between the opening slash and star and the closing slash the rule takes exactly the texts without
`*/` that end with a star (`commentBody_eq`). -/

namespace StaticCheck

open scoped Computability

/-! ### The rule -/

/-- The texts of one character that is in the class. -/
def oneOf (p : Char → Prop) : Language Char := {w | ∃ c, p c ∧ w = [c]}

/-- The regular expression `[^*]*`. -/
def nonStars : Language Char := (oneOf (· ≠ '*'))∗

/-- The regular expression `\*+`. -/
def stars : Language Char := oneOf (· = '*') * (oneOf (· = '*'))∗

/-- The regular expression `[^/*][^*]*\*+`. -/
def starGroup : Language Char := oneOf (fun c => c ≠ '/' ∧ c ≠ '*') * (nonStars * stars)

/-- The regular expression `[^*]*\*+(?:[^/*][^*]*\*+)*`. -/
def commentBody : Language Char := nonStars * stars * starGroup∗

/-- The rule for block comments, `/\*[^*]*\*+(?:[^/*][^*]*\*+)*/`. -/
def blockComment : Language Char :=
  oneOf (· = '/') * (oneOf (· = '*') * (commentBody * oneOf (· = '/')))

section runs

variable {p : Char → Prop} {w : List Char} {c : Char}

theorem mem_oneOf : w ∈ oneOf p ↔ ∃ c, p c ∧ w = [c] := Iff.rfl

theorem cons_mem_oneOf_mul {L : Language Char} (hc : p c) (hw : w ∈ L) : c :: w ∈ oneOf p * L :=
  Language.append_mem_mul (mem_oneOf.2 ⟨c, hc, rfl⟩) hw

theorem mem_oneOf_mul {L : Language Char} : w ∈ oneOf p * L ↔ ∃ c u, p c ∧ u ∈ L ∧ w = c :: u := by
  constructor
  · intro h
    obtain ⟨_, ⟨c, hc, rfl⟩, u, hu, rfl⟩ := Language.mem_mul.1 h
    exact ⟨c, u, hc, hu, rfl⟩
  · rintro ⟨c, u, hc, hu, rfl⟩
    exact cons_mem_oneOf_mul hc hu

/-- One more part in front of a repetition. -/
theorem append_mem_kstar {L : Language Char} {u : List Char} (hu : u ∈ L) (hw : w ∈ L∗) :
    u ++ w ∈ L∗ :=
  Set.mem_of_mem_of_subset (Language.append_mem_mul hu hw) (mul_kstar_le_kstar (a := L))

/-- A run of characters of a class. -/
theorem mem_kstar_oneOf : w ∈ (oneOf p)∗ ↔ ∀ c ∈ w, p c := by
  constructor
  · intro h c hc
    obtain ⟨parts, rfl, hparts⟩ := Language.mem_kstar.1 h
    obtain ⟨part, hpart, hcpart⟩ := List.mem_flatten.1 hc
    obtain ⟨d, hd, rfl⟩ := hparts part hpart
    obtain rfl := List.mem_singleton.1 hcpart
    exact hd
  · intro h
    induction w with
    | nil => exact Language.nil_mem_kstar _
    | cons c w ih =>
      obtain ⟨hc, hw⟩ := List.forall_mem_cons.1 h
      exact append_mem_kstar (mem_oneOf.2 ⟨c, hc, rfl⟩) (ih hw)

theorem mem_stars (h : w ∈ stars) : w ≠ [] ∧ ∀ c ∈ w, c = '*' := by
  obtain ⟨c, u, rfl, hu, rfl⟩ := mem_oneOf_mul.1 h
  exact ⟨List.cons_ne_nil _ u, List.forall_mem_cons.2 ⟨rfl, mem_kstar_oneOf.1 hu⟩⟩

theorem star_cons_mem_stars (h : w ∈ stars) : '*' :: w ∈ stars :=
  cons_mem_oneOf_mul rfl (mem_kstar_oneOf.2 (mem_stars h).2)

theorem star_mem_run : ['*'] ∈ nonStars * stars :=
  Language.append_mem_mul (Language.nil_mem_kstar _)
    (cons_mem_oneOf_mul rfl (Language.nil_mem_kstar _))

end runs

/-! ### Texts without an end of a comment -/

theorem unclosed_cons_iff {c : Char} {w : List Char} :
    Unclosed (c :: w) ↔ (c = '*' → ∀ d ∈ w.head?, d ≠ '/') ∧ Unclosed w := by
  unfold Unclosed
  rw [List.infix_cons_iff, not_or]
  refine and_congr_left fun _ => ?_
  cases w with
  | nil => simp
  | cons d w => simp [List.cons_prefix_cons, eq_comm]

/-- An end of a comment in two texts one behind the other stands in one of them or across. -/
theorem Unclosed.append {v w : List Char} (hv : Unclosed v) (hw : Unclosed w)
    (hacross : ∀ d ∈ w.head?, d = '/' → ¬ ['*'] <:+ v) : Unclosed (v ++ w) := by
  induction v with
  | nil => exact hw
  | cons c v ih =>
    obtain ⟨hfront, hv⟩ := unclosed_cons_iff.1 hv
    rw [List.cons_append, unclosed_cons_iff]
    refine ⟨?_, ih hv fun d hd hslash hsuffix => ?_⟩
    · intro hc d hd hslash
      cases v with
      | nil => exact hacross d hd hslash (hc ▸ List.suffix_refl _)
      | cons e v => exact hfront hc d hd hslash
    · exact hacross d hd hslash (hsuffix.trans (List.suffix_cons c v))

theorem unclosed_of_not_mem_star {w : List Char} (h : '*' ∉ w) : Unclosed w :=
  fun hfound => h (hfound.subset List.mem_cons_self)

theorem unclosed_of_not_mem_slash {w : List Char} (h : '/' ∉ w) : Unclosed w :=
  fun hfound => h (hfound.subset (List.mem_cons_of_mem _ List.mem_cons_self))

/-- The texts without `*/` that end with a star. -/
def Starred : Language Char := {w | Unclosed w ∧ ['*'] <:+ w}

theorem mem_starred_of_run {w : List Char} (hw : w ∈ nonStars * stars) : w ∈ Starred := by
  obtain ⟨a, ha, s, hs, rfl⟩ := Language.mem_mul.1 hw
  have ha := mem_kstar_oneOf.1 ha
  obtain ⟨hne, hs⟩ := mem_stars hs
  have hlast : ['*'] <:+ s := by
    obtain ⟨init, last, rfl⟩ := (List.eq_nil_or_concat' s).resolve_left hne
    obtain rfl := hs last (List.mem_append_right init (List.mem_singleton_self last))
    exact List.suffix_append init _
  refine ⟨?_, hlast.trans (List.suffix_append a s)⟩
  apply Unclosed.append
  · exact unclosed_of_not_mem_star fun hmem => ha '*' hmem rfl
  · exact unclosed_of_not_mem_slash fun hmem => absurd (hs '/' hmem) (by decide)
  · intro d hd hslash
    have := hs d (List.mem_of_mem_head? hd)
    subst hslash
    exact absurd this (by decide)

/-- A group behind a run of stars does not start with a slash, so it closes nothing. -/
theorem mem_starred_of_group {w : List Char} (hw : w ∈ Starred * starGroup) : w ∈ Starred := by
  obtain ⟨v, ⟨hv, -⟩, g, hg, rfl⟩ := Language.mem_mul.1 hw
  obtain ⟨c, u, ⟨hslash, hstar⟩, hu, rfl⟩ := mem_oneOf_mul.1 hg
  obtain ⟨hopen, hlast⟩ := mem_starred_of_run hu
  refine ⟨?_, hlast.trans ((List.suffix_cons c u).trans (List.suffix_append v _))⟩
  apply hv.append
  · exact unclosed_cons_iff.2 ⟨fun hc => absurd hc hstar, hopen⟩
  · intro d hd heq
    obtain rfl : c = d := Option.some.inj hd
    exact absurd heq hslash

/-- One more character in front of a comment's body.  A star goes with the first run of stars, or
it is a run of its own and what follows is the first group. -/
theorem cons_mem_commentBody {c : Char} {w : List Char} (hw : w ∈ commentBody)
    (hc : c = '*' → ∀ d ∈ w.head?, d ≠ '/') : c :: w ∈ commentBody := by
  obtain ⟨front, hfront, groups, hgroups, rfl⟩ := Language.mem_mul.1 hw
  obtain ⟨a, ha, s, hs, rfl⟩ := Language.mem_mul.1 hfront
  by_cases hstar : c = '*'
  · subst hstar
    cases a with
    | nil =>
      have hrun : [] ++ '*' :: s ∈ nonStars * stars :=
        Language.append_mem_mul ha (star_cons_mem_stars hs)
      exact Language.append_mem_mul hrun hgroups
    | cons d a =>
      obtain ⟨hd, ha⟩ := List.forall_mem_cons.1 (mem_kstar_oneOf.1 ha)
      have hslash : d ≠ '/' := hc rfl d rfl
      have hgroup : d :: (a ++ s) ∈ starGroup :=
        cons_mem_oneOf_mul ⟨hslash, hd⟩ (Language.append_mem_mul (mem_kstar_oneOf.2 ha) hs)
      have hrest : d :: (a ++ s) ++ groups ∈ starGroup∗ :=
        append_mem_kstar hgroup hgroups
      exact Language.append_mem_mul star_mem_run hrest
  · have hrun : c :: a ∈ nonStars :=
      mem_kstar_oneOf.2 (List.forall_mem_cons.2 ⟨hstar, mem_kstar_oneOf.1 ha⟩)
    exact Language.append_mem_mul (Language.append_mem_mul hrun hs) hgroups

/-- What the rule takes between the opening and the closing slash. -/
theorem commentBody_eq : commentBody = Starred := by
  apply le_antisymm
  · exact mul_kstar_le (fun _ => mem_starred_of_run) fun _ => mem_starred_of_group
  · rintro w ⟨hopen, hlast⟩
    induction w with
    | nil => cases List.suffix_nil.1 hlast
    | cons c w ih =>
      obtain ⟨hfront, hopen⟩ := unclosed_cons_iff.1 hopen
      obtain hwhole | hlast := List.suffix_cons_iff.1 hlast
      · obtain ⟨rfl, rfl⟩ := List.cons.inj hwhole
        exact Language.append_mem_mul star_mem_run (Language.nil_mem_kstar _)
      · exact cons_mem_commentBody (ih hopen hlast) hfront

theorem mem_blockComment_iff {w : List Char} : w ∈ blockComment ↔
    ∃ body, w = '/' :: '*' :: (body ++ ['*', '/']) ∧ Unclosed (body ++ ['*']) := by
  have hbody : ∀ u : List Char, u ∈ commentBody * oneOf (· = '/') ↔
      ∃ body, u = body ++ ['*', '/'] ∧ Unclosed (body ++ ['*']) := by
    intro u
    rw [commentBody_eq]
    constructor
    · intro hu
      obtain ⟨_, ⟨hopen, body, rfl⟩, _, ⟨_, rfl, rfl⟩, rfl⟩ := Language.mem_mul.1 hu
      exact ⟨body, by simp, hopen⟩
    · rintro ⟨body, rfl, hopen⟩
      have hstarred : body ++ ['*'] ∈ Starred := ⟨hopen, List.suffix_append _ _⟩
      have hslash : ['/'] ∈ oneOf (· = '/') := mem_oneOf.2 ⟨'/', rfl, rfl⟩
      have hmem := Language.append_mem_mul hstarred hslash
      rwa [List.append_assoc] at hmem
  constructor
  · intro h
    obtain ⟨_, u, rfl, hu, rfl⟩ := mem_oneOf_mul.1 h
    obtain ⟨_, v, rfl, hv, rfl⟩ := mem_oneOf_mul.1 hu
    obtain ⟨body, rfl, hopen⟩ := (hbody v).1 hv
    exact ⟨body, rfl, hopen⟩
  · rintro ⟨body, rfl, hopen⟩
    exact cons_mem_oneOf_mul rfl (cons_mem_oneOf_mul rfl ((hbody _).2 ⟨body, rfl, hopen⟩))

/-! ### The first end -/

/-- The end of a comment stands at the index. -/
def ClosesAt (text : List Char) (i : Nat) : Prop := ['*', '/'] <+: text.drop i

instance (text : List Char) (i : Nat) : Decidable (ClosesAt text i) :=
  inferInstanceAs (Decidable (_ <+: _))

/-- The end that stands first behind the two characters that open a comment. -/
structure ClosesFirstAt (text : List Char) (i : Nat) : Prop where
  behind : 2 ≤ i
  closes : ClosesAt text i
  first : ∀ j, 2 ≤ j → ClosesAt text j → i ≤ j

section ends

variable {text v w : List Char} {c d : Char} {i j : Nat}

theorem closesAt_append_length : ClosesAt (v ++ w) v.length ↔ ['*', '/'] <+: w := by
  rw [ClosesAt, List.drop_left]

theorem ClosesAt.add_two_le (h : ClosesAt text i) : i + 2 ≤ text.length := by
  have hle := List.IsPrefix.length_le h
  simp only [List.length_drop, List.length_cons, List.length_nil] at hle
  omega

/-- An end that stands in the first of two texts. -/
theorem closesAt_append_of_le (h : i + 2 ≤ v.length) : ClosesAt (v ++ w) i ↔ ClosesAt v i := by
  rw [ClosesAt, ClosesAt, List.drop_append_of_le_length (by omega)]
  constructor
  · intro hpre
    refine List.prefix_of_prefix_length_le hpre (List.prefix_append _ w) ?_
    rw [List.length_drop]
    simp only [List.length_cons, List.length_nil]
    omega
  · exact fun hpre => hpre.trans (List.prefix_append _ w)

theorem unclosed_iff : Unclosed text ↔ ∀ i, ¬ ClosesAt text i := by
  constructor
  · intro h i hi
    exact h (hi.isInfix.trans (List.drop_suffix i text).isInfix)
  · rintro h ⟨before, after, rfl⟩
    apply h before.length
    rw [List.append_assoc, closesAt_append_length]
    exact List.prefix_append _ after

theorem ClosesFirstAt.unique (hi : ClosesFirstAt text i) (hj : ClosesFirstAt text j) : i = j :=
  Nat.le_antisymm (hi.first j hj.behind hj.closes) (hj.first i hi.behind hi.closes)

/-- Ends behind the two characters in front of a text are the ends in that text. -/
theorem closesAt_behind : (∃ i, 2 ≤ i ∧ ClosesAt (c :: d :: text) i) ↔ ¬ Unclosed text := by
  rw [unclosed_iff]
  push Not
  constructor
  · rintro ⟨i, hi, hclose⟩
    obtain ⟨k, rfl⟩ := Nat.exists_eq_add_of_le' hi
    exact ⟨k, hclose⟩
  · rintro ⟨k, hclose⟩
    exact ⟨k + 2, Nat.le_add_left 2 k, hclose⟩

/-- A body that is not closed before its last star is closed there first. -/
theorem closesFirstAt_body (h : Unclosed (v ++ ['*'])) (rest : List Char) :
    ClosesFirstAt (c :: d :: (v ++ '*' :: '/' :: rest)) (v.length + 2) where
  behind := Nat.le_add_left 2 _
  closes := closesAt_append_length.2 (List.prefix_append ['*', '/'] rest)
  first j hj hclose := by
    obtain ⟨k, rfl⟩ := Nat.exists_eq_add_of_le' hj
    have hclose : ClosesAt (v ++ '*' :: '/' :: rest) k := hclose
    by_contra hlt
    have hsplit : v ++ '*' :: '/' :: rest = v ++ ['*'] ++ '/' :: rest := by simp
    rw [hsplit, closesAt_append_of_le (by simp; omega)] at hclose
    exact unclosed_iff.1 h k hclose

end ends

section matching

variable {w cs rest : List Char}

/-- A comment written out: it opens, it closes at its end, and nowhere in between. -/
theorem mem_blockComment_iff_closes : w ∈ blockComment ↔
    ['/', '*'] <+: w ∧ ['*', '/'] <:+ w ∧ 4 ≤ w.length ∧
      ∀ i, 2 ≤ i → ClosesAt w i → i + 2 = w.length := by
  rw [mem_blockComment_iff]
  constructor
  · rintro ⟨body, rfl, hopen⟩
    have hfirst := closesFirstAt_body (c := '/') (d := '*') hopen []
    refine ⟨List.prefix_append ['/', '*'] _, ?_, by simp, fun i hi hclose => ?_⟩
    · exact ⟨'/' :: '*' :: body, by simp⟩
    · have hle := hclose.add_two_le
      have hge := hfirst.first i hi hclose
      simp only [List.length_cons, List.length_append, List.length_nil] at hle ⊢
      omega
  · rintro ⟨⟨more, rfl⟩, hsuffix, hlength, hends⟩
    have hmore : ['*', '/'] <:+ more := by
      refine List.suffix_of_suffix_length_le hsuffix (List.suffix_append _ more) ?_
      simp only [List.length_append, List.length_cons, List.length_nil] at hlength ⊢
      omega
    obtain ⟨body, rfl⟩ := hmore
    refine ⟨body, rfl, unclosed_iff.2 fun i hclose => ?_⟩
    have hle := hclose.add_two_le
    rw [← closesAt_append_of_le (w := ['/']) hle, List.append_assoc] at hclose
    have heq := hends (i + 2) (Nat.le_add_left 2 i) hclose
    simp only [List.length_append, List.length_cons, List.length_nil] at hle heq
    omega

/-- What follows the opening is never closed and cut off as a whole, or it is cut off up to its
first end. -/
theorem cut_comment_cases (cs : List Char) :
    (Unclosed cs ∧ cut '/' ('*' :: cs) = (.stray ('/' :: '*' :: cs), [])) ∨
      ∃ body rest, Unclosed (body ++ ['*']) ∧ cs = body ++ '*' :: '/' :: rest ∧
        cut '/' ('*' :: cs) = (.trivia ('/' :: '*' :: (body ++ ['*', '/'])), rest) := by
  cases hsplit : splitComment? cs with
  | none =>
    refine .inl ⟨unclosed_of_splitComment? hsplit, ?_⟩
    rw [cut_slash, cutSlash, hsplit]
  | some found =>
    obtain ⟨body, rest⟩ := found
    obtain ⟨inner, rfl, hopen⟩ := exists_body_of_splitComment? hsplit
    have hcs := splitComment?_append hsplit
    refine .inr ⟨inner, rest, hopen, by simp [← hcs], ?_⟩
    rw [cut_slash, cutSlash, hsplit]

theorem not_unclosed_append (body rest : List Char) : ¬ Unclosed (body ++ '*' :: '/' :: rest) :=
  fun hopen => hopen ⟨body, rest, by simp⟩

theorem cut_eq_stray_iff : cut '/' ('*' :: cs) = (.stray ('/' :: '*' :: cs), []) ↔ Unclosed cs := by
  obtain ⟨hopen, hcut⟩ | ⟨body, rest, -, rfl, hcut⟩ := cut_comment_cases cs
  · exact iff_of_true hcut hopen
  · rw [hcut]
    exact iff_of_false nofun (not_unclosed_append body rest)

/-- A match in front of a text, and the rest behind it. -/
theorem match_append_iff : w ∈ blockComment ∧ w ++ rest = '/' :: '*' :: cs ↔
    ∃ body, Unclosed (body ++ ['*']) ∧ w = '/' :: '*' :: (body ++ ['*', '/']) ∧
      cs = body ++ '*' :: '/' :: rest := by
  rw [mem_blockComment_iff]
  constructor
  · rintro ⟨⟨body, rfl, hopen⟩, happend⟩
    exact ⟨body, hopen, rfl, by simpa using happend.symm⟩
  · rintro ⟨body, hopen, rfl, rfl⟩
    exact ⟨⟨body, rfl, hopen⟩, by simp⟩

/-- Cutting takes the comment that the rule matches. -/
theorem cut_eq_trivia_iff : cut '/' ('*' :: cs) = (.trivia w, rest) ↔
    w ∈ blockComment ∧ w ++ rest = '/' :: '*' :: cs := by
  rw [match_append_iff]
  constructor
  · intro h
    obtain ⟨-, hcut⟩ | ⟨body, after, hopen, hcs, hcut⟩ := cut_comment_cases cs
    · rw [hcut] at h
      cases h
    · rw [hcut] at h
      cases h
      exact ⟨body, hopen, rfl, hcs⟩
  · rintro ⟨body, hopen, rfl, rfl⟩
    exact cut_block hopen rest

/-- A match in front of a text reaches up to the first end of the comment. -/
theorem closesFirstAt_of_match (hw : w ∈ blockComment) (hpre : w <+: '/' :: '*' :: cs) :
    ∃ i, ClosesFirstAt ('/' :: '*' :: cs) i ∧ w = ('/' :: '*' :: cs).take (i + 2) := by
  obtain ⟨rest, hrest⟩ := hpre
  obtain ⟨body, hopen, rfl, rfl⟩ := match_append_iff.1 ⟨hw, hrest⟩
  refine ⟨body.length + 2, closesFirstAt_body hopen rest, ?_⟩
  simp [List.take_append]

theorem exists_match_iff : (∃ v ∈ blockComment, v <+: '/' :: '*' :: cs) ↔ ¬ Unclosed cs := by
  constructor
  · rintro ⟨v, hv, rest, hrest⟩
    obtain ⟨body, -, -, rfl⟩ := match_append_iff.1 ⟨hv, hrest⟩
    exact not_unclosed_append body rest
  · intro hclosed
    obtain ⟨hopen, -⟩ | ⟨body, rest, hopen, hcs, -⟩ := cut_comment_cases cs
    · exact absurd hopen hclosed
    · obtain ⟨hmem, happend⟩ := match_append_iff.2 ⟨body, hopen, rfl, hcs⟩
      exact ⟨_, hmem, rest, happend⟩

end matching

/-- **A block comment ends at the first `*/`.**  The rule matches the texts that start with `/*` and
end with `*/`, with no other `*/` behind the two characters that open them.  At most one text in
front of another matches, the one up to the first `*/`; it is the comment that is cut off, and where
none matches the comment is never closed. -/
theorem blockComment_ends_first (w cs : List Char) :
    (w ∈ blockComment ↔ ['/', '*'] <+: w ∧ ['*', '/'] <:+ w ∧ 4 ≤ w.length ∧
      ∀ i, 2 ≤ i → ClosesAt w i → i + 2 = w.length) ∧
    {v | v ∈ blockComment ∧ v <+: '/' :: '*' :: cs}.Subsingleton ∧
    (w ∈ blockComment ∧ w <+: '/' :: '*' :: cs ↔
      ∃ i, ClosesFirstAt ('/' :: '*' :: cs) i ∧ w = ('/' :: '*' :: cs).take (i + 2)) ∧
    ((∃ v ∈ blockComment, v <+: '/' :: '*' :: cs) ↔
      ∃ i, 2 ≤ i ∧ ClosesAt ('/' :: '*' :: cs) i) ∧
    (∀ rest, cut '/' ('*' :: cs) = (.trivia w, rest) ↔
      w ∈ blockComment ∧ w ++ rest = '/' :: '*' :: cs) ∧
    (cut '/' ('*' :: cs) = (.stray ('/' :: '*' :: cs), []) ↔
      ¬ ∃ v ∈ blockComment, v <+: '/' :: '*' :: cs) := by
  refine ⟨mem_blockComment_iff_closes, ?_, ⟨?_, ?_⟩, exists_match_iff.trans closesAt_behind.symm,
    fun rest => cut_eq_trivia_iff, ?_⟩
  · rintro u ⟨hu, hupre⟩ v ⟨hv, hvpre⟩
    obtain ⟨i, hi, rfl⟩ := closesFirstAt_of_match hu hupre
    obtain ⟨j, hj, rfl⟩ := closesFirstAt_of_match hv hvpre
    rw [hi.unique hj]
  · rintro ⟨hw, hpre⟩
    exact closesFirstAt_of_match hw hpre
  · rintro ⟨i, hi, rfl⟩
    obtain ⟨v, hv, hpre⟩ := exists_match_iff.2 (closesAt_behind.1 ⟨i, hi.behind, hi.closes⟩)
    obtain ⟨j, hj, rfl⟩ := closesFirstAt_of_match hv hpre
    rw [hi.unique hj]
    exact ⟨hv, hpre⟩
  · rw [exists_match_iff, not_not]
    exact cut_eq_stray_iff

end StaticCheck
