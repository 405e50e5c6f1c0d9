import Mathlib.Algebra.Order.Ring.Nat
import Mathlib.Tactic.Ring
import StaticCheck.Binary64
import StaticCheck.Proofs.Lexemes

/-! # Reading written reals

The text of a number is read as that number, whenever the text is a literal at all
(`Binary64.ofLiteral_render`): infinite and negative numbers, and those written as one digit and an
exponent, have texts that are no literals.

Three facts are put together.  What is read depends on the value of a decimal only and not on the
zeros at the end of its digits (`ofDecimal_shift`).  The shortest decimal is read as the number that
it was searched for, and so is the exact decimal that stands behind the search
(`ofDecimal_shortest`).  And a text with a point, positional or with an exponent, writes the decimal
that it was made from (`ofDecimal_positional`, `ofDecimal_scientific`). -/

namespace StaticCheck

namespace Binary64

/-! ### Values of decimals -/

theorem roundDiv_mul_left {k : Nat} (hk : 0 < k) (num den : Nat) :
    roundDiv (k * num) (k * den) = roundDiv num den := by
  have hless : 2 * (k * (num % den)) < k * den ↔ 2 * (num % den) < den := by
    rw [Nat.mul_left_comm]
    exact Nat.mul_lt_mul_left hk
  have hmore : k * den < 2 * (k * (num % den)) ↔ den < 2 * (num % den) := by
    rw [Nat.mul_left_comm]
    exact Nat.mul_lt_mul_left hk
  unfold roundDiv
  simp only [Nat.mul_div_mul_left _ _ hk, Nat.mul_mod_mul_left, hless, gt_iff_lt, hmore]

theorem nearestRank_mul_left {k : Nat} (hk : 0 < k) (num den : Nat) :
    nearestRank (k * num) (k * den) = nearestRank num den := by
  unfold nearestRank
  simp only [Nat.mul_assoc, Nat.mul_div_mul_left _ _ hk, roundDiv_mul_left hk]

/-- A zero at the end of the digits is worth as much as one more in the exponent. -/
theorem nearestRank_ratio_ten_mul (n : Nat) (e : Int) :
    nearestRank (Decimal.ratio ⟨10 * n, e⟩).1 (Decimal.ratio ⟨10 * n, e⟩).2 =
      nearestRank (Decimal.ratio ⟨n, e + 1⟩).1 (Decimal.ratio ⟨n, e + 1⟩).2 := by
  rcases lt_trichotomy e (-1) with he | rfl | he
  · have hpow : (-e).toNat = (-(e + 1)).toNat + 1 := by omega
    simp only [Decimal.ratio, if_neg (show ¬ 0 ≤ e by omega), if_neg (show ¬ 0 ≤ e + 1 by omega),
      Nat.pow_eq, hpow, Nat.pow_succ']
    exact nearestRank_mul_left (by omega) _ _
  · have hleft : Decimal.ratio ⟨10 * n, -1⟩ = (10 * n, 10 * 1) := rfl
    have hright : Decimal.ratio ⟨n, -1 + 1⟩ = (n, 1) := by simp [Decimal.ratio]
    rw [hleft, hright]
    exact nearestRank_mul_left (by omega) n 1
  · have hpow : (e + 1).toNat = e.toNat + 1 := by omega
    simp only [Decimal.ratio, if_pos (show 0 ≤ e by omega), if_pos (show 0 ≤ e + 1 by omega),
      Nat.pow_eq, hpow, Nat.pow_succ']
    rw [Nat.mul_left_comm, Nat.mul_assoc]

theorem digitCount_ten_mul {n : Nat} (hn : 0 < n) :
    Decimal.digitCount (10 * n) = Decimal.digitCount n + 1 := by
  have happend := Nat.toDigits_append_toDigits (b := 10) (d := 0) (by omega) hn (by omega)
  have hlength := congrArg List.length happend
  rw [List.length_append] at hlength
  exact hlength.symm

theorem ofDecimal_ten_mul (negative : Bool) (n : Nat) (e : Int) :
    ofDecimal negative ⟨10 * n, e⟩ = ofDecimal negative ⟨n, e + 1⟩ := by
  rcases Nat.eq_zero_or_pos n with rfl | hn
  · simp [ofDecimal]
  · have hpoint : Decimal.point ⟨10 * n, e⟩ = Decimal.point ⟨n, e + 1⟩ := by
      simp only [Decimal.point, digitCount_ten_mul hn]
      omega
    have hzero : 10 * n = 0 ↔ n = 0 := by omega
    simp only [ofDecimal, hpoint, nearestRank_ratio_ten_mul, hzero]

theorem ofDecimal_shift (negative : Bool) (n k : Nat) (e : Int) :
    ofDecimal negative ⟨n * 10 ^ k, e⟩ = ofDecimal negative ⟨n, e + k⟩ := by
  induction k generalizing e with
  | zero => simp
  | succ k ih =>
    have hdigits : n * 10 ^ (k + 1) = 10 * (n * 10 ^ k) := by ring
    have hexponent : e + 1 + k = e + (k + 1 : Nat) := by omega
    rw [hdigits, ofDecimal_ten_mul, ih, hexponent]

theorem ofDecimal_trim (negative : Bool) (d : Decimal) :
    ofDecimal negative d.trim = ofDecimal negative d := by
  fun_induction Decimal.trim d with
  | case1 d h ih =>
    have hdigits : 10 * (d.digits / 10) = d.digits := by omega
    rw [ih, ← ofDecimal_ten_mul, hdigits]
  | case2 d h => rfl

/-! ### The exact decimal -/

theorem log2_band_add_mul {r : Nat} (hr : r < band) (k : Nat) :
    ((band + r) * 2 ^ k).log2 = 52 + k := by
  have hband : band = 2 ^ 52 := rfl
  have hpos : 0 < 2 ^ k := Nat.two_pow_pos k
  rw [Nat.log2_eq_iff (Nat.mul_ne_zero (by omega) hpos.ne')]
  constructor
  · rw [Nat.pow_add, ← hband]
    exact Nat.mul_le_mul_right _ (Nat.le_add_right band r)
  · have hbound : 2 ^ (52 + k + 1) = (band + band) * 2 ^ k := by rw [hband]; ring
    rw [hbound]
    exact Nat.mul_lt_mul_of_pos_right (by omega) hpos

theorem roundDiv_mul_right {k : Nat} (hk : 0 < k) (n : Nat) : roundDiv (n * k) k = n := by
  unfold roundDiv
  simp only [Nat.mul_div_cancel n hk, Nat.mul_mod_left, Nat.mul_zero, if_pos hk]

/-- The spacing of the numbers around a rank, and the rank counted in it. -/
theorem rank_of_units {rank : Nat} (hrank : 0 < rank) :
    ((units rank).log2 - 52) * band + roundDiv (units rank) (2 ^ ((units rank).log2 - 52)) =
      rank := by
  -- the first two bands have a spacing of one unit, each later one twice that of the band before
  by_cases hsmall : rank < band
  · have hlog : rank.log2 < 52 := (Nat.log2_lt hrank.ne').2 hsmall
    have hunits : units rank = rank := if_pos hsmall
    have hshift : rank.log2 - 52 = 0 := by omega
    rw [hunits, hshift, Nat.zero_mul, Nat.zero_add, Nat.pow_zero]
    simpa using roundDiv_mul_right (k := 1) (by omega) rank
  · have hband : 0 < band := by decide
    have hunits : units rank = (band + rank % band) * 2 ^ (rank / band - 1) := if_neg hsmall
    have hlog := log2_band_add_mul (Nat.mod_lt rank hband) (rank / band - 1)
    have hshift : 52 + (rank / band - 1) - 52 = rank / band - 1 := by omega
    rw [hunits, hlog, hshift, roundDiv_mul_right (Nat.two_pow_pos _)]
    have hquot : 0 < rank / band := Nat.div_pos (Nat.le_of_not_lt hsmall) hband
    obtain ⟨q, hq⟩ : ∃ q, rank / band = q + 1 := ⟨rank / band - 1, by omega⟩
    have hsum := Nat.div_add_mod' rank band
    rw [hq] at hsum ⊢
    rw [Nat.add_sub_cancel]
    rw [Nat.add_mul, Nat.one_mul] at hsum
    omega

theorem units_pos {rank : Nat} (hrank : 0 < rank) : 0 < units rank := by
  have hband : 0 < band := by decide
  unfold units
  split
  · exact hrank
  · exact Nat.mul_pos (by omega) (Nat.two_pow_pos _)

theorem units_lt {rank top : Nat} (hrank : rank < (top + 2) * band) :
    units rank < 2 ^ 53 * 2 ^ top := by
  have hband : 2 ^ 53 = 2 * band := rfl
  have hpos : 0 < band := by decide
  have hquot : rank / band < top + 2 := (Nat.div_lt_iff_lt_mul hpos).2 hrank
  have hmod : rank % band < band := Nat.mod_lt rank hpos
  have hone : ∀ k, 1 ≤ 2 ^ k := fun k => Nat.one_le_two_pow
  unfold units
  rw [hband]
  split
  · rename_i hsmall
    calc rank < 2 * band * 1 := by omega
      _ ≤ 2 * band * 2 ^ top := Nat.mul_le_mul_left _ (hone _)
  · calc (band + rank % band) * 2 ^ (rank / band - 1)
        < 2 * band * 2 ^ (rank / band - 1) := Nat.mul_lt_mul_of_pos_right (by omega) (hone _)
      _ ≤ 2 * band * 2 ^ top := Nat.mul_le_mul_left _ (Nat.pow_le_pow_right (by omega) (by omega))

theorem unitsPerOne_pos : 0 < unitsPerOne := by decide +kernel

/-- The exact value of a rank is nearest to that rank. -/
theorem nearestRank_units {rank : Nat} (hrank : 0 < rank) :
    nearestRank (units rank) unitsPerOne = rank := by
  unfold nearestRank
  simp only [Nat.mul_div_cancel _ unitsPerOne_pos, Nat.pow_eq]
  rw [Nat.mul_comm (units rank), roundDiv_mul_left unitsPerOne_pos]
  exact rank_of_units hrank

theorem digitCount_bounds {m low high : Nat} (hlow : 10 ^ low ≤ m) (hhigh : m < 10 ^ high)
    (hpos : 0 < low) : low < Decimal.digitCount m ∧ Decimal.digitCount m ≤ high := by
  have hle : low < high := (Nat.pow_lt_pow_iff_right (by omega)).1 (hlow.trans_lt hhigh)
  constructor
  · by_contra hfew
    have hlt := (Nat.length_toDigits_le_iff (b := 10) (by omega) hpos).1 (Nat.le_of_not_lt hfew)
    omega
  · exact (Nat.length_toDigits_le_iff (by omega) (by omega)).2 hhigh

/-- The value of a rank, written out with so many decimal places that nothing is left. -/
theorem ofDecimal_places {rank : Fin rankLimit} {scale limit : Nat} (places : Nat)
    (hrank : 0 < rank.val) (hscale : 10 ^ places = scale * unitsPerOne)
    (hlow : 10 ^ (places - 331) ≤ scale) (hlimit : units rank < limit)
    (hhigh : scale * limit ≤ 10 ^ (places + 310)) (hplaces : 331 < places) :
    ofDecimal false ⟨units rank * scale, -places⟩ = finite false rank := by
  have hpos : 0 < scale := (Nat.pow_pos (by omega)).trans_le hlow
  have hleast : 10 ^ (places - 331) ≤ units rank * scale :=
    hlow.trans (Nat.le_mul_of_pos_left _ (units_pos hrank))
  have hmost : units rank * scale < 10 ^ (places + 310) := by
    rw [Nat.mul_comm]
    exact (Nat.mul_lt_mul_of_pos_left hlimit hpos).trans_le hhigh
  have hcount := digitCount_bounds hleast hmost (by omega)
  have hratio : Decimal.ratio ⟨units rank * scale, -places⟩ =
      (scale * units rank, scale * unitsPerOne) := by
    have hplace : (-(-(places : Int))).toNat = places := by omega
    simp only [Decimal.ratio, if_neg (show ¬ 0 ≤ -(places : Int) by omega), hplace, Nat.pow_eq,
      hscale, Nat.mul_comm]
  have hnearest : nearestRank (scale * units rank) (scale * unitsPerOne) = rank.val := by
    rw [nearestRank_mul_left hpos, nearestRank_units hrank]
  have hdigits : units rank * scale ≠ 0 := (Nat.mul_pos (units_pos hrank) hpos).ne'
  rw [ofDecimal, if_neg (by simp only [Decimal.point]; omega),
    if_neg (by simp only [Decimal.point]; omega), hratio]
  simp only [hnearest, rank.isLt, dite_true, Fin.eta]

theorem ofDecimal_exactDecimal {rank : Fin rankLimit} (hrank : 0 < rank.val) :
    ofDecimal false (exactDecimal rank) = finite false rank := by
  -- one is `2 ^ 1074` units, so no value needs more than 1074 decimal places
  have hscale : 10 ^ 1074 = Nat.pow 5 1074 * unitsPerOne := by decide +kernel
  have hlow : 10 ^ (1074 - 331) ≤ Nat.pow 5 1074 := by decide +kernel
  have hlimit : units rank < 2 ^ 53 * 2 ^ 2045 := units_lt rank.isLt
  have hhigh : Nat.pow 5 1074 * (2 ^ 53 * 2 ^ 2045) ≤ 10 ^ (1074 + 310) := by decide +kernel
  exact ofDecimal_places 1074 hrank hscale hlow hlimit hhigh (by decide)

/-! ### The shortest decimal -/

theorem ofDecimal_neighbour? {rank : Fin rankLimit} {exponent : Int} {d : Decimal}
    (h : neighbour? rank exponent = some d) : ofDecimal false d = finite false rank := by
  unfold neighbour? at h
  dsimp only at h
  split at h
  · rename_i hbelow
    cases h
    exact of_decide_eq_true hbelow.1
  · split at h
    · rename_i habove
      cases h
      exact of_decide_eq_true habove
    · cases h

theorem ofDecimal_shortest {rank : Fin rankLimit} (hrank : 0 < rank.val) :
    ofDecimal false (shortest rank) = finite false rank := by
  unfold shortest
  rw [ofDecimal_trim]
  cases hfound : (List.range 17).findSome? fun (count : Nat) =>
      neighbour? rank (decimalPoint rank - (count + 1)) with
  | none => exact ofDecimal_exactDecimal hrank
  | some d =>
    obtain ⟨count, -, hd⟩ := List.exists_of_findSome?_eq_some hfound
    exact ofDecimal_neighbour? hd

end Binary64

/-! ### Literals -/

namespace Decimal

theorem natOfDigits_toDigits (n : Nat) : natOfDigits (Nat.toDigits 10 n) = n :=
  Nat.ofDigitChars_toDigits (by omega) (by omega)

theorem natOfDigits_append (a b : List Char) :
    natOfDigits (a ++ b) = 10 ^ b.length * natOfDigits a + natOfDigits b := by
  have happend := Nat.ofDigitChars_append (b := 10) (l := a) (m := b) 0
  rw [Nat.ofDigitChars_eq_ofDigitChars_zero (l := b)] at happend
  exact happend

theorem natOfDigits_replicate (k : Nat) : natOfDigits (List.replicate k '0') = 0 :=
  Nat.ofDigitChars_replicate_zero

theorem isDigit_of_mem_toDigits {n : Nat} {c : Char} (h : c ∈ Nat.toDigits 10 n) :
    isDigit c = true :=
  isDigit_iff.2 (Char.isDigit_iff_toNat.1 (Nat.isDigit_of_mem_toDigits (by omega) (by omega) h))

theorem isDigit_of_mem_replicate {k : Nat} {c : Char} (h : c ∈ List.replicate k '0') :
    isDigit c = true := by
  rw [List.eq_of_mem_replicate h]
  decide

theorem toList_toString (n : Nat) : (toString n).toList = Nat.toDigits 10 n := by
  rw [Nat.toString_eq_ofList_toDigits, String.toList_ofList]

theorem length_toString (n : Nat) : (toString n).length = digitCount n := by
  rw [← String.length_toList, toList_toString, digitCount]

/-- What a literal with a point writes. -/
theorem ofLiteral_append {whole places exponent : List Char}
    (hwhole : ∀ c ∈ whole, isDigit c = true) (hplaces : ∀ c ∈ places, isDigit c = true)
    (hexponent : ∀ c ∈ exponent.head?, isDigit c = false) :
    ofLiteral (whole ++ '.' :: (places ++ exponent)) =
      ⟨natOfDigits (whole ++ places), readExponent exponent - places.length⟩ := by
  have hpoint : ∀ c ∈ ('.' :: (places ++ exponent)).head?, isDigit c = false := by
    intro c hc
    cases hc
    decide
  have hfirst := span_run hwhole hpoint
  have hsecond := span_run hplaces hexponent
  unfold ofLiteral
  rw [hfirst.1, hfirst.2]
  simp only [splitPlaces, hsecond.1, hsecond.2]

/-- What a literal with a point and no exponent writes. -/
theorem ofLiteral_point {whole places : List Char} (hwhole : ∀ c ∈ whole, isDigit c = true)
    (hplaces : ∀ c ∈ places, isDigit c = true) :
    ofLiteral (whole ++ '.' :: places) = ⟨natOfDigits (whole ++ places), -places.length⟩ := by
  have hnothing : ∀ c ∈ ([] : List Char).head?, isDigit c = false := by
    intro c hc
    cases hc
  have hliteral := ofLiteral_append hwhole hplaces hnothing
  rw [List.append_nil] at hliteral
  rw [hliteral, readExponent, Int.zero_sub]

theorem toList_toString_negSucc (n : Nat) :
    (toString (Int.negSucc n)).toList = '-' :: Nat.toDigits 10 (n + 1) := by
  change ("-" ++ toString (n + 1)).toList = _
  rw [String.toList_append, toList_toString]
  rfl

theorem readExponent_toString (k : Int) : readExponent ('e' :: (toString k).toList) = k := by
  cases k with
  | ofNat n =>
    change readExponent ('e' :: (toString n).toList) = n
    rw [toList_toString]
    obtain ⟨d, ds, hds⟩ := List.exists_cons_of_ne_nil (Nat.toDigits_ne_nil (b := 10) (n := n))
    have hd := isDigit_iff.1 (isDigit_of_mem_toDigits (hds ▸ List.mem_cons_self))
    have hn := natOfDigits_toDigits n
    rw [hds] at hn ⊢
    unfold readExponent
    split
    · rename_i h
      cases h
    · rename_i h
      obtain ⟨-, h⟩ := List.cons.inj h
      obtain ⟨rfl, -⟩ := List.cons.inj h
      exact absurd hd (by decide)
    · rename_i h
      obtain ⟨-, h⟩ := List.cons.inj h
      obtain ⟨rfl, -⟩ := List.cons.inj h
      exact absurd hd (by decide)
    · rename_i h
      obtain ⟨-, rfl⟩ := List.cons.inj h
      rw [hn]
  | negSucc n =>
    rw [toList_toString_negSucc, readExponent, natOfDigits_toDigits]
    rfl

theorem ofLiteral_leadingZeros (n k : Nat) :
    ofLiteral (['0'] ++ '.' :: (List.replicate k '0' ++ Nat.toDigits 10 n)) =
      ⟨n, -(k + digitCount n : Nat)⟩ := by
  have hplaces : ∀ c ∈ List.replicate k '0' ++ Nat.toDigits 10 n, isDigit c = true := by
    intro c hc
    rcases List.mem_append.1 hc with hc | hc
    · exact isDigit_of_mem_replicate hc
    · exact isDigit_of_mem_toDigits hc
  have hzeros : ['0'] ++ List.replicate k '0' = List.replicate (k + 1) '0' := rfl
  rw [ofLiteral_point (List.forall_mem_singleton.2 rfl) hplaces, ← List.append_assoc, hzeros,
    natOfDigits_append, natOfDigits_replicate, natOfDigits_toDigits, Nat.mul_zero, Nat.zero_add,
    List.length_append, List.length_replicate, digitCount]

theorem ofLiteral_pointInside {n k : Nat} (hk : k ≤ digitCount n) :
    ofLiteral ((Nat.toDigits 10 n).take k ++ '.' :: (Nat.toDigits 10 n).drop k) =
      ⟨n, k - digitCount n⟩ := by
  have hdigits : ∀ c ∈ Nat.toDigits 10 n, isDigit c = true := fun _ => isDigit_of_mem_toDigits
  rw [ofLiteral_point (fun c hc => hdigits c (List.mem_of_mem_take hc))
    (fun c hc => hdigits c (List.mem_of_mem_drop hc)), List.take_append_drop, natOfDigits_toDigits,
    List.length_drop, ← digitCount, Decimal.mk.injEq]
  omega

theorem ofLiteral_trailingZeros (n k : Nat) :
    ofLiteral ((Nat.toDigits 10 n ++ List.replicate k '0') ++ '.' :: ['0']) =
      ⟨n * 10 ^ (k + 1), -1⟩ := by
  have hwhole : ∀ c ∈ Nat.toDigits 10 n ++ List.replicate k '0', isDigit c = true := by
    intro c hc
    rcases List.mem_append.1 hc with hc | hc
    · exact isDigit_of_mem_toDigits hc
    · exact isDigit_of_mem_replicate hc
  have hzeros : List.replicate k '0' ++ ['0'] = List.replicate (k + 1) '0' :=
    List.replicate_succ'.symm
  rw [ofLiteral_point hwhole (List.forall_mem_singleton.2 rfl), List.append_assoc, hzeros,
    natOfDigits_append, natOfDigits_replicate, natOfDigits_toDigits, Nat.add_zero,
    List.length_replicate, Nat.mul_comm]
  rfl

theorem ofLiteral_exponent {n : Nat} {first second : Char} {rest : List Char}
    (h : Nat.toDigits 10 n = first :: second :: rest) (k : Int) :
    ofLiteral ([first] ++ '.' :: (second :: rest ++ 'e' :: (toString k).toList)) =
      ⟨n, k + 1 - digitCount n⟩ := by
  have hdigits : ∀ c ∈ first :: second :: rest, isDigit c = true := by
    rw [← h]
    exact fun _ => isDigit_of_mem_toDigits
  have hfirst : ∀ c ∈ [first], isDigit c = true := by
    intro c hc
    exact hdigits c (List.mem_singleton.1 hc ▸ List.mem_cons_self)
  have hpower : ∀ c ∈ ('e' :: (toString k).toList).head?, isDigit c = false := by
    intro c hc
    cases hc
    decide
  rw [ofLiteral_append hfirst (fun c hc => hdigits c (List.mem_cons_of_mem _ hc)) hpower,
    readExponent_toString, List.singleton_append, ← h, natOfDigits_toDigits, digitCount, h,
    Decimal.mk.injEq]
  simp only [List.length_cons, true_and]
  omega

end Decimal

theorem IsReal.uncons {text : List Char} (h : IsReal text) :
    '.' ∈ text ∧ ∃ c cs, text = c :: cs ∧ isDigit c = true := by
  obtain ⟨⟨hne, hall⟩, -, -⟩ := h
  refine ⟨by simp, ?_⟩
  obtain ⟨c, cs, rfl⟩ := List.exists_cons_of_ne_nil hne
  exact ⟨c, _, rfl, hall c List.mem_cons_self⟩

namespace Binary64

open Decimal

theorem toList_zeros (count : Int) : (zeros count).toList = List.replicate count.toNat '0' :=
  String.toList_ofList

theorem ofDecimal_positional (negative : Bool) (n : Nat) (point : Int) :
    ofDecimal negative (.ofLiteral (positional (toString n) point).toList) =
      ofDecimal negative ⟨n, point - digitCount n⟩ := by
  unfold positional
  rw [length_toString]
  dsimp only
  split
  · rename_i hpoint
    have htext : ("0." ++ zeros (-point) ++ toString n).toList =
        ['0'] ++ '.' :: (List.replicate (-point).toNat '0' ++ Nat.toDigits 10 n) := by
      rw [String.toList_append, String.toList_append, toList_zeros, toList_toString]
      rfl
    have hexponent : -((-point).toNat + digitCount n : Nat) = point - digitCount n := by omega
    rw [htext, ofLiteral_leadingZeros, hexponent]
  · split
    · rename_i hpos hlength
      have hplaces : (point.toNat : Int) = point := by omega
      have htext : (String.ofList ((toString n).toList.take point.toNat) ++ "." ++
          String.ofList ((toString n).toList.drop point.toNat)).toList =
          (Nat.toDigits 10 n).take point.toNat ++ '.' :: (Nat.toDigits 10 n).drop point.toNat := by
        simp only [String.toList_append, String.toList_ofList, toList_toString, List.append_assoc]
        rfl
      rw [htext, ofLiteral_pointInside (by omega), hplaces]
    · rename_i hpos hlength
      have hexponent : -1 + ((point - digitCount n).toNat + 1 : Nat) = point - digitCount n := by
        omega
      have htext : (toString n ++ zeros (point - digitCount n) ++ ".0").toList =
          (Nat.toDigits 10 n ++ List.replicate (point - digitCount n).toNat '0') ++
            '.' :: ['0'] := by
        rw [String.toList_append, String.toList_append, toList_zeros, toList_toString]
        rfl
      rw [htext, ofLiteral_trailingZeros, ofDecimal_shift, hexponent]

theorem point_notMem_toString (k : Int) : '.' ∉ (toString k).toList := by
  have hdigits : ∀ n : Nat, '.' ∉ Nat.toDigits 10 n := by
    intro n hmem
    exact absurd (isDigit_of_mem_toDigits hmem) (by decide)
  cases k with
  | ofNat n =>
    change '.' ∉ (toString n).toList
    rw [toList_toString]
    exact hdigits n
  | negSucc n =>
    rw [toList_toString_negSucc]
    exact fun hmem => hdigits (n + 1) (List.mem_of_ne_of_mem (by decide) hmem)

/-- A text with an exponent is a literal only if it has two digits, and then it writes the decimal
it was made from. -/
theorem ofDecimal_scientific (negative : Bool) {n : Nat} {point : Int}
    (h : '.' ∈ (scientific (toString n) point).toList) :
    ofDecimal negative (.ofLiteral (scientific (toString n) point).toList) =
      ofDecimal negative ⟨n, point - digitCount n⟩ := by
  have hexponent : point - 1 + 1 - digitCount n = point - digitCount n := by omega
  unfold scientific at h ⊢
  rw [toList_toString] at h ⊢
  match hds : Nat.toDigits 10 n with
  | [] => exact absurd hds Nat.toDigits_ne_nil
  | [d] =>
    -- a single digit has no point behind it
    have hd : '.' ≠ d := by
      rintro rfl
      exact absurd (isDigit_of_mem_toDigits (n := n) (hds ▸ List.mem_cons_self)) (by decide)
    rw [hds] at h
    simp only [String.toList_append, String.toList_ofList, List.mem_append] at h
    rcases h with (h | h) | h
    · exact absurd (List.mem_singleton.1 h) hd
    · exact absurd h (by decide)
    · exact absurd h (point_notMem_toString _)
  | first :: second :: rest =>
    have htext : (String.ofList (first :: '.' :: second :: rest) ++ "e" ++
        toString (point - 1)).toList =
        [first] ++ '.' :: (second :: rest ++ 'e' :: (toString (point - 1)).toList) := by
      rw [String.toList_append, String.toList_append, String.toList_ofList, List.append_assoc]
      rfl
    dsimp only
    rw [htext, ofLiteral_exponent hds, hexponent]

/-! ### Reading written numbers -/

theorem ofLiteral_written {d : Decimal} {text : String}
    (htext : text = if -3 ≤ d.point ∧ d.point ≤ 16 then positional (toString d.digits) d.point
      else scientific (toString d.digits) d.point) (h : '.' ∈ text.toList) :
    ofLiteral text = ofDecimal false d := by
  have hexponent : d.point - digitCount d.digits = d.exponent := by
    unfold Decimal.point
    omega
  unfold ofLiteral
  subst htext
  split
  · rw [ofDecimal_positional, hexponent]
  · rename_i hfar
    rw [if_neg hfar] at h
    rw [ofDecimal_scientific false h, hexponent]

theorem ofLiteral_renderFinite {rank : Fin rankLimit} (h : '.' ∈ (renderFinite rank).toList) :
    ofLiteral (renderFinite rank) = finite false rank := by
  by_cases hzero : rank.val = 0
  · obtain rfl : rank = ⟨0, rankLimit_pos⟩ := Fin.ext hzero
    decide +kernel
  · have htext : renderFinite rank = _ := if_neg hzero
    rw [ofLiteral_written htext h, ofDecimal_shortest (Nat.pos_of_ne_zero hzero)]

/-- **A written number is read back.**  If the text of a number is a real literal, the literal has
that number as its value. -/
theorem ofLiteral_render {value : Binary64} (h : IsReal value.render.toList) :
    ofLiteral value.render = value := by
  obtain ⟨hpoint, c, cs, htext, hc⟩ := h.uncons
  cases value with
  | finite negative rank =>
    cases negative with
    | false =>
      have hrender : (finite false rank).render = renderFinite rank := String.empty_append
      rw [hrender] at hpoint ⊢
      exact ofLiteral_renderFinite hpoint
    | true =>
      have hrender : (finite true rank).render.toList = '-' :: (renderFinite rank).toList :=
        String.toList_append
      rw [hrender] at htext
      cases htext
      exact absurd hc (by decide)
  | infinite negative =>
    cases negative with
    | false =>
      cases htext
      exact absurd hc (by decide)
    | true =>
      cases htext
      exact absurd hc (by decide)
  | notANumber =>
    cases htext
    exact absurd hc (by decide)

end Binary64

end StaticCheck
