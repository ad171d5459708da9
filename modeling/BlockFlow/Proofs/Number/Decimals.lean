import Mathlib
import BlockFlow.Number.Decimal

/-! Decimals of one value are one double, and the decimal chosen for a double reads back as it. -/

namespace BlockFlow

theorem roundDiv_mul {k : Nat} (hk : 0 < k) (num den : Nat) :
    roundDiv (num * k) (den * k) = roundDiv num den := by
  have hd : num * k / (den * k) = num / den := Nat.mul_div_mul_right _ _ hk
  have hm : 2 * (num * k % (den * k)) = 2 * (num % den) * k := by
    rw [Nat.mul_mod_mul_right, Nat.mul_assoc]
  have hlt : 2 * (num % den) * k < den * k ↔ 2 * (num % den) < den := Nat.mul_lt_mul_right hk
  have heq : 2 * (num % den) * k = den * k ↔ 2 * (num % den) = den := Nat.mul_left_inj hk.ne'
  simp only [roundDiv, hd, hm, hlt, heq]

theorem roundDiv_mul_self {den : Nat} (hd : 0 < den) (n : Nat) : roundDiv (n * den) den = n := by
  simp [roundDiv, Nat.mul_div_cancel _ hd, hd]

theorem digitCount_mul_ten {c : Nat} (hc : 0 < c) : digitCount (c * 10) = digitCount c + 1 := by
  rw [digitCount, Nat.toDigits_of_base_le (by decide) (by omega), List.length_append,
    Nat.mul_div_cancel _ (by decide)]
  rfl

theorem lt_digitCount {n k : Nat} (h : 10 ^ k ≤ n) : k < digitCount n := by
  rcases Nat.eq_zero_or_pos k with rfl | hk
  · exact Nat.length_toDigits_pos
  · exact not_le.mp fun hle =>
      not_lt.mpr h ((Nat.length_toDigits_le_iff (by decide) hk).mp hle)

theorem digitCount_le {n k : Nat} (hk : 0 < k) (h : n < 10 ^ k) : digitCount n ≤ k :=
  (Nat.length_toDigits_le_iff (by decide) hk).mpr h

namespace Double

theorem ofRatio_mul {k : Nat} (hk : 0 < k) (negative : Bool) (num den : Nat) :
    ofRatio negative (num * k) (den * k) = ofRatio negative num den := by
  have hscaled : num * k * unitsPerOne = num * unitsPerOne * k := Nat.mul_right_comm _ _ _
  have hden (s : Nat) : den * k * Nat.pow 2 s = den * Nat.pow 2 s * k := Nat.mul_right_comm _ _ _
  simp only [ofRatio, hscaled, hden, Nat.mul_div_mul_right _ _ hk, roundDiv_mul hk]

theorem binade_pos : 0 < binade := by decide

theorem unitsPerOne_pos : 0 < unitsPerOne := by
  unfold unitsPerOne
  generalize 1074 = n
  exact Nat.two_pow_pos n

theorem log2_mul_pow {m : Nat} (h : binade ≤ m) (h' : m < 2 * binade) (s : Nat) :
    (m * 2 ^ s).log2 = s + 52 := by
  have hpos : 0 < 2 ^ s := Nat.two_pow_pos s
  have hb : binade = 2 ^ 52 := by decide
  rw [Nat.log2_eq_iff (Nat.mul_pos (by omega) hpos).ne']
  constructor
  · calc 2 ^ (s + 52) = binade * 2 ^ s := by rw [hb, pow_add, Nat.mul_comm]
      _ ≤ m * 2 ^ s := Nat.mul_le_mul_right _ h
  · calc m * 2 ^ s < 2 * binade * 2 ^ s := Nat.mul_lt_mul_of_pos_right h' hpos
      _ = 2 ^ (s + 52 + 1) := by rw [hb, pow_succ, pow_add]; ring

/-- The bits that a magnitude has beyond `53` are its shift. -/
theorem log2_units {rank : Nat} (h : binade ≤ rank) :
    (units rank).log2 = rank / binade - 1 + 52 := by
  have hr : rank % binade < binade := Nat.mod_lt _ binade_pos
  rw [units, if_neg (by omega)]
  exact log2_mul_pow (by omega) (by omega) _

theorem ofRatio_units (negative : Bool) (rank : Fin rankCount) :
    ofRatio negative (units rank) unitsPerOne = .finite negative rank := by
  have hdiv : units rank * unitsPerOne / unitsPerOne = units rank :=
    Nat.mul_div_cancel _ unitsPerOne_pos
  have hround (s m : Nat) (hm : units rank = m * Nat.pow 2 s) :
      roundDiv (units rank * unitsPerOne) (unitsPerOne * Nat.pow 2 s) = m := by
    rw [hm, Nat.mul_assoc, Nat.mul_comm (Nat.pow 2 s)]
    exact roundDiv_mul_self (Nat.mul_pos unitsPerOne_pos (Nat.pow_pos (by decide))) m
  have hrank : ((units rank).log2 - 52) * binade + roundDiv (units rank * unitsPerOne)
      (unitsPerOne * Nat.pow 2 ((units rank).log2 - 52)) = rank := by
    by_cases hb : (rank : Nat) < binade
    · have hu : units rank = rank := if_pos hb
      have hs : (units rank).log2 - 52 = 0 := by
        rw [hu, Nat.sub_eq_zero_iff_le]
        by_cases h0 : (rank : Nat) = 0
        · simp [h0]
        · exact Nat.le_of_lt_succ ((Nat.log2_lt h0).mpr (hb.trans (by decide)))
      rw [hs, hround 0 rank (by simp [hu]), Nat.zero_mul, Nat.zero_add]
    · have hs : (units rank).log2 - 52 = rank / binade - 1 := by
        rw [log2_units (by omega), Nat.add_sub_cancel]
      rw [hs, hround _ (binade + rank % binade) (if_neg hb), ← Nat.add_assoc]
      have hq : (rank / binade - 1) * binade + binade = binade * (rank / binade) := by
        have hpos : 0 < (rank : Nat) / binade := Nat.div_pos (by omega) binade_pos
        rw [← Nat.succ_mul, Nat.succ_eq_add_one, Nat.sub_add_cancel hpos, Nat.mul_comm]
      rw [hq, Nat.div_add_mod]
  simp only [ofRatio, hdiv, hrank, rank.isLt, dite_true]

/-- A zero moved from the coefficient into the exponent does not change the double. -/
theorem ofDecimal_mul_ten (negative : Bool) (c : Nat) (e : Int) :
    ofDecimal negative ⟨c * 10, e⟩ = ofDecimal negative ⟨c, e + 1⟩ := by
  rcases Nat.eq_zero_or_pos c with rfl | hc
  · simp [ofDecimal]
  have hpos : c * 10 ≠ 0 := by omega
  have htop : Decimal.top ⟨c * 10, e⟩ = Decimal.top ⟨c, e + 1⟩ := by
    simp only [Decimal.top, digitCount_mul_ten hc]
    omega
  simp only [ofDecimal, htop, hpos, hc.ne', if_false]
  congr 2
  match e with
  | .ofNat n =>
    change ofRatio negative (c * 10 * 10 ^ n) 1 = ofRatio negative (c * 10 ^ (n + 1)) 1
    rw [pow_succ', Nat.mul_assoc]
  | .negSucc 0 =>
    change ofRatio negative (c * 10) (1 * 10) = ofRatio negative (c * 1) 1
    rw [ofRatio_mul (by decide), Nat.mul_one]
  | .negSucc (n + 1) =>
    change ofRatio negative (c * 10) (10 ^ (n + 1) * 10) = ofRatio negative c (10 ^ (n + 1))
    rw [ofRatio_mul (by decide)]

theorem ofDecimal_mul_pow (negative : Bool) (c k : Nat) (e : Int) :
    ofDecimal negative ⟨c * 10 ^ k, e⟩ = ofDecimal negative ⟨c, e + k⟩ := by
  induction k generalizing e with
  | zero => simp
  | succ k ih =>
    rw [pow_succ, ← Nat.mul_assoc, ofDecimal_mul_ten, ih]
    push_cast
    ring_nf

theorem units_lt {rank q : Nat} (h : rank / binade ≤ q + 1) :
    units rank < 2 * binade * 2 ^ q := by
  have hpos : 0 < 2 ^ q := Nat.two_pow_pos q
  unfold units
  split
  · next hb =>
    calc rank < binade * 1 := by omega
      _ ≤ 2 * binade * 2 ^ q := Nat.mul_le_mul (by decide) hpos
  · have hr : rank % binade < binade := Nat.mod_lt _ binade_pos
    exact Nat.mul_lt_mul_of_lt_of_le (by omega)
      (Nat.pow_le_pow_right Nat.two_pos (by omega)) hpos

theorem units_pos {rank : Nat} (h : 0 < rank) : 0 < units rank := by
  unfold units
  split
  · exact h
  · exact Nat.mul_pos (Nat.add_pos_left binade_pos _) (Nat.two_pow_pos _)

/-- Between the bounds on its top, a decimal with places is read as their ratio. -/
theorem ofDecimal_places (negative : Bool) {c k : Nat} (hc : 0 < c)
    (hlow : k ≤ digitCount c + 330) (hhigh : digitCount c ≤ k + 310) :
    ofDecimal negative ⟨c, -k⟩ = ofRatio negative c (10 ^ k) := by
  have hl : ¬ (digitCount c + -(k : Int) < -330) := by omega
  have hh : ¬ (310 < digitCount c + -(k : Int)) := by omega
  simp only [ofDecimal, Decimal.top, hc.ne', hl, hh, if_false]
  cases k with
  | zero => simp
  | succ k => rfl

/-- All decimal places of a magnitude read back as it. -/
theorem ofDecimal_exactDecimal (negative : Bool) {rank : Fin rankCount} (h : 0 < (rank : Nat)) :
    ofDecimal negative (exactDecimal rank) = .finite negative rank := by
  have hu := units_pos h
  have hq : (rank : Nat) / binade ≤ 2046 := by
    have hlt : (rank : Nat) < binade * 2047 := Nat.mul_comm _ _ ▸ rank.isLt
    exact Nat.le_of_lt_succ (Nat.div_lt_of_lt_mul hlt)
  have hten : 10 ^ 1074 = unitsPerOne * Nat.pow 5 1074 := by decide +kernel
  have hmin : 10 ^ 743 ≤ Nat.pow 5 1074 := by decide +kernel
  have hmax : 2 * binade * 2 ^ 2045 * Nat.pow 5 1074 ≤ 10 ^ 1384 := by decide +kernel
  have hfive : 0 < Nat.pow 5 1074 := by decide +kernel
  unfold exactDecimal
  generalize Nat.pow 5 1074 = five at *
  have hlow : 743 < digitCount (units rank * five) :=
    lt_digitCount (hmin.trans (Nat.le_mul_of_pos_left _ hu))
  have hhigh : digitCount (units rank * five) ≤ 1384 :=
    digitCount_le (by decide) ((Nat.mul_lt_mul_of_pos_right (units_lt hq) hfive).trans_le hmax)
  have he := ofDecimal_places negative (Nat.mul_pos hu hfive)
    (show 1074 ≤ _ by omega) (show _ ≤ 1074 + 310 by omega)
  rw [hten, ofRatio_mul hfive, ofRatio_units] at he
  exact he

theorem onGrid_reads_back {rank : Fin rankCount} {e : Int} {d : Decimal}
    (h : onGrid rank e = some d) : ofDecimal false d = .finite false rank := by
  simp only [onGrid, beq_iff_eq] at h
  generalize (if roundDiv _ _ = _ then _ else _) = far at h
  split at h
  · next hn =>
    cases h
    exact hn
  · split at h
    · next hf =>
      cases h
      exact hf
    · cases h

/-- The text of a double is made from a decimal that reads back as it. -/
theorem ofDecimal_shortest {rank : Fin rankCount} (h : 0 < (rank : Nat)) :
    ofDecimal false (shortest rank) = .finite false rank := by
  unfold shortest
  generalize decimalTop (units rank) unitsPerOne = top
  dsimp only
  cases hf : (List.range 17).findSome? fun (n : Nat) => onGrid rank (top - n - 1) with
  | none =>
    rw [Option.getD_none]
    exact ofDecimal_exactDecimal false h
  | some d =>
    obtain ⟨n, _, hn⟩ := List.exists_of_findSome?_eq_some hf
    rw [Option.getD_some]
    exact onGrid_reads_back hn

end Double

end BlockFlow
