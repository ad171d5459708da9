import Mathlib
import BlockFlow.Proofs.Number.Decimals

/-! Rounding to a double. It keeps the order of numbers, errs by half a step at most, and gives a
number that is close enough to a double this double. -/

namespace BlockFlow

/-! ### Rounding to an integer -/

section

variable {num den num' den' n : Nat}

/-- The nearest integer is at most a half away. -/
theorem roundDiv_bounds (num : Nat) (hd : 0 < den) :
    2 * num ≤ 2 * (roundDiv num den * den) + den ∧
      2 * (roundDiv num den * den) ≤ 2 * num + den := by
  have hmod := Nat.mod_lt num hd
  have hsplit := Nat.div_add_mod' num den
  simp only [roundDiv]
  split
  · omega
  · rw [Nat.add_mul]
    omega

/-- An integer less than a half away is the nearest one. -/
theorem roundDiv_eq (hd : 0 < den) (hlow : 2 * (n * den) < 2 * num + den)
    (hhigh : 2 * num < 2 * (n * den) + den) : roundDiv num den = n := by
  obtain ⟨hle, hge⟩ := roundDiv_bounds num hd
  have hlt : roundDiv num den * den < (n + 1) * den := by
    rw [Nat.add_mul]
    omega
  have hgt : n * den < (roundDiv num den + 1) * den := by
    rw [Nat.add_mul]
    omega
  have hfirst := Nat.lt_of_mul_lt_mul_right hlt
  have hsecond := Nat.lt_of_mul_lt_mul_right hgt
  omega

theorem roundDiv_half (hd : 0 < den) (h : 2 * num = 2 * (n * den) + den) :
    roundDiv num den = if n % 2 = 0 then n else n + 1 := by
  have hdiv : num / den = n := by
    rw [Nat.div_eq_iff hd]
    omega
  have hmod : 2 * (num % den) = den := by
    have hsplit := Nat.div_add_mod' num den
    rw [hdiv] at hsplit
    omega
  simp [roundDiv, hdiv, hmod]

/-- Where the order would be reversed, both numbers would be the same half. -/
theorem roundDiv_mono (hd : 0 < den) (hd' : 0 < den') (h : num * den' ≤ num' * den) :
    roundDiv num den ≤ roundDiv num' den' := by
  by_contra hlt
  obtain ⟨-, hge⟩ := roundDiv_bounds num hd
  obtain ⟨hle, -⟩ := roundDiv_bounds num' hd'
  generalize hn : roundDiv num' den' = n at hlt hle
  have hlow : 2 * (n * den) + den ≤ 2 * num := by
    have hmul : (n + 1) * den ≤ roundDiv num den * den := Nat.mul_le_mul_right _ (by omega)
    rw [Nat.add_mul] at hmul
    omega
  have hsame : (2 * (n * den) + den) * den' = (2 * (n * den') + den') * den := by ring
  have hfirst : 2 * num = 2 * (n * den) + den := by
    refine le_antisymm (Nat.le_of_mul_le_mul_right ?_ hd') hlow
    calc 2 * num * den' = 2 * (num * den') := Nat.mul_assoc _ _ _
      _ ≤ 2 * (num' * den) := Nat.mul_le_mul_left _ h
      _ = 2 * num' * den := (Nat.mul_assoc _ _ _).symm
      _ ≤ (2 * (n * den') + den') * den := Nat.mul_le_mul_right _ hle
      _ = (2 * (n * den) + den) * den' := hsame.symm
  have hsecond : 2 * num' = 2 * (n * den') + den' := by
    refine le_antisymm hle (Nat.le_of_mul_le_mul_right ?_ hd)
    calc (2 * (n * den') + den') * den = 2 * num * den' := by rw [← hsame, hfirst]
      _ = 2 * (num * den') := Nat.mul_assoc _ _ _
      _ ≤ 2 * (num' * den) := Nat.mul_le_mul_left _ h
      _ = 2 * num' * den := (Nat.mul_assoc _ _ _).symm
  rw [roundDiv_half hd hfirst, ← roundDiv_half hd' hsecond, hn] at hlt
  exact hlt le_rfl

end

/-! ### Rounding to a rank -/

namespace Double

/-- The bits that a number of units has beyond `53`. -/
def shift (num den : Nat) : Nat := (num / den).log2 - 52

/-- The rank of the double nearest to `num / den` units. -/
def rankNear (num den : Nat) : Nat :=
  shift num den * binade + roundDiv num (den * 2 ^ shift num den)

variable {num den num' den' : Nat}

theorem ofRatio_eq_finite_iff {negative : Bool} {rank : Fin rankCount} :
    ofRatio negative num den = .finite negative rank ↔ rankNear (num * unitsPerOne) den = rank := by
  change (if h : rankNear (num * unitsPerOne) den < rankCount then
    Double.finite negative ⟨rankNear (num * unitsPerOne) den, h⟩ else .infinite negative) = _ ↔ _
  generalize rankNear (num * unitsPerOne) den = near
  split
  · simp [Fin.ext_iff]
  · next h => exact iff_of_false nofun fun hr => h (hr ▸ rank.isLt)

theorem binade_eq : binade = 2 ^ 52 := by decide

theorem lt_shift (num : Nat) (hd : 0 < den) : num < den * 2 ^ (shift num den + 53) := by
  have hfloor : num / den < 2 ^ (shift num den + 53) :=
    Nat.lt_log2_self.trans_le (Nat.pow_le_pow_right Nat.two_pos (by unfold shift; omega))
  rw [Nat.mul_comm]
  exact (Nat.div_lt_iff_lt_mul hd).mp hfloor

theorem shift_le (h : 0 < shift num den) : den * 2 ^ (shift num den + 52) ≤ num := by
  have hlog : shift num den + 52 = (num / den).log2 := by
    unfold shift at h ⊢
    omega
  have hpos : num / den ≠ 0 := by
    intro hzero
    rw [hzero] at hlog
    simp at hlog
  rw [hlog, Nat.mul_comm]
  exact (Nat.mul_le_mul_right _ (Nat.log2_self_le hpos)).trans (Nat.div_mul_le_self num den)

theorem shift_mono (hd : 0 < den) (hd' : 0 < den') (h : num * den' ≤ num' * den) :
    shift num den ≤ shift num' den' := by
  have hdiv : num / den ≤ num' / den' := by
    rw [Nat.le_div_iff_mul_le hd']
    refine Nat.le_of_mul_le_mul_right ?_ hd
    calc num / den * den' * den = num / den * den * den' := Nat.mul_right_comm _ _ _
      _ ≤ num * den' := Nat.mul_le_mul_right _ (Nat.div_mul_le_self _ _)
      _ ≤ num' * den := h
  have hlog : (num / den).log2 ≤ (num' / den').log2 := by
    rw [Nat.log2_eq_log_two, Nat.log2_eq_log_two]
    exact Nat.log_mono_right hdiv
  unfold shift
  omega

/-- Rounded to a step, a number has at most `53` bits, or is the least one that has more. -/
theorem roundDiv_shift_le (hd : 0 < den) :
    roundDiv num (den * 2 ^ shift num den) ≤ 2 * binade := by
  have hpos : 0 < den * 2 ^ shift num den := Nat.mul_pos hd (Nat.two_pow_pos _)
  rw [← roundDiv_mul_self hpos (2 * binade)]
  refine roundDiv_mono hpos hpos (Nat.mul_le_mul_right _ ?_)
  calc num ≤ den * 2 ^ (shift num den + 53) := (lt_shift num hd).le
    _ = 2 * binade * (den * 2 ^ shift num den) := by rw [binade_eq, pow_add]; ring

theorem le_roundDiv_shift (hd : 0 < den) (h : 0 < shift num den) :
    binade ≤ roundDiv num (den * 2 ^ shift num den) := by
  have hpos : 0 < den * 2 ^ shift num den := Nat.mul_pos hd (Nat.two_pow_pos _)
  rw [← roundDiv_mul_self hpos binade]
  refine roundDiv_mono hpos hpos (Nat.mul_le_mul_right _ ?_)
  calc binade * (den * 2 ^ shift num den) = den * 2 ^ (shift num den + 52) := by
        rw [binade_eq, pow_add]; ring
    _ ≤ num := shift_le h

/-- Rounding keeps the order. -/
theorem rankNear_mono (hd : 0 < den) (hd' : 0 < den') (h : num * den' ≤ num' * den) :
    rankNear num den ≤ rankNear num' den' := by
  rcases (shift_mono hd hd' h).eq_or_lt with heq | hlt
  · unfold rankNear
    rw [heq]
    refine Nat.add_le_add_left (roundDiv_mono ?_ ?_ ?_) _
    · exact Nat.mul_pos hd (Nat.two_pow_pos _)
    · exact Nat.mul_pos hd' (Nat.two_pow_pos _)
    · rw [← Nat.mul_assoc, ← Nat.mul_assoc]
      exact Nat.mul_le_mul_right _ h
  · calc rankNear num den ≤ shift num den * binade + 2 * binade :=
          Nat.add_le_add_left (roundDiv_shift_le hd) _
      _ = (shift num den + 1) * binade + binade := by ring
      _ ≤ shift num' den' * binade + binade :=
          Nat.add_le_add_right (Nat.mul_le_mul_right _ hlt) _
      _ ≤ rankNear num' den' :=
          Nat.add_le_add_left (le_roundDiv_shift hd' (Nat.zero_lt_of_lt hlt)) _

/-- `m` steps of `2 ^ s` units are this magnitude. With the largest `m` they are the least magnitude
with the next step. -/
theorem units_steps {s m : Nat} (hm : m ≤ 2 * binade) (hs : 0 < s → binade ≤ m) :
    units (s * binade + m) = m * 2 ^ s := by
  have hb := binade_pos
  unfold units
  by_cases hsmall : s * binade + m < binade
  · have hzero : s = 0 := by
      by_contra hne
      have := hs (Nat.pos_of_ne_zero hne)
      omega
    rw [if_pos hsmall, hzero]
    omega
  have hle : binade ≤ m := by
    rcases Nat.eq_zero_or_pos s with rfl | hpos
    · omega
    · exact hs hpos
  rw [if_neg hsmall]
  rcases hm.eq_or_lt with rfl | hlt
  · have hrank : s * binade + 2 * binade = (s + 2) * binade := by ring
    rw [hrank, Nat.mul_mod_left, Nat.mul_div_cancel _ hb]
    change (binade + 0) * 2 ^ (s + 1) = _
    rw [pow_succ]
    ring
  · have hrank : s * binade + m = (m - binade) + (s + 1) * binade := by
      rw [Nat.add_mul]
      omega
    have hrest : m - binade < binade := by omega
    rw [hrank, Nat.add_mul_mod_self_right, Nat.mod_eq_of_lt hrest, Nat.add_mul_div_right _ _ hb,
      Nat.div_eq_of_lt hrest]
    change (binade + (m - binade)) * 2 ^ (0 + (s + 1) - 1) = _
    rw [Nat.add_sub_cancel' hle]
    congr 2
    omega

theorem exists_steps (rank : Nat) : ∃ s m, rank = s * binade + m ∧ m < 2 * binade ∧
    (0 < s → binade ≤ m) ∧ units rank = m * 2 ^ s := by
  have hb := binade_pos
  by_cases hsmall : rank < binade
  · exact ⟨0, rank, by omega, by omega, by omega, by rw [units, if_pos hsmall, pow_zero, mul_one]⟩
  · have hmod := Nat.mod_lt rank hb
    have hdiv : 0 < rank / binade := Nat.div_pos (not_lt.mp hsmall) hb
    have hrank : rank = (rank / binade - 1) * binade + (binade + rank % binade) := by
      have hsplit := Nat.div_add_mod' rank binade
      rw [← Nat.add_assoc, ← Nat.succ_mul, Nat.succ_eq_add_one, Nat.sub_add_cancel hdiv]
      exact hsplit.symm
    refine ⟨rank / binade - 1, binade + rank % binade, hrank, by omega, fun _ => by omega, ?_⟩
    exact if_neg hsmall

/-- The magnitude of the nearest rank is the number rounded to a step. -/
theorem units_rankNear (hd : 0 < den) :
    units (rankNear num den) = roundDiv num (den * 2 ^ shift num den) * 2 ^ shift num den :=
  units_steps (roundDiv_shift_le hd) (le_roundDiv_shift hd)

/-- If a magnitude and a number differ by less than a part in `2 ^ 54`, the magnitude is made of
steps that have the width for the number. -/
theorem exists_steps_of_near {rank : Nat} (hd : 0 < den)
    (hlow : (2 ^ 54 - 1) * (units rank * den) < 2 ^ 54 * num)
    (hhigh : 2 ^ 54 * num < (2 ^ 54 + 1) * (units rank * den)) :
    ∃ m, m ≤ 2 * binade ∧ rank = shift num den * binade + m ∧
      units rank = m * 2 ^ shift num den := by
  obtain ⟨t, m, hrank, hm, ht, hunits⟩ := exists_steps rank
  have hlt := lt_shift num hd
  have hge : 0 < shift num den → den * 2 ^ (shift num den + 52) ≤ num := shift_le
  generalize shift num den = s at hlt hge ⊢
  have hb : binade = 2 ^ 52 := binade_eq
  rcases lt_trichotomy t s with hts | rfl | hst
  · -- the number would be at least the next power of two
    have hnum : 2 ^ 53 * (2 ^ t * den) ≤ num := by
      calc 2 ^ 53 * (2 ^ t * den) = den * 2 ^ (t + 1 + 52) := by ring
        _ ≤ den * 2 ^ (s + 52) :=
            Nat.mul_le_mul_left _ (Nat.pow_le_pow_right (by decide) (by omega))
        _ ≤ num := hge (by omega)
    have hmul : (m + 1) * (2 ^ t * den) ≤ 2 ^ 53 * (2 ^ t * den) :=
      Nat.mul_le_mul_right _ (by omega)
    have hpos : 0 < 2 ^ t * den := Nat.mul_pos (Nat.two_pow_pos _) hd
    rw [hunits, Nat.mul_assoc] at hhigh
    rw [Nat.add_mul] at hmul
    omega
  · exact ⟨m, hm.le, hrank, hunits⟩
  · -- the number is below the magnitude, which must be a power of two then
    obtain ⟨k, rfl⟩ := Nat.exists_eq_add_of_lt hst
    have hle := ht (by omega)
    have hnum : num < 2 ^ 53 * (2 ^ s * den) := by
      calc num < den * 2 ^ (s + 53) := hlt
        _ = 2 ^ 53 * (2 ^ s * den) := by ring
    have hpos : 0 < 2 ^ s * den := Nat.mul_pos (Nat.two_pow_pos _) hd
    have hsteps : units rank * den = 2 * (m * 2 ^ k * (2 ^ s * den)) := by
      rw [hunits]
      ring
    rw [hsteps] at hlow
    have hm : m * 2 ^ k < 2 ^ 52 + 1 := by
      by_contra hlarge
      have hmul := Nat.mul_le_mul_right (2 ^ s * den) (not_lt.mp hlarge)
      omega
    have hk : k = 0 := by
      by_contra hk
      have htwo : 2 ^ 1 ≤ 2 ^ k := Nat.pow_le_pow_right (by decide) (Nat.pos_of_ne_zero hk)
      have hmul := Nat.mul_le_mul hle htwo
      omega
    subst hk
    have hmb : m = binade := by omega
    refine ⟨2 * binade, le_rfl, ?_, ?_⟩
    · rw [hrank, hmb]
      ring
    · rw [hunits, hmb]
      ring

/-- A number that differs from a magnitude by less than a part in `2 ^ 54` is rounded to it. -/
theorem rankNear_eq {rank : Nat} (hd : 0 < den)
    (hlow : (2 ^ 54 - 1) * (units rank * den) < 2 ^ 54 * num)
    (hhigh : 2 ^ 54 * num < (2 ^ 54 + 1) * (units rank * den)) : rankNear num den = rank := by
  obtain ⟨m, hm, hrank, hunits⟩ := exists_steps_of_near hd hlow hhigh
  have hwidth : 0 < den * 2 ^ shift num den := Nat.mul_pos hd (Nat.two_pow_pos _)
  have hsteps : units rank * den = m * (den * 2 ^ shift num den) := by
    rw [hunits]
    ring
  have hmul : m * (den * 2 ^ shift num den) ≤ 2 ^ 53 * (den * 2 ^ shift num den) :=
    Nat.mul_le_mul_right _ hm
  rw [hsteps] at hlow hhigh
  rw [rankNear, roundDiv_eq hwidth (n := m) (by omega) (by omega), ← hrank]

end Double

end BlockFlow
