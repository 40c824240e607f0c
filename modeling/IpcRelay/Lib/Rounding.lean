import IpcRelay.Lib.Binary64

/-!
# What the nearest binary64 number is

`toRat` is the rational that a finite number stands for. `ofRatio` keeps a ratio
that is such a number (`ofRatio_exact`), is off by half a unit of the last place
at most (`Nearest`), and yields a number that is not at the edge of its range from
everything that is closer to it than that (`ofRatio_near`).
-/

namespace Binary64

section Integers

variable {n d : Nat}

/-- A ratio by its quotient and its remainder. -/
theorem ratio_split (pos : 0 < d) : (n : ℚ) / d = (n / d : Nat) + (n % d : Nat) / (d : ℚ) := by
  have whole : (d : ℚ) * (n / d : Nat) + (n % d : Nat) = n := by exact_mod_cast Nat.div_add_mod n d
  have positive : (0 : ℚ) < d := by exact_mod_cast pos
  rw [div_eq_iff positive.ne', add_mul, div_mul_cancel₀ _ positive.ne', mul_comm]
  exact whole.symm

/-- Twice the remainder beside the denominator. -/
theorem half_iff (pos : 0 < d) (r : Nat) : (2 * r < d ↔ (r : ℚ) / d < 1 / 2) ∧ (d < 2 * r ↔ 1 / 2 < (r : ℚ) / d) := by
  have positive : (0 : ℚ) < d := by exact_mod_cast pos
  constructor
  · rw [div_lt_iff₀ positive]
    constructor
    · intro lt
      have lt : (2 * r : ℚ) < d := by exact_mod_cast lt
      linarith
    · intro lt
      have lt : (2 * r : ℚ) < d := by linarith
      exact_mod_cast lt
  · rw [lt_div_iff₀ positive]
    constructor
    · intro lt
      have lt : (d : ℚ) < 2 * r := by exact_mod_cast lt
      linarith
    · intro lt
      have lt : (d : ℚ) < 2 * r := by linarith
      exact_mod_cast lt

theorem roundHalfEven_near (pos : 0 < d) : |(roundHalfEven n d : ℚ) - n / d| ≤ 1 / 2 := by
  have positive : (0 : ℚ) < d := by exact_mod_cast pos
  obtain ⟨below, above⟩ := half_iff pos (n % d)
  have small : ((n % d : Nat) : ℚ) / d < 1 := by
    rw [div_lt_one positive]
    exact_mod_cast Nat.mod_lt n pos
  have least : 0 ≤ ((n % d : Nat) : ℚ) / d := by positivity
  rw [ratio_split pos, abs_le, roundHalfEven]
  split
  next lt =>
    have lt := below.1 lt
    constructor <;> linarith
  next notBelow =>
    split
    next gt =>
      have gt := above.1 gt
      push_cast
      constructor <;> linarith
    next notAbove =>
      have least' := not_lt.1 (mt below.2 notBelow)
      have most' := not_lt.1 (mt above.2 notAbove)
      split
      · constructor <;> linarith
      · push_cast
        constructor <;> linarith

/-- The integer that is nearer than a half. -/
theorem roundHalfEven_unique (pos : 0 < d) {k : Nat} (near : |(k : ℚ) - n / d| < 1 / 2) : roundHalfEven n d = k := by
  have rounded := abs_le.1 (roundHalfEven_near (n := n) pos)
  have near := abs_lt.1 near
  have up : (roundHalfEven n d : ℚ) < k + 1 := by linarith
  have down : (k : ℚ) < roundHalfEven n d + 1 := by linarith
  have up : roundHalfEven n d < k + 1 := by exact_mod_cast up
  have down : k < roundHalfEven n d + 1 := by exact_mod_cast down
  omega

/-- Only the ratio counts. -/
theorem roundHalfEven_congr {n' d' : Nat} (pos : 0 < d) (pos' : 0 < d') (same : (n : ℚ) / d = n' / d') :
    roundHalfEven n d = roundHalfEven n' d' := by
  have positive : (0 : ℚ) < d := by exact_mod_cast pos
  have positive' : (0 : ℚ) < d' := by exact_mod_cast pos'
  have small : ((n % d : Nat) : ℚ) / d < 1 := by
    rw [div_lt_one positive]
    exact_mod_cast Nat.mod_lt n pos
  have small' : ((n' % d' : Nat) : ℚ) / d' < 1 := by
    rw [div_lt_one positive']
    exact_mod_cast Nat.mod_lt n' pos'
  have least : 0 ≤ ((n % d : Nat) : ℚ) / d := by positivity
  have least' : 0 ≤ ((n' % d' : Nat) : ℚ) / d' := by positivity
  rw [ratio_split pos, ratio_split pos'] at same
  have up : ((n / d : Nat) : ℚ) < (n' / d' : Nat) + 1 := by linarith
  have down : ((n' / d' : Nat) : ℚ) < (n / d : Nat) + 1 := by linarith
  have up : n / d < n' / d' + 1 := by exact_mod_cast up
  have down : n' / d' < n / d + 1 := by exact_mod_cast down
  have quotient : n / d = n' / d' := by omega
  rw [quotient] at same
  have fraction := add_left_cancel same
  obtain ⟨below, above⟩ := half_iff pos (n % d)
  obtain ⟨below', above'⟩ := half_iff pos' (n' % d')
  rw [fraction] at below above
  unfold roundHalfEven
  simp only [quotient, below, above, below', above']

end Integers

section Scaling

variable {n d : Nat}

theorem scale_pos {b : Nat} (base : 0 < b) (pos : 0 < d) (e : Int) : 0 < (scale b n d e).2 := by
  unfold scale
  split
  · exact pos
  · exact Nat.mul_pos pos (Nat.pow_pos base)

theorem scale_ratio {b : Nat} (base : 0 < b) (e : Int) :
    ((scale b n d e).1 : ℚ) / (scale b n d e).2 = n / d * (b : ℚ) ^ e := by
  have positive : (b : ℚ) ≠ 0 := by exact_mod_cast base.ne'
  unfold scale
  split
  next up =>
    obtain ⟨k, rfl⟩ := Int.eq_ofNat_of_zero_le up
    push_cast
    rw [Int.toNat_natCast, zpow_natCast]
    ring
  next down =>
    obtain ⟨k, hk⟩ := Int.eq_ofNat_of_zero_le (show 0 ≤ -e by omega)
    obtain rfl : e = -k := by omega
    push_cast
    rw [neg_neg, Int.toNat_natCast, zpow_neg, zpow_natCast, ← div_eq_mul_inv, div_div]

/-- The position of the first bit of a ratio. -/
theorem floorLog2_spec (pos : 0 < n) (pos' : 0 < d) :
    (2 : ℚ) ^ floorLog2 n d ≤ n / d ∧ (n : ℚ) / d < 2 ^ (floorLog2 n d + 1) := by
  have positive' : (0 : ℚ) < d := by exact_mod_cast pos'
  have bits : ∀ {k : Nat}, 0 < k → (2 : ℚ) ^ (k.log2 : Int) ≤ k ∧ (k : ℚ) < 2 ^ ((k.log2 : Int) + 1) := by
    intro k positive
    constructor
    · rw [zpow_natCast]
      exact_mod_cast Nat.log2_self_le positive.ne'
    · rw [← Nat.cast_succ, zpow_natCast]
      exact_mod_cast Nat.lt_log2_self
  obtain ⟨least, most⟩ := bits pos
  obtain ⟨least', most'⟩ := bits pos'
  obtain ⟨k, hk⟩ : ∃ k : Int, k = (n.log2 : Int) - d.log2 := ⟨_, rfl⟩
  have two : (2 : ℚ) ≠ 0 := by norm_num
  have lower : (2 : ℚ) ^ (k - 1) < n / d := by
    rw [lt_div_iff₀ positive']
    calc (2 : ℚ) ^ (k - 1) * d < 2 ^ (k - 1) * 2 ^ ((d.log2 : Int) + 1) := by
          apply mul_lt_mul_of_pos_left most'
          positivity
      _ = 2 ^ (n.log2 : Int) := by
          rw [← zpow_add₀ two, hk]
          ring_nf
      _ ≤ n := least
  have upper : (n : ℚ) / d < 2 ^ (k + 1) := by
    rw [div_lt_iff₀ positive']
    calc (n : ℚ) < 2 ^ ((n.log2 : Int) + 1) := most
      _ = 2 ^ (k + 1) * 2 ^ (d.log2 : Int) := by
          rw [← zpow_add₀ two, hk]
          ring_nf
      _ ≤ 2 ^ (k + 1) * d := by
          apply mul_le_mul_of_nonneg_left least'
          positivity
  have ratio := scale_ratio (n := n) (d := d) (b := 2) (by norm_num) (-k)
  have below := scale_pos (n := n) (b := 2) (by norm_num) pos' (-k)
  have below' : (0 : ℚ) < (scale 2 n d (-k)).2 := by exact_mod_cast below
  have reaches : (scale 2 n d (-k)).2 ≤ (scale 2 n d (-k)).1 ↔ (2 : ℚ) ^ k ≤ n / d := by
    rw [← @Nat.cast_le ℚ, ← one_le_div below', ratio, zpow_neg, ← div_eq_mul_inv, le_div_iff₀ (by positivity),
      one_mul, Nat.cast_ofNat]
  unfold floorLog2
  simp only [← hk]
  split
  next le => exact ⟨reaches.1 le, upper⟩
  next lt =>
    refine ⟨lower.le, ?_⟩
    rw [sub_add_cancel]
    exact not_le.1 (mt reaches.2 lt)

/-- The exponent is the only one with this property. -/
theorem floorLog2_unique (pos : 0 < n) (pos' : 0 < d) {k : Int} (lower : (2 : ℚ) ^ k ≤ n / d)
    (upper : (n : ℚ) / d < 2 ^ (k + 1)) : floorLog2 n d = k := by
  obtain ⟨least, most⟩ := floorLog2_spec pos pos'
  have one : (1 : ℚ) < 2 := by norm_num
  have up := (zpow_lt_zpow_iff_right₀ one).1 (least.trans_lt upper)
  have down := (zpow_lt_zpow_iff_right₀ one).1 (lower.trans_lt most)
  omega

end Scaling

namespace Double

/-- The rational that the number stands for. -/
def toRat : Double → Option ℚ
  | .finite negative m e => some ((if negative then -1 else 1) * (m * 2 ^ e))
  | .infinite _ => none

/-- The same number: `==` of the language. -/
def Same : Double → Double → Prop
  | .infinite negative, .infinite negative' => negative = negative'
  | x, y => x.toRat = y.toRat

/-- There is a finite number `m * 2 ^ e`. -/
structure Fits (m : Nat) (e : Int) : Prop where
  least : -1074 ≤ e
  most : e ≤ 971
  bits : m ≤ 2 ^ 53
  finite : e = 971 → m < 2 ^ 53

/-- `m * 2 ^ e` is a number nearest to `x`. -/
structure Nearest (x : ℚ) (m : Nat) (e : Int) : Prop extends Fits m e where
  /-- All 53 bits are used, unless the number is subnormal. -/
  normal : -1074 < e → 2 ^ 52 ≤ m
  near : |(m : ℚ) * 2 ^ e - x| ≤ 2 ^ e / 2

theorem Nearest.le_double {x : ℚ} {m : Nat} {e : Int} (h : Nearest x m e) (positive : 0 ≤ x) : (m : ℚ) * 2 ^ e ≤ 2 * x := by
  have unit : (0 : ℚ) < 2 ^ e := by positivity
  rcases Nat.eq_zero_or_pos m with rfl | positive'
  · simpa using positive
  · have above := (abs_le.1 h.near).2
    have whole : (2 : ℚ) ^ e ≤ m * 2 ^ e := le_mul_of_one_le_left unit.le (by exact_mod_cast positive')
    linarith

section OfRatio

variable {n d : Nat} {negative : Bool}

/-- The exponent of the nearest number to `n / d`. -/
def unit (n d : Nat) : Int := max (-1074) (floorLog2 n d - 52)

/-- The integer that is nearest to the ratio in the units of its last place. -/
def units (n d : Nat) (e : Int) : Nat := roundHalfEven (scale 2 n d (-e)).1 (scale 2 n d (-e)).2

theorem units_near (pos' : 0 < d) (e : Int) : |(units n d e : ℚ) - n / d * 2 ^ (-e)| ≤ 1 / 2 := by
  have near := roundHalfEven_near (n := (scale 2 n d (-e)).1) (scale_pos (n := n) (b := 2) (by norm_num) pos' (-e))
  rwa [scale_ratio (by norm_num), Nat.cast_ofNat] at near

theorem units_unique (pos' : 0 < d) {e : Int} {k : Nat} (near : |(k : ℚ) - n / d * 2 ^ (-e)| < 1 / 2) : units n d e = k := by
  apply roundHalfEven_unique (scale_pos (by norm_num) pos' (-e))
  rwa [scale_ratio (by norm_num), Nat.cast_ofNat]

theorem ofRatio_eq (pos : 0 < n) : ofRatio negative n d =
    if 971 < unit n d ∨ unit n d = 971 ∧ 2 ^ 53 ≤ units n d (unit n d) then .infinite negative
    else .finite negative (units n d (unit n d)) (unit n d) := by
  unfold ofRatio
  rw [if_neg pos.ne']
  rfl

/-- Where the ratio lies in the units of its last place. -/
theorem unit_spec (pos : 0 < n) (pos' : 0 < d) : (n : ℚ) / d * 2 ^ (-unit n d) < 2 ^ 53 ∧
    (-1074 < unit n d → 2 ^ 52 ≤ (n : ℚ) / d * 2 ^ (-unit n d) ∧ unit n d = floorLog2 n d - 52) := by
  obtain ⟨least, most⟩ := floorLog2_spec pos pos'
  obtain ⟨e, he⟩ : ∃ e, e = unit n d := ⟨_, rfl⟩
  have le : floorLog2 n d - 52 ≤ e := he ▸ le_max_right _ _
  have two : (1 : ℚ) ≤ 2 := by norm_num
  rw [← he]
  constructor
  · rw [zpow_neg, ← div_eq_mul_inv, div_lt_iff₀ (by positivity), ← zpow_natCast, ← zpow_add₀ (by norm_num)]
    exact most.trans_le (zpow_le_zpow_right₀ two (by push_cast; omega))
  · intro normal
    have same : e = floorLog2 n d - 52 := by
      rw [he, unit] at normal ⊢
      omega
    refine ⟨?_, same⟩
    rw [zpow_neg, ← div_eq_mul_inv, le_div_iff₀ (by positivity), ← zpow_natCast, ← zpow_add₀ (by norm_num)]
    exact (zpow_le_zpow_right₀ two (by push_cast; omega)).trans least

theorem nearest_units (pos : 0 < n) (pos' : 0 < d)
    (fits : ¬ (971 < unit n d ∨ unit n d = 971 ∧ 2 ^ 53 ≤ units n d (unit n d))) :
    Nearest (n / d) (units n d (unit n d)) (unit n d) := by
  obtain ⟨upper, lower⟩ := unit_spec pos pos'
  have near := units_near (n := n) pos' (unit n d)
  obtain ⟨e, he⟩ : ∃ e, e = unit n d := ⟨_, rfl⟩
  obtain ⟨m, hm⟩ : ∃ m, m = units n d e := ⟨_, rfl⟩
  rw [← he] at upper lower near fits ⊢
  rw [← hm] at near fits ⊢
  obtain ⟨down, up⟩ := abs_le.1 near
  rw [not_or, not_and] at fits
  refine ⟨⟨he ▸ le_max_left _ _, not_lt.1 fits.1, ?_, fun top => not_le.1 (fits.2 top)⟩, fun normal => ?_, ?_⟩
  · have below : (m : ℚ) < 2 ^ 53 + 1 := by linarith
    have below : m < 2 ^ 53 + 1 := by exact_mod_cast below
    omega
  · have above : (2 : ℚ) ^ 52 < m + 1 := by linarith [(lower normal).1]
    have above : 2 ^ 52 < m + 1 := by exact_mod_cast above
    omega
  · have unit : (0 : ℚ) < 2 ^ e := by positivity
    have scaled : (m : ℚ) * 2 ^ e - n / d = (m - n / d * 2 ^ (-e)) * 2 ^ e := by
      rw [sub_mul, mul_assoc _ _ ((2 : ℚ) ^ e), ← zpow_add₀ (by norm_num), neg_add_cancel, zpow_zero, mul_one]
    rw [scaled, abs_mul, abs_of_pos unit]
    calc |(m : ℚ) - n / d * 2 ^ (-e)| * 2 ^ e ≤ 1 / 2 * 2 ^ e := mul_le_mul_of_nonneg_right near unit.le
      _ = 2 ^ e / 2 := by ring

/-- A finite result is nearest to the ratio. -/
theorem ofRatio_nearest (pos : 0 < n) (pos' : 0 < d) {negative' : Bool} {m : Nat} {e : Int}
    (finite : ofRatio negative n d = .finite negative' m e) : negative' = negative ∧ Nearest (n / d) m e := by
  rw [ofRatio_eq pos] at finite
  split at finite
  · cases finite
  next fits =>
    cases finite
    exact ⟨rfl, nearest_units pos pos' fits⟩

theorem ofRatio_fits (pos' : 0 < d) {negative' : Bool} {m : Nat} {e : Int}
    (finite : ofRatio negative n d = .finite negative' m e) : negative' = negative ∧ Fits m e := by
  rcases Nat.eq_zero_or_pos n with rfl | pos
  · rw [ofRatio, if_pos rfl] at finite
    cases finite
    exact ⟨rfl, by norm_num, by norm_num, by norm_num, by norm_num⟩
  · obtain ⟨same, nearest⟩ := ofRatio_nearest pos pos' finite
    exact ⟨same, nearest.toFits⟩

theorem ofRatio_finite (pos : 0 < n) (pos' : 0 < d) (small : (n : ℚ) / d < 2 ^ 1023) :
    ∃ m e, ofRatio negative n d = .finite negative m e ∧ Nearest (n / d) m e := by
  have fits : ¬ (971 < unit n d ∨ unit n d = 971 ∧ 2 ^ 53 ≤ units n d (unit n d)) := by
    intro large
    have top : 1023 ≤ floorLog2 n d := by
      unfold unit at large
      omega
    have least := (floorLog2_spec pos pos').1
    have large : (2 : ℚ) ^ (1023 : Int) ≤ 2 ^ floorLog2 n d := zpow_le_zpow_right₀ (by norm_num) top
    rw [← zpow_natCast] at small
    exact absurd (large.trans_lt (least.trans_lt small)) (lt_irrefl _)
  refine ⟨_, _, ?_, nearest_units pos pos' fits⟩
  rw [ofRatio_eq pos, if_neg fits]

/-- The nearest number is at most twice as large. -/
theorem ofRatio_le_double (pos' : 0 < d) {negative' : Bool} {m : Nat} {e : Int}
    (finite : ofRatio negative n d = .finite negative' m e) : (m : ℚ) * 2 ^ e ≤ 2 * (n / d) := by
  rcases Nat.eq_zero_or_pos n with rfl | pos
  · rw [ofRatio, if_pos rfl] at finite
    cases finite
    simp
  · obtain ⟨-, nearest⟩ := ofRatio_nearest pos pos' finite
    exact nearest.le_double (by positivity)

theorem ofRatio_le (pos' : 0 < d) (small : (n : ℚ) / d < 2 ^ 1023) :
    ∃ m e, ofRatio negative n d = .finite negative m e ∧ (m : ℚ) * 2 ^ e ≤ 2 * (n / d) := by
  obtain ⟨m, e, rounded⟩ : ∃ m e, ofRatio negative n d = .finite negative m e := by
    rcases Nat.eq_zero_or_pos n with rfl | pos
    · exact ⟨0, 0, if_pos rfl⟩
    · obtain ⟨m, e, rounded, -⟩ := @ofRatio_finite n d negative pos pos' small
      exact ⟨m, e, rounded⟩
  exact ⟨m, e, rounded, ofRatio_le_double pos' rounded⟩

theorem divNat_le {m k : Nat} {e : Int} (pos' : 0 < k) (small : (m : ℚ) * 2 ^ e < 2 ^ 1023) :
    ∃ m' e', (Double.finite negative m e).divNat k = .finite negative m' e' ∧
      (m' : ℚ) * 2 ^ e' ≤ 2 * (m * 2 ^ e / k) := by
  have ratio := scale_ratio (n := m) (d := k) (b := 2) (by norm_num) e
  rw [Nat.cast_ofNat, div_mul_eq_mul_div] at ratio
  have positive : (1 : ℚ) ≤ k := by exact_mod_cast pos'
  have least : (0 : ℚ) ≤ m * 2 ^ e := mul_nonneg m.cast_nonneg (zpow_nonneg (by norm_num) e)
  have fits : ((scale 2 m k e).1 : ℚ) / (scale 2 m k e).2 < 2 ^ 1023 := by
    rw [ratio]
    exact lt_of_le_of_lt (div_le_self least positive) small
  obtain ⟨m', e', rounded, le⟩ := @ofRatio_le _ _ negative (scale_pos (by norm_num) pos' e) fits
  rw [ratio] at le
  exact ⟨m', e', rounded, le⟩

/-- Every ratio within half a unit of a number has it as its nearest, but at the edge where the units change. -/
theorem ofRatio_near (pos : 0 < n) (pos' : 0 < d) {m : Nat} {e : Int} (least : -1074 ≤ e) (most : e ≤ 971)
    (lower : 2 ^ 52 < m) (upper : m < 2 ^ 53) (near : |(m : ℚ) * 2 ^ e - n / d| < 2 ^ e / 2) :
    ofRatio negative n d = .finite negative m e := by
  have one : (0 : ℚ) < 2 ^ e := by positivity
  have two : (2 : ℚ) ≠ 0 := by norm_num
  obtain ⟨down, up⟩ := abs_lt.1 near
  have lower : (2 : ℚ) ^ 52 + 1 ≤ m := by exact_mod_cast lower
  have upper' : (m : ℚ) + 1 ≤ 2 ^ 53 := by exact_mod_cast upper
  have exponent : floorLog2 n d = e + 52 := by
    apply floorLog2_unique pos pos'
    · rw [zpow_add₀ two]
      have bound := mul_le_mul_of_nonneg_right lower one.le
      push_cast
      nlinarith
    · rw [show e + 52 + 1 = e + 53 by ring, zpow_add₀ two]
      have bound := mul_le_mul_of_nonneg_right upper' one.le
      nlinarith
  have same : unit n d = e := by
    unfold unit
    omega
  have rounded : units n d e = m := by
    apply units_unique pos'
    have scaled : (m : ℚ) - n / d * 2 ^ (-e) = (m * 2 ^ e - n / d) * 2 ^ (-e) := by
      rw [sub_mul, mul_assoc _ ((2 : ℚ) ^ e), ← zpow_add₀ two, add_neg_cancel, zpow_zero, mul_one]
    rw [scaled, abs_mul, abs_of_pos (by positivity : (0 : ℚ) < 2 ^ (-e))]
    calc |(m : ℚ) * 2 ^ e - n / d| * 2 ^ (-e) < 2 ^ e / 2 * 2 ^ (-e) := mul_lt_mul_of_pos_right near (by positivity)
      _ = 1 / 2 := by
          rw [div_mul_eq_mul_div, ← zpow_add₀ two, add_neg_cancel, zpow_zero]
  rw [ofRatio_eq pos, same, rounded, if_neg (by omega)]

/-- A ratio that has a number is kept. -/
theorem ofRatio_exact (pos : 0 < n) (pos' : 0 < d) {m : Nat} {e : Int} (fits : Fits m e)
    (same : (m : ℚ) * 2 ^ e = n / d) :
    ∃ m' e', ofRatio negative n d = .finite negative m' e' ∧ (m' : ℚ) * 2 ^ e' = n / d := by
  obtain ⟨least, most, upper, finite⟩ := fits
  have two : (2 : ℚ) ≠ 0 := by norm_num
  -- one bit more is a unit more
  wlog small : m < 2 ^ 53 generalizing m e
  · have top : m = 2 ^ 53 := by omega
    have below : e ≠ 971 := fun top => by have := finite top; omega
    refine @this (2 ^ 52) (e + 1) ?_ (by omega) (by omega) (by norm_num) (fun _ => by norm_num) (by norm_num)
    rw [← same, top, zpow_add₀ two]
    push_cast
    ring
  have positive : (0 : ℚ) < n / d := by
    apply div_pos
    · exact_mod_cast pos
    · exact_mod_cast pos'
  have below : unit n d ≤ e := by
    apply max_le least
    have first := (floorLog2_spec pos pos').1
    have width : (m : ℚ) * 2 ^ e < 2 ^ (e + 53) := by
      rw [zpow_add₀ two, mul_comm]
      apply mul_lt_mul_of_pos_left _ (by positivity)
      exact_mod_cast small
    have := (zpow_lt_zpow_iff_right₀ (by norm_num : (1 : ℚ) < 2)).1 (first.trans_lt (same ▸ width))
    omega
  obtain ⟨k, hk⟩ := Int.eq_ofNat_of_zero_le (show 0 ≤ e - unit n d by omega)
  have rounded : units n d (unit n d) = m * 2 ^ k := by
    apply units_unique pos'
    rw [← same, mul_assoc, ← zpow_add₀ two, ← sub_eq_add_neg, hk]
    push_cast
    rw [zpow_natCast, sub_self, abs_zero]
    norm_num
  refine ⟨units n d (unit n d), unit n d, ?_, ?_⟩
  · rw [ofRatio_eq pos, if_neg]
    rintro (large | ⟨top, large⟩)
    · omega
    · have zero : k = 0 := by omega
      rw [rounded, zero, pow_zero, mul_one] at large
      omega
  · rw [rounded, ← same, show e = k + unit n d by omega, zpow_add₀ two]
    push_cast
    rw [zpow_natCast]
    ring

theorem ofRatio_infinite {negative' : Bool} (overflow : ofRatio negative n d = .infinite negative') : negative' = negative := by
  unfold ofRatio at overflow
  split at overflow
  · cases overflow
  · dsimp only at overflow
    split at overflow
    · cases overflow
      rfl
    · cases overflow

/-- A rounded ratio does not fall behind a number that the ratio reaches. -/
theorem ofRatio_ge (pos' : 0 < d) {m m' : Nat} {e e' : Int} {negative' : Bool} (fits : Fits m e)
    (reached : (m : ℚ) * 2 ^ e ≤ n / d) (finite : ofRatio negative n d = .finite negative' m' e') :
    (m : ℚ) * 2 ^ e ≤ m' * 2 ^ e' := by
  rcases Nat.eq_zero_or_pos n with rfl | pos
  · rw [Nat.cast_zero, zero_div] at reached
    exact reached.trans (by positivity)
  obtain ⟨-, nearest⟩ := ofRatio_nearest pos pos' finite
  have near := abs_le.1 nearest.near
  have one : (0 : ℚ) < 2 ^ e' := by positivity
  by_contra! behind
  rcases lt_or_ge e e' with finer | coarser
  · -- a number of a smaller unit is no larger than the least one of 53 bits
    have bits : ((2 ^ 52 : Nat) : ℚ) ≤ m' := by exact_mod_cast nearest.normal (fits.least.trans_lt finer)
    have few : (m : ℚ) ≤ (2 ^ 53 : Nat) := by exact_mod_cast fits.bits
    have unit : (2 : ℚ) ^ e ≤ 2 ^ (e' - 1) := zpow_le_zpow_right₀ (by norm_num) (by omega)
    have half : (2 : ℚ) ^ (e' - 1) = 2 ^ e' / 2 := by rw [zpow_sub_one₀ (by norm_num)]; ring
    have below : (m : ℚ) * 2 ^ e ≤ m' * 2 ^ e' :=
      calc (m : ℚ) * 2 ^ e ≤ (2 ^ 53 : Nat) * (2 ^ e' / 2) := by rw [← half]; gcongr
        _ = (2 ^ 52 : Nat) * 2 ^ e' := by push_cast; ring
        _ ≤ m' * 2 ^ e' := by gcongr
    exact absurd below (not_le.2 behind)
  · -- else both are multiples of one unit, and the ratio is within half of it
    have power : (2 : ℚ) ^ e = ((2 ^ (e - e').toNat : Nat) : ℚ) * 2 ^ e' := by
      rw [Nat.cast_pow, Nat.cast_ofNat, ← zpow_natCast, ← zpow_add₀ (by norm_num)]
      congr 1
      omega
    rw [power, ← mul_assoc] at behind reached
    have next : m' + 1 ≤ m * 2 ^ (e - e').toNat := by
      have less := lt_of_mul_lt_mul_right behind one.le
      exact_mod_cast less
    have next : (m' : ℚ) + 1 ≤ m * (2 ^ (e - e').toNat : Nat) := by exact_mod_cast next
    have passed : ((m' : ℚ) + 1) * 2 ^ e' ≤ n / d := (mul_le_mul_of_nonneg_right next one.le).trans reached
    linarith

theorem ofRatio_same (pos' : 0 < d) {m : Nat} {e : Int} (fits : Fits m e) (same : (m : ℚ) * 2 ^ e = n / d) :
    (ofRatio negative n d).Same (.finite negative m e) := by
  rcases Nat.eq_zero_or_pos n with rfl | pos
  · rw [ofRatio, if_pos rfl, Same, toRat, toRat, same]
    · norm_num
    · rintro _ _ ⟨⟩
  · obtain ⟨m', e', rounded, same'⟩ := @ofRatio_exact n d negative pos pos' m e fits same
    rw [rounded, Same, toRat, toRat, same, same']
    rintro _ _ ⟨⟩

theorem ofDecimal_eq (negative : Bool) (digits : Nat) (exponent : Int) : ofDecimal negative digits exponent =
    ofRatio negative (scale 10 digits 1 exponent).1 (scale 10 digits 1 exponent).2 := rfl

/-- A decimal that has a number is kept. -/
theorem ofDecimal_same {m digits : Nat} {e exponent : Int} (fits : Fits m e)
    (same : (m : ℚ) * 2 ^ e = digits * 10 ^ exponent) :
    (ofDecimal negative digits exponent).Same (.finite negative m e) := by
  rw [ofDecimal_eq]
  apply ofRatio_same (scale_pos (by norm_num) (by norm_num) exponent) fits
  rw [scale_ratio (by norm_num), same]
  push_cast
  rw [div_one]

theorem ofDecimal_fits {digits : Nat} {exponent : Int} {negative' : Bool} {m : Nat} {e : Int}
    (finite : ofDecimal negative digits exponent = .finite negative' m e) : negative' = negative ∧ Fits m e :=
  ofRatio_fits (scale_pos (by norm_num) (by norm_num) exponent) finite

theorem ofDecimal_le_double {digits : Nat} {exponent : Int} {negative' : Bool} {m : Nat} {e : Int}
    (finite : ofDecimal negative digits exponent = .finite negative' m e) :
    (m : ℚ) * 2 ^ e ≤ 2 * (digits * 10 ^ exponent) := by
  rw [ofDecimal_eq] at finite
  have le := ofRatio_le_double (scale_pos (by norm_num) (by norm_num) exponent) finite
  rw [scale_ratio (by norm_num)] at le
  push_cast at le
  rwa [div_one] at le

/-- Numbers of one sign are the same if their magnitudes are. -/
theorem same_finite {m m' : Nat} {e e' : Int} :
    (Double.finite negative m e).Same (.finite negative m' e') ↔ (m : ℚ) * 2 ^ e = m' * 2 ^ e' := by
  rw [Same, toRat, toRat, Option.some_inj]
  · cases negative <;> simp
  · rintro _ _ ⟨⟩

end OfRatio

section Thousandths

theorem thousandths_eq (m : Nat) (e : Int) :
    thousandths m e = roundHalfEven (scale 2 (m * 1000) 1 e).1 (scale 2 (m * 1000) 1 e).2 := rfl

theorem thousandths_near (m : Nat) (e : Int) : |(thousandths m e : ℚ) - 1000 * (m * 2 ^ e)| ≤ 1 / 2 := by
  have near := roundHalfEven_near (n := (scale 2 (m * 1000) 1 e).1)
    (scale_pos (n := m * 1000) (d := 1) (b := 2) (by norm_num) (by norm_num) e)
  rw [scale_ratio (by norm_num)] at near
  push_cast at near
  rw [div_one, mul_comm (m : ℚ), mul_assoc] at near
  exact near

theorem thousandths_unique {m : Nat} {e : Int} {k : Nat} (near : |(k : ℚ) - 1000 * (m * 2 ^ e)| < 1 / 2) :
    thousandths m e = k := by
  rw [thousandths_eq]
  apply roundHalfEven_unique (scale_pos (by norm_num) (by norm_num) e)
  rw [scale_ratio (by norm_num)]
  push_cast
  rwa [div_one, mul_comm (m : ℚ), mul_assoc]

theorem thousandths_congr {m m' : Nat} {e e' : Int} (same : (m : ℚ) * 2 ^ e = m' * 2 ^ e') :
    thousandths m e = thousandths m' e' := by
  rw [thousandths_eq, thousandths_eq]
  apply roundHalfEven_congr (scale_pos (by norm_num) (by norm_num) e) (scale_pos (by norm_num) (by norm_num) e')
  rw [scale_ratio (by norm_num), scale_ratio (by norm_num)]
  push_cast
  rw [div_one, div_one, mul_right_comm, same, mul_right_comm]

/-- A number nearest to some thousandths is nearest to its own thousandths, if it is not an integer. -/
theorem ofRatio_thousandths {j m : Nat} {e : Int} {negative : Bool} (pos : 0 < j)
    (rounded : ofRatio negative j 1000 = .finite negative m e) (fraction : ∀ k : Nat, (m : ℚ) * 2 ^ e ≠ k) :
    0 < thousandths m e ∧ ofRatio negative (thousandths m e) 1000 = .finite negative m e := by
  obtain ⟨-, nearest⟩ := ofRatio_nearest pos (by norm_num) rounded
  have one : (0 : ℚ) < 2 ^ e := by positivity
  have near := abs_le.1 nearest.near
  push_cast at near
  rcases lt_or_ge e (-9) with fine | coarse
  · -- the thousandths are those it comes from
    have unit : (2 : ℚ) ^ e ≤ 2 ^ (-10 : Int) := zpow_le_zpow_right₀ (by norm_num) (by omega)
    norm_num at unit
    have same : thousandths m e = j := by
      apply thousandths_unique
      rw [abs_lt]
      constructor <;> linarith
    rw [same]
    exact ⟨pos, rounded⟩
  · -- the units of the last place are larger than the thousandths
    have unit : (2 : ℚ) ^ (-9 : Int) ≤ 2 ^ e := zpow_le_zpow_right₀ (by norm_num) coarse
    norm_num at unit
    have whole : ∀ k : Nat, 0 ≤ e + k → m ≠ 2 ^ k := by
      rintro k up rfl
      obtain ⟨i, hi⟩ := Int.eq_ofNat_of_zero_le up
      apply fraction (2 ^ i)
      push_cast
      rw [← zpow_natCast, ← zpow_natCast, ← zpow_add₀ (by norm_num), ← hi, add_comm]
    have normal := nearest.normal (by omega)
    have lower : 2 ^ 52 < m := lt_of_le_of_ne normal (whole 52 (by omega)).symm
    have upper : m < 2 ^ 53 := lt_of_le_of_ne nearest.bits (whole 53 (by omega))
    obtain ⟨down, up⟩ := abs_le.1 (thousandths_near m e)
    have counted : 0 < thousandths m e := by
      have large : (2 : ℚ) ^ 52 ≤ m := by exact_mod_cast normal
      have far : (2 : ℚ) ^ 52 * (1 / 512) ≤ m * 2 ^ e := mul_le_mul large unit (by norm_num) (by positivity)
      have positive : (0 : ℚ) < thousandths m e := by
        norm_num at far
        linarith
      exact_mod_cast positive
    refine ⟨counted, ofRatio_near counted (by norm_num) nearest.least nearest.most lower upper ?_⟩
    push_cast
    rw [abs_lt]
    constructor <;> linarith

end Thousandths

end Double

end Binary64
