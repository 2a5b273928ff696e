/-
# `LibDrm.Random.Generator` — the random numbers of `xf86drmRandom.c`

`drmRandomCreate` stores a multiplier, a modulus and a seed, `drmRandom` replaces
the seed `x` by `48271 x mod (2^31 - 1)`, computed by Schrage's method in `long`
and `unsigned long`.  These have `w` bits, 32 or 64; nothing below depends on
which (`w` is at least 32 throughout).

**Proved here.**  From the stored seed `s` on, the values are `48271^n s`, every
seed is between 1 and `2^31 - 2`, no product is larger than the modulus, and the
values repeat after `2^31 - 2` steps, no sooner, as 48271 is a primitive root
(`value_eq`, `after_spec`, `products_le`, `values_period`).

The stored seed is the legal value closest to the argument only below
`2 ^ (w - 1)`: an argument from there on is negative as a `long`, and 1 is stored
(`lehmer_iff`).
-/
import LibDrm.Lib.Lehmer
import LibDrm.Lib.Arith
import Mathlib.NumberTheory.LucasPrimality
import Mathlib.Tactic.ReduceModChar
import Mathlib.Tactic.NormNum.Prime

namespace LibDrm.Random

/-! ## The functions -/

/-- The value of a `long` of `w` bits after `x` is stored in it. -/
def toLong (w : Nat) (x : Int) : Int := x.bmod (2 ^ w)

/-- The value of an `unsigned long`. -/
def toULong (w : Nat) (x : Int) : Nat := (x % 2 ^ w).toNat

structure RandomState where
  a : Nat
  m : Nat
  /-- `m` div `a` -/
  q : Nat
  /-- `m` mod `a` -/
  r : Nat
  /-- the value after 10000 iterations -/
  check : Nat
  seed : Int
  deriving DecidableEq, Repr

def drmRandomCreate (w : Nat) (mallocOk : Bool) (seed : Nat) : Option RandomState :=
  if !mallocOk then none
  else
    let a := 48271
    let m := 2147483647
    -- check for illegal boundary conditions; the second comparison is between two `unsigned long`s
    let stored := toLong w seed
    let stored := if stored ≤ 0 then 1 else stored
    let stored := if m ≤ toULong w stored then toLong w (m - 1 : Nat) else stored
    some { a, m, q := m / a, r := m % a, check := 399268537, seed := stored }

/-- `drmRandom`: the value, and the state that is left. -/
def drmRandom (w : Nat) (s : RandomState) : Nat × RandomState :=
  let hi := toLong w (toULong w s.seed / s.q : Nat)
  let lo := toLong w (toULong w s.seed % s.q : Nat)
  let seed := toLong w ((toULong w (s.a * toULong w lo : Nat) : Int) - toULong w (s.r * toULong w hi : Nat))
  let seed := if seed ≤ 0 then toLong w (toULong w seed + s.m : Nat) else seed
  (toULong w seed, { s with seed })

/-- The state after `n` values. -/
def after (w : Nat) (s : RandomState) (n : Nat) : RandomState := (fun s => (drmRandom w s).2)^[n] s

/-- The values, the first of number 0. -/
def value (w : Nat) (s : RandomState) (n : Nat) : Nat := (drmRandom w (after w s n)).1

/-! ## One step -/

/-- A state that `drmRandomCreate` can leave, with a legal seed. -/
structure Legal (s : RandomState) : Prop where
  a : s.a = 48271
  m : s.m = 2147483647
  q : s.q = 44488
  r : s.r = 3399
  seed : 1 ≤ s.seed ∧ s.seed ≤ 2 ^ 31 - 2

variable {w : Nat} {s : RandomState} {x : Int}

theorem pow_le (hw : 32 ≤ w) : (2 : Int) ^ 32 ≤ 2 ^ w := pow_le_pow_right₀ (by decide) hw

theorem toLong_of_range (hw : 32 ≤ w) (h₀ : -2 ^ 31 ≤ x) (h₁ : x < 2 ^ 31) : toLong w x = x := by
  have hpow := pow_le hw
  unfold toLong
  refine Int.bmod_eq_of_le_mul_two ?_ ?_ <;> push_cast <;> omega

theorem toULong_of_range (hw : 32 ≤ w) (h₀ : 0 ≤ x) (h₁ : x < 2 ^ 32) : (toULong w x : Int) = x := by
  unfold toULong
  rw [Int.emod_eq_of_lt h₀ (lt_of_lt_of_le h₁ (pow_le hw)), Int.toNat_of_nonneg h₀]

theorem toULong_natCast (hw : 32 ≤ w) {n : Nat} (hn : n < 2 ^ 32) : toULong w n = n := by
  have h := toULong_of_range (x := n) hw (Int.natCast_nonneg n) (by exact_mod_cast hn)
  exact_mod_cast h

theorem toLong_toULong_add (w : Nat) (x : Int) (n : Nat) : toLong w (toULong w x + n : Nat) = toLong w (x + n) := by
  have hnonneg : 0 ≤ x % 2 ^ w := Int.emod_nonneg x (pow_ne_zero w (by decide))
  unfold toLong toULong
  rw [Nat.cast_add, Int.toNat_of_nonneg hnonneg]
  have hmod : (2 : Int) ^ w = ((2 ^ w : Nat) : Int) := by push_cast; rfl
  rw [hmod]
  exact Int.emod_add_bmod x (2 ^ w)

theorem not_dvd_mul {n : Nat} (h₀ : 0 < n) (h₁ : n < 2147483647) : ¬ 2147483647 ∣ 48271 * n := by
  intro hdvd
  have hcop : Nat.Coprime 2147483647 48271 := by norm_num
  exact absurd (Nat.le_of_dvd h₀ (hcop.dvd_of_dvd_mul_left hdvd)) (Nat.not_le.mpr h₁)

/-- One call multiplies the seed, returns it, and leaves everything else. -/
theorem drmRandom_spec (hw : 32 ≤ w) (h : Legal s) : Legal (drmRandom w s).2
    ∧ (drmRandom w s).1 = 48271 * s.seed.toNat % 2147483647
    ∧ (drmRandom w s).2.seed = ((drmRandom w s).1 : Int) := by
  obtain ⟨n, hn⟩ := Int.eq_ofNat_of_zero_le (show 0 ≤ s.seed by have := h.seed.1; omega)
  obtain ⟨hpos, hlt⟩ : 0 < n ∧ n < 2147483647 := by
    have := h.seed
    omega
  have hseed : toULong w s.seed = n := by rw [hn]; exact toULong_natCast hw (by omega)
  have hlo : toLong w (n % 44488 : Nat) = (n % 44488 : Nat) := toLong_of_range hw (by omega) (by omega)
  have hhi : toLong w (n / 44488 : Nat) = (n / 44488 : Nat) := toLong_of_range hw (by omega) (by omega)
  have hm : (2147483647 : Nat) = 48271 * 44488 + 3399 := rfl
  have hleft := Lehmer.schrage_left_lt (x := n) hm (by decide) (by decide)
  have hright := Lehmer.schrage_right_lt (q := 44488) (r := 3399) (by decide) hlt
  have hfix := Lehmer.schrage_fixup hm (by decide) (by decide) (by decide) hlt (not_dvd_mul hpos hlt) rfl
  have hrem := Nat.mod_lt (48271 * n) (show 0 < 2147483647 by decide)
  have hrem0 : 0 < 48271 * n % 2147483647 :=
    Nat.pos_of_ne_zero fun h0 => not_dvd_mul hpos hlt (Nat.dvd_of_mod_eq_zero h0)
  set y : Int := ((48271 * (n % 44488) : Nat) : Int) - (3399 * (n / 44488) : Nat) with hy
  have hylong : toLong w y = y := toLong_of_range hw (by omega) (by omega)
  have hfixed : toLong w (toULong w y + 2147483647 : Nat) = toLong w (y + 2147483647) := toLong_toULong_add ..
  have hnew : (if y ≤ 0 then toLong w (toULong w y + 2147483647 : Nat) else y)
      = ((48271 * n % 2147483647 : Nat) : Int) := by
    rw [← hfix]
    split
    · rw [hfixed]
      exact toLong_of_range hw (by omega) (by omega)
    · rfl
  have hlo' : toULong w (n % 44488 : Nat) = n % 44488 := toULong_natCast hw (by omega)
  have hhi' : toULong w (n / 44488 : Nat) = n / 44488 := toULong_natCast hw (by omega)
  have hstep : drmRandom w s = (48271 * n % 2147483647, { s with seed := (48271 * n % 2147483647 : Nat) }) := by
    have hval : toULong w (48271 * n % 2147483647 : Nat) = 48271 * n % 2147483647 :=
      toULong_natCast hw (by omega)
    have hleft' : toULong w (48271 * (n % 44488) : Nat) = 48271 * (n % 44488) := toULong_natCast hw (by omega)
    have hright' : toULong w (3399 * (n / 44488) : Nat) = 3399 * (n / 44488) := toULong_natCast hw (by omega)
    unfold drmRandom
    simp only [h.a, h.m, h.q, h.r, hseed, hlo, hhi, hlo', hhi', hleft', hright', ← hy, hylong, hnew, hval]
  rw [hstep]
  refine ⟨⟨h.a, h.m, h.q, h.r, ?_⟩, ?_, rfl⟩
  · show 1 ≤ ((48271 * n % 2147483647 : Nat) : Int) ∧ ((48271 * n % 2147483647 : Nat) : Int) ≤ 2 ^ 31 - 2
    omega
  · rw [hn]
    rfl

/-- Neither product of a step is larger than the modulus, nor is the difference. -/
theorem products_le (h : Legal s) : s.a * (s.seed.toNat % s.q) ≤ 2 ^ 31 - 1 ∧ s.r * (s.seed.toNat / s.q) ≤ 2 ^ 31 - 1
    ∧ |((s.a * (s.seed.toNat % s.q) : Nat) : Int) - (s.r * (s.seed.toNat / s.q) : Nat)| ≤ 2 ^ 31 - 1 := by
  have hm : (2147483647 : Nat) = 48271 * 44488 + 3399 := rfl
  have hlt : s.seed.toNat < 2147483647 := by
    have := h.seed
    omega
  have hleft := Lehmer.schrage_left_lt (x := s.seed.toNat) hm (by decide) (by decide)
  have hright := Lehmer.schrage_right_lt (q := 44488) (r := 3399) (by decide) hlt
  rw [h.a, h.q, h.r]
  refine ⟨by omega, by omega, abs_le.mpr ⟨by omega, by omega⟩⟩

/-! ## Runs -/

theorem after_succ (w : Nat) (s : RandomState) (n : Nat) : after w s (n + 1) = (drmRandom w (after w s n)).2 :=
  Function.iterate_succ_apply' ..

/-- The states and the values from a legal seed on. -/
theorem after_spec (hw : 32 ≤ w) (h : Legal s) (n : Nat) : Legal (after w s n)
    ∧ (after w s n).seed = ((48271 ^ n * s.seed.toNat % 2147483647 : Nat) : Int) := by
  induction n with
  | zero =>
      refine ⟨h, ?_⟩
      have := h.seed
      show s.seed = _
      rw [pow_zero, one_mul, Nat.mod_eq_of_lt (by omega), Int.toNat_of_nonneg (by omega)]
  | succ n ih =>
      obtain ⟨hlegal, hseed⟩ := ih
      obtain ⟨hlegal', hval, hseed'⟩ := drmRandom_spec hw hlegal
      rw [after_succ]
      refine ⟨hlegal', ?_⟩
      rw [hseed', hval, hseed, Int.toNat_natCast, Nat.mul_mod_mod, ← mul_assoc, ← pow_succ']

theorem value_eq (hw : 32 ≤ w) (h : Legal s) (n : Nat) :
    value w s n = 48271 ^ (n + 1) * s.seed.toNat % 2147483647 := by
  obtain ⟨hlegal, hseed⟩ := after_spec hw h n
  obtain ⟨-, hval, -⟩ := drmRandom_spec hw hlegal
  rw [value, hval, hseed, Int.toNat_natCast, Nat.mul_mod_mod, ← mul_assoc, ← pow_succ']

/-! ## The period -/

/-- The primes of `2^31 - 2`. -/
theorem factor_of_dvd {k : Nat} (hk : k.Prime) (hdvd : k ∣ 2147483646) :
    k = 2 ∨ k = 3 ∨ k = 7 ∨ k = 11 ∨ k = 31 ∨ k = 151 ∨ k = 331 := by
  have hfactors : 2147483646 = 2 * 3 ^ 2 * 7 * 11 * 31 * 151 * 331 := by norm_num
  have heq : ∀ {l : Nat}, l.Prime → k ∣ l → k = l := fun hl h => (Nat.prime_dvd_prime_iff_eq hk hl).mp h
  rw [hfactors] at hdvd
  simp only [hk.dvd_mul] at hdvd
  rcases hdvd with (((((h | h) | h) | h) | h) | h) | h
  · exact .inl (heq (by norm_num) h)
  · exact .inr (.inl (heq (by norm_num) (hk.dvd_of_dvd_pow h)))
  · exact .inr (.inr (.inl (heq (by norm_num) h)))
  · exact .inr (.inr (.inr (.inl (heq (by norm_num) h))))
  · exact .inr (.inr (.inr (.inr (.inl (heq (by norm_num) h)))))
  · exact .inr (.inr (.inr (.inr (.inr (.inl (heq (by norm_num) h))))))
  · exact .inr (.inr (.inr (.inr (.inr (.inr (heq (by norm_num) h))))))

theorem pow_full : (48271 : ZMod 2147483647) ^ 2147483646 = 1 := by reduce_mod_char

/-- No smaller power that could be 1 is. -/
theorem pow_div_ne {k : Nat} (hk : k.Prime) (hdvd : k ∣ 2147483646) :
    (48271 : ZMod 2147483647) ^ (2147483646 / k) ≠ 1 := by
  rcases factor_of_dvd hk hdvd with rfl | rfl | rfl | rfl | rfl | rfl | rfl
  all_goals
    norm_num
    reduce_mod_char
    decide

theorem prime_modulus : Nat.Prime 2147483647 :=
  lucas_primality 2147483647 48271 pow_full fun _ hk hdvd => pow_div_ne hk hdvd

/-- The multiplier is a primitive root. -/
theorem orderOf_multiplier : orderOf ((48271 : Nat) : ZMod 2147483647) = 2147483646 :=
  orderOf_eq_of_pow_and_pow_div_prime (by decide) pow_full fun _ hk hdvd => pow_div_ne hk hdvd

theorem values_period (hw : 32 ≤ w) (h : Legal s) :
    IsLeast {t | 0 < t ∧ ∀ n, value w s (n + t) = value w s n} (2 ^ 31 - 2) := by
  have : Fact (Nat.Prime 2147483647) := ⟨prime_modulus⟩
  have hrange := h.seed
  -- the values are the powers, from the second seed on
  have hs : ((48271 * s.seed.toNat : Nat) : ZMod 2147483647) ≠ 0 := by
    rw [Ne, ZMod.natCast_eq_zero_iff]
    exact not_dvd_mul (by omega) (by omega)
  have ha : ((48271 : Nat) : ZMod 2147483647) ≠ 0 := by
    rw [Ne, ZMod.natCast_eq_zero_iff]
    norm_num
  have hpow : ∀ n, value w s n = 48271 ^ n * (48271 * s.seed.toNat) % 2147483647 := fun n => by
    rw [value_eq hw h, pow_succ, mul_assoc]
  have hperiod := Lehmer.power_period ha hs
  rw [orderOf_multiplier] at hperiod
  simp only [hpow]
  exact hperiod

/-! ## The stored seed -/

/-- The legal value closest to the argument. -/
def clamp (seed : Nat) : Nat := max 1 (min seed (2 ^ 31 - 2))

theorem toLong_of_lt (hw : 32 ≤ w) {n : Nat} (hn : n < 2 ^ (w - 1)) : toLong w n = n := by
  obtain ⟨v, rfl⟩ : ∃ v, w = v + 1 := ⟨w - 1, by omega⟩
  have hn' : (n : Int) < 2 ^ v := by exact_mod_cast hn
  unfold toLong
  refine Int.bmod_eq_of_le_mul_two ?_ ?_ <;> rw [pow_succ] <;> push_cast <;> omega

/-- An argument that does not fit in a `long` is stored as a negative number. -/
theorem toLong_neg (hw : 32 ≤ w) {n : Nat} (hn : 2 ^ (w - 1) ≤ n) (hlt : n < 2 ^ w) : toLong w n < 0 := by
  obtain ⟨half, hhalf⟩ : ∃ half, half = 2 ^ (w - 1) := ⟨_, rfl⟩
  have hpow : 2 ^ w = half * 2 := by
    rw [hhalf, ← pow_succ, Nat.sub_add_cancel (by omega)]
  rw [← hhalf] at hn
  rw [hpow] at hlt
  have hrem : (n : Int) % (half * 2 : Nat) = n := Int.emod_eq_of_lt (by omega) (by exact_mod_cast hlt)
  unfold toLong
  rw [hpow, Int.bmod_eq_emod, hrem, if_pos (by omega)]
  omega

theorem toULong_of_lt {n : Nat} (hn : n < 2 ^ w) : toULong w n = n := by
  unfold toULong
  rw [Int.emod_eq_of_lt (Int.natCast_nonneg n) (by exact_mod_cast hn), Int.toNat_natCast]

theorem drmRandomCreate_spec (hw : 32 ≤ w) {seed : Nat} (hseed : seed < 2 ^ w)
    (hs : drmRandomCreate w true seed = some s) :
    Legal s ∧ s.seed = ((if seed < 2 ^ (w - 1) then clamp seed else 1 : Nat) : Int) := by
  obtain rfl := Option.some.inj hs
  have hlast : toLong w (2147483647 - 1 : Nat) = 2147483646 := toLong_of_range hw (by decide) (by decide)
  obtain ⟨y, hy⟩ : ∃ y, y = toLong w seed := ⟨_, rfl⟩
  -- what the two comparisons leave
  have hstored : (if 2147483647 ≤ toULong w (if y ≤ 0 then 1 else y) then toLong w (2147483647 - 1 : Nat)
      else if y ≤ 0 then 1 else y) = ((if seed < 2 ^ (w - 1) then clamp seed else 1 : Nat) : Int) := by
    by_cases hlt : seed < 2 ^ (w - 1)
    · rw [toLong_of_lt hw hlt] at hy
      have hone : (if y ≤ 0 then 1 else y) = ((max 1 seed : Nat) : Int) := by
        split <;> omega
      have hfits : max 1 seed < 2 ^ w := max_lt (Nat.one_lt_two_pow (by omega)) hseed
      rw [if_pos hlt, hlast, hone, toULong_of_lt hfits]
      unfold clamp
      split <;> omega
    · rw [if_neg hlt, if_pos (show y ≤ 0 by rw [hy]; exact (toLong_neg hw (by omega) hseed).le)]
      have hone : toULong w 1 = 1 := toULong_natCast (n := 1) hw (by decide)
      rw [hone]
      rfl
  rw [hy] at hstored
  have hlegal : 1 ≤ ((if seed < 2 ^ (w - 1) then clamp seed else 1 : Nat) : Int)
      ∧ ((if seed < 2 ^ (w - 1) then clamp seed else 1 : Nat) : Int) ≤ 2 ^ 31 - 2 := by
    unfold clamp
    split <;> omega
  rw [← hstored] at hlegal ⊢
  exact ⟨⟨rfl, rfl, rfl, rfl, hlegal⟩, rfl⟩

/-- The generator of an argument: its values, its seeds, the products of its steps, and its period. -/
structure IsLehmer (w : Nat) (seed : Nat) (s : RandomState) : Prop where
  values : ∀ n, value w s n = 48271 ^ (n + 1) * clamp seed % (2 ^ 31 - 1)
  seeds : ∀ n, 1 ≤ (after w s n).seed ∧ (after w s n).seed ≤ 2 ^ 31 - 2
  products : ∀ n, let t := after w s n
    t.a * (t.seed.toNat % t.q) ≤ 2 ^ 31 - 1 ∧ t.r * (t.seed.toNat / t.q) ≤ 2 ^ 31 - 1
    ∧ |((t.a * (t.seed.toNat % t.q) : Nat) : Int) - (t.r * (t.seed.toNat / t.q) : Nat)| ≤ 2 ^ 31 - 1
  period : IsLeast {t | 0 < t ∧ ∀ n, value w s (n + t) = value w s n} (2 ^ 31 - 2)

/-- The generator is the one of its argument exactly if this fits in a `long`. -/
theorem lehmer_iff (hw : 32 ≤ w) {seed : Nat} (hseed : seed < 2 ^ w) (hs : drmRandomCreate w true seed = some s) :
    IsLehmer w seed s ↔ seed < 2 ^ (w - 1) := by
  obtain ⟨hlegal, hstored⟩ := drmRandomCreate_spec hw hseed hs
  constructor
  · intro h
    by_contra hge
    rw [if_neg hge] at hstored
    -- the first value tells 1 from the largest legal seed
    have hval := h.values 0
    have hbig : 2 ^ 31 - 2 ≤ seed := by
      have : 2 ^ 31 ≤ 2 ^ (w - 1) := Nat.pow_le_pow_right (by decide) (by omega)
      omega
    have hclamp : clamp seed = 2147483646 := by
      unfold clamp
      omega
    rw [value_eq hw hlegal, hstored, hclamp] at hval
    exact absurd hval (by decide)
  · intro hlt
    rw [if_pos hlt] at hstored
    refine ⟨fun n => ?_, fun n => (after_spec hw hlegal n).1.seed, fun n => products_le (after_spec hw hlegal n).1,
      values_period hw hlegal⟩
    rw [value_eq hw hlegal, hstored, Int.toNat_natCast]
    norm_num

/-- The argument 1 is legal. -/
theorem lehmer_one : ∃ s, drmRandomCreate 64 true 1 = some s ∧ IsLehmer 64 1 s :=
  ⟨_, rfl, (lehmer_iff (w := 64) (by decide) (by decide) rfl).mpr (by decide)⟩

/-- The smallest argument that is negative as a `long` of 64 bits. -/
theorem not_lehmer_large : ∃ s, drmRandomCreate 64 true (2 ^ 63) = some s ∧ ¬ IsLehmer 64 (2 ^ 63) s :=
  ⟨_, rfl, fun h => absurd (h.values 0) (by decide)⟩

end LibDrm.Random
