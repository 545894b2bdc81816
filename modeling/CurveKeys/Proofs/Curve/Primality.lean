import Mathlib.NumberTheory.LucasPrimality
import Mathlib.Tactic.NormNum.Prime
import Mathlib.Tactic.Ring
import CurveKeys.Curve.Group

/-!
# Curve — the two primes

The order of the coordinate field and the order of the base point are prime.

* `foldl_binaryDigits`: what one digit preserves, reading all digits of a number preserves.  Powers
  and multiples by doubling and adding are instances.
* `IsRoot.prime`: Lucas's test.  A number with an element of multiplicative order one below it is
  prime; the order is shown on the prime factors of that number.
* `isRoot_prime`, `isRoot_order`: the roots for the chains of large primes that divide their
  predecessors, from which `prime_prime` and `order_prime` follow.
-/

namespace CurveKeys.Curve

/-! ### Reading the digits of a number -/

variable {σ : Type}

/-- The `m` low digits of `n`, read after the digits of `v`. -/
theorem foldl_testBit {step : σ → Bool → σ} {R : Nat → σ → Prop}
    (next : ∀ v s d, R v s → R (2 * v + d.toNat) (step s d)) (n : Nat) :
    ∀ (m v : Nat) (s : σ), R v s →
      R (v * 2 ^ m + n % 2 ^ m) (((List.range m).reverse.map n.testBit).foldl step s) := by
  intro m
  induction m with
  | zero => intro v s h; simpa [Nat.mod_one] using h
  | succ m ih =>
      intro v s h
      rw [List.range_succ, List.reverse_append]
      have e : v * 2 ^ (m + 1) + n % 2 ^ (m + 1)
          = (2 * v + (n.testBit m).toNat) * 2 ^ m + n % 2 ^ m := by
        rw [Nat.mod_pow_succ, Nat.toNat_testBit]; ring
      rw [e]
      exact ih _ _ (next v s _ h)

/-- **A fold along the digits.**  If `R` holds of zero and the start, and one digit takes `R` from
`v` to `2v` or `2v + 1`, it holds of `n` and the end. -/
theorem foldl_binaryDigits {step : σ → Bool → σ} {R : Nat → σ → Prop} {s : σ} (zero : R 0 s)
    (next : ∀ v s d, R v s → R (2 * v + d.toNat) (step s d)) (n : Nat) :
    R n ((binaryDigits n).foldl step s) := by
  have h := foldl_testBit next n (n.log2 + 1) 0 s zero
  rwa [Nat.zero_mul, Nat.zero_add, Nat.mod_eq_of_lt Nat.lt_log2_self] at h

/-! ### Lucas's test -/

/-- The power `a ^ n` modulo `m`, along the digits of `n`. -/
def powMod (m a n : Nat) : Nat :=
  (binaryDigits n).foldl (fun r d => if d then r * r % m * a % m else r * r % m) (1 % m)

theorem powMod_eq (m a n : Nat) : powMod m a n = a ^ n % m := by
  refine foldl_binaryDigits (R := fun v r => r = a ^ v % m) rfl (fun v r d h => ?_) n
  subst h
  cases d with
  | false => simp [two_mul, pow_add]
  | true => simp [two_mul, pow_add, Nat.mul_mod]

theorem natCast_pow_eq_one_iff {p a n : Nat} : (a : ZMod p) ^ n = 1 ↔ powMod p a n = 1 % p := by
  rw [powMod_eq, ← Nat.cast_pow, ← Nat.cast_one, ZMod.natCast_eq_natCast_iff']

/-- The order of `a` modulo `p` is `p - 1`, which is the product of the given prime powers. -/
def IsRoot (p a : Nat) (powers : List (Nat × Nat)) : Prop :=
  p = (powers.map fun (q, k) => q ^ k).prod + 1 ∧ powMod p a (p - 1) = 1 % p ∧
    ∀ q ∈ powers.map Prod.fst, powMod p a ((p - 1) / q) ≠ 1 % p

instance (p a : Nat) (powers : List (Nat × Nat)) : Decidable (IsRoot p a powers) :=
  inferInstanceAs (Decidable (_ ∧ _ ∧ _))

theorem IsRoot.prime {p a : Nat} {powers : List (Nat × Nat)} (root : IsRoot p a powers)
    (h : (powers.map Prod.fst).Forall Nat.Prime) : p.Prime := by
  obtain ⟨split, one, proper⟩ := root
  refine lucas_primality p a (natCast_pow_eq_one_iff.mpr one) fun q hq hdvd => ?_
  -- a prime that divides the product is one of the listed ones
  rw [split, Nat.add_sub_cancel] at hdvd
  obtain ⟨_, hr, hqr⟩ := (Prime.dvd_prod_iff hq.prime).mp hdvd
  obtain ⟨⟨r, k⟩, hrk, rfl⟩ := List.mem_map.mp hr
  have hmem : r ∈ powers.map Prod.fst := List.mem_map_of_mem hrk
  have hprime : r.Prime := List.forall_iff_forall_mem.mp h r hmem
  obtain rfl := (Nat.prime_dvd_prime_iff_eq hq hprime).mp (hq.dvd_of_dvd_pow hqr)
  exact fun e => proper q hmem (natCast_pow_eq_one_iff.mp e)

/-! ### The order of the field -/

/-- The large prime factor of `prime - 1`. -/
def primeCofactor : Nat := 205115282021455665897114700593932402728804164701536103180137503955397371

/-- The roots of the primes that lead to `prime`. -/
theorem isRoot_prime :
    IsRoot 173378833005251801 6 [(2, 3), (5, 2), (2621, 1), (24809, 1), (13331831, 1)] ∧
    IsRoot 22149492674086928081353 5 [(2, 3), (3, 1), (5323, 1), (173378833005251801, 1)] ∧
    IsRoot 132896956044521568488119 6 [(2, 1), (3, 1), (22149492674086928081353, 1)] ∧
    IsRoot 255515944373312847190720520512484175977 3
      [(2, 3), (7, 2), (11, 1), (1627, 1), (2657, 1), (4423, 1), (41201, 1), (96557, 1),
       (7240687, 1), (107590001, 1)] ∧
    IsRoot primeCofactor 10
      [(2, 1), (3, 1), (5, 1), (29, 2), (31, 1), (7723, 1), (132896956044521568488119, 1),
       (255515944373312847190720520512484175977, 1)] ∧
    IsRoot prime 3 [(2, 1), (3, 1), (7, 1), (13441, 1), (primeCofactor, 1)] := by
  decide +kernel

theorem primeCofactor_prime : primeCofactor.Prime := by
  obtain ⟨h₁, h₂, h₃, h₄, h₅, -⟩ := isRoot_prime
  have p₁ : Nat.Prime 173378833005251801 :=
    h₁.prime ⟨by norm_num, by norm_num, by norm_num, by norm_num, by norm_num⟩
  have p₂ : Nat.Prime 22149492674086928081353 :=
    h₂.prime ⟨by norm_num, by norm_num, by norm_num, p₁⟩
  have p₃ : Nat.Prime 132896956044521568488119 :=
    h₃.prime ⟨by norm_num, by norm_num, p₂⟩
  have p₄ : Nat.Prime 255515944373312847190720520512484175977 :=
    h₄.prime
      ⟨by norm_num, by norm_num, by norm_num, by norm_num, by norm_num, by norm_num, by norm_num,
        by norm_num, by norm_num, by norm_num⟩
  exact h₅.prime
      ⟨by norm_num, by norm_num, by norm_num, by norm_num, by norm_num, by norm_num, p₃, p₄⟩

theorem prime_prime : Nat.Prime prime := by
  obtain ⟨-, -, -, -, -, h⟩ := isRoot_prime
  exact h.prime ⟨by norm_num, by norm_num, by norm_num, by norm_num, primeCofactor_prime⟩

/-! ### The order of the base point -/

/-- The roots of the primes that lead to `order`. -/
theorem isRoot_order :
    IsRoot 107361793816595537 3 [(2, 4), (16699, 1), (85831, 1), (4681609, 1)] ∧
    IsRoot 174723607534414371449 3
      [(2, 3), (17, 1), (59, 1), (4051, 1), (120233, 1), (44706919, 1)] ∧
    IsRoot 297159362677 2 [(2, 2), (3, 2), (11, 1), (461, 1), (1627771, 1)] ∧
    IsRoot 545358713 5 [(2, 3), (41, 1), (59, 1), (28181, 1)] ∧
    IsRoot 29047611873442575647497758179 2
      [(2, 1), (293, 1), (305873, 1), (545358713, 1), (297159362677, 1)] ∧
    IsRoot 341948486974166000522343609283189 2
      [(2, 2), (3, 3), (109, 1), (29047611873442575647497758179, 1)] ∧
    IsRoot order 7
      [(2, 6), (3, 1), (149, 1), (631, 1), (107361793816595537, 1), (174723607534414371449, 1),
       (341948486974166000522343609283189, 1)] := by
  decide +kernel

theorem order_prime : Nat.Prime order := by
  obtain ⟨h₁, h₂, h₃, h₄, h₅, h₆, h₇⟩ := isRoot_order
  have p₁ : Nat.Prime 107361793816595537 :=
    h₁.prime ⟨by norm_num, by norm_num, by norm_num, by norm_num⟩
  have p₂ : Nat.Prime 174723607534414371449 :=
    h₂.prime ⟨by norm_num, by norm_num, by norm_num, by norm_num, by norm_num, by norm_num⟩
  have p₃ : Nat.Prime 297159362677 :=
    h₃.prime ⟨by norm_num, by norm_num, by norm_num, by norm_num, by norm_num⟩
  have p₄ : Nat.Prime 545358713 :=
    h₄.prime ⟨by norm_num, by norm_num, by norm_num, by norm_num⟩
  have p₅ : Nat.Prime 29047611873442575647497758179 :=
    h₅.prime ⟨by norm_num, by norm_num, by norm_num, p₄, p₃⟩
  have p₆ : Nat.Prime 341948486974166000522343609283189 :=
    h₆.prime ⟨by norm_num, by norm_num, by norm_num, p₅⟩
  exact h₇.prime ⟨by norm_num, by norm_num, by norm_num, by norm_num, p₁, p₂, p₆⟩

end CurveKeys.Curve
