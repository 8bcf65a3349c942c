import DeclArchive.NameIndex.Capacity
import Mathlib.NumberTheory.Bertrand

/-!
# Bucket counts

Trial division by odd numbers up to the square root tells primes from other numbers (`isPrime_iff`). The
search for a prime finds the first one (`firstPrime?_eq_some`), and there is one between any number and
its double. So the number of buckets is the least prime that the load allows (`bucketCountFor_least`).
-/

namespace DeclArchive

/-! ## Primes -/

/-- Trial division from an odd number `d` on looks at every odd number up to the square root, provided
that it may go on for long enough. -/
theorem noOddDivisor_iff {n fuel d : Nat} (odd : d % 2 = 1) (enough : n < d + 2 * fuel) :
    noOddDivisor n fuel d = true ↔ ∀ e, d ≤ e → e % 2 = 1 → e * e ≤ n → ¬ e ∣ n := by
  induction fuel generalizing d with
  | zero =>
    refine iff_of_true rfl fun e above _ square => ?_
    have := Nat.le_mul_self e
    omega
  | succ fuel ih =>
    unfold noOddDivisor
    split_ifs with past divides
    · refine iff_of_true rfl fun e above _ square => ?_
      have := Nat.mul_self_le_mul_self above
      omega
    · refine iff_of_false nofun fun none => ?_
      exact none d (Nat.le_refl d) odd (Nat.not_lt.1 past) (Nat.dvd_of_mod_eq_zero divides)
    · rw [ih (by omega) (by omega)]
      constructor
      · intro none e above odd' square
        -- the next odd number after `d` is `d + 2`
        obtain rfl | later : e = d ∨ d + 2 ≤ e := by omega
        · exact fun dvd => divides (Nat.mod_eq_zero_of_dvd dvd)
        · exact none e later odd' square
      · exact fun none e above => none e (by omega)

/-- **Trial division tells the primes.** -/
theorem isPrime_iff {n : Nat} : isPrime n = true ↔ n.Prime := by
  unfold isPrime
  split_ifs with small even
  · exact iff_of_false nofun fun prime => absurd prime.two_le (by omega)
  · rw [beq_iff_eq]
    constructor
    · rintro rfl
      exact Nat.prime_two
    · exact fun prime => (prime.eq_one_or_self_of_dvd 2 (Nat.dvd_of_mod_eq_zero even)).elim nofun Eq.symm
  · rw [noOddDivisor_iff (by decide) (by omega), Nat.prime_def_le_sqrt]
    constructor
    · intro none
      refine ⟨by omega, fun e two root dvd => ?_⟩
      have odd : e % 2 = 1 := by
        by_contra even'
        have : 2 ∣ n := (Nat.dvd_of_mod_eq_zero (by omega)).trans dvd
        omega
      exact none e (by omega) odd (Nat.le_sqrt.1 root) dvd
    · exact fun prime e above _ square => prime.2 e (by omega) (Nat.le_sqrt.2 square)

/-! ## The search -/

/-- The search finds the first prime, if it comes soon enough. -/
theorem firstPrime?_eq_some {fuel n p : Nat} :
    firstPrime? fuel n = some p ↔ p < n + fuel ∧ IsLeast {q | q.Prime ∧ n ≤ q} p := by
  induction fuel generalizing n with
  | zero =>
    refine iff_of_false nofun fun ⟨soon, least⟩ => ?_
    have : n ≤ p := least.1.2
    omega
  | succ fuel ih =>
    unfold firstPrime?
    split_ifs with here
    · have prime := isPrime_iff.1 here
      constructor
      · intro h
        obtain rfl := Option.some.inj h
        exact ⟨by omega, ⟨prime, Nat.le_refl _⟩, fun _ h => h.2⟩
      · intro ⟨_, least⟩
        exact congrArg some (Nat.le_antisymm least.1.2 (least.2 ⟨prime, Nat.le_refl n⟩))
    · -- `n` itself is no prime, so the primes from `n` on are those from `n + 1` on
      have later : {q | q.Prime ∧ n ≤ q} = {q | q.Prime ∧ n + 1 ≤ q} := by
        ext q
        refine and_congr_right fun prime => ⟨fun le => ?_, fun le => by omega⟩
        have : n ≠ q := fun e => here (isPrime_iff.2 (e ▸ prime))
        omega
      rw [ih, later, Nat.add_right_comm, Nat.add_assoc]

/-- The load asks for `1.3` buckets for each name, and for two at least. -/
theorem loadTarget_le {n q : Nat} : loadTarget n ≤ q ↔ 2 ≤ q ∧ 13 * n ≤ 10 * q := by
  unfold loadTarget
  omega

/-- A search that may go past twice its start ends with a prime. -/
theorem exists_firstPrime? {fuel n : Nat} (pos : 0 < n) (enough : n < fuel) :
    ∃ p, firstPrime? fuel n = some p := by
  obtain ⟨q, prime, above, le⟩ := Nat.exists_prime_lt_and_le_two_mul n pos.ne'
  have some : {q | q.Prime ∧ n ≤ q}.Nonempty := ⟨q, prime, above.le⟩
  have least := isLeast_csInf some
  have before := least.2 ⟨prime, above.le⟩
  exact ⟨_, firstPrime?_eq_some.2 ⟨by omega, least⟩⟩

/-- **The number of buckets** for `n` names is the least prime that is at least two and at least `1.3 n`.
The search for it ends, however much further it may go on, and goes by a test that tells exactly the
primes. -/
theorem bucketCountFor_least (n : Nat) :
    IsLeast {q | q.Prime ∧ 2 ≤ q ∧ 13 * n ≤ 10 * q} (bucketCountFor n) ∧
      (∀ further, firstPrime? (loadTarget n + 1 + further) (loadTarget n) = some (bucketCountFor n)) ∧
      ∀ m, isPrime m = true ↔ m.Prime := by
  have pos : 0 < loadTarget n := (loadTarget_le.1 (Nat.le_refl _)).1.trans_lt' Nat.two_pos
  obtain ⟨p, found⟩ := exists_firstPrime? pos (Nat.lt_add_one _)
  obtain ⟨soon, least⟩ := firstPrime?_eq_some.1 found
  have count : bucketCountFor n = p := by
    show (firstPrime? (loadTarget n + 1) (loadTarget n)).getD (loadTarget n) = p
    rw [found, Option.getD_some]
  rw [count]
  refine ⟨?_, fun further => firstPrime?_eq_some.2 ⟨by omega, least⟩, fun _ => isPrime_iff⟩
  simpa only [loadTarget_le] using least

end DeclArchive
