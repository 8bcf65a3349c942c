/-!
# Bucket counts

An index for `n` names has the least prime number of buckets that is at least `1.3 n`, and at least
two. Primes are told by trial division. The search for one is given enough steps to reach twice its
start, before which there always is a prime.
-/

namespace DeclArchive

/-- Whether `n` has no odd divisor from `d` on up to its square root; `fuel` bounds the divisors. -/
def noOddDivisor (n : Nat) : (fuel : Nat) → (d : Nat) → Bool
  | 0, _ => true
  | fuel + 1, d =>
    if n < d * d then true
    else if n % d = 0 then false
    else noOddDivisor n fuel (d + 2)

/-- Whether `n` is prime. -/
def isPrime (n : Nat) : Bool :=
  if n < 2 then false
  else if n % 2 = 0 then n == 2
  else noOddDivisor n n 3

/-- The first prime among the `fuel` numbers from `n` on. -/
def firstPrime? : (fuel : Nat) → (n : Nat) → Option Nat
  | 0, _ => none
  | fuel + 1, n => if isPrime n then some n else firstPrime? fuel (n + 1)

/-- The least acceptable number of buckets for `expected` names, prime or not. -/
def loadTarget (expected : Nat) : Nat :=
  max 2 ((13 * expected + 9) / 10)

/-- The number of buckets for `expected` names. -/
def bucketCountFor (expected : Nat) : Nat :=
  let target := loadTarget expected
  (firstPrime? (target + 1) target).getD target

end DeclArchive
