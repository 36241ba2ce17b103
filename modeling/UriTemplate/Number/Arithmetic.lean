import UriTemplate.Number.Binary64

/-!
# Sums and products of binary numbers

* `Binary64.add`, `Binary64.mul` — the number nearest to the sum and to the product;
* `Binary64.neg`, `Binary64.ofNat`.
-/

namespace UriTemplate.Binary64

def neg : Binary64 → Binary64
  | nan => nan
  | infinite negative => .infinite !negative
  | finite negative m e => .finite (!negative) m e

/-- The number nearest to `n`. -/
def ofNat (n : Nat) : Binary64 := ofRatio false n 1

/-- The number nearest to `n * 2 ^ e`, with a sign also for zero. -/
def ofScaled (negative : Bool) (n : Nat) (e : Int) : Binary64 :=
  if 0 ≤ e then ofRatio negative (n * 2 ^ e.toNat) 1 else ofRatio negative n (2 ^ (-e).toNat)

def mul : Binary64 → Binary64 → Binary64
  | nan, _ | _, nan => nan
  | infinite a, infinite b => .infinite (a != b)
  | infinite a, finite b m _ | finite b m _, infinite a => if m = 0 then nan else .infinite (a != b)
  | finite a m e, finite b n f => ofScaled (a != b) (m * n) (e + f)

/-- A sum of zero is negative only if both numbers are. -/
def add : Binary64 → Binary64 → Binary64
  | nan, _ | _, nan => nan
  | infinite a, infinite b => if a = b then .infinite a else nan
  | infinite a, finite .. | finite .., infinite a => .infinite a
  | finite a m e, finite b n f =>
    let low := min e f
    let part (negative : Bool) (m : Nat) (e : Int) : Int :=
      if negative then -(m * 2 ^ (e - low).toNat : Int) else m * 2 ^ (e - low).toNat
    let sum := part a m e + part b n f
    ofScaled (if sum = 0 then a && b else sum < 0) sum.natAbs low

end UriTemplate.Binary64
