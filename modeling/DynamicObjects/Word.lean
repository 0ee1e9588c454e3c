/-!
Checked arithmetic on signed 64-bit words. Each operation computes the exact integer first and then
asks whether it is a word, so an answer is never a wrapped one.
-/
namespace DynamicObjects.Word

def least : Int := -9223372036854775808

def greatest : Int := 9223372036854775807

/-- The largest unsigned 64-bit number; sizes and counters stop there. -/
def sizeMax : Nat := 18446744073709551615

def allocationMax : Nat := 9223372036854775807

def Fits (n : Int) : Prop :=
  least ≤ n ∧ n ≤ greatest

instance (n : Int) : Decidable (Fits n) :=
  inferInstanceAs (Decidable (_ ∧ _))

def ofInt? (n : Int) : Option Int64 :=
  if Fits n then some (Int64.ofInt n) else none

theorem fits_toInt (w : Int64) : Fits w.toInt := by
  have lower := Int64.le_toInt w
  have upper := Int64.toInt_lt w
  exact ⟨lower, by unfold greatest; omega⟩

theorem toInt_ofInt {n : Int} (h : Fits n) : (Int64.ofInt n).toInt = n :=
  Int64.toInt_ofInt_of_le h.1 (Int.lt_of_le_of_lt h.2 (by decide))

@[simp] theorem ofInt?_toInt (w : Int64) : ofInt? w.toInt = some w := by
  simp [ofInt?, fits_toInt]

theorem ofInt?_eq_some_iff {n : Int} {w : Int64} : ofInt? n = some w ↔ n = w.toInt := by
  constructor
  · intro h
    unfold ofInt? at h
    split at h
    · cases h
      rw [toInt_ofInt (by assumption)]
    · cases h
  · rintro rfl
    exact ofInt?_toInt w

theorem ofInt?_eq_none_iff {n : Int} : ofInt? n = none ↔ ¬ Fits n := by
  simp [ofInt?]

def ofSize (n : Nat) : Int64 :=
  (ofInt? n).getD (Int64.ofInt greatest)

def ofBool (b : Bool) : Int64 :=
  if b then 1 else 0

def add? (x y : Int64) : Option Int64 :=
  ofInt? (x.toInt + y.toInt)

def sub? (x y : Int64) : Option Int64 :=
  ofInt? (x.toInt - y.toInt)

def mul? (x y : Int64) : Option Int64 :=
  ofInt? (x.toInt * y.toInt)

def neg? (x : Int64) : Option Int64 :=
  ofInt? (-x.toInt)

def floorDiv? (x y : Int64) : Option Int64 :=
  ofInt? (Int.fdiv x.toInt y.toInt)

def floorMod? (x y : Int64) : Option Int64 :=
  ofInt? (Int.fmod x.toInt y.toInt)

/-- The powers of -1, 0 and 1 depend on the parity of the exponent only, and for any other base an
exponent of 64 is too large, so no large power is ever computed. -/
def power? (x : Int64) (exponent : Nat) : Option Int64 :=
  if x.toInt.natAbs ≤ 1 then
    ofInt? (Int.pow x.toInt (if exponent = 0 then 0 else 2 - exponent % 2))
  else if 64 ≤ exponent then none
  else ofInt? (Int.pow x.toInt exponent)

def shiftLeft? (x : Int64) (count : Nat) : Option Int64 :=
  if x = 0 then some 0
  else if 64 ≤ count then none
  else ofInt? (x.toInt * Int.pow 2 count)

/-- Division by a power of two, rounded towards negative infinity. -/
def shiftRight (x : Int64) (count : Nat) : Int64 :=
  Int64.ofInt (Int.fdiv x.toInt (Int.pow 2 (min count 63)))

def satAdd (a b : Nat) : Nat :=
  min (a + b) sizeMax

def satMul (a b : Nat) : Nat :=
  min (a * b) sizeMax

end DynamicObjects.Word
