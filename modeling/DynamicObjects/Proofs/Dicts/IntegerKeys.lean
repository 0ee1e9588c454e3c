import DynamicObjects.Proofs.Dicts.Association
import DynamicObjects.Proofs.Protocol

/-!
Integers and truth values as keys. They are equal as numbers, so `True` and `1` are one key, and no
other code runs for them.
-/
namespace DynamicObjects

def KeySpace.integers : KeySpace where
  IsKey v := v.asInt?.isSome
  code v := HashCode.ofInt (v.asInt?.getD 0)
  equal a b := a.asInt? == b.asInt?
  equal_refl := by simp
  equal_symm := by
    intro a b _ _ same
    simpa using (beq_iff_eq.mp same).symm
  equal_trans := by
    intro a b c _ _ _ first second
    rw [beq_iff_eq.mp first]
    exact second
  code_eq := by
    intro a b _ _ same
    rw [beq_iff_eq.mp same]

theorem KeySpace.integers_cases {v : Value} (isKey : integers.IsKey v) :
    (∃ b, v = .bool b) ∨ ∃ n, v = .int n := by
  cases v with
  | bool b => exact .inl ⟨b, rfl⟩
  | int n => exact .inr ⟨n, rfl⟩
  | _ => cases isKey

namespace Protocol

variable {h : Hooks} {a b key : Value} (w : World)

theorem hash_integer (isKey : KeySpace.integers.IsKey key) :
    hash h key w = (.ok (KeySpace.integers.code key), w) := by
  obtain ⟨b, rfl⟩ | ⟨n, rfl⟩ := KeySpace.integers_cases isKey <;> rw [hash] <;> rfl

theorem repr_integer (isKey : KeySpace.integers.IsKey key) : (repr h key w).2 = w := by
  obtain ⟨b, rfl⟩ | ⟨n, rfl⟩ := KeySpace.integers_cases isKey <;> rfl

theorem intrinsicEq?_integer (s : Store) (ha : KeySpace.integers.IsKey a)
    (hb : KeySpace.integers.IsKey b) :
    s.intrinsicEq? a b = some (KeySpace.integers.equal a b) := by
  obtain ⟨x, rfl⟩ | ⟨x, rfl⟩ := KeySpace.integers_cases ha <;>
    obtain ⟨y, rfl⟩ | ⟨y, rfl⟩ := KeySpace.integers_cases hb <;>
    simp [Store.intrinsicEq?, Store.intrinsicCompare?, Store.bytesLike?, Value.asNumber?,
      Number.compare?, Int64.toInt_inj, KeySpace.integers, Value.asInt?]

theorem equals_integer (ha : KeySpace.integers.IsKey a) (hb : KeySpace.integers.IsKey b) :
    equals h a b w = (.ok (KeySpace.integers.equal a b), w) := by
  by_cases same : a.isSame b
  · have equal : KeySpace.integers.equal a b = true := by
      obtain ⟨x, rfl⟩ | ⟨x, rfl⟩ := KeySpace.integers_cases ha <;>
        obtain ⟨y, rfl⟩ | ⟨y, rfl⟩ := KeySpace.integers_cases hb <;>
        simp_all [KeySpace.integers, Value.asInt?, Value.isSame]
    simp [equals, same, equal]
  · have read : Run.readStore (·.intrinsicEq? a b) w =
        (.ok (some (KeySpace.integers.equal a b)), w) := by
      simp [Run.readStore, Run.read, intrinsicEq?_integer w.store ha hb]
    simp only [equals, same, Bool.false_eq_true, if_false]
    exact Run.bind_ok read

end Protocol

end DynamicObjects
