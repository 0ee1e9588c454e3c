import DynamicObjects.Proofs.Lists.Capacity
import Mathlib.Algebra.Group.Nat.Defs
import Mathlib.Data.Nat.Log
import Mathlib.Order.Bounds.Defs

/-!
How a list grows that is filled one item at a time. Each time it is full its room is tripled, starting from
the four places of the first growth, so the number of reallocations is logarithmic in the number of items.
The loop behind a larger need, which doubles a target, ends after at most 61 rounds: no product leaves the
sizes, and the largest size covers every need.
-/
namespace DynamicObjects

namespace Growth

/-- The rounds of the doubling loop, with nothing that keeps it from running forever: it goes on for as long
as the target is too small. -/
inductive Doubles (need : Nat) : Nat → Nat → Nat → Prop
  | done {target : Nat} (covers : need ≤ target) : Doubles need 0 target target
  | round {rounds target result : Nat} (small : target < need)
    (rest : Doubles need rounds (Word.satMul target 2) result) : Doubles need (rounds + 1) target result

theorem Doubles.covers {need rounds target result : Nat} (h : Doubles need rounds target result) :
    need ≤ result := by
  induction h with
  | done covers => exact covers
  | round small rest ih => exact ih

theorem Doubles.bounded {need rounds target result : Nat} (h : Doubles need rounds target result)
    (size : target ≤ Word.sizeMax) : result ≤ Word.sizeMax := by
  induction h with
  | done covers => exact size
  | round small rest ih => exact ih (Nat.min_le_right _ _)

/-- The loop ends when so many doublings would reach the largest size. -/
theorem doubles_doubleUntil {need : Nat} (size : need ≤ Word.sizeMax) (most : Nat) {target : Nat}
    (positive : 0 < target) (reaches : Word.sizeMax ≤ target * 2 ^ most) :
    ∃ rounds ≤ most, Doubles need rounds target (doubleUntil target need) := by
  induction most generalizing target with
  | zero =>
    rw [doubleUntil, if_neg (by omega)]
    exact ⟨0, Nat.le_refl 0, .done (by omega)⟩
  | succ most ih =>
    by_cases small : target < need
    · have twice : Word.sizeMax ≤ Word.satMul target 2 * 2 ^ most := by
        rw [Nat.pow_succ'] at reaches
        rcases Nat.le_total (target * 2) Word.sizeMax with within | beyond
        · rwa [Word.satMul, Nat.min_eq_left within, Nat.mul_assoc]
        · rw [Word.satMul, Nat.min_eq_right beyond]
          exact Nat.le_mul_of_pos_right _ (Nat.two_pow_pos most)
      have more : 0 < Word.satMul target 2 := by
        unfold Word.satMul Word.sizeMax
        omega
      obtain ⟨rounds, few, doubles⟩ := ih more twice
      rw [doubleUntil, if_pos ⟨positive, small, by omega⟩]
      exact ⟨rounds + 1, by omega, .round small doubles⟩
    · rw [doubleUntil, if_neg (by omega)]
      exact ⟨0, Nat.zero_le _, .done (by omega)⟩

inductive Grows (len capacity need : Nat) : Nat → Prop
  | first (none : capacity = 0) (small : need ≤ initialCapacity) : Grows len capacity need initialCapacity
  | later {rounds result : Nat} (large : ¬ (capacity = 0 ∧ need ≤ initialCapacity)) (few : rounds ≤ 61)
    (doubles : Doubles need rounds (max (Word.satMul len 3) leastGrowth) result) :
    Grows len capacity need result

theorem grows_grown (len capacity : Nat) {need : Nat} (size : need ≤ Word.sizeMax) :
    Grows len capacity need (grown len capacity need) := by
  unfold grown
  split
  next first => exact .first first.1 first.2
  next large =>
    have floor : leastGrowth ≤ max (Word.satMul len 3) leastGrowth := Nat.le_max_right _ _
    have reaches : Word.sizeMax ≤ max (Word.satMul len 3) leastGrowth * 2 ^ 61 :=
      Nat.le_trans (by decide) (Nat.mul_le_mul_right _ floor)
    obtain ⟨rounds, few, doubles⟩ :=
      doubles_doubleUntil size 61 (Nat.lt_of_lt_of_le (by decide) floor) reaches
    exact .later large few doubles

theorem Grows.bounds {len capacity need result : Nat} (h : Grows len capacity need result) :
    need ≤ result ∧ result ≤ Word.sizeMax := by
  cases h with
  | first none small => exact ⟨small, by decide⟩
  | later large few doubles =>
    refine ⟨doubles.covers, doubles.bounded (Nat.max_le.mpr ⟨Nat.min_le_right _ _, by decide⟩)⟩

theorem concatenated_bounds (a b : Nat) :
    min (a + b) Word.sizeMax ≤ concatenated a b ∧ concatenated a b ≤ Word.sizeMax :=
  (grows_grown _ _ (Nat.min_le_right _ _)).bounds

theorem grown_of_full {n : Nat} (some : 4 ≤ n) :
    grown n n (n + 1) = min (n * 3) Word.sizeMax := by
  have start : max (Word.satMul n 3) leastGrowth = min (n * 3) Word.sizeMax := by
    unfold Word.satMul leastGrowth Word.sizeMax
    omega
  rw [grown, if_neg (by omega), start, doubleUntil, if_neg (by omega)]

end Growth

namespace Buffer

variable {α : Type} {b : Buffer α} {n k : Nat}

/-- The room after `n` single items, from nothing: `k` is how often it was tripled. -/
structure Filled (b : Buffer α) (n k : Nat) : Prop where
  size : b.size = n
  least : IsLeast { k | n ≤ 4 * 3 ^ k } k
  /-- Sizes stop at the largest one. -/
  capacity : b.capacity = min (4 * 3 ^ k) Word.sizeMax
  reallocations : b.reallocations = k + 1

theorem filled_first (x : α) : Filled (empty.push x) 1 0 where
  size := rfl
  least := ⟨show 1 ≤ 4 * 3 ^ 0 by decide, fun _ _ => Nat.zero_le _⟩
  capacity := rfl
  reallocations := rfl

theorem size_push (b : Buffer α) (x : α) : (b.push x).size = b.size + 1 := by
  simp [push, size]

theorem Filled.push (h : Filled b n k) (x : α) (fits : n + 1 ≤ Word.sizeMax) :
    ∃ k', Filled (b.push x) (n + 1) k' := by
  have size := (size_push b x).trans (congrArg (· + 1) h.size)
  have covers : n ≤ 4 * 3 ^ k := h.least.1
  have capacity := h.capacity
  have room : (b.push x).capacity = (b.ensure (n + 1)).capacity ∧
      (b.push x).reallocations = (b.ensure (n + 1)).reallocations := by
    rw [← h.size]
    exact ⟨rfl, rfl⟩
  by_cases enough : n + 1 ≤ b.capacity
  · have same : b.ensure (n + 1) = b := by rw [ensure, if_pos enough]
    refine ⟨k, size, ⟨?_, fun j larger => h.least.2 (Nat.le_of_succ_le larger)⟩, ?_, ?_⟩
    · show n + 1 ≤ 4 * 3 ^ k
      omega
    · rw [room.1, same, capacity]
    · rw [room.2, same, h.reallocations]
  · have full : n = 4 * 3 ^ k := by omega
    have positive : 0 < 3 ^ k := Nat.pow_pos (by decide)
    have held : b.capacity = n := by omega
    have grows : b.ensure (n + 1) =
        { b with capacity := min (n * 3) Word.sizeMax, reallocations := b.reallocations + 1 } := by
      rw [ensure, if_neg enough, h.size, held, Growth.grown_of_full (by omega)]
    refine ⟨k + 1, size, ⟨?_, ?_⟩, ?_, ?_⟩
    · show n + 1 ≤ 4 * 3 ^ (k + 1)
      rw [Nat.pow_succ]
      omega
    · intro j larger
      by_contra fewer
      have : 3 ^ j ≤ 3 ^ k := Nat.pow_le_pow_right (by decide) (by omega)
      have : n + 1 ≤ 4 * 3 ^ j := larger
      omega
    · rw [room.1, grows, full, Nat.pow_succ, Nat.mul_assoc]
    · rw [room.2, grows, h.reallocations]

theorem Filled.pushes (h : Filled b n k) (xs : List α) (fits : n + xs.length ≤ Word.sizeMax) :
    ∃ k', Filled (xs.foldl Buffer.push b) (n + xs.length) k' := by
  induction xs generalizing b n k with
  | nil => exact ⟨k, h⟩
  | cons x rest ih =>
    rw [List.length_cons] at fits ⊢
    obtain ⟨k', filled⟩ := h.push x (by omega)
    rw [show n + (rest.length + 1) = n + 1 + rest.length by omega] at fits ⊢
    exact ih filled fits

theorem filled_pushes {xs : List α} (some : xs ≠ []) (fits : xs.length ≤ Word.sizeMax) :
    ∃ k, Filled (xs.foldl Buffer.push empty) xs.length k := by
  cases xs with
  | nil => exact absurd rfl some
  | cons x rest =>
    rw [List.length_cons, Nat.add_comm] at fits ⊢
    exact (filled_first x).pushes rest fits

/-- No allocation is so large that a tripled room would not be a size. -/
theorem Filled.exact (h : Filled b n k) (allocated : n ≤ Word.allocationMax) : b.capacity = 4 * 3 ^ k := by
  have few : k ≤ 39 := h.least.2 (show n ≤ 4 * 3 ^ 39 from Nat.le_trans allocated (by decide))
  have small : 4 * 3 ^ k ≤ 4 * 3 ^ 39 := Nat.mul_le_mul_left 4 (Nat.pow_le_pow_right (by decide) few)
  rw [h.capacity]
  exact Nat.min_eq_left (Nat.le_trans small (by decide))

theorem Filled.logarithmic (h : Filled b n k) : b.reallocations ≤ Nat.log 3 n + 1 := by
  rw [h.reallocations]
  refine Nat.succ_le_succ ?_
  cases k with
  | zero => exact Nat.zero_le _
  | succ k =>
    have short : ¬ n ≤ 4 * 3 ^ k := fun covers => absurd (h.least.2 covers) (Nat.not_succ_le_self k)
    apply Nat.le_log_of_pow_le (by decide)
    rw [Nat.pow_succ]
    omega

theorem toList_pushes (xs : List α) (b : Buffer α) : (xs.foldl push b).toList = b.toList ++ xs := by
  induction xs generalizing b with
  | nil => simp
  | cons x rest ih => simp [ih]

end Buffer

namespace ListRef

variable {w : World} {r : ListRef} {o : ListObject}

def appendEach (h : Hooks) (r : ListRef) : List Value → Run Unit
  | [] => return ()
  | v :: rest => do
    let _ ← h.builtin .list (.invokeMember "append") [.list r, v]
    appendEach h r rest

variable (code : UserCode) (n : Nat)

theorem append_apply (live : w.list? r = some o) (v : Value) :
    (code.hooks UserCode.plain (n + 1)).builtin .list (.invokeMember "append") [.list r, v] w =
      (.ok .none, w.putList r (o.holding (o.buffer.push v))) := by
  have slot : (code.hooks UserCode.plain (n + 1)).builtin .list (.invokeMember "append") [.list r, v] =
      do r.append v; return .none := rfl
  rw [slot]
  exact Run.bind_ok (update_apply live _)

theorem appendEach_apply (vs : List Value) (live : w.list? r = some o) :
    ∃ w' o', appendEach (code.hooks UserCode.plain (n + 1)) r vs w = (.ok (), w') ∧
      w'.list? r = some o' ∧ o'.buffer = vs.foldl Buffer.push o.buffer := by
  induction vs generalizing w o with
  | nil => exact ⟨w, o, rfl, live, rfl⟩
  | cons v rest ih =>
    obtain ⟨w', o', ran, live', pushed⟩ := ih (World.list?_putList live (o.holding (o.buffer.push v)))
    exact ⟨w', o', (Run.bind_ok (append_apply code n live v)).trans ran, live', pushed⟩

/-- What is left when items were appended, one by one, to a list without items and without room. -/
structure Appended (h : Hooks) (r : ListRef) (vs : List Value) (w w' : World) (o : ListObject) (k : Nat) :
    Prop where
  ran : appendEach h r vs w = (.ok (), w')
  live : w'.list? r = some o
  items : o.buffer.toList = vs
  filled : o.buffer.Filled vs.length k
  exact : vs.length ≤ Word.allocationMax → o.buffer.capacity = 4 * 3 ^ k
  logarithmic : o.buffer.reallocations ≤ Nat.log 3 vs.length + 1

theorem appended (live : w.list? r = some o) (new : o.buffer = .empty) {vs : List Value}
    (some : vs ≠ []) (fits : vs.length ≤ Word.sizeMax) :
    ∃ w' o' k, Appended (code.hooks UserCode.plain (n + 1)) r vs w w' o' k := by
  obtain ⟨w', o', ran, live', pushed⟩ := appendEach_apply code n vs live
  obtain ⟨k, filled⟩ := Buffer.filled_pushes some fits
  rw [← new, ← pushed] at filled
  refine ⟨w', o', k, ran, live', ?_, filled, filled.exact, filled.logarithmic⟩
  rw [pushed, new, Buffer.toList_pushes]
  rfl

/-- A list grows by tripling, and whatever grows gets as much as it needs, as far as sizes go. -/
theorem growth_geometric :
    (∀ (code : UserCode) (n : Nat) (w : World) (r : ListRef) (o : ListObject) (vs : List Value),
      w.list? r = some o → o.buffer = .empty → vs ≠ [] → vs.length ≤ Word.sizeMax →
      ∃ w' o' k, Appended (code.hooks UserCode.plain (n + 1)) r vs w w' o' k) ∧
    (∀ len capacity need : Nat, need ≤ Word.sizeMax →
      Growth.Grows len capacity need (Growth.grown len capacity need) ∧
      need ≤ Growth.grown len capacity need ∧ Growth.grown len capacity need ≤ Word.sizeMax) ∧
    ∀ a b : Nat, min (a + b) Word.sizeMax ≤ Growth.concatenated a b ∧
      Growth.concatenated a b ≤ Word.sizeMax := by
  refine ⟨fun code n w r o vs live new some fits => appended code n live new some fits, ?_,
    Growth.concatenated_bounds⟩
  intro len capacity need size
  have grows := Growth.grows_grown len capacity size
  exact ⟨grows, grows.bounds⟩

/-- Five items, the last of which needs a second reallocation. -/
theorem growth_geometric_five :
    let w := { World.blank with store := (Store.empty.addList .empty).2 }
    let vs : List Value := [.int 1, .int 2, .int 3, .int 4, .int 5]
    (w.list? ⟨0⟩ = some (w.store.list ⟨0⟩) ∧ (w.store.list ⟨0⟩).buffer = .empty ∧ vs ≠ [] ∧
      vs.length ≤ Word.sizeMax ∧
      ∃ w' o' k, Appended (UserCode.declining.hooks UserCode.plain 1) ⟨0⟩ vs w w' o' k) ∧
    5 ≤ Word.sizeMax ∧ 5 ≤ Growth.grown 4 4 5 ∧ Growth.grown 4 4 5 ≤ Word.sizeMax := by
  intro w vs
  have live : w.list? ⟨0⟩ = some (w.store.list ⟨0⟩) := rfl
  have new : (w.store.list ⟨0⟩).buffer = .empty := rfl
  have some : vs ≠ [] := List.cons_ne_nil _ _
  have fits : vs.length ≤ Word.sizeMax := by decide
  have appended := growth_geometric.1 .declining 0 w ⟨0⟩ _ vs live new some fits
  exact ⟨⟨live, new, some, fits, appended⟩, by decide, (growth_geometric.2.1 4 4 5 (by decide)).2⟩

end ListRef

end DynamicObjects
