import Mathlib.Algebra.Order.Group.Unbundled.Int
import Mathlib.Data.List.Lex
import DynamicObjects.Proofs.Equality.Laws

/-!
Lists and tuples compare alike. A list is compared with itself at once and lists of different lengths
are unequal before any item is looked at, while tuples are always walked through; whatever both come to
is the same. Where all items are integers, all text or all byte strings, neither can fail, and the order
is the lexicographic one.
-/
namespace DynamicObjects

open Script (hooks)

def Value.rank : Value → List ℤ
  | .int n => [n.toInt]
  | .str _ text => text.toUTF8.toList.map fun b => (b.toNat : ℤ)
  | .bytes _ data => data.map fun b => (b.toNat : ℤ)
  | _ => []

def Kind.isRanked : Kind → Bool
  | .int | .str | .bytes => true
  | _ => false

section Compares

variable {α : Type} [LT α] {a b : α} {as bs : List α} {o o' : Ordering}

theorem compares_cons (first : o.Compares a b) (rest : o'.Compares as bs) :
    (o.then o').Compares (a :: as) (b :: bs) := by
  cases o with
  | lt => exact .rel first
  | gt => exact .rel first
  | eq =>
    obtain rfl : a = b := first
    cases o' with
    | lt => exact .cons rest
    | gt => exact .cons rest
    | eq => exact congrArg (a :: ·) rest

end Compares

theorem compare_compares {α : Type} [LinearOrder α] (a b : α) : (compare a b).Compares a b :=
  cmp_eq_compare a b ▸ cmp_compares a b

theorem Bytes.order_compares (x y : Bytes) :
    (Bytes.order x y).Compares (x.map fun b => (b.toNat : ℤ)) (y.map fun b => (b.toNat : ℤ)) := by
  induction x generalizing y with
  | nil =>
    cases y with
    | nil => exact rfl
    | cons b y => exact .nil
  | cons a x ih =>
    cases y with
    | nil => exact .nil
    | cons b y =>
      have first := Int.natCast_strictMono.compares.mpr (compare_compares a.toNat b.toNat)
      exact compares_cons first (ih y)

section Ranked

variable {k : Kind} {a b : Value}

theorem Store.intrinsicCompare?_ranked (s : Store) (ranked : k.isRanked = true) (ha : a.kind = k)
    (hb : b.kind = k) :
    ∃ o : Ordering, s.intrinsicCompare? a b = some (some o) ∧ o.Compares a.rank b.rank := by
  subst hb
  cases b <;> cases ranked <;> cases a <;> cases ha
  case int n m =>
    refine ⟨_, rfl, ?_⟩
    have single : ((compare m.toInt n.toInt).then .eq).Compares [m.toInt] [n.toInt] :=
      compares_cons (compare_compares m.toInt n.toInt) rfl
    rw [Ordering.then_eq] at single
    exact single
  case str | bytes => exact ⟨_, rfl, Bytes.order_compares _ _⟩

variable {h : Hooks} {w : World} {o : Ordering}

theorem compareBool_ranked (known : w.store.intrinsicCompare? a b = some (some o)) (op : CompareOp) :
    Protocol.compareBool h op a b w = (.ok (op.holds o), w) := by
  have read : Run.readStore (·.intrinsicCompare? a b) w = (.ok (some (some o)), w) := by
    rw [← known]
    rfl
  have compared : Protocol.compare h op a b w = (.ok (.bool (op.holds o)), w) := Run.bind_ok read
  exact Run.bind_ok compared

theorem equals_ranked (known : w.store.intrinsicCompare? a b = some (some o))
    (compares : o.Compares a.rank b.rank) (identity : a.isSame b → a = b) :
    Protocol.equals h a b w = (.ok (o == .eq), w) := by
  unfold Protocol.equals
  split
  next same =>
    obtain rfl := identity same
    rw [compares.eq_eq.mpr rfl]
    rfl
  next =>
    have read : Run.readStore (·.intrinsicEq? a b) w = (.ok (some (o == .eq)), w) := by
      show (Outcome.ok (w.store.intrinsicEq? a b), w) = _
      simp only [Store.intrinsicEq?, known]
      cases o <;> rfl
    exact Run.bind_ok read

end Ranked

theorem Protocol.equalElements_eq (h : Hooks) {xs ys : List Value} (lengths : xs.length = ys.length) :
    equalElements h xs ys = compareElements h .eq xs ys := by
  induction xs generalizing ys with
  | nil =>
    obtain rfl : ys = [] := List.length_eq_zero_iff.mp lengths.symm
    rfl
  | cons a as ih =>
    cases ys with
    | nil => cases lengths
    | cons b bs => rw [equalElements, compareElements, ih (Nat.succ.inj lengths)]

theorem Run.nested_still {α : Type} {x : Run α} {v : α} {w : World} (room : w.dataDepth < dataDepthLimit)
    (still : ∀ w', w'.store = w.store → x w' = (.ok v, w')) : Run.nested x w = (.ok v, w) := by
  have inner := still { w with dataDepth := w.dataDepth + 1 } rfl
  unfold Run.nested Run.andThen
  simp only [Nat.not_le.mpr room, if_false, inner]
  rfl

section Sequences

variable {P : Value → Prop} {k : Kind} (identity : ∀ a b, P a → P b → a.isSame b → a = b)
  (ranked : k.isRanked = true) {xs ys : List Value} (left : ∀ v ∈ xs, P v ∧ v.kind = k)
  (right : ∀ v ∈ ys, P v ∧ v.kind = k)

include identity ranked left right

theorem compareElements_ranked (h : Hooks) (s : Store) :
    ∃ o : Ordering, o.Compares (xs.map Value.rank) (ys.map Value.rank) ∧
      ∀ (w : World), w.store = s → ∀ op,
        Protocol.compareElements h op xs ys w = (.ok (op.holds o), w) := by
  induction xs generalizing ys with
  | nil =>
    cases ys with
    | nil => exact ⟨.eq, rfl, fun _ _ _ => rfl⟩
    | cons b bs => exact ⟨.lt, .nil, fun _ _ _ => rfl⟩
  | cons a as ih =>
    cases ys with
    | nil => exact ⟨.gt, .nil, fun _ _ _ => rfl⟩
    | cons b bs =>
      obtain ⟨pa, ha⟩ := left a List.mem_cons_self
      obtain ⟨pb, hb⟩ := right b List.mem_cons_self
      obtain ⟨first, known, compares⟩ := s.intrinsicCompare?_ranked ranked ha hb
      obtain ⟨rest, compares', walk⟩ := ih (fun v mem => left v (List.mem_cons_of_mem _ mem))
        fun v mem => right v (List.mem_cons_of_mem _ mem)
      refine ⟨first.then rest, compares_cons compares compares', fun w same op => ?_⟩
      subst same
      have equal := equals_ranked (h := h) known compares (identity a b pa pb)
      unfold Protocol.compareElements
      refine (Run.bind_ok equal).trans ?_
      cases first with
      | eq => exact walk w rfl op
      | lt | gt =>
        cases op with
        | eq | ne => rfl
        | lt | le | gt | ge => exact compareBool_ranked known _

/-- The two ways to compare sequences answer by one order, and change nothing. -/
structure ComparedBy (h : Hooks) (w : World) (xs ys : List Value) (o : Ordering) : Prop where
  tuples : ∀ op, Tuple.compare h op xs ys w = (.ok (op.holds o), w)
  lists : ∀ r r', (w.store.list r).buffer.toList = xs → (w.store.list r').buffer.toList = ys →
    ∀ op, ListRef.compare h op r r' w = (.ok (op.holds o), w)

theorem compared_ranked (h : Hooks) {w : World} (room : w.dataDepth < dataDepthLimit) :
    ∃ o : Ordering, o.Compares (xs.map Value.rank) (ys.map Value.rank) ∧ ComparedBy h w xs ys o := by
  obtain ⟨o, compares, walk⟩ := compareElements_ranked identity ranked left right h w.store
  have walked (op : CompareOp) :
      Run.nested (Protocol.compareElements h op xs ys) w = (.ok (op.holds o), w) :=
    Run.nested_still room fun w' same => walk w' same op
  refine ⟨o, compares, walked, fun r r' left right op => ?_⟩
  have items : r.items w = (.ok xs, w) := left ▸ rfl
  have items' : r'.items w = (.ok ys, w) := right ▸ rfl
  have equals : ListRef.equals h r r' w = (.ok (o == .eq), w) := by
    unfold ListRef.equals
    split
    next same =>
      obtain rfl : xs = ys := by rw [← left, ← right, same]
      rw [compares.eq_eq.mpr rfl]
      rfl
    next =>
      refine (Run.bind_ok items).trans ((Run.bind_ok items').trans ?_)
      split
      next differ =>
        have unequal : o ≠ .eq := fun same => by
          simpa using differ (by simpa using congrArg List.length (compares.eq_eq.mp same))
        cases o <;> first | rfl | exact absurd rfl unequal
      next same =>
        rw [Protocol.equalElements_eq h (not_not.mp same)]
        exact walked .eq
  cases op with
  | eq => exact equals
  | ne =>
    refine (Run.bind_ok equals).trans ?_
    cases o <;> rfl
  | lt | le | gt | ge => exact (Run.bind_ok items).trans ((Run.bind_ok items').trans (walked _))

end Sequences

theorem CompareOp.existsUnique_holds (o : Ordering) :
    ∃! op : CompareOp, op ∈ [.lt, .eq, .gt] ∧ op.holds o = true := by
  have unique (expected : CompareOp)
      (only : ∀ op : CompareOp, op ∈ [.lt, .eq, .gt] ∧ op.holds o = true ↔ op = expected) :
      ∃! op : CompareOp, op ∈ [.lt, .eq, .gt] ∧ op.holds o = true :=
    ⟨expected, (only expected).mpr rfl, fun op => (only op).mp⟩
  cases o with
  | lt => exact unique .lt fun op => by cases op <;> decide
  | eq => exact unique .eq fun op => by cases op <;> decide
  | gt => exact unique .gt fun op => by cases op <;> decide

/-- Of two lists of plain data, and of tuples of their items, every comparison that gives an answer
gives the same one. Where all items are integers, all text or all byte strings, there is always an
answer, by the lexicographic order of the ranks: exactly one of less, equal and greater holds, and
less is transitive. -/
theorem sequences_compare {s : Store} {bound : Identity} {P : Value → Prop} (plain : Plain s bound P) :
    (∀ r r', P (.list r) → P (.list r') → ∀ op x y,
      Yields s bound (ListRef.compare · op r r') x →
      Yields s bound (Tuple.compare · op (s.list r).buffer.toList (s.list r').buffer.toList) y →
      x = y) ∧
    ∀ k : Kind, k.isRanked = true → ∀ (h : Hooks) (w : World), w.dataDepth < dataDepthLimit →
      ∀ xs ys, (∀ v ∈ xs, P v ∧ v.kind = k) → (∀ v ∈ ys, P v ∧ v.kind = k) →
        (∃ o : Ordering, o.Compares (xs.map Value.rank) (ys.map Value.rank) ∧
          ComparedBy h w xs ys o) ∧
        (∃! op : CompareOp, op ∈ [.lt, .eq, .gt] ∧ (Tuple.compare h op xs ys w).1 = .ok true) ∧
        ∀ zs, (∀ v ∈ zs, P v ∧ v.kind = k) →
          (Tuple.compare h .lt xs ys w).1 = .ok true → (Tuple.compare h .lt ys zs w).1 = .ok true →
          (Tuple.compare h .lt xs zs w).1 = .ok true := by
  refine ⟨fun r r' mem mem' op x y listed tupled => ?_,
    fun k ranked h w room xs ys left right => ?_⟩
  · obtain ⟨n, w, w', calm, ran⟩ := listed
    obtain ⟨m, u, u', calm', ran'⟩ := tupled
    have decided := decided_at s n
    have verdict :=
      (ListRef.compare_gives decided.1 plain mem mem' decided.2 w x w' calm ran).2
    have decided' := decided_at s m
    have walked := (Run.gives_nested (compareElements_gives decided'.1 plain decided'.2 _ _
      (plain.parts _ mem) (plain.parts _ mem')) u y u' calm' ran').2
    exact verdict.unique (verdict_of_walked walked rfl Alike.iff_matches rfl)
  · obtain ⟨o, compares, compared⟩ :=
      compared_ranked plain.identity ranked left right h room
    have answers (op : CompareOp) : (Tuple.compare h op xs ys w).1 = .ok (op.holds o) := by
      rw [compared.tuples]
    refine ⟨⟨o, compares, compared⟩, ?_, fun zs last less less' => ?_⟩
    · simpa only [answers, Outcome.ok.injEq] using CompareOp.existsUnique_holds o
    · obtain ⟨o', compares', compared'⟩ :=
        compared_ranked plain.identity ranked right last h room
      obtain ⟨o'', compares'', compared''⟩ :=
        compared_ranked plain.identity ranked left last h room
      rw [compared.tuples] at less
      rw [compared'.tuples] at less'
      have first : o = .lt := beq_iff_eq.mp (Outcome.ok.inj less)
      have second : o' = .lt := beq_iff_eq.mp (Outcome.ok.inj less')
      have both : o'' = .lt :=
        compares''.eq_lt.mpr ((compares.eq_lt.mp first).trans (compares'.eq_lt.mp second))
      rw [compared''.tuples, both]
      rfl

namespace MixedLists

/-- A heap with two lists that start with numbers equal to 1 and one and the same NaN. -/
def store : Store :=
  ⟨260, #[⟨257, .ofArray #[.bool true, .float MixedKeys.nan, .int 2], 0⟩,
    ⟨258, .ofArray #[.int 1, .float MixedKeys.nan, .int 3], 0⟩], #[], #[]⟩

def left : ListRef := ⟨0⟩

def right : ListRef := ⟨1⟩

def Mem (v : Value) : Prop :=
  v ∈ [.list left, .list right, .bool true, .float MixedKeys.nan, .int 1, .int 2, .int 3]

theorem plain : Plain store 260 Mem := by
  refine ⟨?_, ?_, ?_, ?_, ?_, ?_⟩
  · simp [Mem, Value.kind]
  · simp [Mem, Store.parts, left, right, store, Store.list, Buffer.ofArray, Buffer.toList]
  · simp only [Mem, List.mem_cons, List.not_mem_nil, or_false]
    rintro a b (rfl | rfl | rfl | rfl | rfl | rfl | rfl) (rfl | rfl | rfl | rfl | rfl | rfl | rfl) same
      <;> first | rfl | exact absurd same (by decide)
  all_goals simp [Mem]

def world : World := { store, dispatcher := .initial ⟨#[], [], true⟩ {} {} false }

theorem calm : Calm store 260 world := ⟨rfl, Nat.le_refl _, Dispatcher.honest_initial _ _ _ _⟩

end MixedLists

/-- Numbers equal to 1 and the NaN are passed over, and then 2 is less than 3; of integers alone, a
proper prefix is less. -/
theorem sequences_compare_mixed :
    (∀ y, Yields MixedLists.store 260 (Tuple.compare · .lt
      [.bool true, .float MixedKeys.nan, .int 2] [.int 1, .float MixedKeys.nan, .int 3]) y →
      y = true) ∧
    ∃! op : CompareOp, op ∈ [.lt, .eq, .gt] ∧
      (Tuple.compare (hooks 0) op [.int 2] [.int 2, .int 3] MixedLists.world).1 = .ok true := by
  have listed : Yields MixedLists.store 260
      (ListRef.compare · .lt MixedLists.left MixedLists.right) true :=
    .of_ok MixedLists.calm 1 (by decide +kernel)
  obtain ⟨alike, ordered⟩ := sequences_compare MixedLists.plain
  refine ⟨fun y tupled => ?_, ?_⟩
  · exact (alike _ _ (by simp [MixedLists.Mem]) (by simp [MixedLists.Mem]) .lt true y listed tupled).symm
  · exact (ordered .int rfl (hooks 0) MixedLists.world (by decide) [.int 2] [.int 2, .int 3]
      (by simp [MixedLists.Mem, Value.kind]) (by simp [MixedLists.Mem, Value.kind])).2.1

end DynamicObjects
