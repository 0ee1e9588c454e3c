import DynamicObjects.Proofs.Equality.Laws
import Mathlib.Data.List.Perm.Basic

/-!
Equal values have equal hash codes. Numbers of one value have one code, whichever kind they are of; the
code of a tuple is made of those of its elements in order, and the code of a set of those of its elements
in any order. Equal sets have elements in one-to-one correspondence under equal codes, since no two
elements of a set are alike. That in turn rests on the codes: what is inserted into a set is only told
apart from the elements under its own code.
-/
namespace DynamicObjects

open Script (hooks)

theorem Double.ext_parts {d e : Double} (sign : d.isNegative = e.isNegative)
    (magnitude : d.magnitude = e.magnitude) : d = e := by
  have left := d.bits.toNat_lt
  have right := e.bits.toNat_lt
  have sign : signWeight ≤ d.bits.toNat ↔ signWeight ≤ e.bits.toNat := by
    simpa only [isNegative, decide_eq_decide] using sign
  unfold Double.magnitude at magnitude
  unfold signWeight at sign magnitude
  have bits : d.bits = e.bits := UInt64.toNat_inj.mp (by omega)
  cases d
  cases e
  exact congrArg mk bits

namespace HashCode

def ofNumber : Number → HashCode
  | .int n => ofInt n
  | .float d => ofDouble d

theorem ofDouble_eq_ofInt {n : Int64} {d : Double} (h : Double.compareInt? n d = some .eq) :
    ofDouble d = ofInt n := by
  obtain ⟨number, value⟩ := (Double.compareInt?_eq_iff n d).mp h
  obtain ⟨whole, noFraction⟩ := (d.exact_eq_scaled_iff n.toInt).mp value
  have below : d.orderKey < Double.twoPow63.orderKey := by
    by_contra above
    simp [Double.compareInt?, number, Int.not_lt.mp above] at h
  have above : Double.minusTwoPow63.orderKey ≤ d.orderKey := by
    by_contra less
    simp [Double.compareInt?, number, Int.not_le.mpr below, Int.not_le.mp less] at h
  have finite : d.isInfinite = false := by
    by_contra infinite
    have large : d.magnitude = Double.infinityPattern := by simpa [Double.isInfinite] using infinite
    have top : Double.twoPow63.orderKey < Double.infinityPattern := by decide
    have bottom : -(Double.infinityPattern : Int) < Double.minusTwoPow63.orderKey := by decide
    have key : d.orderKey = Double.infinityPattern ∨ d.orderKey = -Double.infinityPattern := by
      unfold Double.orderKey Double.signed
      rw [large]
      split <;> simp
    omega
  simp [ofDouble, finite, number, noFraction, above, below, whole]

/-- Numbers of one place in the order are the same, but for the two zeros. -/
theorem ofDouble_eq {d e : Double} (same : d.orderKey = e.orderKey) : ofDouble d = ofDouble e := by
  have zero (d : Double) (h : d.magnitude = 0) : ofDouble d = ofDouble ⟨0⟩ := by
    cases sign : d.isNegative with
    | false => rw [Double.ext_parts (e := ⟨0⟩) sign h]
    | true =>
      rw [Double.ext_parts (e := ⟨0x8000000000000000⟩) sign h]
      decide +kernel
  unfold Double.orderKey Double.signed at same
  by_cases sign : d.isNegative = e.isNegative
  · have magnitude : d.magnitude = e.magnitude := by
      rw [sign] at same
      split at same <;> omega
    rw [Double.ext_parts sign magnitude]
  · have zeros : d.magnitude = 0 ∧ e.magnitude = 0 := by
      cases left : d.isNegative <;> cases right : e.isNegative <;>
        simp only [left, right, Bool.false_eq_true, not_true_eq_false, if_true, if_false] at sign same
      all_goals omega
    rw [zero d zeros.1, zero e zeros.2]

theorem ofNumber_eq {x y : Number} (h : x.Equal y) : ofNumber x = ofNumber y := by
  rcases h with rfl | same
  · rfl
  · cases x with
    | int a =>
      cases y with
      | int b =>
        have : a.toInt = b.toInt := by simpa [Number.compare?] using same
        rw [Int64.toInt_inj.mp this]
      | float e => exact (ofDouble_eq_ofInt same).symm
    | float d =>
      cases y with
      | int b =>
        have swapped : (Number.int b).compare? (.float d) = some .eq := by
          rw [Number.compare?_swap, same]
          rfl
        exact ofDouble_eq_ofInt swapped
      | float e =>
        apply ofDouble_eq
        have same : d.compare? e = some .eq := same
        unfold Double.compare? at same
        split at same
        · cases same
        · simpa using same

theorem ofSet_perm {codes codes' : List HashCode} (h : codes.Perm codes') :
    ofSet codes = ofSet codes' := by
  have mixed := h.foldl_eq' (f := fun acc code => acc ^^^ shuffle code)
    (fun x _ y _ acc => by rw [UInt64.xor_assoc, UInt64.xor_comm (shuffle x), ← UInt64.xor_assoc]) 0
  unfold ofSet
  rw [mixed, h.length_eq]

end HashCode

variable {s : Store} {bound : Identity} {P : Value → Prop} {n : Nat} {v : Value}

/-- The code of what is not made of other values. -/
def Content.scalarCode? (s : Store) : Content → Option HashCode
  | number x => some (HashCode.ofNumber x)
  | text data | bytes data => some (HashCode.ofBytes data)
  | token .none => some Protocol.noneHash
  | token .notImplemented => some Protocol.notImplementedHash
  | token (.function id) => some (Protocol.identityCode id)
  | token (.values r) => some (Protocol.identityCode (s.dict r).id)
  | _ => none

theorem Content.Matches.scalarCode?_eq {code : Value → Option HashCode} {R : Value → Value → Prop}
    {c c' : Content} (h : c.Matches code R c') : c.scalarCode? s = c'.scalarCode? s := by
  cases c <;> cases c' <;> try exact h.elim
  case number.number => exact congrArg some (HashCode.ofNumber_eq h)
  case text.text | bytes.bytes | token.token => rw [show _ = _ from h]
  all_goals rfl

/-- A value has the code of its content, unless it is made of other values. -/
theorem code?_of_scalar {code code' : HashCode} (scalar : (s.content v).scalarCode? s = some code)
    (hashed : s.code? v = some code') : code = code' := by
  cases v <;>
    simp_all [Store.content, Content.scalarCode?, Store.code?, HashCode.ofNumber, HashCode.ofText]

theorem codes?_eq_some_iff {values : List Value} {codes : List HashCode} :
    s.codes? values = some codes ↔ values.map s.code? = codes.map some := by
  induction values generalizing codes with
  | nil => cases codes <;> simp [Store.codes?]
  | cons v rest ih =>
    cases codes with
    | nil => cases h : s.code? v <;> simp [Store.codes?, h]
    | cons code codes => cases h : s.code? v <;> simp [Store.codes?, h, ih, and_comm]

theorem WellKeyed.map_code? {ν : Type} {t : Table Value ν} (keyed : WellKeyed s t) :
    t.keys.map s.code? = t.hashes.map some := by
  unfold Table.keys Table.hashes
  rw [List.map_map, List.map_map]
  exact List.map_congr_left keyed.coded

theorem WellKeyed.hashes_perm {t t' : SetTable} (keyed : WellKeyed s t) (keyed' : WellKeyed s t')
    (h : Mutual (Near s) t.keys t'.keys) : t.hashes.Perm t'.hashes := by
  obtain ⟨same, covers⟩ := (mutual_iff_covers (fun _ _ => Near.symm) keyed.keys_distinct
    keyed'.keys_distinct).mp h
  have perm := covers.map_perm keyed.keys_distinct same.ge fun x y near => near.1
  rw [keyed.map_code?, keyed'.map_code?] at perm
  exact (List.map_perm_map_iff (Option.some_injective _)).mp perm

namespace Plain

mutual

theorem code_eq (plain : Plain s bound P) (a : Value) (ha : P a) {b : Value} (hb : P b)
    (alike : Alike s a b) {x y : HashCode} (hx : s.code? a = some x) (hy : s.code? b = some y) :
    x = y := by
  have matched := Alike.iff_matches.mp alike
  cases a
  case tuple id items =>
    cases b <;> try exact matched.elim
    case tuple id' others =>
      rw [Store.code?] at hx hy
      obtain ⟨codes, left, rfl⟩ := Option.map_eq_some_iff.mp hx
      obtain ⟨codes', right, rfl⟩ := Option.map_eq_some_iff.mp hy
      rw [plain.codes_eq items (plain.parts _ ha) (plain.parts _ hb) matched left right]
  case frozenSet id t =>
    cases b <;> try exact matched.elim
    case frozenSet id' t' =>
      have perm := (plain.set id t ha).hashes_perm (plain.set id' t' hb) matched
      rw [Store.code?, Option.some.injEq] at hx hy
      rw [← hx, ← hy, HashCode.ofSet_perm perm]
    all_goals simp [Store.code?] at hy
  all_goals
    -- what is left is not made of other values, or has no code
    apply code?_of_scalar _ hy
    rw [← matched.scalarCode?_eq, ← hx]
    simp_all [Store.content, Content.scalarCode?, Store.code?, HashCode.ofNumber, HashCode.ofText]

theorem codes_eq (plain : Plain s bound P) (items : List Value) (mem : ∀ v ∈ items, P v)
    {others : List Value} (mem' : ∀ v ∈ others, P v) (alike : List.Forall₂ (Alike s) items others)
    {codes codes' : List HashCode} (h : s.codes? items = some codes)
    (h' : s.codes? others = some codes') : codes = codes' := by
  rw [codes?_eq_some_iff] at h h'
  cases items with
  | nil =>
    cases alike
    have empty : codes.map some = codes'.map some := h.symm.trans h'
    exact List.map_injective_iff.mpr (Option.some_injective _) empty
  | cons v rest =>
    obtain _ | ⟨first, alike⟩ := alike
    cases codes <;> cases codes' <;> simp only [List.map_cons, List.map_nil, List.cons.injEq,
      reduceCtorEq] at h h'
    rw [plain.code_eq v (mem v (by simp)) (mem' _ (by simp)) first h.1 h'.1,
      plain.codes_eq rest (fun x inside => mem x (by simp [inside]))
        (fun x inside => mem' x (by simp [inside])) alike (codes?_eq_some_iff.mpr h.2)
        (codes?_eq_some_iff.mpr h'.2)]

end

end Plain

/-- A set made of values: each is near an element, and the elements are among them. -/
structure Gathered (s : Store) (values : List Value) (t : SetTable) : Prop where
  keyed : WellKeyed s t
  among : ∀ key ∈ t.keys, key ∈ values
  covers : Covers (Near s) values t.keys

theorem gathered_empty : Gathered s [] .empty :=
  ⟨wellKeyed_empty, by simp [Table.keys, Table.toList_empty], nofun⟩

/-- Values without a near element are unlike all elements, since alike values have one code. -/
theorem Gathered.insertNew (plain : Plain s bound P) {values : List Value} {t : SetTable}
    (gathered : Gathered s values t) (inside : ∀ x ∈ values, P x) (mem : P v) {code : HashCode}
    (hashed : s.code? v = some code) (new : ¬ ∃ key ∈ t.keys, Near s key v) :
    Gathered s (values ++ [v]) (t.insertNew code v ()) := by
  have keys : (t.insertNew code v ()).keys = t.keys ++ [v] := by
    simp [Table.keys, Table.toList_insertNew]
  refine ⟨gathered.keyed.insertNew hashed ?_ (), ?_, ?_⟩
  · intro key listed alike
    obtain ⟨e, stored, rfl⟩ := List.mem_map.mp listed
    have coded := gathered.keyed.coded e stored
    have same := plain.code_eq e.key (inside _ (gathered.among _ listed)) mem alike coded hashed
    exact new ⟨e.key, listed, by rw [coded, hashed, same], alike⟩
  · rw [keys]
    intro key listed
    rcases List.mem_append.mp listed with old | last
    · exact List.mem_append_left _ (gathered.among key old)
    · exact List.mem_append_right _ last
  · rw [keys]
    intro x listed
    rcases List.mem_append.mp listed with old | last
    · obtain ⟨key, stored, near⟩ := gathered.covers x old
      exact ⟨key, List.mem_append_left _ stored, near⟩
    · exact ⟨x, List.mem_append_right _ last, rfl, .refl x⟩

theorem Gathered.insertOld {values : List Value} {t : SetTable} (gathered : Gathered s values t)
    (old : ∃ key ∈ t.keys, Near s key v) : Gathered s (values ++ [v]) t := by
  refine ⟨gathered.keyed, fun key listed => List.mem_append_left _ (gathered.among key listed), ?_⟩
  intro x listed
  rcases List.mem_append.mp listed with before | last
  · exact gathered.covers x before
  · obtain ⟨key, stored, near⟩ := old
    rw [List.mem_singleton.mp last]
    exact ⟨key, stored, near.symm⟩

namespace SetTable

variable {t : SetTable}

theorem insert_gathers (plain : Plain s bound P) {values : List Value}
    (gathered : Gathered s values t) (inside : ∀ x ∈ values, P x) (mem : P v) :
    Run.Gives (Calm s bound) (Gathered s (values ++ [v])) (insert (hooks n) t v) := by
  have decided := (decided_at s n).1
  have stored : ∀ key ∈ t.keys, P key := fun key listed => inside key (gathered.among key listed)
  apply Run.gives_bind (plain.hash_gives v mem)
  intro code hashed
  apply Run.gives_bind (containsHashed_gives decided plain gathered.keyed stored mem hashed)
  intro found answer
  cases found with
  | true => exact Run.gives_pure (gathered.insertOld (answer.mp rfl))
  | false =>
    have new : ¬ ∃ key ∈ t.keys, Near s key v := fun near => Bool.false_ne_true (answer.mpr near)
    exact Run.gives_pure (gathered.insertNew plain inside mem hashed new)

theorem insertAll_gathers (plain : Plain s bound P) (rest : List Value) {values : List Value}
    (gathered : Gathered s values t) (inside : ∀ x ∈ values ++ rest, P x) :
    Run.Gives (Calm s bound) (Gathered s (values ++ rest)) (insertAll (hooks n) t rest) := by
  induction rest generalizing t values with
  | nil =>
    rw [List.append_nil]
    exact Run.gives_pure gathered
  | cons v rest ih =>
    rw [List.append_cons] at inside ⊢
    apply Run.gives_bind (insert_gathers plain gathered (fun x old => inside x (by simp [old]))
      (inside v (by simp)))
    intro t' gathered'
    exact ih gathered' inside

end SetTable

theorem Yields.gathered (plain : Plain s bound P) {values : List Value} (inside : ∀ x ∈ values, P x)
    {t : SetTable} (h : Yields s bound (SetTable.ofValues · values) t) : Gathered s values t := by
  obtain ⟨n, w, w', calm, ran⟩ := h
  exact (SetTable.insertAll_gathers plain values gathered_empty inside w t w' calm ran).2

/-- The order in which values come into a set does not change the codes in it. -/
theorem Gathered.hashes_perm {values values' : List Value} {t t' : SetTable}
    (gathered : Gathered s values t) (gathered' : Gathered s values' t')
    (perm : values.Perm values') : t.hashes.Perm t'.hashes := by
  have covers : Covers (Near s) t.keys t'.keys := fun key listed =>
    gathered'.covers key (perm.subset (gathered.among key listed))
  have covers' : Covers (Near s) t'.keys t.keys := fun key listed =>
    gathered.covers key (perm.symm.subset (gathered'.among key listed))
  exact gathered.keyed.hashes_perm gathered'.keyed (mutual_near_iff.mpr ⟨covers, covers'⟩)

theorem Yields.code? (plain : Plain s bound P) (mem : P v) {code : HashCode}
    (h : Yields s bound (Protocol.hash · v) code) : s.code? v = some code := by
  obtain ⟨n, w, w', calm, ran⟩ := h
  exact (plain.hash_gives v mem w code w' calm ran).2

/-- On any heap of plain data, values that are found equal have equal hash codes, whenever the calls give
values. Sets made of plain data are in good order, so that what has been built is plain data again, and
the order in which the elements came does not change the code. -/
theorem equal_hash_codes (plain : Plain s bound P) :
    (∀ a b, P a → P b → Yields s bound (Protocol.equals · a b) true → ∀ x y,
      Yields s bound (Protocol.hash · a) x → Yields s bound (Protocol.hash · b) y → x = y) ∧
    ∀ values values' t t', (∀ v ∈ values, P v) → values.Perm values' →
      Yields s bound (SetTable.ofValues · values) t → Yields s bound (SetTable.ofValues · values') t' →
      (WellKeyed s t ∧ WellKeyed s t') ∧ ∀ id id' x y,
        Yields s bound (Protocol.hash · (.frozenSet id t)) x →
        Yields s bound (Protocol.hash · (.frozenSet id' t')) y → x = y := by
  constructor
  · intro a b ha hb equal x y hx hy
    have alike := (equal.alike_iff plain ha hb).mp rfl
    exact plain.code_eq a ha hb alike (hx.code? plain ha) (hy.code? plain hb)
  · intro values values' t t' inside perm built built'
    have gathered := built.gathered plain inside
    have gathered' := built'.gathered plain fun v mem => inside v (perm.symm.subset mem)
    refine ⟨⟨gathered.keyed, gathered'.keyed⟩, ?_⟩
    rintro id id' x y ⟨_, w, w', _, ran⟩ ⟨_, w₁, w₁', _, ran'⟩
    have left : HashCode.ofSet t.hashes = x := Outcome.ok.inj (Prod.mk.inj ran).1
    have right : HashCode.ofSet t'.hashes = y := Outcome.ok.inj (Prod.mk.inj ran').1
    rw [← left, ← right, HashCode.ofSet_perm (gathered.hashes_perm gathered' perm)]

namespace NestedData

def half : Double := ⟨0x3FE0000000000000⟩

def store : Store := ⟨264, #[], #[], #[]⟩

def ints : SetTable :=
  (Table.empty.insertNew (HashCode.ofInt 1) (.int 1) ()).insertNew (HashCode.ofDouble half) (.float half) ()

def floats : SetTable :=
  (Table.empty.insertNew (HashCode.ofDouble half) (.float half) ()).insertNew (HashCode.ofDouble .one)
    (.float .one) ()

def left : Value := .tuple 260 [.bool true, .frozenSet 261 ints]

def right : Value := .tuple 262 [.float .one, .frozenSet 263 floats]

def Mem (v : Value) : Prop :=
  v ∈ [left, right, .frozenSet 261 ints, .frozenSet 263 floats, .bool true, .int 1, .float .one,
    .float half]

theorem unlike {x y : Value} {m n : Number} (hx : store.content x = .number m)
    (hy : store.content y = .number n) (differ : m ≠ n ∧ m.compare? n ≠ some .eq) :
    ¬ Alike store x y := by
  rw [Alike.iff_matches, hx, hy]
  exact not_or.mpr differ

theorem keyed_ints : WellKeyed store ints := by
  apply (wellKeyed_empty.insertNew rfl nofun ()).insertNew rfl _ ()
  simpa [Table.keys, Table.toList_insertNew, Table.toList_empty] using unlike rfl rfl (by decide)

theorem keyed_floats : WellKeyed store floats := by
  apply (wellKeyed_empty.insertNew rfl nofun ()).insertNew rfl _ ()
  simpa [Table.keys, Table.toList_insertNew, Table.toList_empty] using unlike rfl rfl (by decide)

theorem plain : Plain store 264 Mem where
  builtin := by simp [Mem, left, right, Value.kind]
  parts := by
    simp [Mem, left, right, Store.parts, ints, floats, Table.keys, Table.toList_insertNew,
      Table.toList_empty]
  identity := by
    simp only [Mem, List.mem_cons, List.not_mem_nil, or_false]
    rintro a b (rfl | rfl | rfl | rfl | rfl | rfl | rfl | rfl)
      (rfl | rfl | rfl | rfl | rfl | rfl | rfl | rfl) same <;>
      first | rfl | exact absurd same (by decide)
  older := by
    simp only [Mem, left, right, List.mem_cons, List.not_mem_nil, or_false, Value.tuple.injEq, reduceCtorEq]
    rintro id items (⟨rfl, -⟩ | ⟨rfl, -⟩) <;> decide
  set := by
    simp only [Mem, left, right, List.mem_cons, Value.frozenSet.injEq, reduceCtorEq, List.not_mem_nil,
      or_false, false_or]
    rintro id t (⟨-, rfl⟩ | ⟨-, rfl⟩)
    · exact keyed_ints
    · exact keyed_floats
  dict := by simp [Mem, left, right]

theorem calm : Calm store 264 { store, dispatcher := .initial ⟨#[], [], true⟩ {} {} false } :=
  ⟨rfl, Nat.le_refl _, Dispatcher.honest_initial _ _ _ _⟩

end NestedData

/-- A tuple of `True` and the set of 1 and 0.5 equals a tuple of 1.0 and the set of 0.5 and 1.0, and the
two have one code; so have the sets of 1 and 0.5 built in either order. -/
theorem equal_hash_codes_nested :
    (Yields NestedData.store 264 (Protocol.equals · NestedData.left NestedData.right) true ∧
      ∃ x y, Yields NestedData.store 264 (Protocol.hash · NestedData.left) x ∧
        Yields NestedData.store 264 (Protocol.hash · NestedData.right) y ∧ x = y) ∧
    ∃ t t', Yields NestedData.store 264 (SetTable.ofValues · [.int 1, .float NestedData.half]) t ∧
      Yields NestedData.store 264 (SetTable.ofValues · [.float NestedData.half, .int 1]) t' ∧
      ∀ id id' x y, Yields NestedData.store 264 (Protocol.hash · (.frozenSet id t)) x →
        Yields NestedData.store 264 (Protocol.hash · (.frozenSet id' t')) y → x = y := by
  have laws := equal_hash_codes NestedData.plain
  constructor
  · have equal : Yields NestedData.store 264 (Protocol.equals · NestedData.left NestedData.right) true :=
      .of_ok NestedData.calm 2 (by decide +kernel)
    have hashed : Yields NestedData.store 264 (Protocol.hash · NestedData.left)
        (HashCode.ofTuple [HashCode.ofInt 1,
          HashCode.ofSet [HashCode.ofInt 1, HashCode.ofDouble NestedData.half]]) :=
      .of_ok NestedData.calm 2 (by decide +kernel)
    have hashed' : Yields NestedData.store 264 (Protocol.hash · NestedData.right)
        (HashCode.ofTuple [HashCode.ofDouble .one,
          HashCode.ofSet [HashCode.ofDouble NestedData.half, HashCode.ofDouble .one]]) :=
      .of_ok NestedData.calm 2 (by decide +kernel)
    refine ⟨equal, _, _, hashed, hashed', ?_⟩
    exact laws.1 _ _ (by simp [NestedData.Mem]) (by simp [NestedData.Mem]) equal _ _ hashed hashed'
  · have built : Yields NestedData.store 264 (SetTable.ofValues · [.int 1, .float NestedData.half]) _ :=
      .of_ok NestedData.calm 2 (by rfl)
    have built' : Yields NestedData.store 264 (SetTable.ofValues · [.float NestedData.half, .int 1]) _ :=
      .of_ok NestedData.calm 2 (by rfl)
    refine ⟨_, _, built, built', ?_⟩
    exact (laws.2 _ _ _ _ (by simp [NestedData.Mem]) (.swap _ _ _) built built').2

end DynamicObjects
