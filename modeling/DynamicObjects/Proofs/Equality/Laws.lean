import DynamicObjects.Proofs.Equality.Verdicts

/-!
The laws of equality and comparison on plain data. By induction on the depth of the hooks, whatever
`equals` answers is whether the values are alike, and whatever `compare` answers is a verdict: at each
depth the slots of the kinds walk through sequences, dictionaries and sets with the comparisons of the
depth below. The laws are those of being alike and of verdicts.
-/
namespace DynamicObjects

open Script (hooks)

def ComparisonDecided (s : Store) (n : Nat) : Prop :=
  ∀ bound P, Plain s bound P → ∀ op a b, P a → P b →
    Run.Gives (Calm s bound) (fun v => ∃ x, v = .bool x ∧ Verdict s op a b x)
      (Protocol.compare (hooks n) op a b)

variable {s : Store} {bound : Identity} {P : Value → Prop} {n : Nat} {op : CompareOp} {a b : Value}
  {x : Bool}

/-! ## Sequences -/

def Walked (s : Store) (op : CompareOp) (xs ys : List Value) (x : Bool) : Prop :=
  match parting s xs ys with
  | .ends order => x = op.holds order
  | .items a b =>
    match op with
    | .eq => x = false
    | .ne => x = true
    | op => Verdict s op a b x

theorem Walked.iff_forall₂ {xs ys : List Value} (h : Walked s .eq xs ys x) :
    x = true ↔ List.Forall₂ (Alike s) xs ys := by
  rw [← parting_eq_iff]
  unfold Walked at h
  cases parted : parting s xs ys with
  | ends order =>
    rw [parted] at h
    simp [h, CompareOp.holds]
  | items a b =>
    rw [parted] at h
    simp [show x = false from h]

theorem Walked.not {xs ys : List Value} (h : Walked s .ne xs ys x) : Walked s .eq xs ys (!x) := by
  unfold Walked at h ⊢
  cases parted : parting s xs ys with
  | ends order =>
    rw [parted] at h
    simp [h, CompareOp.holds, bne]
  | items a b =>
    rw [parted] at h
    simp [show x = true from h]

theorem verdict_of_walked {xs ys : List Value} (h : Walked s op xs ys x)
    (unknown : (s.content a).order? (s.content b) = none)
    (alike : Alike s a b ↔ List.Forall₂ (Alike s) xs ys)
    (ruled : (s.content a).ruling s op (s.content b) = .ofParting op (parting s xs ys)) :
    Verdict s op a b x := by
  have equal {x : Bool} (h : Walked s .eq xs ys x) : Verdict s .eq a b x :=
    .of_alike unknown (h.iff_forall₂.trans alike.symm)
  cases op with
  | eq => exact equal h
  | ne => simpa using (equal h.not).not
  | lt | le | gt | ge =>
    have ruled := Eq.trans (ruling_of_unknown unknown (by decide)) ruled
    unfold Walked at h
    cases parted : parting s xs ys with
    | ends order =>
      rw [parted] at h ruled
      exact .said ruled (by rw [show x = _ from h])
    | items a' b' =>
      rw [parted] at h ruled
      exact .deferred ruled h

section Walks

variable (decided : EqualityDecided s n) (plain : Plain s bound P)

include decided plain

theorem compareElements_gives (compared : ComparisonDecided s n) (xs ys : List Value)
    (inside : ∀ v ∈ xs, P v) (inside' : ∀ v ∈ ys, P v) :
    Run.Gives (Calm s bound) (Walked s op xs ys) (Protocol.compareElements (hooks n) op xs ys) := by
  induction xs generalizing ys with
  | nil => cases ys <;> exact Run.gives_pure rfl
  | cons a as ih =>
    cases ys with
    | nil => exact Run.gives_pure rfl
    | cons b bs =>
      have ha : P a := inside a List.mem_cons_self
      have hb : P b := inside' b List.mem_cons_self
      unfold Protocol.compareElements
      refine Run.gives_bind (decided bound P plain a b ha hb) fun x answer => ?_
      unfold Walked
      rw [parting]
      cases x with
      | true =>
        rw [if_pos (answer.mp rfl)]
        exact ih bs (fun v mem => inside v (List.mem_cons_of_mem _ mem))
          fun v mem => inside' v (List.mem_cons_of_mem _ mem)
      | false =>
        rw [if_neg fun alike => Bool.false_ne_true (answer.mpr alike)]
        cases op with
        | eq | ne => exact Run.gives_pure rfl
        | lt | le | gt | ge =>
          refine Run.gives_bind (compared bound P plain _ a b ha hb) ?_
          rintro v ⟨x, rfl, verdict⟩
          exact Run.gives_pure verdict

theorem equalElements_gives (xs ys : List Value) (inside : ∀ v ∈ xs, P v) (inside' : ∀ v ∈ ys, P v)
    (lengths : xs.length = ys.length) :
    Run.Gives (Calm s bound) (fun x => x = true ↔ List.Forall₂ (Alike s) xs ys)
      (Protocol.equalElements (hooks n) xs ys) := by
  induction xs generalizing ys with
  | nil =>
    obtain rfl : ys = [] := List.length_eq_zero_iff.mp lengths.symm
    exact Run.gives_pure (by simp)
  | cons a as ih =>
    cases ys with
    | nil => cases lengths
    | cons b bs =>
      rw [Protocol.equalElements]
      refine Run.gives_bind
        (decided bound P plain a b (inside a List.mem_cons_self) (inside' b List.mem_cons_self))
        fun x answer => ?_
      cases x with
      | true =>
        refine (ih bs (fun v mem => inside v (List.mem_cons_of_mem _ mem))
          (fun v mem => inside' v (List.mem_cons_of_mem _ mem)) (Nat.succ.inj lengths)).imp ?_
        intro x all
        rw [all, List.forall₂_cons]
        exact ⟨fun rest => ⟨answer.mp rfl, rest⟩, And.right⟩
      | false =>
        refine Run.gives_pure ⟨nofun, fun related => ?_⟩
        exact answer.mpr (List.forall₂_cons.mp related).1

end Walks

namespace ListRef

theorem items_gives (r : ListRef) :
    Run.Gives (Calm s bound) (fun items => items = (s.list r).buffer.toList) r.items :=
  Run.gives_readStore fun w calm => by rw [calm.store]; rfl

variable {r other : ListRef} (decided : EqualityDecided s n) (plain : Plain s bound P)
  (mem : P (.list r)) (mem' : P (.list other))

include decided plain mem mem'

theorem equals_gives :
    Run.Gives (Calm s bound) (fun x => x = true ↔ Alike s (.list r) (.list other))
      (equals (hooks n) r other) := by
  have alike : Alike s (.list r) (.list other) ↔
      List.Forall₂ (Alike s) (s.list r).buffer.toList (s.list other).buffer.toList := Alike.iff_matches
  unfold equals
  split
  next same =>
    obtain rfl := same
    exact Run.gives_pure (by simpa using Alike.refl _)
  next =>
    refine Run.gives_bind (items_gives r) ?_
    rintro left rfl
    refine Run.gives_bind (items_gives other) ?_
    rintro right rfl
    split
    next differ =>
      refine Run.gives_pure ⟨nofun, fun same => ?_⟩
      exact absurd (alike.mp same).length_eq differ
    next same =>
      simp only [alike]
      exact Run.gives_nested (equalElements_gives decided plain _ _ (plain.parts _ mem)
        (plain.parts _ mem') (not_not.mp same))

theorem compare_gives (compared : ComparisonDecided s n) :
    Run.Gives (Calm s bound) (Verdict s op (.list r) (.list other))
      (compare (hooks n) op r other) := by
  have equal := equals_gives decided plain mem mem'
  have walk (op : CompareOp) : Run.Gives (Calm s bound) (Verdict s op (.list r) (.list other))
      (do Run.nested (Protocol.compareElements (hooks n) op (← r.items) (← other.items))) := by
    refine Run.gives_bind (items_gives r) ?_
    rintro left rfl
    refine Run.gives_bind (items_gives other) ?_
    rintro right rfl
    refine (Run.gives_nested (compareElements_gives decided plain compared _ _ (plain.parts _ mem)
      (plain.parts _ mem'))).imp fun x walked => ?_
    exact verdict_of_walked walked rfl Alike.iff_matches rfl
  cases op with
  | eq => exact equal.imp fun x answer => .of_alike rfl answer
  | ne =>
    exact Run.gives_bind equal fun x answer => Run.gives_pure (Verdict.of_alike rfl answer).not
  | lt | le | gt | ge => exact walk _

end ListRef

/-! ## Slots -/

/-- What the slot of a kind may answer: it declines, which for equality only happens to values that
are not both made of other values in the same way, or it comes to a verdict. -/
def Answered (s : Store) (op : CompareOp) (a b v : Value) : Prop :=
  (v = .notImplemented ∧ (op = .eq ∨ op = .ne → (s.content a).compound (s.content b) = false)) ∨
    ∃ x, v = .bool x ∧ Verdict s op a b x

theorem gives_answered {I : World → Prop} {y : Run Bool} (f : Bool → Bool)
    (h : Run.Gives I (fun x => Verdict s op a b (f x)) y) :
    Run.Gives I (Answered s op a b) (do return .bool (f (← y))) :=
  Run.gives_bind h fun x verdict => Run.gives_pure (.inr ⟨f x, rfl, verdict⟩)

section Slots

variable (decided : EqualityDecided s n) (plain : Plain s bound P) (mem' : P b)

include decided plain mem'

theorem tupleSlot_gives (compared : ComparisonDecided s n) {own : Identity} {items : List Value}
    (mem : P (.tuple own items)) :
    Run.Gives (Calm s bound) (Answered s op (.tuple own items) b)
      (Tuple.compareSlot op (hooks n) [.tuple own items, b]) := by
  cases b
  case tuple _ other =>
    refine gives_answered id ((Run.gives_nested (compareElements_gives decided plain compared items
      other (plain.parts _ mem) (plain.parts _ mem'))).imp fun x walked => ?_)
    exact verdict_of_walked walked rfl Alike.iff_matches rfl
  all_goals exact Run.gives_pure (.inl ⟨rfl, fun _ => rfl⟩)

theorem listSlot_gives (compared : ComparisonDecided s n) {r : ListRef} (mem : P (.list r)) :
    Run.Gives (Calm s bound) (Answered s op (.list r) b)
      (ListRef.compareSlot op (hooks n) [.list r, b]) := by
  cases b
  case list other =>
    exact gives_answered id (ListRef.compare_gives decided plain mem mem' compared)
  all_goals exact Run.gives_pure (.inl ⟨rfl, fun _ => rfl⟩)

theorem dictSlot_gives {r : DictRef} (mem : P (.dict r)) :
    Run.Gives (Calm s bound) (Answered s op (.dict r) b)
      (DictRef.compareSlot op (hooks n) [.dict r, b]) := by
  cases b
  case dict other =>
    have equal := DictRef.equals_gives decided plain mem mem'
    cases op with
    | eq => exact gives_answered id (equal.imp fun x answer => .of_alike rfl answer)
    | ne => exact gives_answered not (equal.imp fun x answer => (Verdict.of_alike rfl answer).not)
    | lt | le | gt | ge => exact Run.gives_pure (.inl ⟨rfl, by simp⟩)
  all_goals
    cases op <;> exact Run.gives_pure (.inl ⟨rfl, fun _ => rfl⟩)

omit plain mem' in
theorem setSlot_gives {G : Region s} {xs : List Value} {mine : Run SetTable}
    (content : s.content a = .elements xs) (collects : Collects G xs mine) (mem' : G.Mem b) :
    Run.Gives (Calm s G.bound) (Answered s op a b) (compareSets (hooks n) op mine b) := by
  refine (compareSets_gives decided collects mem').imp ?_
  rintro v (⟨rfl, unlike⟩ | ⟨x, ys, rfl, content', answer⟩)
  · refine .inl ⟨rfl, fun _ => ?_⟩
    rw [content]
    cases other : s.content b <;> first | rfl | exact absurd other (unlike _)
  · have ruled : ruling s op a b = .states (SetOrder s op xs ys) := by
      have alike : Alike s a b ↔ SetOrder s .eq xs ys := by
        rw [Alike.iff_matches, content, content']
        rfl
      unfold ruling
      rw [content, content']
      cases op with
      | eq => exact congrArg Ruling.states (propext alike)
      | ne => exact congrArg Ruling.states (propext (not_congr alike))
      | lt | le | gt | ge => rfl
    exact .inr ⟨x, rfl, .said ruled answer⟩

end Slots

theorem callSlot_answers (plain : Plain s bound P)
    (below : ∀ m, n = m + 1 → EqualityDecided s m ∧ ComparisonDecided s m) (ha : P a) (hb : P b) :
    Run.Gives (Calm s bound) (Answered s op a b)
      (Protocol.callSlot (hooks n) (.compare op) [a, b]) := by
  have called {a : Value} {k : Kind} {slot : Slot} (builtin : a.typeKey = .builtin k)
      (found : k.slot? (.compare op) = some slot)
      (answers : ∀ m, EqualityDecided s m → ComparisonDecided s m →
        Run.Gives (Calm s bound) (Answered s op a b) (slot (hooks m) [a, b])) :
      Run.Gives (Calm s bound) (Answered s op a b)
        (Protocol.callSlot (hooks n) (.compare op) [a, b]) := by
    refine Protocol.callSlot_gives builtin ?_ fun missing => ?_
    · intro body m found' depth
      obtain rfl := Option.some.inj (found.symm.trans found')
      exact answers m (below m depth).1 (below m depth).2
    · cases found.symm.trans missing
  let G : Region s := ⟨bound, P, plain⟩
  cases a
  case object id number payload => exact absurd rfl (plain.builtin _ ha)
  case tuple id items =>
    exact called rfl rfl fun m equal compared => tupleSlot_gives equal plain hb compared ha
  case list r =>
    exact called rfl rfl fun m equal compared => listSlot_gives equal plain hb compared ha
  case dict r => exact called rfl rfl fun m equal _ => dictSlot_gives equal plain hb ha
  case frozenSet id t =>
    exact called rfl rfl fun m equal _ => setSlot_gives equal rfl (collects_frozenSet (G := G) ha) hb
  case dictKeys r =>
    exact called rfl rfl fun m equal _ => setSlot_gives equal rfl (collects_keys (G := G) equal ha) hb
  case dictItems r =>
    exact called rfl rfl fun m equal _ => setSlot_gives equal rfl (collects_items (G := G) equal ha) hb
  -- The other kinds leave comparisons to the intrinsic ones and to identity.
  all_goals
    refine Protocol.callSlot_gives rfl nofun fun _ => .inl ⟨rfl, fun _ => ?_⟩
    cases b <;> rfl

/-! ## Decisions -/

theorem comparison_decided (below : ∀ m, n = m + 1 → EqualityDecided s m ∧ ComparisonDecided s m) :
    ComparisonDecided s n := by
  intro bound P plain op a b ha hb
  unfold Protocol.compare
  refine Run.gives_bind (Run.gives_readStore (P := fun o => o = (s.content a).order? (s.content b))
    fun w calm => ?_) ?_
  · rw [calm.store, ← intrinsicCompare?_eq]
    rfl
  rintro o rfl
  cases known : (s.content a).order? (s.content b) with
  | some order => exact Run.gives_pure ⟨_, rfl, .said (by unfold ruling; rw [known]) Iff.rfl⟩
  | none =>
    refine Run.gives_bind (callSlot_answers plain below ha hb) ?_
    rintro forward (⟨rfl, simple⟩ | ⟨x, rfl, verdict⟩)
    · refine Run.gives_bind (callSlot_answers plain below hb ha) ?_
      rintro reflected (⟨rfl, -⟩ | ⟨x, rfl, verdict⟩)
      · -- Both declined, so the values are told apart by identity.
        have equal (either : op = .eq ∨ op = .ne) : Verdict s .eq a b (a.isSame b) := .of_alike known
          ⟨plain.alike_of_isSame ha hb, fun alike => isSame_of_alike alike known (simple either)⟩
        cases op with
        | eq => exact Run.gives_pure ⟨_, rfl, equal (.inl rfl)⟩
        | ne => exact Run.gives_pure ⟨_, rfl, (equal (.inr rfl)).not⟩
        | lt | le | gt | ge =>
          refine Run.gives_bind (Calm.typeName_gives a) fun _ _ => ?_
          exact Run.gives_bind (Calm.typeName_gives b) fun _ _ => Run.gives_raise _
      · -- The other operand was asked the reflected question.
        exact Run.gives_pure ⟨x, rfl, by simpa using verdict.reflected⟩
    · exact Run.gives_pure ⟨x, rfl, verdict⟩

theorem equality_decided (compared : ComparisonDecided s n) : EqualityDecided s n := by
  intro bound P plain a b ha hb
  unfold Protocol.equals
  split
  next same => exact Run.gives_pure (by simpa using plain.alike_of_isSame ha hb same)
  next differ =>
    refine Run.gives_bind (Run.gives_readStore (P := fun o => o = s.intrinsicEq? a b)
      fun w calm => ?_) ?_
    · rw [calm.store]
      rfl
    rintro o rfl
    rw [intrinsicEq?_eq s (plain.builtin a ha) (plain.builtin b hb)]
    cases known : (s.content a).order? (s.content b) with
    | some order => exact Run.gives_pure (by simp [alike_iff_order known differ])
    | none =>
      cases compound : (s.content a).compound (s.content b) with
      | false =>
        refine Run.gives_pure ⟨fun same => absurd same differ, fun alike => ?_⟩
        exact isSame_of_alike alike known compound
      | true =>
        refine Run.gives_bind (compared bound P plain .eq a b ha hb) ?_
        rintro v ⟨x, rfl, verdict⟩
        exact Run.gives_pure (verdict.alike_iff known)

/-- At every depth, whatever is answered about plain data is right. -/
theorem decided_at (s : Store) (n : Nat) : EqualityDecided s n ∧ ComparisonDecided s n := by
  induction n with
  | zero =>
    have compared : ComparisonDecided s 0 := comparison_decided nofun
    exact ⟨equality_decided compared, compared⟩
  | succ n ih =>
    have compared : ComparisonDecided s (n + 1) := comparison_decided fun m same =>
      Nat.succ.inj same ▸ ih
    exact ⟨equality_decided compared, compared⟩

/-! ## Laws -/

deriving instance DecidableEq for Number, Outcome

/-- A call may give a value on the heap of `s`: it does at some depth, from some state. -/
def Yields {α : Type} (s : Store) (bound : Identity) (x : Hooks → Run α) (v : α) : Prop :=
  ∃ n w w', Calm s bound w ∧ x (hooks n) w = (.ok v, w')

theorem Yields.of_ok {α : Type} {x : Hooks → Run α} {v : α} {w : World} (calm : Calm s bound w)
    (n : Nat) (ran : (x (hooks n) w).1 = .ok v) : Yields s bound x v :=
  ⟨n, w, (x (hooks n) w).2, calm, Prod.ext ran rfl⟩

theorem Yields.alike_iff (plain : Plain s bound P) (ha : P a) (hb : P b)
    (h : Yields s bound (Protocol.equals · a b) x) : x = true ↔ Alike s a b := by
  obtain ⟨n, w, w', calm, ran⟩ := h
  exact ((decided_at s n).1 bound P plain a b ha hb w x w' calm ran).2

theorem Yields.verdict (plain : Plain s bound P) (ha : P a) (hb : P b) {v : Value}
    (h : Yields s bound (Protocol.compare · op a b) v) : ∃ x, v = .bool x ∧ Verdict s op a b x := by
  obtain ⟨n, w, w', calm, ran⟩ := h
  exact ((decided_at s n).2 bound P plain op a b ha hb w v w' calm ran).2

/-- On any heap of plain data, equality is reflexive, symmetric and transitive, being unequal is its
negation, and an operator agrees with its reflection on the operands in the other order, whenever the
calls give values. -/
theorem equality_laws {c : Value} (plain : Plain s bound P) (ha : P a) (hb : P b) (hc : P c) :
    (∀ x, Yields s bound (Protocol.equals · a a) x → x = true) ∧
    (∀ x y, Yields s bound (Protocol.equals · a b) x → Yields s bound (Protocol.equals · b a) y →
      x = y) ∧
    (∀ x, Yields s bound (Protocol.equals · a b) true → Yields s bound (Protocol.equals · b c) true →
      Yields s bound (Protocol.equals · a c) x → x = true) ∧
    (∀ u v, Yields s bound (Protocol.compare · .ne a b) u →
      Yields s bound (Protocol.compare · .eq a b) v → ∃ x, v = .bool x ∧ u = .bool (!x)) ∧
    ∀ op u v, Yields s bound (Protocol.compare · op a b) u →
      Yields s bound (Protocol.compare · op.reflected b a) v → u = v := by
  refine ⟨fun x h => ?_, fun x y h h' => ?_, fun x h h' h'' => ?_, fun u v h h' => ?_,
    fun op u v h h' => ?_⟩
  · exact (h.alike_iff plain ha ha).mpr (.refl a)
  · rw [Bool.eq_iff_iff, h.alike_iff plain ha hb, h'.alike_iff plain hb ha, Alike.comm]
  · have first := (h.alike_iff plain ha hb).mp rfl
    have second := (h'.alike_iff plain hb hc).mp rfl
    exact (h''.alike_iff plain ha hc).mpr (first.trans second)
  · obtain ⟨x, rfl, unequal⟩ := h.verdict plain ha hb
    obtain ⟨y, rfl, equal⟩ := h'.verdict plain ha hb
    exact ⟨y, rfl, congrArg Value.bool (unequal.unique equal.not)⟩
  · obtain ⟨x, rfl, forward⟩ := h.verdict plain ha hb
    obtain ⟨y, rfl, backward⟩ := h'.verdict plain hb ha
    exact congrArg Value.bool (forward.reflected.unique backward)

namespace MixedKeys

def one : Double := ⟨0x3FF0000000000000⟩

def nan : Double := ⟨0x7FF8000000000000⟩

def table {ν : Type} (value : ν) (v : Value) : Table Value ν :=
  (Table.empty.insertNew (HashCode.ofInt 1) v value).insertNew (HashCode.ofDouble nan) (.float nan)
    value

def store : Store := ⟨260, #[], #[⟨257, table .none (.bool true), 2⟩], #[]⟩

def ints : Value := .frozenSet 258 (table () (.int 1))

def keys : Value := .dictKeys ⟨0⟩

def floats : Value := .frozenSet 259 (table () (.float one))

def Mem (v : Value) : Prop :=
  v ∈ [ints, keys, floats, .int 1, .bool true, .float one, .float nan]

theorem keys_table {ν : Type} (value : ν) (v : Value) : (table value v).keys = [v, .float nan] := by
  simp [table, Table.keys, Table.toList_insertNew, Table.toList_empty]

theorem keyed_table {ν : Type} (value : ν) {v : Value} {n : Number}
    (hashed : s.code? v = some (HashCode.ofInt 1)) (content : s.content v = .number n)
    (differ : n ≠ .float nan ∧ n.compare? (.float nan) ≠ some .eq) :
    WellKeyed s (table value v) := by
  have unlike : ¬ Alike s v (.float nan) := by
    rw [Alike.iff_matches, content]
    rintro (same | same)
    · exact differ.1 same
    · exact differ.2 same
  refine (wellKeyed_empty.insertNew hashed nofun value).insertNew rfl ?_ value
  simpa [Table.keys, Table.toList_insertNew, Table.toList_empty] using unlike

theorem plain : Plain store 260 Mem := by
  refine ⟨?_, ?_, ?_, ?_, ?_, ?_⟩
  · simp [Mem, ints, keys, floats, Value.kind]
  · simp [Mem, ints, keys, floats, Store.parts, keys_table, store, Store.dict]
  · simp only [Mem, List.mem_cons, List.not_mem_nil, or_false]
    rintro a b (rfl | rfl | rfl | rfl | rfl | rfl | rfl) (rfl | rfl | rfl | rfl | rfl | rfl | rfl) same
      <;> first | rfl | exact absurd same (by decide)
  · simp [Mem, ints, keys, floats]
  · have left : WellKeyed store (table () (.int 1)) := keyed_table () rfl rfl (by decide)
    have right : WellKeyed store (table () (.float one)) := keyed_table () rfl rfl (by decide)
    simp only [Mem, ints, keys, floats, List.mem_cons, Value.frozenSet.injEq, reduceCtorEq,
      List.not_mem_nil, or_false, false_or]
    rintro id t (⟨-, rfl⟩ | ⟨-, rfl⟩)
    · exact left
    · exact right
  · have keyed : WellKeyed store (store.dict ⟨0⟩).table := keyed_table _ rfl rfl (by decide)
    simpa [Mem, ints, keys, floats] using keyed

theorem calm : Calm store 260
    { store, dispatcher := .initial ⟨#[], [], true⟩ {} {} false } :=
  ⟨rfl, Nat.le_refl _, Dispatcher.honest_initial _ _ _ _⟩

end MixedKeys

/-- A set of 1 and a NaN equals the keys `True` and NaN of a dictionary, and these equal a set of 1.0
and the NaN, so the two sets are never found unequal. -/
theorem equality_laws_mixed :
    Yields MixedKeys.store 260 (Protocol.equals · MixedKeys.ints MixedKeys.keys) true ∧
    Yields MixedKeys.store 260 (Protocol.equals · MixedKeys.keys MixedKeys.floats) true ∧
    ∀ x, Yields MixedKeys.store 260 (Protocol.equals · MixedKeys.ints MixedKeys.floats) x →
      x = true := by
  have first : Yields MixedKeys.store 260 (Protocol.equals · MixedKeys.ints MixedKeys.keys) true :=
    .of_ok MixedKeys.calm 2 (by decide +kernel)
  have second : Yields MixedKeys.store 260 (Protocol.equals · MixedKeys.keys MixedKeys.floats) true :=
    .of_ok MixedKeys.calm 2 (by decide +kernel)
  obtain ⟨-, -, transitive, -, -⟩ := @equality_laws MixedKeys.store 260 MixedKeys.Mem MixedKeys.ints
    MixedKeys.keys MixedKeys.floats MixedKeys.plain (by simp [MixedKeys.Mem])
    (by simp [MixedKeys.Mem]) (by simp [MixedKeys.Mem])
  exact ⟨first, second, fun x => transitive x first second⟩

end DynamicObjects
