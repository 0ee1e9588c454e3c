import DynamicObjects.Proofs.Sets.PlainOperands
import DynamicObjects.Proofs.Dicts.IntegerKeys

/-!
Set operators as programs use them. A view of keys or items may stand on either side: on the left its
own slot runs; on the right the other operand is asked first and declines, and the reflected slot of
the view puts the operands back into the order in which they were written. Either way the view and the
other operand are made into sets, and the operator is that of sets.
-/
namespace DynamicObjects

open Script (hooks)

variable {keys : KeySpace} {n depth level : Nat} {I : States} {E : Value → Prop} {M N : Value → Prop}
  {Q : (Value → Prop) → Value → Prop} {op : BinaryOp}

namespace Protocol

variable (work : Workplace keys n depth I)

include work

theorem callThunk_grows {h : Hooks} {t : Thunk} {args : List Value}
    (target : ∀ level, depth ≤ level → level ≤ depth + 1 →
      Run.Grows I level E Q (runTarget h t args)) :
    Run.Grows I depth E Q (callThunk h t args) := by
  intro w i
  obtain ⟨a, w', E', ran, more, i', q⟩ := target (t.level depth) (t.le_level depth)
    (t.level_le depth) _ ((work.steady E).enters t i)
  refine ⟨a, t.left w w', E', ?_, more, ?_, q⟩
  · rw [callThunk_entered (fun _ limit => work.room E w limit i), ran]
  · exact (work.steady E').leaves t (work.back E E' w w' more i) i'

/-- A built-in kind that has a slot for an operation runs it, one level further down; otherwise it
declines. -/
theorem callSlot_grows {op : Operation} {k : Kind} {args : List Value}
    (declines : op.mayDecline = true) (builtin : (receiver args).typeKey = .builtin k)
    (called : ∀ slot, k.slot? op = some slot → ∀ level, depth ≤ level → level ≤ depth + 1 →
      Run.Grows I level E Q (slot (hooks n) args))
    (declined : k.slot? op = none → Q E .notImplemented) :
    Run.Grows I depth E Q (callSlot (hooks (n + 1)) op args) := by
  unfold callSlot
  rw [builtin]
  have resolved := ((work.steady E).resolve_finishes (E := fun _ => False) depth (n + 1) op k).yields
    fun _ => id
  intro w i
  obtain ⟨t, w₁, found, i₁, same, key, target⟩ := resolved w i
  rw [Run.bind_ok found]
  obtain rfl := same
  refine callThunk_grows work (fun level low high => ?_) w₁ i₁
  cases slot : k.slot? t.op with
  | none =>
    have missing : t.target = .missing := by rw [target, Kind.hasSlot, slot]; rfl
    have answer : t.missing = .ok .notImplemented := by
      unfold Thunk.missing
      cases op : t.op <;> simp_all [Operation.mayDecline]
    simp only [runTarget, missing, answer]
    exact Run.grows_pure (declined slot)
  | some body =>
    have runs : t.target = .builtin := by rw [target, Kind.hasSlot, slot]; rfl
    simp only [runTarget, runs, key, hooks, slot]
    exact called body slot level low high

theorem callSlot_runs {op : Operation} {k : Kind} {args : List Value} {slot : Slot}
    (declines : op.mayDecline = true) (builtin : (receiver args).typeKey = .builtin k)
    (found : k.slot? op = some slot)
    (runs : ∀ level, depth ≤ level → level ≤ depth + 1 →
      Run.Grows I level E Q (slot (hooks n) args)) :
    Run.Grows I depth E Q (callSlot (hooks (n + 1)) op args) := by
  refine callSlot_grows work declines builtin (fun slot' found' => ?_) fun missing => ?_
  · obtain rfl := Option.some.inj (found.symm.trans found')
    exact runs
  · cases found.symm.trans missing

end Protocol

theorem DictView.operatorSlot_apply (h : Hooks) (op : BinaryOp) (backwards : Bool)
    (view operand : Value) :
    operatorSlot op backwards h [view, operand] = (do
      match ← operandSet? h operand with
      | none => return .notImplemented
      | some other =>
        let mine ← receiveSet h view
        SetTable.newOrDecline (← if backwards then SetTable.algebra h op other mine
          else SetTable.algebra h op mine other)) := rfl

section Slots

variable (work : Workplace keys n depth I) (low : depth ≤ level) (high : level ≤ depth + 1)
  (known : SetTable.isSetOperator op = true)

include work low high known

theorem algebra_grows {t other : SetTable} (s : SetIn keys E M t) (s' : SetIn keys E N other) :
    Run.Grows I level E (FrozenSetIn keys · (KeySpace.Combined op M N))
      (do SetTable.newOrDecline (← SetTable.algebra (hooks n) op t other)) := by
  have combined := (work.elements E level low high).combined_yields s s' known
  refine Run.Yields.grows (Run.yields_bind combined ?_)
  rintro _ ⟨t', rfl, set⟩
  have made := ((work.steady E).newFrozenSet_finishes (E := fun _ => False) level t').yields
    fun _ => id
  refine made.imp ?_
  rintro _ ⟨id, rfl⟩
  exact ⟨id, t', rfl, set⟩

theorem viewSlot_grows {view operand : Value} {r : DictRef} (isView : SetView r view)
    (mine : Presents keys n depth I view M) (theirs : Presents keys n depth I operand N) :
    Run.Grows I level E (FrozenSetIn keys · (KeySpace.Combined op M N))
        (DictView.operatorSlot op false (hooks n) [view, operand]) ∧
      Run.Grows I level E (FrozenSetIn keys · (KeySpace.Combined op N M))
        (DictView.operatorSlot op true (hooks n) [view, operand]) := by
  have other {E : Value → Prop} := operandSet?_grows (E := E) work low high theirs
  have own {E : Value → Prop} := receiveSet_grows (E := E) work low high isView mine
  rw [DictView.operatorSlot_apply, DictView.operatorSlot_apply]
  constructor
  · refine Run.grows_bind other ?_
    rintro E' _ - ⟨t', rfl, set'⟩
    exact Run.grows_bind own fun E'' t more set =>
      algebra_grows work low high known set (set'.mono more)
  · refine Run.grows_bind other ?_
    rintro E' _ - ⟨t', rfl, set'⟩
    exact Run.grows_bind own fun E'' t more set =>
      algebra_grows work low high known (set'.mono more) set

end Slots

namespace IsSetView

variable {v : Value}

theorem slot? (view : IsSetView v) (op : Operation) :
    ∃ k, v.typeKey = .builtin k ∧ k.slot? op = DictView.setOperation? op := by
  obtain ⟨r, ⟨⟩ | ⟨⟩⟩ := view
  · exact ⟨.dictKeys, rfl, rfl⟩
  · exact ⟨.dictItems, rfl, rfl⟩

theorem typeKey_ne {a b : Value} (right : IsSetView b) (left : ¬ IsSetView a) :
    a.typeKey ≠ b.typeKey := by
  obtain ⟨r, ⟨⟩ | ⟨⟩⟩ := right
  · cases a with
    | dictKeys r => exact absurd ⟨r, .keys⟩ left
    | _ => nofun
  · cases a with
    | dictItems r => exact absurd ⟨r, .items⟩ left
    | _ => nofun

end IsSetView

namespace Protocol

variable {h : Hooks} {a b : Value} (settled : ∀ E v, Q E v → v.isNotImplemented = false)

include settled

theorem binary_forward (forward : Run.Grows I depth E Q (callSlot h (.binary op) [a, b])) :
    Run.Grows I depth E Q (binary h op a b) := by
  refine Run.grows_bind (P := fun E answer => ∃ v, answer = some v ∧ Q E v) ?_ ?_
  · refine Run.grows_bind forward fun E' v _ given => ?_
    simp only [settled E' v given, Bool.not_false, if_true]
    exact Run.grows_pure ⟨v, rfl, given⟩
  · rintro E' _ - ⟨v, rfl, given⟩
    exact Run.grows_pure given

theorem binary_reflected (differ : a.typeKey ≠ b.typeKey)
    (declined : Run.Grows I depth E (fun _ answer => answer = .notImplemented)
      (callSlot h (.binary op) [a, b]))
    (reflected : ∀ E, Run.Grows I depth E Q (callSlot h (.reflectedBinary op) [b, a])) :
    Run.Grows I depth E Q (binary h op a b) := by
  refine Run.grows_bind (P := fun E answer => ∃ v, answer = some v ∧ Q E v) ?_ ?_
  · refine Run.grows_bind declined ?_
    rintro E' _ - rfl
    rw [if_neg (by decide), if_neg differ]
    refine Run.grows_bind (reflected E') fun E'' v _ given => ?_
    simp only [settled E'' v given, Bool.false_eq_true, if_false]
    exact Run.grows_pure ⟨v, rfl, given⟩
  · rintro E' _ - ⟨v, rfl, given⟩
    exact Run.grows_pure given

end Protocol

section Operators

variable (work : Workplace keys n depth I) (known : SetTable.isSetOperator op = true) {a b : Value}

include work known

theorem forward_declines (builtin : a.kind ≠ .object) (left : ¬ IsSetView a) (right : IsSetView b) :
    Run.Grows I depth E (fun _ answer => answer = .notImplemented)
      (Protocol.callSlot (hooks (n + 1)) (.binary op) [a, b]) := by
  have called {k : Kind} (kind : a.typeKey = .builtin k)
      (declines : ∀ slot, k.slot? (.binary op) = some slot →
        ∀ h, slot h [a, b] = pure .notImplemented) :
      Run.Grows I depth E (fun _ answer => answer = .notImplemented)
        (Protocol.callSlot (hooks (n + 1)) (.binary op) [a, b]) := by
    refine Protocol.callSlot_grows work rfl kind (fun slot found level _ _ => ?_) fun _ => rfl
    rw [declines slot found]
    exact Run.grows_pure rfl
  -- only sets, dictionaries and numbers have slots for these operators, and they look for their like
  obtain ⟨r, ⟨⟩ | ⟨⟩⟩ := right
  all_goals
    cases a
    case object => exact absurd rfl builtin
    case dictKeys r => exact absurd ⟨r, .keys⟩ left
    case dictItems r => exact absurd ⟨r, .items⟩ left
    all_goals
      refine called rfl fun slot found h => ?_
      cases op <;> cases known <;> cases found <;> rfl

theorem binary_frozenSets_grows {id id' : Identity} {t other : SetTable} (s : SetIn keys E M t)
    (s' : SetIn keys E N other) :
    Run.Grows I depth E (FrozenSetIn keys · (KeySpace.Combined op M N))
      (Protocol.binary (hooks (n + 1)) op (.frozenSet id t) (.frozenSet id' other)) := by
  refine Protocol.binary_forward (fun _ _ => FrozenSetIn.settled) ?_
  have slot : Kind.slot? .frozenSet (.binary op) = some (SetTable.operatorSlot op) := if_pos known
  exact Protocol.callSlot_runs work rfl rfl slot fun level low high =>
    algebra_grows work low high known s s'

variable (left : Presents keys n depth I a M) (right : Presents keys n depth I b N)

include left right

theorem binary_viewLeft_grows (view : IsSetView a) :
    Run.Grows I depth E (FrozenSetIn keys · (KeySpace.Combined op M N))
      (Protocol.binary (hooks (n + 1)) op a b) := by
  refine Protocol.binary_forward (fun _ _ => FrozenSetIn.settled) ?_
  obtain ⟨k, kind, slot⟩ := view.slot? (.binary op)
  obtain ⟨r, view⟩ := view
  exact Protocol.callSlot_runs work rfl kind (slot.trans (if_pos known)) fun level low high =>
    (viewSlot_grows work low high known view left right).1

theorem binary_viewRight_grows (view : IsSetView b) (other : ¬ IsSetView a)
    (declined : Run.Grows I depth E (fun _ answer => answer = .notImplemented)
      (Protocol.callSlot (hooks (n + 1)) (.binary op) [a, b])) :
    Run.Grows I depth E (FrozenSetIn keys · (KeySpace.Combined op M N))
      (Protocol.binary (hooks (n + 1)) op a b) := by
  refine Protocol.binary_reflected (fun _ _ => FrozenSetIn.settled) (view.typeKey_ne other) declined
    fun E' => ?_
  obtain ⟨k, kind, slot⟩ := view.slot? (.reflectedBinary op)
  obtain ⟨r, view⟩ := view
  exact Protocol.callSlot_runs work rfl kind (slot.trans (if_pos known)) fun level low high =>
    (viewSlot_grows work low high known view right left).2

end Operators

/-- What an operator gives for two operands: each of them can be made into a set of its members; the
operator on any two such sets, in the order in which the operands are written, gives a frozen set of
the combined members, and so does the operator on the operands themselves. -/
structure OperatorLaws (keys : KeySpace) (n depth : Nat) (I : States) (op : BinaryOp) (a b : Value)
    (M N : Value → Prop) : Prop where
  left : ∀ E, Run.Grows I depth E (fun E' answer => ∃ t, answer = some t ∧ SetIn keys E' M t)
    (DictView.operandSet? (hooks n) a)
  right : ∀ E, Run.Grows I depth E (fun E' answer => ∃ t, answer = some t ∧ SetIn keys E' N t)
    (DictView.operandSet? (hooks n) b)
  snapshots : ∀ E id id' t other, SetIn keys E M t → SetIn keys E N other →
    Run.Grows I depth E (FrozenSetIn keys · (KeySpace.Combined op M N))
      (Protocol.binary (hooks (n + 1)) op (.frozenSet id t) (.frozenSet id' other))
  operands : ∀ E, Run.Grows I depth E (FrozenSetIn keys · (KeySpace.Combined op M N))
    (Protocol.binary (hooks (n + 1)) op a b)

/-- A view of keys or items may stand on either side of anything that presents members, but an object on
the left has to decline the operator first. -/
theorem Workplace.operator_laws (work : Workplace keys n depth I)
    (known : SetTable.isSetOperator op = true) {a b : Value} (left : Presents keys n depth I a M)
    (right : Presents keys n depth I b N)
    (sides : IsSetView a ∨ IsSetView b ∧ (a.kind = .object →
      ∀ E, Run.Grows I depth E (fun _ answer => answer = .notImplemented)
        (Protocol.callSlot (hooks (n + 1)) (.binary op) [a, b]))) :
    OperatorLaws keys n depth I op a b M N := by
  have low := Nat.le_refl depth
  have high := Nat.le_succ depth
  refine ⟨fun E => operandSet?_grows work low high left,
    fun E => operandSet?_grows work low high right,
    fun E id id' t other => binary_frozenSets_grows work known, fun E => ?_⟩
  by_cases onLeft : IsSetView a
  · exact binary_viewLeft_grows work known left right onLeft
  · obtain ⟨onRight, declines⟩ := sides.resolve_left onLeft
    refine binary_viewRight_grows work known left right onRight onLeft ?_
    by_cases object : a.kind = .object
    · exact declines object E
    · exact forward_declines work known object onLeft onRight

/-- Hashable data of built-in kinds, nested less deep than there are levels and calls left, obeys the
laws: views of keys and of items, frozen sets and tuples. -/
theorem Region.operator_laws {s : Store} (base : Region s) {levels top used : Nat}
    (enough : levels ≤ n) (spare : Spare True top used (depth + 1) levels)
    (known : SetTable.isSetOperator op = true) {a b : Value} {xs ys : List Value}
    (left : base.Operand n levels a xs) (right : base.Operand n levels b ys)
    (view : IsSetView a ∨ IsSetView b) :
    OperatorLaws s.hashable n depth (base.Inhabited levels top used) op a b (s.hashable.Among xs)
      (s.hashable.Among ys) := by
  refine (base.workplace enough spare).operator_laws known left.presents right.presents
    (view.imp_right fun onRight => ⟨onRight, fun object => ?_⟩)
  cases left <;> cases object

/-- Sets of keys are decided by their members. A set that is built from values has those among them;
what the operations give for two sets, and what comparisons say, follows from the members alone, so
not from the order of insertion or from which set is smaller. The operators give the same members
when a view of keys or items stands on either side of anything that presents members; an object on
the left has to decline the operator first. -/
theorem set_algebra (keys : KeySpace) :
    (∀ h J, Elements keys h J →
      (∀ values, (∀ v ∈ values, keys.IsKey v) →
        Run.Yields J (SetOf keys (keys.Among values)) (SetTable.ofValues h values)) ∧
      ∀ M N t other, SetOf keys M t → SetOf keys N other → SetLaws keys h J M N t other) ∧
    ∀ n depth I, Workplace keys n depth I → ∀ op, SetTable.isSetOperator op = true →
      ∀ a b M N, Presents keys n depth I a M → Presents keys n depth I b N →
        IsSetView a ∨ IsSetView b ∧ (a.kind = .object →
          ∀ E, Run.Grows I depth E (fun _ answer => answer = .notImplemented)
            (Protocol.callSlot (hooks (n + 1)) (.binary op) [a, b])) →
        OperatorLaws keys n depth I op a b M N :=
  ⟨fun _ _ elements => ⟨elements.ofValues_yields, fun _ _ _ _ => elements.laws⟩,
    fun _ _ _ work _ known _ _ _ _ left right sides => work.operator_laws known left right sides⟩

theorem elements_integers (h : Hooks) (J : World → Prop) : Elements .integers h J where
  hash isKey w inside := ⟨w, Protocol.hash_integer w isKey, inside⟩
  equals ha hb w inside := ⟨w, Protocol.equals_integer w ha hb, inside⟩

namespace MixedItems

open MixedKeys (one nan)

def region : Region store := ⟨262, Mem, plain⟩

theorem known {v : Value} (among : v ∈ [item, truths, .float one]) : region.Known 2 v := by
  simp only [List.mem_cons, List.not_mem_nil, or_false] at among
  rcases among with rfl | rfl | rfl
  · refine ⟨by simp [region, Mem], .tuple ?_⟩
    simpa using ⟨shallow_number (by simp) 1, shallow_tuples.2⟩
  · exact ⟨by simp [region, Mem], shallow_tuples.1.mono (by decide)⟩
  · exact ⟨by simp [region, Mem], shallow_number (by simp) 2⟩

/-- Two levels of nested data are left for the items, and so are calls. -/
theorem workplace : Workplace store.hashable 3 0 (region.Inhabited 2 3 0) :=
  region.workplace (by decide) fun _ => by decide

theorem inhabited : region.Inhabited 2 3 0 (region.Known 2) 0 world := by
  refine ⟨region, le_refl _, rfl, calm, fun _ => ⟨rfl, Nat.le_refl _, fun limit found => ?_⟩⟩
  obtain rfl : defaultRecursionLimit = limit := Option.some.inj found
  decide

theorem presents_pair (x : Value) (among : x ∈ [item, truths, .float one]) :
    Presents store.hashable 3 0 (region.Inhabited 2 3 0) (.tuple 262 [x, truths])
      (store.hashable.Among [x, truths]) := by
  refine Region.presents_tuple ?_ (Nat.lt_succ_self 2)
  simpa using ⟨known among, known (v := truths) (by simp)⟩

theorem presents_left :
    Presents store.hashable 3 0 (region.Inhabited 2 3 0) (.dictKeys left)
        (store.hashable.Among (store.dict left).table.keys) ∧
      Presents store.hashable 3 0 (region.Inhabited 2 3 0) (.dictItems left)
        (store.hashable.Among ((store.dict left).table.pairs.map itemTuple)) := by
  have mem : region.Mem (.dict left) := by simp [region, Mem]
  have inside := shallow left (.inl rfl)
  exact ⟨Region.presents_keys mem fun x part => (inside x part).mono (by decide),
    Region.presents_items mem inside⟩

theorem ends {op : BinaryOp} {a b : Value} {M N : Value → Prop}
    (laws : OperatorLaws store.hashable 3 0 (region.Inhabited 2 3 0) op a b M N) :
    ∃ id t w', Protocol.binary (hooks 4) op a b world = (.ok (.frozenSet id t), w') ∧
      ∀ x, (store.code? x).isSome = true →
        (store.hashable.Among t.keys x ↔ KeySpace.Combined op M N x) := by
  obtain ⟨_, w', _, ran, -, -, id, t, rfl, set⟩ := laws.operands (region.Known 2) world inhabited
  exact ⟨id, t, w', ran, set.members⟩

theorem pairs_left : (store.dict left).table.pairs = [(.int 1, truths), (.float nan, truths)] := by
  simp [store, left, Store.dict, MixedKeys.table, Table.pairs, Table.toList_insertNew,
    Table.toList_empty]

theorem keys_left : (store.dict left).table.keys = [.int 1, .float nan] := by
  simp [store, left, Store.dict, MixedKeys.table, Table.keys, Table.toList_insertNew,
    Table.toList_empty]

theorem alike_one : Alike store (.int 1) (.float one) := Alike.iff_matches.mpr (.inr (by decide))

theorem alike_truths : Alike store truths floats :=
  Alike.iff_matches.mpr (.cons (Alike.iff_matches.mpr (.inr (by decide))) .nil)

theorem item_among :
    store.hashable.Among ((store.dict left).table.pairs.map itemTuple) item := by
  have listed : (.int 1, truths) ∈ (store.dict left).table.pairs := by simp [pairs_left]
  refine Store.among_hashable.mpr ⟨_, List.mem_map_of_mem listed, ?_⟩
  refine (plain.near_item_iff (by simp [Mem]) (shallow left (.inl rfl)) listed ?_ ?_).mpr
    ⟨alike_one, alike_truths⟩
  · exact ⟨by simp [Mem], rfl⟩
  · exact ⟨by simp [Mem], rfl⟩

theorem truths_absent :
    ¬ store.hashable.Among (store.dict left).table.keys truths ∧
      ¬ store.hashable.Among ((store.dict left).table.pairs.map itemTuple) truths := by
  rw [Store.among_hashable, Store.among_hashable, keys_left, pairs_left]
  constructor
  · rintro ⟨v, listed, -, alike⟩
    have unlike := Alike.iff_matches.mp alike
    simp only [List.mem_cons, List.not_mem_nil, or_false] at listed
    rcases listed with rfl | rfl <;> exact unlike
  · rintro ⟨v, listed, -, alike⟩
    have unlike := Alike.iff_matches.mp alike
    simp only [List.map_cons, List.map_nil, List.mem_cons, List.not_mem_nil, or_false] at listed
    rcases listed with rfl | rfl <;> cases unlike <;> contradiction

theorem among_self {x : Value} {values : List Value} (mem : x ∈ values) :
    store.hashable.Among values x :=
  Store.among_hashable.mpr ⟨x, mem, rfl, .refl x⟩

end MixedItems

open MixedItems in
/-- Two sets of integers, one a proper subset of the other although its elements came in another order
and with `True` for 1. Then a tuple less the keys of a dictionary with the keys 1 and NaN, a tuple less
its items, and its items that are also in the tuple: 1.0 is a key, and with its value an item, but a
tuple of one number is neither. -/
theorem set_algebra_reflected :
    (∃ t w₁ other w₂ w₃,
      SetTable.ofValues (hooks 3) [.int 2, .bool true] world = (.ok t, w₁) ∧
      SetTable.ofValues (hooks 3) [.int 1, .int 3, .int 2] w₁ = (.ok other, w₂) ∧
      SetTable.compare (hooks 3) .lt t other w₂ = (.ok true, w₃)) ∧
    (∃ id t w', Protocol.binary (hooks 4) .sub (.tuple 262 [.float MixedKeys.one, truths])
        (.dictKeys left) world = (.ok (.frozenSet id t), w') ∧
      store.hashable.Among t.keys truths ∧
      ¬ store.hashable.Among t.keys (.float MixedKeys.one)) ∧
    (∃ id t w', Protocol.binary (hooks 4) .sub (.tuple 262 [item, truths]) (.dictItems left)
        world = (.ok (.frozenSet id t), w') ∧
      store.hashable.Among t.keys truths ∧ ¬ store.hashable.Among t.keys item) ∧
    ∃ id t w', Protocol.binary (hooks 4) .and (.dictItems left) (.tuple 262 [item, truths])
        world = (.ok (.frozenSet id t), w') ∧
      store.hashable.Among t.keys item ∧ ¬ store.hashable.Among t.keys truths := by
  obtain ⟨notKey, notItem⟩ := truths_absent
  have operators := (set_algebra store.hashable).2 3 0 _ workplace
  refine ⟨?_, ?_, ?_, ?_⟩
  · obtain ⟨built, laws⟩ := (set_algebra .integers).1 (hooks 3) (fun _ => True)
      (elements_integers _ _)
    obtain ⟨t, w₁, made, -, set⟩ := built [.int 2, .bool true]
      (by simp [KeySpace.integers, Value.asInt?]) world trivial
    obtain ⟨other, w₂, made', -, set'⟩ := built [.int 1, .int 3, .int 2]
      (by simp [KeySpace.integers, Value.asInt?]) w₁ trivial
    obtain ⟨answer, w₃, compared, -, right⟩ := (laws _ _ t other set set').compare .lt w₂ trivial
    have proper : answer = true := by
      rw [right]
      refine ⟨fun x _ member => ?_, fun around => ?_⟩
      · simp only [KeySpace.among_cons, KeySpace.among_nil, or_false] at member ⊢
        rcases member with two | one
        · exact .inr (.inr two)
        · exact .inl one
      · have three := around (.int 3) rfl
        simp [KeySpace.Among, KeySpace.integers, Value.asInt?, Word.ofBool] at three
    exact ⟨t, w₁, other, w₂, w₃, made, made', proper ▸ compared⟩
  · obtain ⟨id, t, w', ran, members⟩ := ends <| operators .sub rfl _ _ _ _
      (presents_pair (.float MixedKeys.one) (by simp)) presents_left.1
      (.inr ⟨⟨left, .keys⟩, fun object => absurd object (by decide)⟩)
    refine ⟨id, t, w', ran, (members _ rfl).mpr ⟨among_self (by simp), notKey⟩, fun found => ?_⟩
    refine ((members _ rfl).mp found).2 (Store.among_hashable.mpr ⟨.int 1, by simp [keys_left], ?_⟩)
    exact ⟨rfl, alike_one⟩
  · obtain ⟨id, t, w', ran, members⟩ := ends <| operators .sub rfl _ _ _ _
      (presents_pair item (by simp)) presents_left.2
      (.inr ⟨⟨left, .items⟩, fun object => absurd object (by decide)⟩)
    refine ⟨id, t, w', ran, (members _ rfl).mpr ⟨among_self (by simp), notItem⟩, fun found => ?_⟩
    exact ((members _ rfl).mp found).2 item_among
  · obtain ⟨id, t, w', ran, members⟩ := ends <| operators .and rfl _ _ _ _ presents_left.2
      (presents_pair item (by simp)) (.inl ⟨left, .items⟩)
    refine ⟨id, t, w', ran, (members _ rfl).mpr ⟨item_among, among_self (by simp)⟩, fun found => ?_⟩
    exact notItem ((members _ rfl).mp found).1

end DynamicObjects
