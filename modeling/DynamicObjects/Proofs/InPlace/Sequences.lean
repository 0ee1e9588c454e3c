import DynamicObjects.Proofs.Atomicity.Spared
import DynamicObjects.Proofs.Dispatch.Courses
import DynamicObjects.Proofs.Repetition

/-!
Operators on lists and byte arrays, and the same operators in place. The operator makes a fresh sequence
and leaves everything as it was; in place, the very object on the left gets the items that the fresh one
has, and no other sequence changes. The other operand is read before anything is written, so it does not
matter whether it is the same object.
-/
namespace DynamicObjects

def World.HasRoom (w : World) : Prop := ∀ limit, w.limit = some limit → w.depth < limit

theorem Dispatcher.policy_resolve (d : Dispatcher) (hasSlot : Kind → Operation → Bool) (op : Operation)
    (key : TypeKey) : (d.resolve hasSlot op key).2.policy = d.policy := by
  rcases d.resolve_cases hasSlot op key with ⟨t, log, recorders, -, resolved⟩ |
    ⟨-, log, recorders, lookups, resolved⟩
  all_goals rw [resolved]

namespace UserCode

variable {kind : Kind} {op : Operation} {body : Slot} {w : World}

theorem store_entering (w : World) (op : Operation) (args : List Value) :
    (w.entering op args).store = w.store :=
  store_entered _ _

theorem callSlot_entered (code : UserCode) (n : Nat) (args : List Value) (found : kind.slot? op = some body)
    (own : (Protocol.receiver args).typeKey = .builtin kind) (reached : w.dispatcher.Reached)
    (room : w.HasRoom) :
    ∃ w', w'.store = (body (code.hooks plain n) args (w.entering op args)).2.store ∧
      Protocol.callSlot (code.hooks plain (n + 1)) op args w =
        ((body (code.hooks plain n) args (w.entering op args)).1, w') := by
  obtain ⟨called, target⟩ := callSlot_target code n found own reached
  have below : ({ w with dispatcher :=
      (w.dispatcher.resolve Kind.hasSlot op (Protocol.receiver args).typeKey).2 } : World).HasRoom := by
    unfold World.HasRoom World.limit
    rw [Dispatcher.policy_resolve]
    exact room
  rw [called, Protocol.callThunk_entered fun _ => below, target]
  exact ⟨_, store_left _ _ _, rfl⟩

end UserCode

namespace Protocol

variable {h : Hooks} {op : BinaryOp} {a b : Value} {w w' : World} {outcome : Outcome Value}

/-- A slot that does not leave the answer to the other operand decides how the operator ends. -/
theorem binary_of_called (called : callSlot h (.binary op) [a, b] w = (outcome, w'))
    (answers : ∀ v, outcome = .ok v → v.isNotImplemented = false) :
    binary h op a b w = (outcome, w') := by
  cases outcome with
  | ok v =>
    have dispatched : binaryDispatch h op a b w = (.ok (some v), w') := by
      refine (Run.bind_ok called).trans ?_
      rw [answers v rfl]
      rfl
    exact Run.bind_ok dispatched
  | error e => exact Run.bind_error (Run.bind_error called)
  | outOfFuel => exact Run.bind_outOfFuel (Run.bind_outOfFuel called)

theorem inPlace_of_called (called : callSlot h (.inPlace op) [a, b] w = (outcome, w'))
    (answers : ∀ v, outcome = .ok v → v.isNotImplemented = false) :
    inPlace h op a b w = (outcome, w') := by
  cases outcome with
  | ok v =>
    refine (Run.bind_ok called).trans ?_
    rw [answers v rfl]
    rfl
  | error e => exact Run.bind_error called
  | outOfFuel => exact Run.bind_outOfFuel called

end Protocol

namespace UserCode

variable {code : UserCode} {n : Nat} {op : BinaryOp} {a b : Value} {plain inPlace : Slot} {w w₁ : World}
  {outcome : Outcome Value}

theorem binary_entered (slot : a.kind.slot? (.binary op) = some plain) (own : a.typeKey = .builtin a.kind)
    (reached : w.dispatcher.Reached) (room : w.HasRoom)
    (ran : plain (code.hooks UserCode.plain n) [a, b] (w.entering (.binary op) [a, b]) = (outcome, w₁))
    (answers : ∀ v, outcome = .ok v → v.isNotImplemented = false) :
    ∃ w', w'.store = w₁.store ∧
      Protocol.binary (code.hooks UserCode.plain (n + 1)) op a b w = (outcome, w') := by
  obtain ⟨w', store, called⟩ := callSlot_entered code n [a, b] slot own reached room
  rw [ran] at store called
  exact ⟨w', store, Protocol.binary_of_called called answers⟩

theorem inPlace_entered (slot : a.kind.slot? (.inPlace op) = some inPlace)
    (own : a.typeKey = .builtin a.kind) (reached : w.dispatcher.Reached) (room : w.HasRoom)
    (ran : inPlace (code.hooks UserCode.plain n) [a, b] (w.entering (.inPlace op) [a, b]) = (outcome, w₁))
    (answers : ∀ v, outcome = .ok v → v.isNotImplemented = false) :
    ∃ w', w'.store = w₁.store ∧
      Protocol.inPlace (code.hooks UserCode.plain (n + 1)) op a b w = (outcome, w') := by
  obtain ⟨w', store, called⟩ := callSlot_entered code n [a, b] slot own reached room
  rw [ran] at store called
  exact ⟨w', store, Protocol.inPlace_of_called called answers⟩

end UserCode

def Store.KeepsOthers (a : Value) (s s' : Store) : Prop :=
  ∀ u, u ≠ a → ∀ items, s.items? u = some items → s'.items? u = some items

namespace Run

def TurnsInto (w : World) (a : Value) (items : Items) (x : Run Value) : Prop :=
  ∃ w', x w = (.ok a, w') ∧ w'.store.items? a = some items ∧ w.store.KeepsOthers a w'.store

/-- The run fails and changes nothing. -/
def Refuses (w : World) (e : Error) (x : Run Value) : Prop :=
  ∃ w', x w = (.error e, w') ∧ w.store.Retains w'.store

end Run

/-- An operator and its form in place come to the same items. -/
structure Agree (w : World) (a : Value) (items : Items) (plain inPlace : Run Value) : Prop where
  plain : Run.MakesFrom w a.kind items plain
  inPlace : Run.TurnsInto w a items inPlace

structure BothRefuse (w : World) (e : Error) (plain inPlace : Run Value) : Prop where
  plain : Run.Refuses w e plain
  inPlace : Run.Refuses w e inPlace

/-- The slots of an operator and of its form in place, for receivers of a kind. -/
structure Kind.Offers (kind : Kind) (op : BinaryOp) (plain inPlace : Slot) : Prop where
  plain : kind.slot? (.binary op) = some plain
  inPlace : kind.slot? (.inPlace op) = some inPlace

section Operators

variable {code : UserCode} {n : Nat} {op : BinaryOp} {a b : Value} {plain inPlace : Slot} {w : World}
  {items : Items} {e : Error}

theorem Agree.operators (slots : a.kind.Offers op plain inPlace) (own : a.typeKey = .builtin a.kind)
    (answers : a.kind ≠ .notImplementedType) (reached : w.dispatcher.Reached) (room : w.HasRoom)
    (agree : ∀ w', w'.store = w.store →
      Agree w' a items (plain (code.hooks UserCode.plain n) [a, b])
        (inPlace (code.hooks UserCode.plain n) [a, b])) :
    Agree w a items (Protocol.binary (code.hooks UserCode.plain (n + 1)) op a b)
      (Protocol.inPlace (code.hooks UserCode.plain (n + 1)) op a b) := by
  have proper {v u : Value} (kind : v.kind = a.kind) (same : Outcome.ok v = .ok u) :
      u.isNotImplemented = false := by
    obtain rfl := Outcome.ok.inj same
    cases v <;> first | rfl | exact absurd kind.symm answers
  constructor
  · have same := UserCode.store_entering w (.binary op) [a, b]
    obtain ⟨v, w₁, ran, kind, holds, retains⟩ := (agree _ same).plain
    rw [same] at retains
    obtain ⟨w', store, ended⟩ :=
      UserCode.binary_entered slots.plain own reached room ran fun _ => proper kind
    exact ⟨v, w', ended, kind, store ▸ holds, store ▸ retains⟩
  · have same := UserCode.store_entering w (.inPlace op) [a, b]
    obtain ⟨w₁, ran, holds, keeps⟩ := (agree _ same).inPlace
    rw [same] at keeps
    obtain ⟨w', store, ended⟩ :=
      UserCode.inPlace_entered slots.inPlace own reached room ran fun _ => proper rfl
    exact ⟨w', ended, store ▸ holds, store ▸ keeps⟩

theorem BothRefuse.operators (slots : a.kind.Offers op plain inPlace) (own : a.typeKey = .builtin a.kind)
    (reached : w.dispatcher.Reached) (room : w.HasRoom)
    (refuse : ∀ w', w'.store = w.store →
      BothRefuse w' e (plain (code.hooks UserCode.plain n) [a, b])
        (inPlace (code.hooks UserCode.plain n) [a, b])) :
    BothRefuse w e (Protocol.binary (code.hooks UserCode.plain (n + 1)) op a b)
      (Protocol.inPlace (code.hooks UserCode.plain (n + 1)) op a b) := by
  constructor
  · have same := UserCode.store_entering w (.binary op) [a, b]
    obtain ⟨w₁, ran, retains⟩ := (refuse _ same).plain
    rw [same] at retains
    obtain ⟨w', store, ended⟩ := UserCode.binary_entered slots.plain own reached room ran nofun
    exact ⟨w', ended, store ▸ retains⟩
  · have same := UserCode.store_entering w (.inPlace op) [a, b]
    obtain ⟨w₁, ran, retains⟩ := (refuse _ same).inPlace
    rw [same] at retains
    obtain ⟨w', store, ended⟩ := UserCode.inPlace_entered slots.inPlace own reached room ran nofun
    exact ⟨w', ended, store ▸ retains⟩

end Operators

/-- An operator and its form in place come to the same items, as slots in any state and as operators that
programs use. -/
structure OperatorAgrees (code : UserCode) (n : Nat) (w : World) (op : BinaryOp) (a b : Value)
    (items : Items) : Prop where
  slots : ∃ plain inPlace, a.kind.Offers op plain inPlace ∧
    Agree w a items (plain (code.hooks UserCode.plain n) [a, b])
      (inPlace (code.hooks UserCode.plain n) [a, b])
  operators : w.dispatcher.Reached → w.HasRoom →
    Agree w a items (Protocol.binary (code.hooks UserCode.plain (n + 1)) op a b)
      (Protocol.inPlace (code.hooks UserCode.plain (n + 1)) op a b)

structure OperatorRefuses (code : UserCode) (n : Nat) (w : World) (op : BinaryOp) (a b : Value)
    (e : Error) : Prop where
  slots : ∃ plain inPlace, a.kind.Offers op plain inPlace ∧
    BothRefuse w e (plain (code.hooks UserCode.plain n) [a, b])
      (inPlace (code.hooks UserCode.plain n) [a, b])
  operators : w.dispatcher.Reached → w.HasRoom →
    BothRefuse w e (Protocol.binary (code.hooks UserCode.plain (n + 1)) op a b)
      (Protocol.inPlace (code.hooks UserCode.plain (n + 1)) op a b)

namespace ListRef

variable {h : Hooks} {w : World} {r r' : ListRef} {o o' : ListObject} {count : Value} {n : Int64}

theorem offers_add : Kind.list.Offers .add addSlot inPlaceAddSlot := ⟨rfl, rfl⟩

theorem offers_mul : Kind.list.Offers .mul mulSlot inPlaceMulSlot := ⟨rfl, rfl⟩

theorem turnsInto {x : Run Unit} {b : Buffer Value} (live : w.list? r = some o)
    (ran : x w = (.ok (), w.putList r (o.holding b))) :
    Run.TurnsInto w (.list r) (.values b.toList) (do x; return .list r) :=
  ⟨_, Run.bind_ok ran, World.items?_putList live _,
    fun _ other _ held => (World.items?_putList_of_ne _ other).trans held⟩

theorem add_agree (live : w.list? r = some o) (live' : w.list? r' = some o') :
    Agree w (.list r) (.values (o.buffer.toList ++ o'.buffer.toList))
      (addSlot h [.list r, .list r']) (inPlaceAddSlot h [.list r, .list r']) := by
  constructor
  · have slot : addSlot h [.list r, .list r'] = r.concat r' := rfl
    have ran : addSlot h [.list r, .list r'] w =
        Run.newList (Buffer.concat o.buffer.items o'.buffer.items) w := by
      rw [slot, concat, Run.bind_ok (buffer_apply live), Run.bind_ok (buffer_apply live')]
    have makes := (Run.newList_makes (Buffer.concat o.buffer.items o'.buffer.items)).from ran
    rwa [Buffer.toList, Buffer.items_concat, Array.toList_append] at makes
  · -- the snapshot is complete before the list grows, also if it is a snapshot of that very list
    have extended : r.extend h (.list r') w =
        (.ok (), w.putList r (o.holding (o.buffer.extend o'.buffer.toList))) :=
      (Run.bind_ok (items_apply live')).trans (update_apply live _)
    have turns := turnsInto live extended
    rwa [Buffer.toList_extend] at turns

theorem inPlaceMulSlot_eq (times : count.asInt? = some n) :
    inPlaceMulSlot h [.list r, count] = do
      r.repeatInPlace n.toInt
      return .list r := by
  have slot : inPlaceMulSlot h [.list r, count] = count.counting fun n => do
      r.repeatInPlace n
      return .list r := rfl
  rw [slot, Value.counting_eq times]

theorem mul_inPlace (live : w.list? r = some o) (times : count.asInt? = some n)
    (fits : o.buffer.size * n.toInt.toNat ≤ Buffer.mostItems Value) :
    Run.TurnsInto w (.list r) (.values (List.replicate n.toInt.toNat o.buffer.toList).flatten)
      (inPlaceMulSlot h [.list r, count]) := by
  obtain ⟨b, repeated, holds⟩ := o.buffer.toList_repeatInPlace fits
  have tried := tryUpdate_apply live (·.repeatInPlace n.toInt)
  rw [repeated] at tried
  rw [inPlaceMulSlot_eq times, ← holds]
  exact turnsInto live tried

/-- The attempt is counted, but the items are the same. -/
theorem mul_inPlace_refused (live : w.list? r = some o) (times : count.asInt? = some n)
    (many : Buffer.mostItems Value < o.buffer.size * n.toInt.toNat) :
    Run.Refuses w .repeatOverflow (inPlaceMulSlot h [.list r, count]) := by
  have tried := tryUpdate_apply live (·.repeatInPlace n.toInt)
  rw [o.buffer.repeatInPlace_refused many] at tried
  rw [inPlaceMulSlot_eq times]
  refine ⟨_, Run.bind_error tried, ?_⟩
  rw [← World.modifyList_eq_putList live fun o => o.holding o.buffer]
  exact w.store.retains_modifyList fun o => ⟨o.version + 1, rfl⟩

end ListRef

namespace ByteArrayRef

variable {h : Hooks} {w : World} {r : ByteArrayRef} {o : ByteArrayObject} {b count : Value} {ys : Bytes}
  {n : Int64}

theorem offers_add : Kind.byteArray.Offers .add addSlot inPlaceAddSlot := ⟨rfl, rfl⟩

theorem offers_mul : Kind.byteArray.Offers .mul mulSlot inPlaceMulSlot := ⟨rfl, rfl⟩

theorem turnsInto {x : Run Unit} {buffer : Buffer UInt8} (live : w.byteArray? r = some o)
    (ran : x w = (.ok (), w.putByteArray r { o with buffer })) :
    Run.TurnsInto w (.byteArray r) (.bytes buffer.toList) (do x; return .byteArray r) :=
  ⟨_, Run.bind_ok ran, World.items?_putByteArray live _,
    fun _ other _ held => (World.items?_putByteArray_of_ne _ other).trans held⟩

theorem bytes_apply (live : w.byteArray? r = some o) : r.bytes w = (.ok o.buffer.toList, w) :=
  Run.bind_ok (buffer_apply live)

theorem add_makes (live : w.byteArray? r = some o) (held : w.store.items? b = some (.bytes ys)) :
    Run.MakesFrom w .byteArray (.bytes (o.buffer.toList ++ ys)) (addSlot h [.byteArray r, b]) := by
  cases b <;> simp only [Store.items?, Option.map_eq_some_iff, Option.some.injEq, Items.bytes.injEq,
    reduceCtorEq, and_false, exists_false] at held
  case byteArray r' =>
    obtain ⟨o', live', rfl⟩ := held
    have slot : addSlot h [.byteArray r, .byteArray r'] = r.concat r' := rfl
    have ran : addSlot h [.byteArray r, .byteArray r'] w =
        Run.newByteArray (Buffer.concat o.buffer.items o'.buffer.items) w := by
      rw [slot, concat, Run.bind_ok (buffer_apply live), Run.bind_ok (buffer_apply live')]
    have makes := (Run.newByteArray_makes (Buffer.concat o.buffer.items o'.buffer.items)).from ran
    rwa [Buffer.toList, Buffer.items_concat, Array.toList_append] at makes
  case bytes id data =>
    subst held
    have slot : addSlot h [.byteArray r, .bytes id data] =
        r.bytes >>= fun own => Run.newByteArrayOf (own ++ data) := rfl
    have ran : addSlot h [.byteArray r, .bytes id data] w =
        Run.newByteArray (Buffer.ofArray (o.buffer.toList ++ data).toArray) w := by
      rw [slot, Run.bind_ok (bytes_apply live)]
      rfl
    exact (Run.newByteArray_makes _).from ran

theorem add_agree (live : w.byteArray? r = some o) (held : w.store.items? b = some (.bytes ys)) :
    Agree w (.byteArray r) (.bytes (o.buffer.toList ++ ys))
      (addSlot h [.byteArray r, b]) (inPlaceAddSlot h [.byteArray r, b]) := by
  refine ⟨add_makes live held, ?_⟩
  have drained : ByteSequence.bytesFrom h b w = (.ok ys, w) :=
    match Slice.gives_bytes h r held with | .bytes _ ran => ran
  have source : r.extend h b = ByteSequence.bytesFrom h b >>= fun data => r.update (·.extend data) := by
    cases b <;> first | rfl | cases held
  have extended : r.extend h b w = (.ok (), w.putByteArray r { o with buffer := o.buffer.extend ys }) := by
    rw [source, Run.bind_ok drained]
    exact update_apply live _
  have turns := turnsInto live extended
  rwa [Buffer.toList_extend] at turns

theorem inPlaceMulSlot_eq (times : count.asInt? = some n) :
    inPlaceMulSlot h [.byteArray r, count] = do
      r.repeatInPlace n.toInt
      return .byteArray r := by
  have slot : inPlaceMulSlot h [.byteArray r, count] = count.counting fun n => do
      r.repeatInPlace n
      return .byteArray r := rfl
  rw [slot, Value.counting_eq times]

theorem mul_inPlace (live : w.byteArray? r = some o) (times : count.asInt? = some n)
    (fits : o.buffer.size * n.toInt.toNat ≤ Buffer.mostItems UInt8) :
    Run.TurnsInto w (.byteArray r) (.bytes (List.replicate n.toInt.toNat o.buffer.toList).flatten)
      (inPlaceMulSlot h [.byteArray r, count]) := by
  obtain ⟨b, repeated, holds⟩ := o.buffer.toList_repeatInPlace fits
  have tried := tryUpdate_apply live (·.repeatInPlace n.toInt)
  rw [repeated] at tried
  rw [inPlaceMulSlot_eq times, ← holds]
  exact turnsInto live tried

theorem mul_inPlace_refused (live : w.byteArray? r = some o) (times : count.asInt? = some n)
    (many : Buffer.mostItems UInt8 < o.buffer.size * n.toInt.toNat) :
    Run.Refuses w .repeatOverflow (inPlaceMulSlot h [.byteArray r, count]) := by
  have tried := tryUpdate_apply live (·.repeatInPlace n.toInt)
  rw [o.buffer.repeatInPlace_refused many] at tried
  rw [inPlaceMulSlot_eq times]
  exact ⟨w, Run.bind_error tried, .refl _⟩

end ByteArrayRef

section Kinds

variable {code : UserCode} {n : Nat} {w : World} {a b count : Value} {items : Items} {times : Int64}

def Value.IsSequence (v : Value) : Prop := v.kind = .list ∨ v.kind = .byteArray

theorem Value.IsSequence.own (sequence : a.IsSequence) : a.typeKey = .builtin a.kind := by
  cases a <;> first | rfl | simp [Value.IsSequence, Value.kind] at sequence

theorem Value.IsSequence.answers (sequence : a.IsSequence) : a.kind ≠ .notImplementedType := by
  rcases sequence with kind | kind <;> simp [kind]

theorem list_add_agrees {r r' : ListRef} {xs ys : List Value}
    (held : w.store.items? (.list r) = some (.values xs))
    (held' : w.store.items? (.list r') = some (.values ys)) :
    OperatorAgrees code n w .add (.list r) (.list r') (.values (xs ++ ys)) := by
  obtain ⟨o, live, ⟨⟩⟩ := Option.map_eq_some_iff.mp held
  obtain ⟨o', live', ⟨⟩⟩ := Option.map_eq_some_iff.mp held'
  have agree (w' : World) (same : w'.store = w.store) :
      Agree w' (.list r) (.values (o.buffer.toList ++ o'.buffer.toList))
        (ListRef.addSlot (code.hooks UserCode.plain n) [.list r, .list r'])
        (ListRef.inPlaceAddSlot (code.hooks UserCode.plain n) [.list r, .list r']) :=
    ListRef.add_agree (same ▸ live : w'.store.lists[r.number]? = some o)
      (same ▸ live' : w'.store.lists[r'.number]? = some o')
  exact ⟨⟨_, _, ListRef.offers_add, agree w rfl⟩, fun reached room =>
    Agree.operators ListRef.offers_add rfl nofun reached room agree⟩

theorem byteArray_add_agrees {r : ByteArrayRef} {xs ys : Bytes}
    (held : w.store.items? (.byteArray r) = some (.bytes xs))
    (held' : w.store.items? b = some (.bytes ys)) :
    OperatorAgrees code n w .add (.byteArray r) b (.bytes (xs ++ ys)) := by
  obtain ⟨o, live, ⟨⟩⟩ := Option.map_eq_some_iff.mp held
  have agree (w' : World) (same : w'.store = w.store) :
      Agree w' (.byteArray r) (.bytes (o.buffer.toList ++ ys))
        (ByteArrayRef.addSlot (code.hooks UserCode.plain n) [.byteArray r, b])
        (ByteArrayRef.inPlaceAddSlot (code.hooks UserCode.plain n) [.byteArray r, b]) :=
    ByteArrayRef.add_agree (same ▸ live : w'.store.byteArrays[r.number]? = some o) (same ▸ held')
  exact ⟨⟨_, _, ByteArrayRef.offers_add, agree w rfl⟩, fun reached room =>
    Agree.operators ByteArrayRef.offers_add rfl nofun reached room agree⟩

theorem mul_slots (h : Hooks) (sequence : a.IsSequence) (held : w.store.items? a = some items)
    (counts : count.asInt? = some times) :
    ∃ plain inPlace, a.kind.Offers .mul plain inPlace ∧
      (items.extent * times.toInt.toNat ≤ a.kind.mostRepeated →
        Agree w a (items.repeated times.toInt.toNat) (plain h [a, count]) (inPlace h [a, count])) ∧
      (a.kind.mostRepeated < items.extent * times.toInt.toNat →
        BothRefuse w .repeatOverflow (plain h [a, count]) (inPlace h [a, count])) := by
  obtain ⟨mul, slot, result⟩ := repeats h held counts
  have refused (many : a.kind.mostRepeated < items.extent * times.toInt.toNat) :
      Run.Refuses w .repeatOverflow (mul h [a, count]) := by
    rw [if_neg (Nat.not_le.mpr many)] at result
    exact ⟨w, result, .refl _⟩
  cases a <;> simp only [Value.IsSequence, Value.kind, reduceCtorEq, or_false, or_true, or_self] at sequence
  case list r =>
    obtain ⟨o, live, rfl⟩ := Option.map_eq_some_iff.mp held
    obtain rfl := Option.some.inj slot
    have size : o.buffer.toList.length = o.buffer.size := Array.length_toList
    refine ⟨_, _, ListRef.offers_mul, fun fits => ⟨?_, ?_⟩, fun many => ⟨refused many, ?_⟩⟩
    · rwa [if_pos fits] at result
    · exact ListRef.mul_inPlace live counts (size ▸ fits)
    · exact ListRef.mul_inPlace_refused live counts (size ▸ many)
  case byteArray r =>
    obtain ⟨o, live, rfl⟩ := Option.map_eq_some_iff.mp held
    obtain rfl := Option.some.inj slot
    have size : o.buffer.toList.length = o.buffer.size := Array.length_toList
    refine ⟨_, _, ByteArrayRef.offers_mul, fun fits => ⟨?_, ?_⟩, fun many => ⟨refused many, ?_⟩⟩
    · rwa [if_pos fits] at result
    · exact ByteArrayRef.mul_inPlace live counts (size ▸ fits)
    · exact ByteArrayRef.mul_inPlace_refused live counts (size ▸ many)

theorem Kind.Offers.unique {kind : Kind} {op : BinaryOp} {plain plain' inPlace inPlace' : Slot}
    (h : kind.Offers op plain inPlace) (h' : kind.Offers op plain' inPlace') :
    plain = plain' ∧ inPlace = inPlace' :=
  ⟨Option.some.inj (h.plain.symm.trans h'.plain), Option.some.inj (h.inPlace.symm.trans h'.inPlace)⟩

theorem mul_agrees (sequence : a.IsSequence) (held : w.store.items? a = some items)
    (counts : count.asInt? = some times) :
    (items.extent * times.toInt.toNat ≤ a.kind.mostRepeated →
      OperatorAgrees code n w .mul a count (items.repeated times.toInt.toNat)) ∧
    (a.kind.mostRepeated < items.extent * times.toInt.toNat →
      OperatorRefuses code n w .mul a count .repeatOverflow) := by
  have slots (w' : World) (same : w'.store = w.store) :=
    mul_slots (code.hooks UserCode.plain n) sequence (same ▸ held : w'.store.items? a = some items) counts
  obtain ⟨plain, inPlace, offers, agree, refuse⟩ := slots w rfl
  constructor
  · intro fits
    refine ⟨⟨plain, inPlace, offers, agree fits⟩, fun reached room =>
      Agree.operators offers sequence.own sequence.answers reached room fun w' same => ?_⟩
    obtain ⟨_, _, offers', agree', -⟩ := slots w' same
    obtain ⟨rfl, rfl⟩ := offers.unique offers'
    exact agree' fits
  · intro many
    refine ⟨⟨plain, inPlace, offers, refuse many⟩, fun reached room =>
      BothRefuse.operators offers sequence.own reached room fun w' same => ?_⟩
    obtain ⟨_, _, offers', -, refuse'⟩ := slots w' same
    obtain ⟨rfl, rfl⟩ := offers.unique offers'
    exact refuse' many

end Kinds

def Slice.whole : Slice := ⟨none, none, none⟩

theorem Slice.whole_indices {len : Nat} (fits : (len : Int) ≤ Word.greatest) :
    Slice.whole.indices len = .ok ⟨0, len, 1, len⟩ := by
  have start : Slice.whole.walkStart len = 0 := rfl
  have stop : Slice.whole.walkStop len = len := rfl
  have step : Slice.whole.stride = 1 := rfl
  have count : Slice.countBetween 0 len 1 = len := by
    simp only [Slice.countBetween, Int.reduceLT, if_false, Int.ediv_one]
    split <;> omega
  rw [Slice.indices_eq (show Slice.whole.step ≠ some 0 by decide) fits, start, stop, step, count]

section Whole

variable {w : World} {a : Value} {items after : Items}

theorem assigned_whole {len : Nat} (length : items.length = len)
    (assigned : items.Assigned ⟨0, len, 1, len⟩ items after) : after = items := by
  subst length
  cases assigned with
  | values assigned =>
    rw [assigned.replaced rfl]
    simp [Items.length]
  | bytes assigned =>
    rw [assigned.replaced rfl]
    simp [Items.length]

theorem assigns_whole (h : Hooks) (sequence : a.IsSequence) (held : w.store.items? a = some items)
    (fits : (items.length : Int) ≤ Word.greatest) :
    ∃ set w', a.kind.slot? .setItem = some set ∧
      set h [a, .slice Slice.whole, a] w = (.ok .none, w') ∧ w'.store.items? a = some items ∧
      ∀ u, u ≠ a → w'.store.items? u = w.store.items? u := by
  have gives : Slice.Gives h a w a items w := by
    cases a <;> simp only [Value.IsSequence, Value.kind, reduceCtorEq, or_false, or_true, or_self] at sequence
    case list r =>
      obtain ⟨o, live, rfl⟩ := Option.map_eq_some_iff.mp held
      exact Slice.gives_values h r held
    case byteArray r =>
      obtain ⟨o, live, rfl⟩ := Option.map_eq_some_iff.mp held
      exact Slice.gives_bytes h r held
  obtain ⟨set, outcome, after, w', slot, ran, ends, holds, others, -⟩ :=
    Slice.assigns gives held (Slice.whole_indices fits)
  cases ends with
  | done _ assigned =>
    rw [assigned_whole rfl assigned] at holds
    exact ⟨set, w', slot, ran, holds, others⟩
  | refused apart _ => exact absurd rfl apart

end Whole

end DynamicObjects
