import DynamicObjects.Proofs.Equality.Verdicts
import DynamicObjects.Proofs.InPlace.Sequences
import DynamicObjects.Proofs.Conduct.Programs

/-!
Equality without dispatch. Text, bytes and numbers are compared by themselves, and values of kinds that
no slot compares are told apart by identity. Had the types been asked, they would have answered the
same: the slot of either operand declines when the other one is not of its sort, and then identity
decides.
-/
namespace DynamicObjects

/-- Whether a comparison slot of the first value's kind answers for the second value. -/
def Value.compares : Value → Value → Bool
  | .tuple .., .tuple .. | .list _, .list _ | .dict _, .dict _ => true
  | a, b => Store.isSetLike a && Store.isSetLike b

theorem Value.compares_comm (a b : Value) : a.compares b = b.compares a := by
  cases a <;> cases b <;> rfl

/-- A comparison slot declines what is not of its sort, and does nothing else. -/
theorem Kind.compareSlot_declines {a b : Value} (other : a.compares b = false) {op : CompareOp}
    {slot : Slot} (found : a.kind.slot? (.compare op) = some slot) (h : Hooks) :
    slot h [a, b] = pure .notImplemented := by
  cases a with
  | list | tuple | frozenSet | dictKeys | dictItems =>
    obtain rfl := Option.some.inj found
    cases b <;> first | rfl | cases other
  | dict =>
    obtain rfl := Option.some.inj found
    cases op <;> cases b <;> first | rfl | cases other
  | _ => cases found

namespace Store

/-- Where no order is known, the shortcut leaves objects and values of one sort to their slots, and
takes all others for equal if they are the same. -/
theorem intrinsicEq?_of_unordered {s : Store} {a b : Value} {r : Bool}
    (unordered : s.intrinsicCompare? a b = none) (known : s.intrinsicEq? a b = some r) :
    a.kind ≠ .object ∧ b.kind ≠ .object ∧ a.compares b = false ∧ r = a.isSame b := by
  simp only [intrinsicEq?, unordered] at known
  cases a <;> cases b <;>
    simp_all [Value.kind, Value.compares, isSetLike]

/-- A value is found equal to itself, unless it is a NaN. -/
theorem intrinsicEq?_self (s : Store) (v : Value) :
    s.intrinsicEq? v v = some false ↔ ∃ d, v = .float d ∧ d.isNaN = true := by
  cases v with
  | float d =>
    simp [intrinsicEq?, intrinsicCompare?, bytesLike?, Value.asNumber?, Number.compare?,
      Double.compare?]
  | str id text => simp [intrinsicEq?, intrinsicCompare?, (Bytes.order_eq_iff _ _).mpr rfl]
  | bytes | byteArray =>
    simp [intrinsicEq?, intrinsicCompare?, bytesLike?, (Bytes.order_eq_iff _ _).mpr rfl]
  | bool | int =>
    simp [intrinsicEq?, intrinsicCompare?, bytesLike?, Value.asNumber?, Number.compare?]
  | _ => simp [intrinsicEq?, intrinsicCompare?, bytesLike?, Value.asNumber?, Value.isSame, isSetLike]

end Store

/-- A state with the objects of the given one, on its level and under its limit, that the dispatch
layer can reach. -/
structure World.Resting (w w' : World) : Prop where
  store : w'.store = w.store
  reached : w'.dispatcher.Reached
  depth : w'.depth = w.depth
  limit : w'.limit = w.limit

theorem Dispatcher.policy_tell (d : Dispatcher) (tracer : Tracer) (event : TraceEvent) :
    (d.tell tracer event).policy = d.policy := by
  rw [tell_eq]

/-- A call whose target does nothing leaves the state that it found, up to what tracers heard. -/
theorem World.Resting.called {w w' : World} (resting : w.Resting w') (t : Thunk) :
    w.Resting (t.left w' (t.entered w')) := by
  obtain ⟨store, reached, depth, limit⟩ := resting
  have told (tracer : Tracer) (before after : TraceEvent) :
      ((w'.dispatcher.tell tracer before).tell tracer after).policy.recursionLimit = w.limit := by
    rw [Dispatcher.policy_tell, Dispatcher.policy_tell]
    exact limit
  unfold Thunk.left Thunk.entered
  cases t.tracer with
  | none => cases t.limited <;> exact ⟨store, reached, depth, limit⟩
  | some tracer =>
    cases t.limited <;> exact ⟨store, (reached.tell _ _).tell _ _, depth, told tracer _ _⟩

namespace UserCode

variable (code : UserCode) (n : Nat) {a b : Value} {w : World}

theorem runTarget_declines (builtin : a.kind ≠ .object) (other : a.compares b = false) {op : CompareOp}
    {t : Thunk} (fits : t.Fits (.compare op) a.typeKey) :
    Protocol.runTarget (code.hooks plain (n + 1)) t [a, b] = pure .notImplemented := by
  have own : a.typeKey = .builtin a.kind := by
    cases a <;> first | rfl | exact absurd rfl builtin
  unfold Protocol.runTarget
  cases found : a.kind.slot? (.compare op) with
  | some slot =>
    have hasSlot : a.kind.hasSlot (.compare op) = true := by simp [Kind.hasSlot, found]
    rw [fits.runsSlot _ own hasSlot, fits.sameKey, own, fits.sameOp]
    simp only [hooks, plain, found]
    exact Kind.compareSlot_declines other found _
  | none =>
    have hasNone : a.kind.hasSlot (.compare op) = false := by simp [Kind.hasSlot, found]
    rw [fits.runsNothing _ own hasNone]
    simp only [Thunk.missing, fits.sameOp]
    rfl

theorem callSlot_declines (builtin : a.kind ≠ .object) (other : a.compares b = false)
    (op : CompareOp) (room : w.HasRoom) :
    Run.Answers w.Resting (Protocol.callSlot (code.hooks plain (n + 1)) (.compare op) [a, b])
      .notImplemented := by
  intro w' resting
  have fits := resting.reached.fits (.compare op) a.typeKey
  have policy := Dispatcher.policy_resolve w'.dispatcher Kind.hasSlot (.compare op) a.typeKey
  have reached := resting.reached.resolve (.compare op) a.typeKey
  have called : Protocol.callSlot (code.hooks plain (n + 1)) (.compare op) [a, b] w' =
      Protocol.callThunk (code.hooks plain (n + 1))
        (w'.dispatcher.resolve Kind.hasSlot (.compare op) a.typeKey).1 [a, b]
        { w' with dispatcher := (w'.dispatcher.resolve Kind.hasSlot (.compare op) a.typeKey).2 } := rfl
  rw [called]
  generalize w'.dispatcher.resolve Kind.hasSlot (.compare op) a.typeKey = resolved at *
  have found : w.Resting { w' with dispatcher := resolved.2 } :=
    ⟨resting.store, reached, resting.depth, by
      rw [← resting.limit]
      simp only [World.limit, policy]⟩
  have below : ({ w' with dispatcher := resolved.2 } : World).HasRoom := by
    intro limit known
    rw [found.limit] at known
    exact found.depth ▸ room limit known
  rw [Protocol.callThunk_entered fun _ => below, runTarget_declines code n builtin other fits]
  exact ⟨_, rfl, found.called _⟩

theorem compare_declined (ha : a.kind ≠ .object) (hb : b.kind ≠ .object) (other : a.compares b = false)
    (unordered : w.store.intrinsicCompare? a b = none) (room : w.HasRoom) :
    Run.Answers w.Resting (Protocol.compare (code.hooks plain (n + 1)) .eq a b)
      (.bool (a.isSame b)) := by
  unfold Protocol.compare
  refine Run.answers_bind (a := none) (fun w' resting => ⟨w', ?_, resting⟩) ?_
  · rw [← unordered, ← resting.store]
    rfl
  refine Run.answers_bind (callSlot_declines code n ha other .eq room) ?_
  refine Run.answers_bind (callSlot_declines code n hb (Value.compares_comm a b ▸ other) .eq room) ?_
  exact Run.answers_pure

/-- What the shortcut says, the types say as well: in every state that the dispatch layer can reach,
with room for one more call, asking the slots of both operands and then for identity comes to the same
answer. So the equality of containers is the dispatched comparison, but for values that are one object,
which are always equal; of the answers of the shortcut, only that for one and the same NaN is changed
by this. -/
theorem shortcut_exact (reached : w.dispatcher.Reached) (room : w.HasRoom) (a b : Value) :
    (∀ r, w.store.intrinsicEq? a b = some r → ∃ w', w.Resting w' ∧
      Protocol.compareBool (code.hooks plain (n + 1)) .eq a b w = (.ok r, w')) ∧
    (Protocol.equals (code.hooks plain (n + 1)) a b w).1 =
      (if a.isSame b then .ok true
        else (Protocol.compareBool (code.hooks plain (n + 1)) .eq a b w).1) ∧
    (w.store.intrinsicEq? a a = some false ↔ ∃ d, a = .float d ∧ d.isNaN = true) := by
  have route : ∀ r, w.store.intrinsicEq? a b = some r → ∃ w', w.Resting w' ∧
      Protocol.compareBool (code.hooks plain (n + 1)) .eq a b w = (.ok r, w') := by
    intro r known
    cases order : w.store.intrinsicCompare? a b with
    | some order' =>
      obtain rfl : (order' == some .eq) = r := by
        simpa only [Store.intrinsicEq?, order, Option.some.injEq] using known
      refine ⟨w, ⟨rfl, reached, rfl, rfl⟩, ?_⟩
      have read : Run.readStore (·.intrinsicCompare? a b) w = (.ok (some order'), w) := by
        rw [← order]
        rfl
      have compared : Protocol.compare (code.hooks plain (n + 1)) .eq a b w =
          (.ok (.bool (Protocol.intrinsicAnswer .eq order')), w) := Run.bind_ok read
      refine (Run.bind_ok compared).trans ?_
      rcases order' with - | - | - | - <;> rfl
    | none =>
      obtain ⟨ha, hb, other, rfl⟩ := Store.intrinsicEq?_of_unordered order known
      obtain ⟨w', compared, resting⟩ :=
        compare_declined code n ha hb other order room w ⟨rfl, reached, rfl, rfl⟩
      exact ⟨w', resting, Run.bind_ok compared⟩
  refine ⟨route, ?_, Store.intrinsicEq?_self w.store a⟩
  unfold Protocol.equals
  cases same : a.isSame b with
  | true => rfl
  | false =>
    have read : Run.readStore (·.intrinsicEq? a b) w = (.ok (w.store.intrinsicEq? a b), w) := rfl
    simp only [Bool.false_eq_true, if_false]
    rw [Run.bind_ok read]
    cases known : w.store.intrinsicEq? a b with
    | some r =>
      obtain ⟨w', -, compared⟩ := route r known
      rw [compared]
      rfl
    | none => rfl

/-- Under tracing, with room for one call: an empty set and an empty tuple, which both have a slot, and
a NaN, which is unequal to itself where types are asked but equal where containers ask. -/
theorem shortcut_exact_traced :
    let w : World :=
      { store := .empty, dispatcher := .initial .empty {} ⟨true, some 1⟩ false }
    let nan : Value := .float ⟨0x7FF8000000000000⟩
    (∃ w', w.Resting w' ∧
      Protocol.compareBool (Script.code.hooks plain 1) .eq (.frozenSet 1 .empty) (.tuple 2 []) w =
        (.ok false, w')) ∧
    (∃ w', w.Resting w' ∧
      Protocol.compareBool (Script.code.hooks plain 1) .eq nan nan w = (.ok false, w')) ∧
    (Protocol.equals (Script.code.hooks plain 1) nan nan w).1 = .ok true := by
  intro w nan
  have reached : w.dispatcher.Reached := .initial .empty {} ⟨true, some 1⟩ false
  have room : w.HasRoom := by
    intro limit known
    obtain rfl : 1 = limit := Option.some.inj known
    decide
  have sets := shortcut_exact Script.code 0 reached room (.frozenSet 1 .empty) (.tuple 2 [])
  have same := shortcut_exact Script.code 0 reached room nan nan
  exact ⟨sets.1 false rfl, same.1 false (same.2.2.mpr ⟨_, rfl, by decide⟩), same.2.1⟩

end UserCode

end DynamicObjects
