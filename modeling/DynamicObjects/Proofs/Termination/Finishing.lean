import DynamicObjects.Proofs.Levels
import DynamicObjects.Proofs.Equality.Calm

/-!
Runs that come to an end. A run finishes when it gives a value or raises an error, both of a kind that
is known, and never uses up its fuel. Built-in data is asked through dispatch, which finishes when the
slots do; the slots have one level of fuel less.
-/
namespace DynamicObjects

open Script (hooks)

def Outcome.Settled {α : Type} (Q : α → Prop) (E : Error → Prop) : Outcome α → Prop
  | .ok a => Q a
  | .error e => E e
  | .outOfFuel => False

namespace Run

variable {α β : Type}

/-- From every state in `I` the run comes to an end, and the state is in `I` again. -/
def Finishes (I : World → Prop) (Q : α → Prop) (E : Error → Prop) (x : Run α) : Prop :=
  ∀ w, I w → I (x w).2 ∧ (x w).1.Settled Q E

variable {I : World → Prop} {P : α → Prop} {Q : β → Prop} {E : Error → Prop} {x : Run α}
  {f : α → Run β}

theorem finishes_pure {a : α} (p : P a) : Finishes I P E (Pure.pure a) := fun _ i => ⟨i, p⟩

theorem finishes_raise {e : Error} (allowed : E e) : Finishes I P E (raise e) :=
  fun _ i => ⟨i, allowed⟩

theorem finishes_bind (hx : Finishes I P E x) (hf : ∀ a, P a → Finishes I Q E (f a)) :
    Finishes I Q E (x >>= f) := by
  intro w i
  have first := hx w i
  refine bind_cases (R := fun p => I p.2 ∧ p.1.Settled Q E) ?_ ?_ ?_
  · intro a w₁ ran
    rw [ran] at first
    exact hf a first.2 w₁ first.1
  · intro e w₁ ran
    rw [ran] at first
    exact first
  · intro w₁ ran
    rw [ran] at first
    exact first

theorem Finishes.cases (h : Finishes I P E x) {w : World} (i : I w) :
    (∃ a w', x w = (.ok a, w') ∧ I w' ∧ P a) ∨ ∃ e w', x w = (.error e, w') ∧ I w' ∧ E e := by
  obtain ⟨i', settled⟩ := h w i
  obtain ⟨outcome, w', ran⟩ : ∃ outcome w', x w = (outcome, w') := ⟨_, _, rfl⟩
  rw [ran] at i' settled
  cases outcome with
  | ok a => exact .inl ⟨a, w', ran, i', settled⟩
  | error e => exact .inr ⟨e, w', ran, i', settled⟩
  | outOfFuel => exact settled.elim

theorem Finishes.ne_outOfFuel (h : Finishes I P E x) {w : World} (i : I w) :
    (x w).1 ≠ .outOfFuel := by
  rcases h.cases i with ⟨a, w', ran, -⟩ | ⟨e, w', ran, -⟩
  · rw [ran]
    exact nofun
  · rw [ran]
    exact nofun

theorem Finishes.mono {P' : α → Prop} {E' : Error → Prop} (h : Finishes I P E x)
    (weaker : ∀ a, P a → P' a) (errors : ∀ e, E e → E' e) : Finishes I P' E' x := by
  intro w i
  obtain ⟨i', settled⟩ := h w i
  refine ⟨i', ?_⟩
  cases ended : (x w).1 with
  | ok a =>
    rw [ended] at settled
    exact weaker a settled
  | error e =>
    rw [ended] at settled
    exact errors e settled
  | outOfFuel => rwa [ended] at settled

theorem Finishes.imp {P' : α → Prop} (h : Finishes I P E x) (weaker : ∀ a, P a → P' a) :
    Finishes I P' E x :=
  h.mono weaker fun _ => id

theorem Finishes.any (h : Finishes I P E x) : Finishes I (fun _ => True) E x :=
  h.imp fun _ _ => trivial

theorem finishes_map {g : α → β} (hx : Finishes I (fun a => Q (g a)) E x) :
    Finishes I Q E (do return g (← x)) :=
  finishes_bind hx fun _ q => finishes_pure q

theorem finishes_bool {y : Run Bool} (hy : Finishes I (fun _ => True) E y) :
    Finishes I (fun v => ∃ x, v = .bool x) E (do return Value.bool (← y)) :=
  finishes_bind hy fun x _ => finishes_pure ⟨x, rfl⟩

theorem finishes_read {g : World → α} (p : ∀ w, I w → P (g w)) : Finishes I P E (read g) :=
  fun w i => ⟨i, p w i⟩

theorem finishes_readStore {g : Store → α} (p : ∀ w, I w → P (g w.store)) :
    Finishes I P E (readStore g) :=
  finishes_read p

theorem finishes_typeName (v : Value) : Finishes I (fun _ => True) E (typeName v) :=
  finishes_read fun _ _ => trivial

section Levels

variable {J : World → Prop}
  (full : ∀ w, I w → dataDepthLimit ≤ w.dataDepth → E .recursionLimit)

include full

/-- What is nested runs in other states, or not at all where no level is left. -/
theorem finishes_nested (inner : Finishes J P E x)
    (opened : ∀ w, I w → w.dataDepth < dataDepthLimit → J { w with dataDepth := w.dataDepth + 1 })
    (closed : ∀ w, J w → I { w with dataDepth := w.dataDepth - 1 }) : Finishes I P E (nested x) := by
  intro w i
  unfold nested
  split
  next none => exact ⟨i, full w i none⟩
  next left =>
    obtain ⟨j, settled⟩ := inner _ (opened w i (Nat.lt_of_not_le left))
    exact ⟨closed _ j, settled⟩

theorem finishes_printing {Q : String → Prop} {id : Identity} {again : String} {x : Run String}
    (inner : Finishes J Q E x) (met : ∀ w, I w → id ∈ w.printing → Q again)
    (opened : ∀ w, I w → id ∉ w.printing → w.dataDepth < dataDepthLimit →
      J { w with dataDepth := w.dataDepth + 1, printing := id :: w.printing })
    (closed : ∀ w, J w →
      I { w with dataDepth := w.dataDepth - 1, printing := w.printing.erase id }) :
    Finishes I Q E (printing id again x) := by
  intro w i
  unfold printing
  split
  next found => exact ⟨i, met w i (List.contains_iff_mem.mp found)⟩
  next absent =>
    have new : id ∉ w.printing := fun mem => absent (List.contains_iff_mem.mpr mem)
    unfold nested
    split
    next none => exact ⟨i, full w i none⟩
    next left =>
      obtain ⟨j, settled⟩ := inner _ (opened w i new (Nat.lt_of_not_le left))
      exact ⟨closed _ j, settled⟩

end Levels

end Run

namespace Thunk

def level (t : Thunk) (depth : Nat) : Nat := if t.limited then depth + 1 else depth

variable (t : Thunk) (depth : Nat)

theorem le_level : depth ≤ t.level depth := by
  unfold level
  split <;> omega

theorem level_le : t.level depth ≤ depth + 1 := by
  unfold level
  split <;> omega

end Thunk

/-- States, for each depth of calls, in which built-in kinds can be asked: the cache is honest, and
what dispatch does by itself makes no difference. -/
structure Steady (I : Nat → World → Prop) : Prop where
  honest : ∀ {depth w}, I depth w → w.dispatcher.Honest Kind.hasSlot
  dispatched : ∀ {depth w d}, I depth w → d.Honest Kind.hasSlot →
    d.policy = w.dispatcher.policy → I depth { w with dispatcher := d }
  identified : ∀ {depth} {w : World} {nextId}, I depth w → w.store.nextId ≤ nextId →
    I depth { w with store := { w.store with nextId } }
  entered : ∀ {depth w}, I depth w → I (depth + 1) { w with depth := w.depth + 1 }
  left : ∀ {depth w w'}, I depth w → I (depth + 1) w' → I depth { w' with depth := w.depth }

namespace Steady

open Run

variable {I : Nat → World → Prop} (steady : Steady I) {E : Error → Prop} {depth : Nat} {w w' : World}

include steady

theorem newText_finishes (depth : Nat) (text : String) :
    Finishes (I depth) (fun v => ∃ id, v = .str id text) E (newText text) :=
  fun _ i => ⟨steady.identified i (Nat.le_succ _), _, rfl⟩

theorem newFrozenSet_finishes (depth : Nat) (t : SetTable) :
    Finishes (I depth) (fun v => ∃ id, v = .frozenSet id t) E (newFrozenSet t) :=
  fun _ i => ⟨steady.identified i (Nat.le_succ _), _, rfl⟩

theorem told {tracer : Tracer} {event : TraceEvent} (i : I depth w) :
    I depth { w with dispatcher := w.dispatcher.tell tracer event } := by
  refine steady.dispatched i ((steady.honest i).perform (a := .tell tracer event) trivial) ?_
  rw [Dispatcher.tell_eq]

theorem resolved {op : Operation} {key : TypeKey} (i : I depth w) :
    I depth { w with dispatcher := (w.dispatcher.resolve Kind.hasSlot op key).2 } := by
  refine steady.dispatched i ((steady.honest i).resolve op key).2 ?_
  obtain ⟨t, log, recorders, -, resolved⟩ | ⟨-, log, recorders, lookups, resolved⟩ :=
    Dispatcher.resolve_cases Kind.hasSlot w.dispatcher op key
  · rw [resolved]
  · rw [resolved]

theorem enters (t : Thunk) (i : I depth w) : I (t.level depth) (t.entered w) := by
  unfold Thunk.level Thunk.entered
  cases t.limited with
  | true =>
    cases t.tracer with
    | none => exact steady.entered i
    | some tracer => exact steady.told (steady.entered i)
  | false =>
    cases t.tracer with
    | none => exact i
    | some tracer => exact steady.told i

theorem leaves (t : Thunk) (back : I (depth + 1) w' → I depth { w' with depth := w.depth })
    (i : I (t.level depth) w') : I depth (t.left w w') := by
  unfold Thunk.level at i
  unfold Thunk.left
  cases limited : t.limited with
  | true =>
    rw [if_pos limited] at i
    cases t.tracer with
    | none => exact back i
    | some tracer => exact steady.told (back i)
  | false =>
    rw [limited] at i
    cases t.tracer with
    | none => exact i
    | some tracer => exact steady.told i

theorem callThunk_finishes (depth : Nat) {Q : Value → Prop} {h : Hooks} {t : Thunk} {args : List Value}
    (target : ∀ deeper, deeper ≤ depth + 1 → depth ≤ deeper →
      Finishes (I deeper) Q E (Protocol.runTarget h t args))
    (refusal : ∀ w limit, I depth w → w.limit = some limit → limit ≤ w.depth → E .recursionLimit) :
    Finishes (I depth) Q E (Protocol.callThunk h t args) := by
  intro w i
  rcases Protocol.refused_or_below t w with ⟨limited, limit, found, reached⟩ | below
  · rw [Protocol.callThunk_refused limited found reached]
    exact ⟨i, refusal w limit i found reached⟩
  · rw [Protocol.callThunk_entered below]
    obtain ⟨i', settled⟩ := target (t.level depth) (t.level_le depth) (t.le_level depth) _
      (steady.enters t i)
    exact ⟨steady.leaves t (steady.left i) i', settled⟩

theorem resolve_finishes (depth n : Nat) (op : Operation) (k : Kind) :
    Finishes (I depth)
      (fun t => t.op = op ∧ t.key = .builtin k ∧
        t.target = if k.hasSlot op then .builtin else .missing) E
      (Protocol.resolve (hooks n) op (.builtin k)) := by
  intro w i
  have same : (hooks n).hasSlot = Kind.hasSlot := by cases n <;> rfl
  obtain ⟨⟨id, found⟩, -⟩ := (steady.honest i).resolve op (.builtin k)
  rw [Protocol.resolve_apply, same]
  refine ⟨steady.resolved i, ?_⟩
  show _ ∧ _
  rw [found]
  exact ⟨rfl, rfl, rfl⟩

theorem callSlot_finishes (depth : Nat) {n : Nat} {op : Operation} {k : Kind} {args : List Value}
    {Q : Value → Prop}
    (builtin : (Protocol.receiver args).typeKey = .builtin k)
    (called : ∀ slot, k.slot? op = some slot → ∀ deeper, deeper ≤ depth + 1 → depth ≤ deeper →
      Finishes (I deeper) Q E (slot (hooks n) args))
    (missing : k.slot? op = none → ∀ t : Thunk, t.op = op →
      ∀ deeper, Finishes (I deeper) Q E (ofExcept t.missing))
    (refusal : ∀ w limit, I depth w → w.limit = some limit → limit ≤ w.depth → E .recursionLimit) :
    Finishes (I depth) Q E (Protocol.callSlot (hooks (n + 1)) op args) := by
  unfold Protocol.callSlot
  rw [builtin]
  refine finishes_bind (steady.resolve_finishes depth (n + 1) op k) ?_
  rintro t ⟨sameOp, key, target⟩
  refine steady.callThunk_finishes depth (fun deeper le ge => ?_) refusal
  cases found : k.slot? op with
  | none =>
    have absent : t.target = .missing := by rw [target, Kind.hasSlot, found]; rfl
    simp only [Protocol.runTarget, absent]
    exact missing found t sameOp deeper
  | some slot =>
    have runs : t.target = .builtin := by rw [target, Kind.hasSlot, found]; rfl
    simp only [Protocol.runTarget, runs, key, sameOp, hooks, found]
    exact called slot found deeper le ge

theorem slotHash_finishes (depth : Nat) {n : Nat} {v : Value} {k : Kind}
    (builtin : v.typeKey = .builtin k) (absent : k.slot? .hash = none) :
    Finishes (I depth) (fun _ => True) E (Protocol.slotHash (hooks n) v) := by
  unfold Protocol.slotHash
  rw [builtin]
  refine finishes_bind (steady.resolve_finishes depth n .hash k) ?_
  rintro t ⟨-, -, target⟩
  have missing : t.isMissing = true := by
    simp only [Kind.hasSlot, absent] at target
    simp [Thunk.isMissing, target]
  rw [if_pos missing]
  exact finishes_readStore fun _ _ => trivial

section Slots

variable {n : Nat} {k : Kind} {a b : Value} (slot : Slot)
  (builtin : a.typeKey = .builtin k)
  (called : ∀ deeper, deeper ≤ depth + 1 → depth ≤ deeper →
    Finishes (I deeper) (fun v => ∃ x, v = .bool x) E (slot (hooks n) [a, b]))
  (refusal : ∀ w limit, I depth w → w.limit = some limit → limit ≤ w.depth → E .recursionLimit)

include builtin called refusal

theorem compareBool_finishes {op : CompareOp} (found : k.slot? (.compare op) = some slot) :
    Finishes (I depth) (fun _ => True) E (Protocol.compareBool (hooks (n + 1)) op a b) := by
  have forward : Finishes (I depth) (fun v => ∃ x, v = .bool x) E
      (Protocol.callSlot (hooks (n + 1)) (.compare op) [a, b]) := by
    refine steady.callSlot_finishes depth builtin (fun body found' => ?_) (fun missing => ?_) refusal
    · obtain rfl := Option.some.inj (found.symm.trans found')
      exact called
    · cases found.symm.trans missing
  have compare : Finishes (I depth) (fun v => ∃ x, v = .bool x) E
      (Protocol.compare (hooks (n + 1)) op a b) := by
    refine finishes_bind (P := fun _ => True) (finishes_readStore fun _ _ => trivial) fun known _ => ?_
    cases known with
    | some order => exact finishes_pure ⟨_, rfl⟩
    | none =>
      refine finishes_bind forward ?_
      rintro _ ⟨x, rfl⟩
      exact finishes_pure ⟨x, rfl⟩
  refine finishes_bind compare ?_
  rintro _ ⟨x, rfl⟩
  exact finishes_pure trivial

theorem contains_finishes (found : k.slot? .contains = some slot) :
    Finishes (I depth) (fun _ => True) E (Protocol.contains (hooks (n + 1)) a b) := by
  unfold Protocol.contains
  rw [builtin]
  refine finishes_bind (steady.resolve_finishes depth (n + 1) .contains k) ?_
  rintro t ⟨op, key, target⟩
  have runs : t.target = .builtin := by rw [target, Kind.hasSlot, found]; rfl
  rw [if_neg (by simp [Thunk.isMissing, runs])]
  refine finishes_bind (P := fun v => ∃ x, v = .bool x)
    (steady.callThunk_finishes depth (fun deeper le ge => ?_) refusal) ?_
  · simp only [Protocol.runTarget, runs, key, op, hooks, found]
    exact called deeper le ge
  · rintro _ ⟨x, rfl⟩
    exact finishes_pure trivial

end Slots

end Steady

end DynamicObjects
