import DynamicObjects.Script.Interpreter
import DynamicObjects.Proofs.Tables
import DynamicObjects.Proofs.Dispatch.Freshness
import DynamicObjects.Proofs.Equality.Alike

/-!
Comparing plain data. Data is plain if no object of a class is part of it; then no code but that of
built-in kinds runs, and the heap stays as it is. What dispatch does is known, since its cache is
honest, and hash codes are those that the data has by itself.
-/
namespace DynamicObjects

open Script (hooks)

/-- A table of keys in good order: every key is stored under its own code, and no two are alike. -/
structure WellKeyed (s : Store) {ν : Type} (t : Table Value ν) : Prop where
  valid : t.Valid
  coded : ∀ e ∈ t.toList, s.code? e.key = some e.hash
  distinct : t.toList.Pairwise fun e e' => ¬ Alike s e.key e'.key

/-- The values that equality may come across inside a value. -/
def Store.parts (s : Store) : Value → List Value
  | .tuple _ items => items
  | .list r => (s.list r).buffer.toList
  | .dictKeys r => (s.dict r).table.keys
  | .dict r | .dictItems r => (s.dict r).table.keys ++ (s.dict r).table.values
  | .frozenSet _ t => t.keys
  | _ => []

/-- A collection of built-in values, with all that is inside them, as a heap holds them: what has one
identity is one value, tuples have identities that were given out before `bound`, and the tables of
sets and dictionaries are in good order. -/
structure Plain (s : Store) (bound : Identity) (P : Value → Prop) : Prop where
  builtin : ∀ v, P v → v.kind ≠ .object
  parts : ∀ v, P v → ∀ x ∈ s.parts v, P x
  identity : ∀ a b, P a → P b → a.isSame b → a = b
  older : ∀ id items, P (.tuple id items) → id < bound
  set : ∀ id t, P (.frozenSet id t) → WellKeyed s t
  dict : ∀ r, P (.dict r) ∨ P (.dictKeys r) ∨ P (.dictItems r) → WellKeyed s (s.dict r).table

/-- The heap is that of `s`, identities from `bound` on may have been given out, and the cache of
prepared calls is honest. -/
structure Calm (s : Store) (bound : Identity) (w : World) : Prop where
  store : w.store = { s with nextId := w.store.nextId }
  bound : bound ≤ w.store.nextId
  honest : w.dispatcher.Honest Kind.hasSlot

variable {s : Store} {bound : Identity} {P : Value → Prop} {Q : Value → Prop} {n : Nat}

def Keeps (I : World → Prop) (w w' : World) : Prop := I w → I w'

instance : Heedless (Keeps (Calm s bound)) where
  tell _ tracer event calm :=
    { store := calm.store
      bound := calm.bound
      honest := calm.honest.perform (a := .tell tracer event) trivial }
  levels _ _ _ calm := ⟨calm.store, calm.bound, calm.honest⟩

theorem Calm.mono {bound' : Identity} {w : World} (calm : Calm s bound' w) (le : bound ≤ bound') :
    Calm s bound w :=
  ⟨calm.store, Nat.le_trans le calm.bound, calm.honest⟩

theorem Calm.typeName_gives (v : Value) :
    Run.Gives (Calm s bound) (fun _ => True) (Run.typeName v) := by
  intro w name w' calm ran
  cases ran
  exact ⟨calm, trivial⟩

namespace Run

variable {α : Type} {I : World → Prop} {R : α → Prop}

theorem gives_andThen {x : Run α} {f : World → World} (hx : Gives I R x) (keeps : ∀ w, I w → I (f w)) :
    Gives I R (andThen x f) := by
  intro w a w' i ran
  obtain ⟨outcome, w₁, first⟩ : ∃ outcome w₁, x w = (outcome, w₁) := ⟨_, _, rfl⟩
  simp only [andThen, first, Prod.mk.injEq] at ran
  obtain ⟨rfl, rfl⟩ := ran
  obtain ⟨i₁, r⟩ := hx w a w₁ i first
  exact ⟨keeps w₁ i₁, r⟩

variable [Heedless (Keeps I)]

theorem gives_nested {x : Run α} (hx : Gives I R x) : Gives I R (nested x) := by
  have levels := Heedless.levels (R := Keeps I)
  intro w a w' i ran
  unfold nested at ran
  split at ran
  · cases (Prod.mk.inj ran).1
  · exact gives_andThen hx (fun w => levels w w.depth (w.dataDepth - 1)) _ a w'
      (levels w w.depth (w.dataDepth + 1) i) ran

theorem gives_limited {x : Nat → Run α} (hx : ∀ depth, Gives I R (x depth)) :
    Gives I R (limited x) := by
  have levels := Heedless.levels (R := Keeps I)
  intro w a w' i
  unfold limited
  refine iteInduction (motive := fun p : Outcome α × World => p = (.ok a, w') → I w' ∧ R a) ?_ ?_
  · intro _ ran
    cases (Prod.mk.inj ran).1
  · intro _ ran
    exact gives_andThen (hx _) (fun w₁ => levels w₁ w.depth w₁.dataDepth) _ a w'
      (levels w (w.depth + 1) w.dataDepth i) ran

end Run

namespace Protocol

variable {args : List Value}

section

variable {I : World → Prop} [Heedless (Keeps I)] {h : Hooks} {t : Thunk}

theorem traced_gives (t : Thunk) (depth : Nat) {x : Run Value} (hx : Run.Gives I Q x) :
    Run.Gives I Q (traced t depth x) := by
  have tell := Heedless.tell (R := Keeps I)
  unfold traced
  cases t.tracer with
  | none => exact hx
  | some tracer =>
    intro w a w' i ran
    exact Run.gives_andThen hx (fun w i => tell w _ _ i) _ a w' (tell w _ _ i) ran

theorem callThunk_gives (hx : Run.Gives I Q (runTarget h t args)) :
    Run.Gives I Q (callThunk h t args) := by
  unfold callThunk
  cases t.limited with
  | true =>
    show Run.Gives I Q (Run.limited fun depth => traced t depth (runTarget h t args))
    exact Run.gives_limited fun depth => traced_gives t depth hx
  | false => exact fun w a w' i ran => traced_gives t w.depth hx w a w' i ran

end

theorem resolve_apply (h : Hooks) (op : Operation) (key : TypeKey) (w : World) :
    resolve h op key w = (.ok (w.dispatcher.resolve h.hasSlot op key).1,
      { w with dispatcher := (w.dispatcher.resolve h.hasSlot op key).2 }) := rfl

theorem resolve_gives (n : Nat) (op : Operation) (k : Kind) :
    Run.Gives (Calm s bound)
      (fun t => t.op = op ∧ t.key = .builtin k ∧
        t.target = if k.hasSlot op then .builtin else .missing)
      (resolve (hooks n) op (.builtin k)) := by
  intro w t w' calm ran
  have same : (hooks n).hasSlot = Kind.hasSlot := by cases n <;> rfl
  obtain ⟨⟨id, found⟩, honest⟩ := calm.honest.resolve op (.builtin k)
  rw [resolve_apply, same] at ran
  obtain ⟨given, rfl⟩ := Prod.mk.inj ran
  refine ⟨⟨calm.store, calm.bound, honest⟩, ?_⟩
  rw [← Outcome.ok.inj given, found]
  exact ⟨rfl, rfl, rfl⟩

theorem callSlot_gives {op : CompareOp} {k : Kind} (builtin : (receiver args).typeKey = .builtin k)
    (called : ∀ slot m, k.slot? (.compare op) = some slot → n = m + 1 →
      Run.Gives (Calm s bound) Q (slot (hooks m) args))
    (declined : k.slot? (.compare op) = none → Q .notImplemented) :
    Run.Gives (Calm s bound) Q (callSlot (hooks n) (.compare op) args) := by
  unfold callSlot
  rw [builtin]
  refine Run.gives_bind (resolve_gives n (.compare op) k) ?_
  rintro t ⟨rfl', key, target⟩
  refine callThunk_gives ?_
  cases slot : k.slot? (.compare op) with
  | none =>
    have missing : t.target = .missing := by rw [target, Kind.hasSlot, slot]; rfl
    simp only [runTarget, missing, Thunk.missing, rfl']
    exact Run.gives_pure (declined slot)
  | some body =>
    have runs : t.target = .builtin := by rw [target, Kind.hasSlot, slot]; rfl
    simp only [runTarget, runs, key, rfl']
    cases n with
    | zero => exact Run.gives_outOfFuel
    | succ m =>
      simp only [hooks, slot]
      exact called body m slot rfl

theorem identityHash_gives (v : Value) :
    Run.Gives (Calm s bound) (fun code => code = ((s.identity? v).map identityCode).getD 0)
      (identityHash v) := by
  refine Run.gives_readStore fun w calm => ?_
  rw [calm.store]
  cases v <;> rfl

theorem slotHash_gives {v : Value} {k : Kind} (builtin : v.typeKey = .builtin k)
    (refuses : ∀ slot, k.slot? .hash = some slot → slot = unhashableSlot) :
    Run.Gives (Calm s bound)
      (fun code => k.slot? .hash = none ∧ code = ((s.identity? v).map identityCode).getD 0)
      (slotHash (hooks n) v) := by
  unfold slotHash
  rw [builtin]
  refine Run.gives_bind (resolve_gives n .hash k) ?_
  rintro t ⟨op, key, target⟩
  cases slot : k.slot? .hash with
  | none =>
    have missing : t.isMissing = true := by
      simp only [Kind.hasSlot, slot] at target
      simp [Thunk.isMissing, target]
    rw [if_pos missing]
    exact (identityHash_gives v).imp fun code same => ⟨rfl, same⟩
  | some body =>
    have runs : t.target = .builtin := by
      simp only [Kind.hasSlot, slot] at target
      exact target
    rw [if_neg (by simp [Thunk.isMissing, runs])]
    refine Run.gives_bind (P := fun _ => False) (callThunk_gives ?_) fun _ never => never.elim
    simp only [runTarget, runs, key, op]
    cases n with
    | zero => exact Run.gives_outOfFuel
    | succ m =>
      obtain rfl := refuses body slot
      simp only [hooks, slot]
      exact Run.gives_bind (Calm.typeName_gives _) fun _ _ => Run.gives_raise _

end Protocol

namespace Plain

mutual

theorem hash_gives (plain : Plain s bound P) (v : Value) (mem : P v) :
    Run.Gives (Calm s bound) (fun code => s.code? v = some code) (Protocol.hash (hooks n) v) := by
  cases v
  case tuple id items =>
    unfold Protocol.hash
    refine Run.gives_nested (Run.gives_bind (plain.hashAll_gives items ?_) fun codes found => ?_)
    · exact fun x inside => plain.parts _ mem x inside
    · exact Run.gives_pure (by simp [Store.code?, found])
  case object id number payload => exact absurd rfl (plain.builtin _ mem)
  case list | dict | byteArray | dictKeys | dictItems | slice =>
    unfold Protocol.hash
    refine (Protocol.slotHash_gives rfl ?_).imp fun code found => ?_
    · rintro slot ⟨⟩
      rfl
    · cases found.1
  case native | dictValues =>
    unfold Protocol.hash
    refine (Protocol.slotHash_gives rfl ?_).imp fun code found => ?_
    · rintro slot ⟨⟩
    · rw [found.2]
      rfl
  all_goals
    unfold Protocol.hash
    exact Run.gives_pure rfl

theorem hashAll_gives (plain : Plain s bound P) (items : List Value) (mem : ∀ v ∈ items, P v) :
    Run.Gives (Calm s bound) (fun codes => s.codes? items = some codes)
      (Protocol.hashAll (hooks n) items) := by
  cases items with
  | nil =>
    unfold Protocol.hashAll
    exact Run.gives_pure rfl
  | cons v rest =>
    unfold Protocol.hashAll
    refine Run.gives_bind (plain.hash_gives v (mem v List.mem_cons_self)) fun code found => ?_
    refine Run.gives_bind
      (plain.hashAll_gives rest fun v inside => mem v (List.mem_cons_of_mem _ inside))
      fun codes found' => ?_
    exact Run.gives_pure (by simp [Store.codes?, found, found'])

end

end Plain

end DynamicObjects
