import DynamicObjects.Proofs.Termination.Finishing
import DynamicObjects.Proofs.Equality.Collections
import DynamicObjects.Proofs.Equality.Views

/-!
Heaps of built-in data, and how much may be left to follow in them. The data may be shared and may
contain itself; what makes a walk over it end is that each walk has only so many levels.
-/
namespace DynamicObjects

open Script (hooks)
open Run

/-- The values inside a value, also those that only printing shows. -/
def Store.contained (s : Store) : Value → List Value
  | .dictValues r => (s.dict r).table.values
  | v => s.parts v

def Store.hashed (s : Store) : Value → List Value
  | .frozenSet _ t => t.keys
  | .dict r | .dictKeys r | .dictItems r => (s.dict r).table.keys
  | _ => []

/-- Values of built-in kinds, with all that is inside them. They may be shared and may contain
themselves; keys and elements of sets have hash codes. -/
structure BuiltinData (s : Store) (P : Value → Prop) : Prop where
  builtin : ∀ v, P v → v.kind ≠ .object
  contained : ∀ v, P v → ∀ x ∈ s.contained v, P x
  hashable : ∀ v, P v → ∀ x ∈ s.hashed v, (s.code? x).isSome = true

/-- A value of a built-in kind with built-in data inside, though it may itself be new. -/
structure Made (s : Store) (P : Value → Prop) (v : Value) : Prop where
  builtin : v.kind ≠ .object
  contained : ∀ x ∈ s.contained v, P x

variable {s : Store} {P : Value → Prop} {levels n : Nat} {v : Value}

theorem BuiltinData.made (data : BuiltinData s P) (mem : P v) : Made s P v :=
  ⟨data.builtin v mem, data.contained v mem⟩

theorem Made.inside (made : Made s P v) : ∀ x ∈ s.parts v, P x := by
  cases v
  case dictValues r => exact nofun
  all_goals exact made.contained

theorem mem_of_pair {t : Table Value Value} {p : Value × Value} (mem : p ∈ t.pairs) :
    p.1 ∈ t.keys ∧ p.2 ∈ t.values := by
  obtain ⟨e, listed, rfl⟩ := List.mem_map.mp mem
  exact ⟨List.mem_map_of_mem listed, List.mem_map_of_mem listed⟩

theorem sizeOf_key_lt {t : SetTable} {key : Value} (mem : key ∈ t.keys) (id : Identity) :
    sizeOf key < sizeOf (Value.frozenSet id t) := by
  obtain ⟨e, listed, rfl⟩ := List.mem_map.mp mem
  obtain ⟨slot, among, same⟩ := List.mem_filterMap.mp listed
  obtain rfl : slot = some e := same
  obtain ⟨index, entries, live, layout⟩ := t
  obtain ⟨hash, key, value⟩ := e
  have inner := Array.sizeOf_lt_of_mem (Array.mem_toList_iff.mp among)
  simp only [Value.frozenSet.sizeOf_spec, Table.mk.sizeOf_spec, Option.some.sizeOf_spec,
    Entry.mk.sizeOf_spec] at inner ⊢
  omega

/-- The same value up to the identity of a tuple. -/
def Retags (x y : Value) : Prop := y = x ∨ ∃ id id' items, x = .tuple id items ∧ y = .tuple id' items

namespace Retags

variable {x : Value}

theorem refl (v : Value) : Retags v v := .inl rfl

theorem made (h : Retags v x) (made : Made s P v) : Made s P x := by
  rcases h with rfl | ⟨id, id', items, rfl, rfl⟩
  · exact made
  · exact ⟨nofun, made.contained⟩

theorem parts_eq (h : Retags v x) : s.parts x = s.parts v := by
  rcases h with rfl | ⟨id, id', items, rfl, rfl⟩ <;> rfl

end Retags

theorem Made.itemTuple {p : Value × Value} (key : P p.1) (value : P p.2) :
    Made s P (itemTuple p) := by
  refine ⟨nofun, ?_⟩
  simp [DynamicObjects.itemTuple, Store.contained, Store.parts, key, value]

theorem retags_minted (id : Identity) (pairs : List (Value × Value)) :
    List.Forall₂ Retags (pairs.map itemTuple) (Region.minted id pairs) := by
  induction pairs generalizing id with
  | nil => exact .nil
  | cons p rest ih => exact .cons (.inr ⟨0, id, _, rfl, rfl⟩) (ih (id + 1))

theorem exists_of_retagged {xs ys : List Value} (retags : List.Forall₂ Retags xs ys) {y : Value}
    (mem : y ∈ ys) : ∃ x ∈ xs, Retags x y := by
  induction retags with
  | nil => cases mem
  | cons first _ ih =>
    rcases List.mem_cons.mp mem with rfl | later
    · exact ⟨_, List.mem_cons_self, first⟩
    · obtain ⟨x, among, retags⟩ := ih later
      exact ⟨x, List.mem_cons_of_mem _ among, retags⟩

section Reading

variable {I : World → Prop} {E : Error → Prop} (calm : ∀ {w}, I w → Calm s 0 w)

include calm

theorem listObject_finishes (r : ListRef) : Finishes I (fun o => o = s.list r) E r.object := by
  refine finishes_readStore fun w i => ?_
  rw [(calm i).store]
  rfl

theorem dictObject_finishes (r : DictRef) : Finishes I (fun o => o = s.dict r) E r.object :=
  finishes_readStore fun _ i => (calm i).dict r

theorem table_finishes (r : DictRef) : Finishes I (fun t => t = (s.dict r).table) E r.table := by
  refine finishes_readStore fun w i => ?_
  rw [(calm i).dict r]

theorem keys_finishes (r : DictRef) : Finishes I (fun l => l = (s.dict r).table.keys) E r.keys :=
  finishes_map ((table_finishes calm r).imp fun _ => congrArg _)

theorem values_finishes (r : DictRef) : Finishes I (fun l => l = (s.dict r).table.values) E r.values :=
  finishes_map ((table_finishes calm r).imp fun _ => congrArg _)

theorem pairs_finishes (r : DictRef) : Finishes I (fun l => l = (s.dict r).table.pairs) E r.pairs :=
  finishes_map ((table_finishes calm r).imp fun _ => congrArg _)

end Reading

theorem Steady.itemTuples_finishes {I : Nat → World → Prop} {E : Error → Prop} (steady : Steady I)
    (depth : Nat) (calm : ∀ {w}, I depth w → Calm s 0 w) (r : DictRef) :
    Finishes (I depth) (List.Forall₂ Retags ((s.dict r).table.pairs.map itemTuple)) E r.itemTuples := by
  refine finishes_bind (pairs_finishes calm r) ?_
  rintro _ rfl w i
  rw [Region.newTuples_apply]
  exact ⟨steady.identified i (Nat.le_add_right _ _), retags_minted _ _⟩

/-- The heap is that of `s`, and at most so many levels of nested data are left. -/
def Ready (s : Store) (levels : Nat) (w : World) : Prop :=
  Calm s 0 w ∧ dataDepthLimit ≤ w.dataDepth + levels

theorem steady_ready (s : Store) (levels : Nat) : Steady fun _ => Ready s levels where
  honest ready := ready.1.honest
  dispatched ready honest _ := ⟨⟨ready.1.store, ready.1.bound, honest⟩, ready.2⟩
  identified := by
    rintro - w nextId ⟨calm, room⟩ -
    exact ⟨⟨by rw [calm.store], Nat.zero_le _, calm.honest⟩, room⟩
  entered ready := ⟨⟨ready.1.store, ready.1.bound, ready.1.honest⟩, ready.2⟩
  left _ ready := ⟨⟨ready.1.store, ready.1.bound, ready.1.honest⟩, ready.2⟩

theorem Ready.moved {w : World} (ready : Ready s levels w) {dataDepth levels' : Nat}
    (printing : List Identity) (room : dataDepthLimit ≤ dataDepth + levels') :
    Ready s levels' { w with dataDepth, printing } :=
  ⟨⟨ready.1.store, ready.1.bound, ready.1.honest⟩, room⟩

/-- The run comes to an end wherever at most so many levels are left. -/
abbrev Halts {α : Type} (s : Store) (levels : Nat) (Q : α → Prop) (x : Run α) : Prop :=
  Finishes (Ready s levels) Q (fun _ => True) x

def ReadyBelow (s : Store) (levels : Nat) (w : World) : Prop :=
  ∃ below, levels = below + 1 ∧ Ready s below w

theorem finishes_readyBelow {α : Type} {Q : α → Prop} {E : Error → Prop} {x : Run α}
    (inner : ∀ below, levels = below + 1 → Finishes (Ready s below) Q E x) :
    Finishes (ReadyBelow s levels) Q E x := by
  rintro w ⟨below, same, ready⟩
  obtain ⟨ready', settled⟩ := inner below same w ready
  exact ⟨⟨below, same, ready'⟩, settled⟩

section Levels

variable {w : World}

theorem Ready.opened (ready : Ready s levels w) (left : w.dataDepth < dataDepthLimit)
    (printing : List Identity) :
    ReadyBelow s levels { w with dataDepth := w.dataDepth + 1, printing } := by
  have room := ready.2
  exact ⟨levels - 1, by omega, ready.moved printing (by omega)⟩

theorem ReadyBelow.closed (below : ReadyBelow s levels w) (printing : List Identity) :
    Ready s levels { w with dataDepth := w.dataDepth - 1, printing } := by
  obtain ⟨levels', rfl, ready⟩ := below
  have room := ready.2
  exact ready.moved printing (by omega)

end Levels

/-- What is nested has one level less, and where none is left it is not even begun. -/
theorem halts_nested {α : Type} {Q : α → Prop} {x : Run α}
    (inner : ∀ below, levels = below + 1 → Halts s below Q x) : Halts s levels Q (nested x) :=
  finishes_nested (fun _ _ _ => trivial) (finishes_readyBelow inner)
    (fun w ready left => ready.opened left w.printing) fun w below => below.closed w.printing

end DynamicObjects
