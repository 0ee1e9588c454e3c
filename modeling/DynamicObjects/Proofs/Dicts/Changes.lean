import DynamicObjects.Proofs.Dicts.Calls
import DynamicObjects.Proofs.Tables.Positions
import DynamicObjects.Proofs.Protocol

/-!
What can happen to the table of a dictionary. There are four changes, and whatever a call does, other code
that runs meanwhile included, is one of them after the other. An entry keeps its position under every
change that neither removes it nor moves entries, and the layout counts the changes that move entries.
-/
namespace DynamicObjects

inductive DictChange
  | set (position : Nat) (value : Value)
  | insert (hash : HashCode) (key value : Value)
  | remove (position : Nat)
  | clear

namespace DictChange

variable {c : DictChange} {t : Table Value Value} {p : Nat}

def apply (t : Table Value Value) : DictChange → Table Value Value
  | set position value => t.setValue position value
  | insert hash key value => t.insertNew hash key value
  | remove position => t.remove position
  | clear => t.clear

/-- Whether entries get other positions: the holes are squeezed out, or there are entries to clear. -/
def moves (t : Table Value Value) : DictChange → Bool
  | insert .. => t.needsCompaction
  | clear => t.size != 0
  | _ => false

def removes (p : Nat) : DictChange → Bool
  | remove position => position == p
  | clear => true
  | _ => false

theorem valid_apply (h : t.Valid) (c : DictChange) : (c.apply t).Valid := by
  cases c with
  | set position value => exact h.setValue position value
  | insert hash key value => exact h.insertNew hash key value
  | remove position => exact h.remove position
  | clear => exact Table.valid_clear t

theorem layout_apply (h : t.Valid) (c : DictChange) :
    (c.apply t).layout = t.layout + (c.moves t).toNat := by
  cases c with
  | set position value =>
    simp only [apply, Table.setValue, moves]
    split <;> rfl
  | insert hash key value =>
    simp only [apply, Table.insertNew, moves]
    cases t.needsCompaction <;> rfl
  | remove position =>
    simp only [apply, Table.remove, moves]
    split <;> rfl
  | clear =>
    simp only [apply, Table.clear, moves]
    by_cases zero : t.size = 0
    · simp [h.isEmpty_iff.mpr zero, zero]
    · have some : (t.size != 0) = true := bne_iff_ne.mpr zero
      simp [mt h.isEmpty_iff.mp zero, some]

theorem entry?_apply {e : Entry Value Value} (still : c.moves t = false) (kept : c.removes p = false)
    (found : t.entry? p = some e) :
    ∃ e', Table.entry? (c.apply t) p = some e' ∧ e'.key = e.key ∧ e'.hash = e.hash := by
  cases c with
  | set position value =>
    simp only [apply, Table.entry?_setValue]
    split
    · exact ⟨{ e with value }, by rw [found]; rfl, rfl, rfl⟩
    · exact ⟨e, found, rfl, rfl⟩
  | insert hash key value =>
    have bound := (List.getElem?_eq_some_iff.mp (Table.entry?_eq_some_iff.mp found)).1
    rw [Array.length_toList] at bound
    refine ⟨e, ?_, rfl, rfl⟩
    rw [apply, Table.entry?_insertNew, Table.squeezed_of_roomy still, if_neg (by omega), found]
  | remove position =>
    have other : ¬ p = position := by
      intro same
      simp [removes, same] at kept
    exact ⟨e, by rw [apply, Table.entry?_remove, if_neg other, found], rfl, rfl⟩
  | clear => cases kept

end DictChange

/-- One step of what may happen to a dictionary: its table stays as it is, or there is a change. -/
def Alters (r : DictRef) (w w' : World) : Prop :=
  ∀ o, w.dict? r = some o → ∃ o', w'.dict? r = some o' ∧
    (o'.table = o.table ∨ ∃ c : DictChange, o'.table = c.apply o.table)

abbrev Altered (r : DictRef) : World → World → Prop := Relation.ReflTransGen (Alters r)

instance (r : DictRef) : IsPreorder World (Altered r) where
  refl _ := .refl
  trans _ _ _ := .trans

theorem alters_of_dict?_eq {r : DictRef} {w w' : World} (same : w'.dict? r = w.dict? r) :
    Alters r w w' :=
  fun o live => ⟨o, same.trans live, .inl rfl⟩

instance (r : DictRef) : Unconcerned (Altered r) :=
  .of_store fun same => .single (alters_of_dict?_eq (World.dict?_of_dicts_eq (congrArg Store.dicts same)))

namespace DictRef

section Searching

variable {R : World → World → Prop} [IsPreorder World R] [Unconcerned R] {h : Hooks} (hooks : h.Within R)

include hooks

theorem findCandidate_within (key : Value) (candidates : List (Nat × Value)) :
    Run.Within R (findCandidate h key candidates) := by
  induction candidates with
  | nil => exact Run.within_pure _
  | cons c rest ih =>
    rw [findCandidate]
    split
    · exact Run.within_pure _
    · apply Run.within_bind (Protocol.equals_within hooks _ _)
      intro found
      cases found with
      | true => exact Run.within_pure _
      | false => exact ih

theorem lookup_within (r : DictRef) (key : Value) (hash : HashCode) :
    Run.Within R (lookup h r key hash) := by
  have once : Run.Within R (lookupOnce h r key hash) := by
    refine Run.within_bind (Run.within_readStore _) ?_
    intro o
    apply Run.within_bind (findCandidate_within hooks key _)
    intro found
    exact Run.within_bind (Run.within_readStore _) fun _ => Run.within_pure _
  unfold lookup
  induction h.fuel with
  | zero =>
    rw [lookupLoop]
    apply Run.within_bind once
    rintro (_ | found)
    · exact Run.within_outOfFuel
    · exact Run.within_pure _
  | succ retries ih =>
    rw [lookupLoop]
    apply Run.within_bind once
    rintro (_ | found)
    · exact ih
    · exact Run.within_pure _

theorem search_within (r : DictRef) (key : Value) : Run.Within R (search h r key) := by
  apply Run.within_bind (Protocol.hash_within hooks key)
  intro hash
  exact Run.within_bind (lookup_within hooks r key hash) fun _ => Run.within_pure _

theorem raiseMissing_within {α : Type} (key : Value) : Run.Within R (raiseMissing h key : Run α) :=
  Run.within_bind (Protocol.repr_within hooks key) fun _ => Run.within_raise _

end Searching

variable {r : DictRef}

theorem modify_within {f : Table Value Value → Table Value Value}
    (h : ∀ t, f t = t ∨ ∃ c : DictChange, f t = c.apply t) : Run.Within (Altered r) (r.modify f) := by
  intro w
  apply Relation.ReflTransGen.single
  intro o live
  rw [modify_apply live]
  exact ⟨o.changed f, World.dict?_putDict live _, h o.table⟩

theorem valueAt_within (found : Option Nat) : Run.Within (Altered r) (r.valueAt found) := by
  cases found with
  | none => exact Run.within_pure _
  | some position => exact Run.within_bind (Run.within_readStore _) fun _ => Run.within_pure _

theorem takeAt_within (found : Option Nat) : Run.Within (Altered r) (r.takeAt found) := by
  cases found with
  | none => exact Run.within_pure _
  | some position =>
    refine Run.within_bind (Run.within_readStore _) ?_
    intro entry
    apply Run.within_bind (modify_within fun t => .inr ⟨.remove position, rfl⟩)
    exact fun _ => Run.within_pure _

theorem placeAt_within (hash : HashCode) (key value : Value) (found : Option Nat) :
    Run.Within (Altered r) (r.placeAt hash key value found) := by
  cases found with
  | none => exact modify_within fun t => .inr ⟨.insert hash key value, rfl⟩
  | some position => exact modify_within fun t => .inr ⟨.set position value, rfl⟩

theorem popItem_within : Run.Within (Altered r) r.popItem := by
  refine Run.within_bind (Run.within_readStore _) ?_
  rintro (_ | ⟨position, entry⟩)
  · exact Run.within_bind (modify_within fun t => .inl rfl) fun _ => Run.within_raise _
  · apply Run.within_bind (modify_within fun t => .inr ⟨.remove position, rfl⟩)
    exact fun _ => Run.within_pure _

end DictRef

namespace DictCall

variable {r : DictRef} {h : Hooks} (hooks : h.Within (Altered r))

include hooks

theorem finish_within (c : DictCall) {key : Value} (hkey : c.key? = some key)
    (at_ : HashCode × Option Nat) : Run.Within (Altered r) (c.finish h r at_) := by
  have missing {α : Type} (key : Value) := DictRef.raiseMissing_within (α := α) hooks key
  have taken := DictRef.takeAt_within (r := r) at_.2
  cases c with
  | size | popItem | clear => cases hkey
  | get key => exact Run.within_bind (DictRef.valueAt_within _) fun _ => Run.within_pure _
  | getItem key =>
    apply Run.within_bind (DictRef.valueAt_within _)
    rintro (_ | v)
    · exact missing key
    · exact Run.within_pure _
  | contains key => exact Run.within_pure _
  | set key value =>
    exact Run.within_bind (DictRef.placeAt_within _ _ _ _) fun _ => Run.within_pure _
  | delete key =>
    apply Run.within_bind taken
    rintro (_ | v)
    · exact missing key
    · exact Run.within_pure _
  | pop key default =>
    apply Run.within_bind taken
    intro v
    cases v <;> cases default <;> first | exact missing key | exact Run.within_pure _
  | setDefault key default =>
    obtain ⟨hash, _ | position⟩ := at_
    · exact Run.within_bind (DictRef.placeAt_within _ _ _ _) fun _ => Run.within_pure _
    · exact Run.within_bind (DictRef.valueAt_within _) fun _ => Run.within_pure _

theorem run_within (c : DictCall) : Run.Within (Altered r) (c.run h r) := by
  cases hkey : c.key? with
  | some key =>
    rw [run_eq_search h r hkey]
    exact Run.within_bind (DictRef.search_within hooks r key) fun at_ => c.finish_within hooks hkey at_
  | none =>
    cases c <;> simp only [key?, reduceCtorEq] at hkey
    case size =>
      refine Run.within_bind ?_ fun _ => Run.within_pure _
      exact Run.within_bind (Run.within_readStore _) fun _ => Run.within_pure _
    case popItem => exact Run.within_bind DictRef.popItem_within fun _ => Run.within_pure _
    case clear =>
      refine Run.within_bind ?_ fun _ => Run.within_pure _
      exact DictRef.modify_within fun t => .inr ⟨.clear, rfl⟩

end DictCall

end DynamicObjects
