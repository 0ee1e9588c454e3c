import DynamicObjects.Lists.Sort
import DynamicObjects.Proofs.MergeSort
import DynamicObjects.Proofs.Objects
import DynamicObjects.Proofs.Protocol

/-!
What other code may do to a list. Every change of the items is counted; giving spare room back is not
counted and leaves the items as they are. So as long as the count is the same, the items are.
-/
namespace DynamicObjects

def ListObject.holding (o : ListObject) (buffer : Buffer Value) : ListObject :=
  { o with buffer, version := o.version + 1 }

namespace ListRef

variable {w : World} {r : ListRef} {o : ListObject}

theorem buffer_apply (h : w.list? r = some o) : r.buffer w = (.ok o.buffer, w) := by
  simp [buffer, Run.readStore, Run.read, World.list_of_list? h]

theorem items_apply (h : w.list? r = some o) : r.items w = (.ok o.buffer.toList, w) := by
  simp [items, Run.readStore, Run.read, World.list_of_list? h]

theorem version_apply (h : w.list? r = some o) : r.version w = (.ok o.version, w) := by
  simp [version, Run.readStore, Run.read, World.list_of_list? h]

theorem update_apply (h : w.list? r = some o) (f : Buffer Value → Buffer Value) :
    r.update f w = (.ok (), w.putList r (o.holding (f o.buffer))) :=
  congrArg (Prod.mk _) (World.modifyList_eq_putList h _)

theorem write_apply (h : w.list? r = some o) (b : Buffer Value) :
    r.write b w = (.ok (), w.putList r (o.holding b)) :=
  update_apply h fun _ => b

end ListRef

/-- What code may do as far as one list is concerned: leave it alone, change its buffer in a counted
way, give spare room back, and one thing after the other. -/
inductive Touches (r : ListRef) : World → World → Prop
  | elsewhere {w w' : World} (same : w'.list? r = w.list? r) : Touches r w w'
  | update (w : World) (f : Buffer Value → Buffer Value) : Touches r w (r.update f w).2
  | trim (w : World) : Touches r w (r.trim w).2
  | trans {w₁ w₂ w₃ : World} (first : Touches r w₁ w₂) (second : Touches r w₂ w₃) :
    Touches r w₁ w₃

instance (r : ListRef) : IsPreorder World (Touches r) where
  refl _ := .elsewhere rfl
  trans _ _ _ first second := .trans first second

variable {r : ListRef} {w w' : World}

/-- The list is still there, the count has not gone down, and with the same count the items are the
same. -/
theorem Touches.counted (touches : Touches r w w') {o : ListObject} (live : w.list? r = some o) :
    ∃ o', w'.list? r = some o' ∧ o.version ≤ o'.version ∧
      (o'.version = o.version → o'.buffer.items = o.buffer.items) := by
  induction touches generalizing o with
  | elsewhere same => exact ⟨o, same.trans live, Nat.le_refl _, fun _ => rfl⟩
  | update w f =>
    rw [ListRef.update_apply live f]
    refine ⟨_, World.list?_putList live _, Nat.le_succ _, ?_⟩
    intro same
    exact absurd same (Nat.succ_ne_self _)
  | trim w =>
    refine ⟨{ o with buffer := o.buffer.trim }, ?_, Nat.le_refl _, fun _ => o.buffer.items_trim⟩
    exact (congrArg (World.list? · r) (World.modifyList_eq_putList live _)).trans
      (World.list?_putList live _)
  | trans first second ih₁ ih₂ =>
    obtain ⟨o₁, live₁, le₁, same₁⟩ := ih₁ live
    obtain ⟨o₂, live₂, le₂, same₂⟩ := ih₂ live₁
    refine ⟨o₂, live₂, Nat.le_trans le₁ le₂, ?_⟩
    intro same
    exact (same₂ (by omega)).trans (same₁ (by omega))

instance (r : ListRef) : Unconcerned (Touches r) :=
  .of_store fun same => .elsewhere (World.list?_of_lists_eq (congrArg Store.lists same))

namespace ListRef

theorem update_within (r' : ListRef) (f : Buffer Value → Buffer Value) :
    Run.Within (Touches r) (r'.update f) := by
  intro w
  by_cases same : r' = r
  · subst same
    exact .update w f
  · exact .elsewhere (World.list?_modifyList_of_ne same _)

theorem write_within (r' : ListRef) (b : Buffer Value) : Run.Within (Touches r) (r'.write b) :=
  update_within r' fun _ => b

theorem append_within (r' : ListRef) (v : Value) : Run.Within (Touches r) (r'.append v) :=
  update_within r' _

theorem clear_within (r' : ListRef) : Run.Within (Touches r) r'.clear :=
  update_within r' _

theorem set_within (r' : ListRef) (index : Int) (v : Value) :
    Run.Within (Touches r) (r'.set index v) := by
  refine Run.within_bind (Run.within_readStore _) fun size => ?_
  split
  · exact update_within r' _
  · exact Run.within_raise _

theorem delete_within (r' : ListRef) (index : Int) : Run.Within (Touches r) (r'.delete index) := by
  refine Run.within_bind (Run.within_readStore _) fun size => ?_
  split
  · exact update_within r' _
  · exact Run.within_raise _

theorem keysOf_within {h : Hooks} (hooks : h.Within (Touches r)) (r' : ListRef) (f : Value)
    (version : Nat) (items : List Value) :
    Run.Within (Touches r) (r'.keysOf h f version items) := by
  induction items with
  | nil => exact Run.within_pure _
  | cons item rest ih =>
    refine Run.within_bind (hooks.invoke f [item]) fun key => ?_
    refine Run.within_bind (Run.within_readStore _) fun now => ?_
    split
    · exact Run.within_raise _
    · exact Run.within_bind ih fun _ => Run.within_pure _

theorem guardedLess_within {h : Hooks} (hooks : h.Within (Touches r)) (r' : ListRef) (version : Nat)
    (a b : Value) : Run.Within (Touches r) (r'.guardedLess h version a b) := by
  refine Run.within_bind (Protocol.lessThan_within hooks a b) fun less => ?_
  refine Run.within_bind (Run.within_readStore _) fun now => ?_
  split
  · exact Run.within_pure _
  · exact Run.within_raise _

theorem sortDetached_within {h : Hooks} (hooks : h.Within (Touches r)) (r' : ListRef)
    (detached : Buffer Value) (keys : Array Value) (backwards : Bool) :
    Run.Within (Touches r) (r'.sortDetached h detached keys backwards) := by
  refine Run.within_bind (Run.within_readStore _) fun version => ?_
  have sorts : Run.Within (Touches r)
      (MergeSort.sortKeys keys backwards (r'.guardedLess h version)) := by
    have holds := MergeSort.sortKeys_perm (Run.Judgement.within (Touches r)) backwards
      fun a (_ : a ∈ keys) b _ w =>
        ⟨guardedLess_within hooks r' version a b w, fun _ _ => trivial⟩
    exact fun w => (holds w).1
  refine Run.within_bind (Run.within_attempt sorts) fun sorted => ?_
  refine Run.within_bind (Run.within_readStore _) fun now => ?_
  cases sorted with
  | error e => exact Run.within_bind (write_within r' _) fun _ => Run.within_raise _
  | ok order =>
    dsimp only
    split
    · exact Run.within_bind (write_within r' _) fun _ => Run.within_raise _
    · exact write_within r' _

/-- A sort of any list, this one or another, is nothing but counted changes. -/
theorem sort_within {h : Hooks} (hooks : h.Within (Touches r)) (r' : ListRef)
    (keyFunction : Option Value) (backwards : Bool) :
    Run.Within (Touches r) (r'.sort h keyFunction backwards) := by
  have detach : Run.Within (Touches r) r'.detach :=
    Run.within_bind (Run.within_readStore _) fun _ =>
      Run.within_bind (update_within r' _) fun _ => Run.within_pure _
  cases keyFunction with
  | none => exact Run.within_bind detach fun _ => sortDetached_within hooks r' _ _ _
  | some f =>
    have keyed : Run.Within (Touches r) (r'.computeKeys h f) :=
      Run.within_bind (Run.within_readStore _) fun _ =>
        Run.within_bind (Run.within_readStore _) fun _ =>
          Run.within_bind (keysOf_within hooks r' f _ _) fun _ => Run.within_pure _
    refine Run.within_bind keyed fun found => ?_
    refine Run.within_bind (Run.within_readStore _) fun now => ?_
    split
    · exact Run.within_raise _
    · exact Run.within_bind detach fun _ => sortDetached_within hooks r' _ _ _

end ListRef

end DynamicObjects
