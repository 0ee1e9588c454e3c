import DynamicObjects.Protocol
import DynamicObjects.Proofs.Runs

/-!
What asking a value does to the store. Dispatch keeps its own books, and depth is counted; the store
itself is changed by the code that is called and by nothing else. So whatever that code does to the
store bounds what a comparison, a hash code or a text does to it.
-/
namespace DynamicObjects

def Operation.readsMember : Operation → Bool
  | .getMember _ => true
  | _ => false

/-- A relation that telling tracers and counting levels stay within. -/
class Heedless (R : World → World → Prop) : Prop where
  tell : ∀ (w : World) tracer event,
    R w { w with dispatcher := w.dispatcher.tell tracer event }
  levels : ∀ (w : World) depth dataDepth, R w { w with depth, dataDepth }

/-- A relation that the books of dispatch do not matter for: preparing calls stays within it too. -/
class Unconcerned (R : World → World → Prop) : Prop extends Heedless R where
  resolve : ∀ (w : World) hasSlot op key, op.readsMember = false →
    R w { w with dispatcher := (w.dispatcher.resolve hasSlot op key).2 }

theorem Unconcerned.of_store {R : World → World → Prop}
    (of_store : ∀ {w w' : World}, w'.store = w.store → R w w') : Unconcerned R where
  resolve _ _ _ _ _ := of_store rfl
  tell _ _ _ := of_store rfl
  levels _ _ _ := of_store rfl

structure Hooks.Within (R : World → World → Prop) (h : Hooks) : Prop where
  builtin : ∀ kind op args, Run.Within R (h.builtin kind op args)
  invoke : ∀ f args, Run.Within R (h.invoke f args)

def Hooks.silent : Hooks where
  fuel := 0
  hasSlot _ _ := false
  builtin _ _ _ := Run.outOfFuel
  invoke _ _ := Run.outOfFuel
  enumerate _ := Run.outOfFuel

variable {R : World → World → Prop} {α : Type}

theorem Hooks.silent_within [IsPreorder World R] : Hooks.silent.Within R where
  builtin _ _ _ := Run.within_outOfFuel
  invoke _ _ := Run.within_outOfFuel

variable [IsPreorder World R]

namespace Run

section Levels

variable [Heedless R]

omit [Heedless R] in
theorem within_typeName (v : Value) : Within R (typeName v) := within_read _

theorem within_nested {x : Run α} (hx : Within R x) : Within R (nested x) := by
  intro w
  unfold nested
  split
  · exact refl_of R w
  · have inside := trans_of R (Heedless.levels w w.depth (w.dataDepth + 1)) (hx _)
    exact trans_of R inside (Heedless.levels _ _ _)

theorem within_limited {x : Nat → Run α} (hx : ∀ depth, Within R (x depth)) :
    Within R (limited x) := by
  intro w
  unfold limited
  refine iteInduction (motive := fun p : Outcome α × World => R w p.2) ?_ ?_
  · exact fun _ => refl_of R w
  · intro _
    have inside := trans_of R (Heedless.levels w (w.depth + 1) w.dataDepth)
      (hx (w.depth + 1) _)
    exact trans_of R inside (Heedless.levels _ _ _)

end Levels

omit [IsPreorder World R]

theorem returns_andThen {Q : α → Prop} {x : Run α} (hx : Returns Q x) (f : World → World)
    (start : World → World) : Returns Q fun w => x.andThen f (start w) := by
  intro w a w' ran
  exact hx (start w) a (x (start w)).2 (Prod.ext (congrArg Prod.fst ran :) rfl)

theorem returns_nested {Q : α → Prop} {x : Run α} (hx : Returns Q x) : Returns Q (nested x) := by
  intro w a w' ran
  unfold nested at ran
  split at ran
  · cases (Prod.mk.inj ran).1
  · exact returns_andThen hx _ (fun w => { w with dataDepth := w.dataDepth + 1 }) w a w' ran

theorem returns_limited {Q : α → Prop} {x : Nat → Run α} (hx : ∀ depth, Returns Q (x depth)) :
    Returns Q (limited x) := by
  intro w a w'
  unfold limited
  refine iteInduction (motive := fun p : Outcome α × World => p = (.ok a, w') → Q a) ?_ ?_
  · intro _ ran
    cases (Prod.mk.inj ran).1
  · intro _ ran
    exact returns_andThen (hx _) _ (fun w => { w with depth := w.depth + 1 }) w a w' ran

end Run

namespace Protocol

variable {h : Hooks}

section Calls

variable [Heedless R]

theorem traced_within (t : Thunk) (depth : Nat) {x : Run Value} (hx : Run.Within R x) :
    Run.Within R (traced t depth x) := by
  unfold traced
  cases t.tracer with
  | none => exact hx
  | some tracer =>
    intro w
    have inside := trans_of R
      (Heedless.tell w tracer (.called t.op.slotName t.typeName depth)) (hx _)
    exact trans_of R inside (Heedless.tell _ tracer _)

variable (hooks : h.Within R)

include hooks

omit [Heedless R] in
theorem runTarget_within (t : Thunk) (args : List Value) : Run.Within R (runTarget h t args) := by
  unfold runTarget
  split
  · exact hooks.builtin _ _ _
  · exact Run.within_raise _
  · exact hooks.invoke _ _
  · exact Run.within_pure _
  · exact Run.within_ofExcept _

theorem callThunk_within (t : Thunk) (args : List Value) : Run.Within R (callThunk h t args) := by
  have target := runTarget_within hooks t args
  unfold callThunk
  cases t.limited with
  | true => exact Run.within_limited fun depth => traced_within t depth target
  | false => exact fun w => traced_within t w.depth target w

end Calls

variable [Unconcerned R]

omit [IsPreorder World R] in
theorem resolve_within {op : Operation} (called : op.readsMember = false) (key : TypeKey) :
    Run.Within R (resolve h op key) :=
  fun w => Unconcerned.resolve w h.hasSlot op key called

variable (hooks : h.Within R)

include hooks

theorem callSlot_within {op : Operation} (called : op.readsMember = false)
    (args : List Value) : Run.Within R (callSlot h op args) :=
  Run.within_bind (resolve_within called _) fun t => callThunk_within hooks t args

theorem len_within (v : Value) : Run.Within R (len h v) := by
  refine Run.within_bind (callSlot_within hooks rfl _) fun answer => ?_
  split
  · split
    · exact Run.within_pure _
    · exact Run.within_raise _
  · exact Run.within_bind (Run.within_typeName _) fun _ => Run.within_raise _

theorem truthy_within (v : Value) : Run.Within R (truthy h v) := by
  unfold truthy
  split
  all_goals try exact fun w => refl_of R w
  unfold objectTruthy
  refine Run.within_bind (resolve_within rfl _) fun truth => ?_
  split
  · refine Run.within_bind (resolve_within rfl _) fun length => ?_
    split
    · exact Run.within_pure _
    · exact Run.within_bind (len_within hooks _) fun _ => Run.within_pure _
  · refine Run.within_bind (callThunk_within hooks _ _) fun answer => ?_
    split
    · exact Run.within_pure _
    · exact Run.within_bind (Run.within_typeName _) fun _ => Run.within_raise _

theorem compare_within (op : CompareOp) (a b : Value) : Run.Within R (compare h op a b) := by
  unfold compare
  refine Run.within_bind (Run.within_readStore _) fun order => ?_
  split
  · exact Run.within_pure _
  · refine Run.within_bind (callSlot_within hooks rfl _) fun forward => ?_
    split
    · exact Run.within_pure _
    · refine Run.within_bind (callSlot_within hooks rfl _) fun reflected => ?_
      split
      · exact Run.within_pure _
      · split
        · exact Run.within_pure _
        · exact Run.within_pure _
        · exact Run.within_bind (Run.within_typeName _) fun _ =>
            Run.within_bind (Run.within_typeName _) fun _ => Run.within_raise _

theorem compareBool_within (op : CompareOp) (a b : Value) :
    Run.Within R (compareBool h op a b) := by
  refine Run.within_bind (compare_within hooks op a b) fun answer => ?_
  split
  · exact Run.within_pure _
  · exact truthy_within hooks _

theorem lessThan_within (a b : Value) : Run.Within R (lessThan h a b) :=
  compareBool_within hooks .lt a b

theorem equals_within (a b : Value) : Run.Within R (equals h a b) := by
  unfold equals
  split
  · exact Run.within_pure _
  · refine Run.within_bind (Run.within_readStore _) fun answer => ?_
    split
    · exact Run.within_pure _
    · exact compareBool_within hooks .eq a b

theorem slotHash_within (v : Value) : Run.Within R (slotHash h v) := by
  refine Run.within_bind (resolve_within rfl _) fun thunk => ?_
  split
  · exact Run.within_readStore _
  · refine Run.within_bind (callThunk_within hooks _ _) fun answer => ?_
    split
    · exact Run.within_pure _
    · exact Run.within_pure _
    · exact Run.within_raise _

set_option linter.unusedSectionVars false in
mutual

theorem hash_within (v : Value) : Run.Within R (hash h v) := by
  unfold hash
  split
  case h_8 items =>
    exact Run.within_nested (Run.within_bind (hashAll_within items) fun _ => Run.within_pure _)
  case h_10 => exact slotHash_within hooks _
  all_goals exact Run.within_pure _

theorem hashAll_within (items : List Value) : Run.Within R (hashAll h items) := by
  cases items with
  | nil =>
    unfold hashAll
    exact Run.within_pure _
  | cons v rest =>
    unfold hashAll
    exact Run.within_bind (hash_within v) fun _ =>
      Run.within_bind (hashAll_within rest) fun _ => Run.within_pure _

end

theorem repr_within (v : Value) : Run.Within R (repr h v) := by
  have expect : ∀ v, Run.Within R (expectText v) := by
    intro v
    unfold expectText
    split
    · exact Run.within_pure _
    · exact Run.within_bind (Run.within_typeName _) fun _ => Run.within_raise _
  unfold repr
  split
  case h_8 =>
    refine Run.within_bind (resolve_within rfl _) fun thunk => ?_
    split
    · exact Run.within_bind (Run.within_typeName _) fun _ =>
        Run.within_bind (Run.within_readStore _) fun _ => Run.within_pure _
    · exact Run.within_bind (callThunk_within hooks _ _) fun answer => expect answer
  case h_9 => exact Run.within_bind (callSlot_within hooks rfl _) fun answer => expect answer
  all_goals exact Run.within_pure _

omit hooks [IsPreorder World R] [Unconcerned R] in
/-- A prepared call has no values but those of its target. -/
theorem callThunk_returns {Q : Value → Prop} {t : Thunk} {args : List Value}
    (target : Run.Returns Q (runTarget h t args)) : Run.Returns Q (callThunk h t args) := by
  have told : ∀ depth, Run.Returns Q (traced t depth (runTarget h t args)) := by
    intro depth
    unfold traced
    cases t.tracer with
    | none => exact target
    | some tracer => exact Run.returns_andThen target _ _
  unfold callThunk
  cases t.limited with
  | false => exact fun w => told w.depth w
  | true => exact Run.returns_limited told

end Protocol

end DynamicObjects
