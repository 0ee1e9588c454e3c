import DynamicObjects.Proofs.Conduct.Basic

/-!
What every value can be asked for keeps to a conduct, as long as the slots, the functions and the
classes that are asked do. Slots ask a few questions only, and they are entered, where that is
strict, with a receiver of their own kind.
-/
namespace DynamicObjects

namespace Operation

def isQuestion : Operation → Bool
  | compare _ | len | truth | hash | repr => true
  | _ => false

def isOperator : Operation → Bool
  | binary _ | reflectedBinary _ => true
  | _ => false

end Operation

/-- A slot is entered with a receiver of the kind that it belongs to. -/
structure Kind.Receives (kind : Kind) (op : Operation) (args : List Value) : Prop where
  receiver : (Protocol.receiver args).typeKey = .builtin kind
  hasSlot : kind.hasSlot op = true

structure Hooks.Conducts (J : Conduct) (h : Hooks) : Prop where
  slots : h.hasSlot = Kind.hasSlot
  builtin : ∀ {kind op args}, (J.Strict → Operation.isQuestion op = true ∧ kind.Receives op args) →
    J.Obeys (h.builtin kind op args)
  invoke : ∀ f args, J.Obeys (h.invoke f args)
  enumerate : ∀ v, J.Obeys (h.enumerate v)

attribute [grind ←] Hooks.Conducts.invoke Hooks.Conducts.enumerate

variable {J : Conduct} {h : Hooks}

namespace Conduct

theorem obeys_traced (t : Thunk) (depth : Nat) {x : Run Value} (hx : J.Obeys x) :
    J.Obeys (Protocol.traced t depth x) := by
  unfold Protocol.traced
  cases t.tracer with
  | none => exact hx
  | some tracer =>
    intro w kept
    let d := w.dispatcher.tell tracer (.called t.op.slotName t.typeName depth)
    obtain ⟨kept', step, suits⟩ := hx { w with dispatcher := d } (J.told kept)
    exact ⟨J.told kept', J.traced step, suits⟩

theorem unhashableSlot_obeys {args : List Value} : J.Obeys (unhashableSlot h args) := by
  unfold unhashableSlot
  grind

theorem missing_clean (t : Thunk) : Clean t.missing := by
  unfold Clean Thunk.missing
  grind

end Conduct

namespace Protocol

open Conduct

theorem resolve_holds (slots : h.hasSlot = Kind.hasSlot) (op : Operation) (key : TypeKey) :
    J.Holds (fun t => J.Strict → t.Fits op key) (resolve h op key) := by
  intro w kept
  unfold resolve
  rw [slots]
  have hushed := w.dispatcher.hushed_resolve Kind.hasSlot op key
  exact ⟨J.resolved kept, J.dispatched hushed, fun strict => J.fits strict kept⟩

theorem callThunk_obeys_of {t : Thunk} {args : List Value} (target : J.Obeys (runTarget h t args)) :
    J.Obeys (callThunk h t args) := by
  unfold callThunk
  cases t.limited with
  | true => exact obeys_limited fun depth => obeys_traced t depth target
  | false => exact fun w => obeys_traced t w.depth target w

theorem runTarget_obeys {t : Thunk} {op : Operation} {args : List Value}
    (fits : J.Strict → t.Fits op (receiver args).typeKey)
    (slot : ∀ {kind op'}, (J.Strict → op' = op ∧ kind.Receives op args) →
      J.Obeys (h.builtin kind op' args))
    (invoke : ∀ f, J.Obeys (h.invoke f args)) : J.Obeys (runTarget h t args) := by
  unfold runTarget
  split
  next kind target key =>
    refine slot fun strict => ?_
    have fit := fits strict
    obtain ⟨kind', same, found⟩ := fit.hasSlot target
    have sameKind : kind = kind' := by
      rw [fit.sameKey, same] at key
      exact (TypeKey.builtin.inj key).symm
    exact ⟨fit.sameOp, ⟨sameKind ▸ same, sameKind ▸ found⟩⟩
  next number target key =>
    refine obeys_raise fun strict => ?_
    have fit := fits strict
    obtain ⟨kind', same, -⟩ := fit.hasSlot target
    rw [fit.sameKey, same] at key
    cases key
  next => exact invoke _
  next => exact obeys_pure _
  next => exact obeys_ofExcept_clean (missing_clean t)

variable (hooks : h.Conducts J)

include hooks

theorem callThunk_obeys {t : Thunk} (op : Operation) {args : List Value}
    (asked : J.Strict → op.isQuestion = true)
    (fits : J.Strict → t.Fits op (receiver args).typeKey) : J.Obeys (callThunk h t args) := by
  refine callThunk_obeys_of (runTarget_obeys fits ?_ fun f => hooks.invoke f args)
  intro kind op' proper
  refine hooks.builtin fun strict => ?_
  obtain ⟨rfl, receives⟩ := proper strict
  exact ⟨asked strict, receives⟩

@[grind ←] theorem callSlot_obeys {op : Operation} (asked : J.Strict → op.isQuestion = true)
    (args : List Value) : J.Obeys (callSlot h op args) :=
  obeys_bind_holds (resolve_holds hooks.slots op _) fun _ fits => callThunk_obeys hooks op asked fits

@[grind ←] theorem len_obeys (v : Value) : J.Obeys (len h v) := by
  unfold len
  grind [Operation.isQuestion]

theorem objectTruthy_obeys (v : Value) : J.Obeys (objectTruthy h v) := by
  unfold objectTruthy
  refine obeys_bind_holds (resolve_holds hooks.slots .truth _) fun truth fits => ?_
  split
  · refine obeys_bind_holds (resolve_holds hooks.slots .len _) fun length _ => ?_
    grind
  · refine obeys_bind (callThunk_obeys hooks .truth (fun _ => rfl) fits) fun answer => ?_
    grind

@[grind ←] theorem truthy_obeys (v : Value) : J.Obeys (truthy h v) := by
  unfold truthy
  grind [objectTruthy_obeys]

theorem slotHash_obeys (v : Value) : J.Obeys (slotHash h v) := by
  unfold slotHash
  refine obeys_bind_holds (resolve_holds hooks.slots .hash _) fun thunk fits => ?_
  split
  · exact obeys_readStore _
  · refine obeys_bind (callThunk_obeys hooks .hash (fun _ => rfl) fits) fun answer => ?_
    grind

set_option linter.unusedSectionVars false in
mutual

@[grind ←] theorem hash_obeys (v : Value) : J.Obeys (hash h v) := by
  unfold hash
  split
  case h_8 items =>
    exact obeys_nested (obeys_bind (hashAll_obeys items) fun _ => obeys_pure _)
  case h_10 => exact slotHash_obeys hooks _
  all_goals exact obeys_pure _

theorem hashAll_obeys (items : List Value) : J.Obeys (hashAll h items) := by
  cases items with
  | nil =>
    unfold hashAll
    exact obeys_pure _
  | cons v rest =>
    unfold hashAll
    exact obeys_bind (hash_obeys v) fun _ => obeys_bind (hashAll_obeys rest) fun _ => obeys_pure _

end

@[grind ←] theorem compare_obeys (op : CompareOp) (a b : Value) : J.Obeys (compare h op a b) := by
  unfold compare
  refine obeys_bind (obeys_readStore _) fun order => ?_
  split
  · exact obeys_pure _
  · refine obeys_bind (callSlot_obeys hooks (fun _ => rfl) _) fun forward => ?_
    split
    · exact obeys_pure _
    · refine obeys_bind (callSlot_obeys hooks (fun _ => rfl) _) fun reflected => ?_
      grind

@[grind ←] theorem compareBool_obeys (op : CompareOp) (a b : Value) :
    J.Obeys (compareBool h op a b) := by
  unfold compareBool
  grind

@[grind ←] theorem lessThan_obeys (a b : Value) : J.Obeys (lessThan h a b) :=
  compareBool_obeys hooks .lt a b

@[grind ←] theorem equals_obeys (a b : Value) : J.Obeys (equals h a b) := by
  unfold equals
  grind

@[grind ←] theorem compareElements_obeys (op : CompareOp) (as bs : List Value) :
    J.Obeys (compareElements h op as bs) := by
  fun_induction compareElements h op as bs with
  | case4 a as b bs ih => grind
  | _ => exact obeys_pure _

@[grind ←] theorem equalElements_obeys (as bs : List Value) : J.Obeys (equalElements h as bs) := by
  fun_induction equalElements h as bs with
  | case1 a as b bs ih => grind
  | case2 => exact obeys_pure _

@[grind ←] theorem containsElement_obeys (needle : Value) (items : List Value) :
    J.Obeys (containsElement h needle items) := by
  induction items with
  | nil => exact obeys_pure _
  | cons v rest ih =>
    unfold containsElement
    grind

omit hooks in
@[grind ←] theorem expectText_obeys (v : Value) : J.Obeys (expectText v) := by
  unfold expectText
  grind

@[grind ←] theorem repr_obeys (v : Value) : J.Obeys (repr h v) := by
  unfold repr
  split
  case h_8 =>
    refine obeys_bind_holds (resolve_holds hooks.slots .repr _) fun thunk fits => ?_
    split
    · unfold defaultRepr identityHash
      grind
    · exact obeys_bind (callThunk_obeys hooks .repr (fun _ => rfl) fits)
        fun answer => expectText_obeys answer
  case h_9 => grind [Operation.isQuestion]
  all_goals exact obeys_pure _

@[grind ←] theorem reprAll_obeys (items : List Value) : J.Obeys (reprAll h items) := by
  induction items with
  | nil => exact obeys_pure _
  | cons v rest ih =>
    unfold reprAll
    grind

@[grind ←] theorem openIterator_obeys (v : Value) : J.Obeys (openIterator h v) := by
  have text : ∀ text : String, J.Obeys (textElements text) :=
    fun text => obeys_mapM (fun c => obeys_newText _) _
  unfold openIterator
  grind

omit hooks in
theorem dictPart_obeys (part : DictPart) (e : Entry Value Value) : J.Obeys (dictPart part e) := by
  unfold dictPart
  grind

/-- An iterator that fails does so with an error that is allowed. -/
theorem step_holds (it : Iterator) :
    J.Holds (fun answer => ∀ e, answer.1 = .error e → J.Allowed e) (step h it) := by
  cases it with
  | elements rest => cases rest <;> exact holds_pure allowed_ok
  | list r cursor =>
    refine holds_read fun w => ?_
    dsimp only
    split <;> exact allowed_ok
  | listBackwards r cursor =>
    refine holds_read fun w => ?_
    dsimp only
    split <;> exact allowed_ok
  | byteArray r cursor =>
    refine holds_read fun w => ?_
    dsimp only
    split <;> exact allowed_ok
  | dict r part position size layout finished =>
    cases finished with
    | true => exact holds_pure allowed_ok
    | false =>
      refine holds_bind (P := Clean) (holds_read fun w => ?_) fun next clean => ?_
      · unfold Clean Table.step
        grind
      · split
        next e => exact holds_pure fun e' failed => J.allowed fun _ => by grind [Clean]
        next => exact holds_pure allowed_ok
        next => exact holds_bind (dictPart_obeys _ _) fun _ _ => holds_pure allowed_ok
  | enumerated rest =>
    cases rest with
    | nil => exact holds_pure allowed_ok
    | cons v rest =>
      simp only [step]
      split
      next =>
        refine holds_bind (holds_attempt (hooks.invoke _ _)) fun result allowed => ?_
        refine holds_pure fun e failed => ?_
        cases result with
        | ok answer => cases failed
        | error e' =>
          obtain rfl := Except.error.inj failed
          exact allowed _ rfl
      next => exact holds_pure allowed_ok

theorem search_obeys {α β : Type} {f : α → Value → Run (α ⊕ β)} (body : ∀ a v, J.Obeys (f a v))
    (fuel : Nat) (acc : α) (it : Iterator) : J.Obeys (search h f fuel acc it) := by
  induction fuel generalizing acc it with
  | zero => exact obeys_outOfFuel
  | succ fuel ih =>
    unfold search
    refine obeys_bind_holds (step_holds hooks it) fun answer allowed => ?_
    refine obeys_bind (obeys_ofExcept allowed) fun next => ?_
    grind

@[grind ←] theorem fold_obeys {α : Type} {f : α → Value → Run α} (body : ∀ a v, J.Obeys (f a v))
    (acc : α) (it : Iterator) : J.Obeys (fold h f acc it) := by
  unfold fold
  refine obeys_bind (search_obeys hooks (fun a v => ?_) _ _ _) fun answer => ?_
  · exact obeys_bind (body a v) fun _ => obeys_pure _
  · cases answer with
    | inl acc => exact obeys_pure _
    | inr answer => cases answer

@[grind ←] theorem drain_obeys (it : Iterator) : J.Obeys (drain h it) := by
  unfold drain
  grind

@[grind ←] theorem collect_obeys (v : Value) : J.Obeys (collect h v) := by
  unfold collect
  grind

end Protocol

end DynamicObjects
