import DynamicObjects.Proofs.Conduct.Lists
import DynamicObjects.Proofs.Conduct.ByteSequences
import DynamicObjects.Proofs.Conduct.Sets

/-!
The slots of the other kinds, which only read, and with them the slots of all kinds: a slot that is
entered with a receiver of its kind obeys, and it writes only if it is no question.
-/
namespace DynamicObjects

open Conduct

variable {J : Conduct} {h : Hooks} {args : List Value} {op : Operation} {body : Slot}

namespace Tuple

section Asking

variable (hooks : h.Conducts J)

include hooks

@[grind ←] theorem countEqual_obeys (needle : Value) (items : List Value) :
    J.Obeys (countEqual h needle items) := by
  induction items with
  | nil => exact obeys_pure _
  | cons v rest ih =>
    unfold countEqual
    grind

@[grind ←] theorem indexFrom_obeys (needle : Value) (position : Nat) (items : List Value) :
    J.Obeys (indexFrom h needle position items) := by
  induction items generalizing position with
  | nil => exact obeys_pure _
  | cons v rest ih =>
    unfold indexFrom
    grind

@[grind ←] theorem compare_obeys (op : CompareOp) (items other : List Value) :
    J.Obeys (compare h op items other) :=
  obeys_nested (Protocol.compareElements_obeys hooks op items other)

end Asking

section Slots

variable (own : J.Strict → (Protocol.receiver args).typeKey = .builtin .tuple)
  (hooks : h.Conducts J)

include own

theorem slot_obeys {body : List Value → List Value → Run Value}
    (obeys : ∀ items rest, J.Obeys (body items rest)) : J.Obeys (slot body args) :=
  obeys_bind (obeys_liftM fun strict => receive_clean (own strict)) fun p => obeys p.1 p.2

include hooks

theorem operation?_obeys (found : operation? op = some body) : J.Obeys (body h args) := by
  have method : ∀ {name}, method? name = some body → J.Obeys (body h args) := by
    intro name found
    unfold method? at found
    split at found <;> cases found
    all_goals
      refine slot_obeys own fun items rest => ?_
      grind
  cases op with
  | invokeMember name => exact method found
  | getItem | len | contains | repr | compare =>
    cases found
    refine slot_obeys own fun items rest => ?_
    grind
  | binary op | reflectedBinary op =>
    cases op <;> cases found
    all_goals
      refine slot_obeys own fun items rest => ?_
      grind
  | _ => cases found

end Slots

end Tuple

namespace Text

variable (own : J.Strict → (Protocol.receiver args).typeKey = .builtin .str)

include own

theorem slot_obeys {body : String → List Value → Run Value}
    (obeys : ∀ text rest, J.Obeys (body text rest)) : J.Obeys (slot body args) :=
  obeys_bind (obeys_liftM fun strict => receive_clean (own strict)) fun p => obeys p.1 p.2

theorem operation?_obeys (found : operation? op = some body) : J.Obeys (body h args) := by
  have method : ∀ {name}, method? name = some body → J.Obeys (body h args) := by
    intro name found
    unfold method? at found
    split at found <;> cases found
    all_goals
      refine slot_obeys own fun text rest => ?_
      grind
  cases op with
  | invokeMember name => exact method found
  | getItem | len | contains =>
    cases found
    refine slot_obeys own fun text rest => ?_
    grind
  | binary op | reflectedBinary op =>
    cases op <;> cases found
    all_goals
      refine slot_obeys own fun text rest => ?_
      grind
  | _ => cases found

end Text

namespace Number

theorem operands_clean (given : args ≠ []) (op : BinaryOp) : Clean (operands op args) := by
  cases args with
  | nil => exact absurd rfl given
  | cons v rest => exact clean_bind (Arguments.one_clean _ rest) fun _ => clean_ok _

variable (given : J.Strict → args ≠ [])

include given

theorem operation?_obeys (found : operation? op = some body) : J.Obeys (body h args) := by
  have forward : ∀ op, J.Obeys (forwardSlot op h args) := by
    intro op
    refine obeys_bind (obeys_liftM fun strict => operands_clean (given strict) op) fun p => ?_
    grind
  have reflected : ∀ op, J.Obeys (reflectedSlot op h args) := by
    intro op
    refine obeys_bind (obeys_liftM fun strict => operands_clean (given strict) op) fun p => ?_
    grind
  cases op with
  | binary op =>
    cases op <;> cases found
    all_goals exact forward _
  | reflectedBinary op =>
    simp only [operation?] at found
    split at found <;> cases found
    exact reflected op
  | unary op =>
    cases op <;> cases found
    all_goals grind [negSlot, posSlot, invertSlot]
  | _ => cases found

end Number

namespace Kind

def isDescribed : Kind → Bool
  | slice | builtinFunction => true
  | _ => false

theorem describeSlot_obeys {kind : Kind} (described : isDescribed kind = true)
    (own : J.Strict → (Protocol.receiver args).typeKey = .builtin kind) :
    J.Obeys (describeSlot h args) := by
  unfold describeSlot
  split
  next => exact obeys_newText _
  next => exact obeys_newText _
  next v rest slice function =>
    refine obeys_raise fun strict => ?_
    obtain ⟨v', rest', same, inside⟩ :=
      Protocol.receiver_eq (own strict) (by rintro rfl; cases described)
    obtain ⟨rfl, rfl⟩ := List.cons.inj same
    subst inside
    cases v with
    | slice s => exact absurd rfl (slice s)
    | native id name body => exact absurd rfl (function id name body)
    | _ => cases described
  next =>
    refine obeys_raise fun strict => ?_
    obtain ⟨v', rest', same, -⟩ :=
      Protocol.receiver_eq (own strict) (by rintro rfl; cases described)
    cases same

def isMutable : Kind → Bool
  | list | byteArray | dict => true
  | _ => false

section Own

variable {kind : Kind} (hooks : h.Conducts J) (found : kind.slot? op = some body)
  (own : J.Strict → (Protocol.receiver args).typeKey = .builtin kind)

include hooks found own

theorem slot?_obeys_of_immutable (immutable : isMutable kind = false) : J.Obeys (body h args) := by
  cases kind with
  | list | byteArray | dict => cases immutable
  | bytes => exact ByteSequence.stringOperation?_obeys own hooks found
  | dictKeys | dictItems => exact DictView.setOperation?_obeys own hooks rfl rfl found
  | dictValues => exact DictView.valuesOperation?_obeys own hooks rfl found
  | frozenSet => exact SetTable.operation?_obeys own hooks found
  | bool | int | float =>
    refine Number.operation?_obeys (fun strict => ?_) found
    obtain ⟨v, rest, rfl, -⟩ := Protocol.receiver_eq (own strict) nofun
    exact List.cons_ne_nil v rest
  | tuple => exact Tuple.operation?_obeys own hooks found
  | str => exact Text.operation?_obeys own found
  | slice =>
    cases op with
    | repr =>
      cases found
      exact describeSlot_obeys rfl own
    | hash =>
      cases found
      exact unhashableSlot_obeys
    | _ => cases found
  | builtinFunction =>
    cases op with
    | repr =>
      cases found
      exact describeSlot_obeys rfl own
    | call =>
      cases found
      refine obeys_bind (obeys_liftM fun strict => ?_) fun p => ?_
      · obtain ⟨v, rest, rfl, -⟩ := Protocol.receiver_eq (own strict) nofun
        exact clean_ok _
      · grind
    | _ => cases found
  | noneType | notImplementedType | object => cases found

theorem slot?_obeys (writes : op.isQuestion = false → J.Writes) : J.Obeys (body h args) := by
  cases mutability : isMutable kind with
  | false => exact slot?_obeys_of_immutable hooks found own mutability
  | true =>
    cases kind with
    | list => exact ListRef.operation?_obeys own hooks found writes
    | byteArray => exact ByteArrayRef.operation?_obeys own hooks found writes
    | dict => exact DictRef.operation?_obeys own hooks found writes
    | _ => cases mutability

theorem operator_obeys (operator : op.isOperator = true)
    (other : ¬ (kind = .dict ∧ op = .binary .or)) : J.Obeys (body h args) := by
  cases mutability : isMutable kind with
  | false => exact slot?_obeys_of_immutable hooks found own mutability
  | true =>
    cases kind with
    | list => exact ListRef.operator_obeys own found operator
    | byteArray => exact ByteArrayRef.operator_obeys own hooks found operator
    | dict =>
      cases op with
      | binary op =>
        cases op with
        | or => exact absurd ⟨rfl, rfl⟩ other
        | _ => cases found
      | reflectedBinary op => cases found
      | _ => cases operator
    | _ => cases mutability

end Own

end Kind

end DynamicObjects
