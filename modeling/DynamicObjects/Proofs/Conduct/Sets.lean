import DynamicObjects.Proofs.Conduct.Dicts

/-!
The slots of frozen sets and of the views of dictionaries. They only read.
-/
namespace DynamicObjects

open Conduct

variable {J : Conduct} {h : Hooks}

namespace SetTable

section Asking

variable (hooks : h.Conducts J)

include hooks

theorem matchesAny_obeys (v : Value) (candidates : List (Nat × Value)) :
    J.Obeys (matchesAny h v candidates) := by
  induction candidates with
  | nil => exact obeys_pure _
  | cons candidate rest ih =>
    unfold matchesAny
    grind

@[grind ←] theorem containsHashed_obeys (t : SetTable) (hash : HashCode) (v : Value) :
    J.Obeys (containsHashed h t hash v) :=
  matchesAny_obeys hooks v _

@[grind ←] theorem contains_obeys (t : SetTable) (v : Value) : J.Obeys (contains h t v) := by
  unfold contains
  grind

@[grind ←] theorem insertHashed_obeys (t : SetTable) (hash : HashCode) (v : Value) :
    J.Obeys (insertHashed h t hash v) := by
  unfold insertHashed
  grind

@[grind ←] theorem insert_obeys (t : SetTable) (v : Value) : J.Obeys (insert h t v) := by
  unfold insert
  grind

theorem insertAll_obeys (t : SetTable) (values : List Value) : J.Obeys (insertAll h t values) := by
  induction values generalizing t with
  | nil => exact obeys_pure _
  | cons v rest ih =>
    unfold insertAll
    grind

@[grind ←] theorem ofValues_obeys (values : List Value) : J.Obeys (ofValues h values) :=
  insertAll_obeys hooks _ values

@[grind ←] theorem ofIterable_obeys (iterable : Value) : J.Obeys (ofIterable h iterable) := by
  unfold ofIterable
  grind

theorem addFiltered_obeys (other : SetTable) (keep : Bool) (t : SetTable)
    (entries : List (Entry Value Unit)) : J.Obeys (addFiltered h other keep t entries) := by
  induction entries generalizing t with
  | nil => exact obeys_pure _
  | cons e rest ih =>
    unfold addFiltered
    grind

@[grind ←] theorem filtered_obeys (t other : SetTable) (keep : Bool) :
    J.Obeys (filtered h t other keep) :=
  addFiltered_obeys hooks other keep _ _

theorem addEntries_obeys (t : SetTable) (entries : List (Entry Value Unit)) :
    J.Obeys (addEntries h t entries) := by
  induction entries generalizing t with
  | nil => exact obeys_pure _
  | cons e rest ih =>
    unfold addEntries
    grind

@[grind ←] theorem algebra_obeys (op : BinaryOp) (t other : SetTable) :
    J.Obeys (algebra h op t other) := by
  unfold algebra union intersection symmetricDifference difference
  grind [addEntries_obeys, addFiltered_obeys]

theorem containsAll_obeys (t : SetTable) (entries : List (Entry Value Unit)) :
    J.Obeys (containsAll h t entries) := by
  induction entries with
  | nil => exact obeys_pure _
  | cons e rest ih =>
    unfold containsAll
    grind

theorem containsNone_obeys (t : SetTable) (entries : List (Entry Value Unit)) :
    J.Obeys (containsNone h t entries) := by
  induction entries with
  | nil => exact obeys_pure _
  | cons e rest ih =>
    unfold containsNone
    grind

@[grind ←] theorem isSubset_obeys (t other : SetTable) : J.Obeys (isSubset h t other) := by
  unfold isSubset
  grind [containsAll_obeys]

@[grind ←] theorem isDisjoint_obeys (t other : SetTable) : J.Obeys (isDisjoint h t other) := by
  unfold isDisjoint
  grind [containsNone_obeys]

@[grind ←] theorem compare_obeys (op : CompareOp) (t other : SetTable) :
    J.Obeys (compare h op t other) := by
  unfold compare
  grind

@[grind ←] theorem repr_obeys (id : Identity) (t : SetTable) : J.Obeys (repr h id t) := by
  unfold repr
  grind

@[grind ←] theorem snapshot?_obeys (v : Value) : J.Obeys (snapshot? h v) := by
  unfold snapshot?
  grind

end Asking

@[grind ←] theorem newOrDecline_obeys (t : Option SetTable) : J.Obeys (newOrDecline t) := by
  unfold newOrDecline
  grind

section Slots

variable {args : List Value} (own : J.Strict → (Protocol.receiver args).typeKey = .builtin .frozenSet)

include own

theorem slot_obeys {body : Identity → SetTable → List Value → Run Value}
    (obeys : ∀ id t rest, J.Obeys (body id t rest)) : J.Obeys (slot body args) :=
  obeys_bind (obeys_liftM fun strict => receive_clean (own strict)) fun p =>
    obeys p.1.1 p.1.2 p.2

variable (hooks : h.Conducts J)

include hooks

theorem testMethod_obeys (name : String) {test : Hooks → SetTable → SetTable → Run Bool}
    (obeys : ∀ t other, J.Obeys (test h t other)) : J.Obeys (testMethod name test h args) := by
  refine slot_obeys own fun id t rest => ?_
  grind

theorem method?_obeys {name : String} {body : Slot} (found : method? name = some body) :
    J.Obeys (body h args) := by
  unfold method? at found
  split at found <;> cases found
  case h_5 => exact testMethod_obeys own hooks _ (isSubset_obeys hooks)
  case h_6 => exact testMethod_obeys own hooks _ fun t other => isSubset_obeys hooks other t
  case h_7 => exact testMethod_obeys own hooks _ (isDisjoint_obeys hooks)
  all_goals
    refine slot_obeys own fun id t rest => ?_
    grind

theorem operation?_obeys {op : Operation} {body : Slot} (found : operation? op = some body) :
    J.Obeys (body h args) := by
  cases op with
  | invokeMember name => exact method?_obeys own hooks found
  | len | contains | hash | repr | compare =>
    cases found
    refine slot_obeys own fun id t rest => ?_
    grind
  | binary op =>
    simp only [operation?] at found
    split at found <;> cases found
    refine slot_obeys own fun id t rest => ?_
    grind
  | _ => cases found

end Slots

end SetTable

namespace DictView

theorem elements_obeys (v : Value) : J.Obeys (elements v) := by
  unfold elements
  grind

def isView : Kind → Bool
  | .dictKeys | .dictValues | .dictItems => true
  | _ => false

def isSetView : Kind → Bool
  | .dictKeys | .dictItems => true
  | _ => false

theorem eq_of_isView {v : Value} (view : isView v.kind = true) :
    ∃ r, v = .dictKeys r ∨ v = .dictValues r ∨ v = .dictItems r := by
  cases v <;> cases view <;> simp

theorem eq_of_isSetView {v : Value} (view : isSetView v.kind = true) :
    ∃ r, v = .dictKeys r ∨ v = .dictItems r := by
  cases v <;> cases view <;> simp

theorem dict_clean {v : Value} (view : isView v.kind = true) : Clean (dict v) := by
  cases v <;> first | exact clean_ok _ | cases view

section Slots

variable {args : List Value} {kind : Kind}
  (own : J.Strict → (Protocol.receiver args).typeKey = .builtin kind)

include own

theorem split_holds (view : isView kind = true) :
    J.Holds (fun p => J.Strict → p.1.kind = kind) (liftM (Arguments.split args) : Run _) := by
  by_cases strict : J.Strict
  · obtain ⟨v, rest, rfl, same⟩ := Protocol.receiver_eq (own strict) (by rintro rfl; cases view)
    exact holds_pure fun _ => same
  · cases args with
    | nil => exact fun w kept => ⟨kept, J.refl w, J.allowed fun strict' => absurd strict' strict⟩
    | cons v rest => exact holds_pure fun strict' => absurd strict' strict

theorem lenSlot_obeys (view : isView kind = true) : J.Obeys (lenSlot h args) := by
  refine obeys_bind_holds (split_holds own view) fun p same => ?_
  refine obeys_bind (by grind) fun _ => ?_
  refine obeys_bind (obeys_liftM fun strict => dict_clean (same strict ▸ view)) fun r => ?_
  grind

variable (hooks : h.Conducts J)

include hooks

theorem containsSlot_obeys (view : isView kind = true) : J.Obeys (containsSlot h args) := by
  refine obeys_bind_holds (split_holds own view) fun p same => ?_
  refine obeys_bind (by grind) fun item => ?_
  have item? : ∀ r, J.Obeys (containsItem h r item) := by
    intro r
    unfold containsItem
    split
    · refine obeys_bind (DictRef.get?_obeys hooks r _) fun found => ?_
      grind
    · exact obeys_pure _
  split
  next => grind
  next => grind
  next => grind
  next =>
    refine obeys_raise fun strict => ?_
    have inside := eq_of_isView (same strict ▸ view)
    grind

theorem reprSlot_obeys (view : isView kind = true) : J.Obeys (reprSlot h args) := by
  refine obeys_bind_holds (split_holds own view) fun p same => ?_
  refine obeys_bind (obeys_liftM fun strict => dict_clean (same strict ▸ view)) fun r => ?_
  refine obeys_bind (elements_obeys _) fun items => ?_
  grind

omit own in
theorem receiveSet_obeys {v : Value} (view : J.Strict → isSetView v.kind = true) :
    J.Obeys (receiveSet h v) := by
  unfold receiveSet
  split
  next => exact obeys_bind (elements_obeys _) fun items => SetTable.ofValues_obeys hooks items
  next => exact obeys_bind (elements_obeys _) fun items => SetTable.ofValues_obeys hooks items
  next =>
    refine obeys_raise fun strict => ?_
    have inside := eq_of_isSetView (view strict)
    grind

omit own in
theorem operandSet?_obeys (operand : Value) : J.Obeys (operandSet? h operand) := by
  unfold operandSet?
  refine obeys_bind (SetTable.snapshot?_obeys hooks operand) fun found => ?_
  cases found with
  | some t => exact obeys_pure _
  | none =>
    refine obeys_bind_holds (holds_attempt (Protocol.openIterator_obeys hooks operand))
      fun result _ => ?_
    cases result with
    | ok it => grind
    | error e => exact obeys_pure _

theorem compareSlot_obeys (view : isView kind = true) (setView : isSetView kind = true)
    (op : CompareOp) : J.Obeys (compareSlot op h args) := by
  refine obeys_bind_holds (split_holds own view) fun p same => ?_
  have mine : J.Obeys (receiveSet h p.1) := receiveSet_obeys hooks fun strict => same strict ▸ setView
  grind

theorem operatorSlot_obeys (view : isView kind = true) (setView : isSetView kind = true)
    (op : BinaryOp) (backwards : Bool) : J.Obeys (operatorSlot op backwards h args) := by
  refine obeys_bind_holds (split_holds own view) fun p same => ?_
  have mine : J.Obeys (receiveSet h p.1) := receiveSet_obeys hooks fun strict => same strict ▸ setView
  refine obeys_bind (by grind) fun operand => ?_
  refine obeys_bind (operandSet?_obeys hooks operand) fun other => ?_
  cases other with
  | none => exact obeys_pure _
  | some other => grind

theorem isDisjointMethod_obeys (view : isView kind = true) (setView : isSetView kind = true) :
    J.Obeys (isDisjointMethod h args) := by
  refine obeys_bind_holds (split_holds own view) fun p same => ?_
  have mine : J.Obeys (receiveSet h p.1) := receiveSet_obeys hooks fun strict => same strict ▸ setView
  grind

theorem method?_obeys (view : isView kind = true) {name : String} {body : Slot}
    (found : method? name = some body) : J.Obeys (body h args) := by
  unfold method? at found
  split at found <;> cases found
  · exact lenSlot_obeys own view
  · exact containsSlot_obeys own hooks view
  · exact reprSlot_obeys own hooks view

theorem setOperation?_obeys (view : isView kind = true) (setView : isSetView kind = true)
    {op : Operation} {body : Slot} (found : setOperation? op = some body) :
    J.Obeys (body h args) := by
  cases op with
  | len =>
    cases found
    exact lenSlot_obeys own view
  | contains =>
    cases found
    exact containsSlot_obeys own hooks view
  | hash =>
    cases found
    exact unhashableSlot_obeys
  | repr =>
    cases found
    exact reprSlot_obeys own hooks view
  | compare op =>
    cases found
    exact compareSlot_obeys own hooks view setView op
  | binary op | reflectedBinary op =>
    simp only [setOperation?] at found
    split at found <;> cases found
    exact operatorSlot_obeys own hooks view setView op _
  | invokeMember name =>
    simp only [setOperation?, setMethod?] at found
    split at found
    · cases found
      exact isDisjointMethod_obeys own hooks view setView
    · exact method?_obeys own hooks view found
  | _ => cases found

theorem valuesOperation?_obeys (view : isView kind = true) {op : Operation} {body : Slot}
    (found : valuesOperation? op = some body) : J.Obeys (body h args) := by
  cases op with
  | len =>
    cases found
    exact lenSlot_obeys own view
  | contains =>
    cases found
    exact containsSlot_obeys own hooks view
  | repr =>
    cases found
    exact reprSlot_obeys own hooks view
  | invokeMember name => exact method?_obeys own hooks view found
  | _ => cases found

end Slots

end DictView

end DynamicObjects
