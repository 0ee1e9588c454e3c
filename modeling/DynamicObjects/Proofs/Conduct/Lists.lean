import DynamicObjects.Proofs.Conduct.Protocol
import DynamicObjects.Proofs.Conduct.Failures
import DynamicObjects.Proofs.MergeSort

/-!
The slots of lists. Those that only read obey every conduct; the others read first and then write, in
one step that cannot fail.
-/
namespace DynamicObjects

open Conduct

variable {J : Conduct} {h : Hooks}

namespace ListRef

@[grind ←] theorem object_obeys (r : ListRef) : J.Obeys r.object := obeys_readStore _

@[grind ←] theorem buffer_obeys (r : ListRef) : J.Obeys r.buffer := obeys_readStore _

@[grind ←] theorem size_obeys (r : ListRef) : J.Obeys r.size := obeys_readStore _

@[grind ←] theorem items_obeys (r : ListRef) : J.Obeys r.items := obeys_readStore _

@[grind ←] theorem version_obeys (r : ListRef) : J.Obeys r.version := obeys_readStore _

@[grind ←] theorem item?_obeys (r : ListRef) (index : Int) : J.Obeys (r.item? index) := by
  unfold item?
  grind

@[grind ←] theorem get_obeys (r : ListRef) (index : Int) : J.Obeys (r.get index) := by
  unfold get
  grind

@[grind ←] theorem getSlice_obeys (r : ListRef) (s : Slice) : J.Obeys (r.getSlice s) := by
  unfold getSlice
  grind

@[grind ←] theorem copy_obeys (r : ListRef) : J.Obeys r.copy := by
  unfold copy
  grind

@[grind ←] theorem repeated_obeys (r : ListRef) (count : Int) : J.Obeys (r.repeated count) := by
  unfold repeated
  grind

@[grind ←] theorem concat_obeys (r other : ListRef) : J.Obeys (r.concat other) := by
  unfold concat
  grind

section Asking

variable (hooks : h.Conducts J)

include hooks

@[grind ←] theorem ofIterable_obeys (iterable : Value) : J.Obeys (ofIterable h iterable) := by
  unfold ofIterable
  grind

theorem findFrom_obeys (r : ListRef) (v : Value) (count i : Nat) :
    J.Obeys (findFrom h r v count i) := by
  induction count generalizing i with
  | zero => exact obeys_pure _
  | succ count ih =>
    unfold findFrom
    grind

@[grind ←] theorem find_obeys (r : ListRef) (v : Value) (start : Nat) (stop : Option Nat) :
    J.Obeys (find h r v start stop) := by
  unfold find
  grind [findFrom_obeys]

@[grind ←] theorem indexOf_obeys (r : ListRef) (v : Value) (start stop : Option Int) :
    J.Obeys (indexOf h r v start stop) := by
  unfold indexOf
  grind

@[grind ←] theorem contains_obeys (r : ListRef) (v : Value) : J.Obeys (contains h r v) := by
  unfold contains
  grind

@[grind ←] theorem count_obeys (r : ListRef) (v : Value) : J.Obeys (count h r v) := by
  unfold count
  grind

@[grind ←] theorem equals_obeys (r other : ListRef) : J.Obeys (equals h r other) := by
  unfold equals
  grind

@[grind ←] theorem compare_obeys (op : CompareOp) (r other : ListRef) :
    J.Obeys (compare h op r other) := by
  unfold compare
  grind

@[grind ←] theorem repr_obeys (r : ListRef) : J.Obeys (repr h r) := by
  unfold repr
  grind

end Asking

@[grind ←] theorem write_commits (r : ListRef) (buffer : Buffer Value) :
    J.Commits (r.write buffer) :=
  commits_modifyStore fun s => s.grows_modifyList r _

@[grind ←] theorem update_commits (r : ListRef) (f : Buffer Value → Buffer Value) :
    J.Commits (r.update f) :=
  commits_modifyStore fun s => s.grows_modifyList r _

@[grind ←] theorem set_commits (r : ListRef) (index : Int) (v : Value) :
    J.Commits (r.set index v) := by
  unfold set
  grind

@[grind ←] theorem delete_commits (r : ListRef) (index : Int) : J.Commits (r.delete index) := by
  unfold delete
  grind

@[grind ←] theorem deleteSlice_commits (r : ListRef) (s : Slice) : J.Commits (r.deleteSlice s) := by
  unfold deleteSlice
  grind

@[grind ←] theorem append_commits (r : ListRef) (v : Value) : J.Commits (r.append v) :=
  update_commits r _

@[grind ←] theorem insert_commits (r : ListRef) (index : Int) (v : Value) :
    J.Commits (r.insert index v) := by
  unfold insert
  grind

@[grind ←] theorem pop_commits (r : ListRef) (index : Option Int) : J.Commits (r.pop index) := by
  unfold pop
  grind

@[grind ←] theorem clear_commits (r : ListRef) : J.Commits r.clear := update_commits r _

@[grind ←] theorem reverse_commits (r : ListRef) : J.Commits r.reverse := update_commits r _

@[grind ←] theorem tryUpdate_commits {f : Buffer Value → Except Error (Buffer Value)}
    (clean : ∀ b, Clean (f b)) (r : ListRef) : J.Commits (r.tryUpdate f) := by
  unfold tryUpdate
  refine commits_bind r.buffer_obeys fun b => ?_
  split
  next => exact write_commits r _
  next e failed =>
    have counted : J.Obeys (r.update id) :=
      obeys_modifyStore fun s => s.retains_modifyList fun o => ⟨_, rfl⟩
    exact (obeys_bind counted fun _ => obeys_raise fun _ => clean b e failed).commits

@[grind ←] theorem repeatInPlace_commits (r : ListRef) (count : Int) :
    J.Commits (r.repeatInPlace count) :=
  tryUpdate_commits (fun b => b.repeatInPlace_clean count) r

section Asking

variable (hooks : h.Conducts J)

include hooks

@[grind ←] theorem setSlice_commits (r : ListRef) (s : Slice) (iterable : Value) :
    J.Commits (setSlice h r s iterable) := by
  unfold setSlice
  grind

@[grind ←] theorem extend_commits (r : ListRef) (iterable : Value) :
    J.Commits (extend h r iterable) := by
  unfold extend
  grind

theorem removeLoop_commits (r : ListRef) (v : Value) (fuel : Nat) :
    J.Commits (removeLoop h r v fuel) := by
  induction fuel with
  | zero => exact obeys_outOfFuel.commits
  | succ fuel ih =>
    unfold removeLoop
    grind

theorem keysOf_obeys (r : ListRef) (f : Value) (version : Nat) (items : List Value) :
    J.Obeys (keysOf h r f version items) := by
  induction items with
  | nil => exact obeys_pure _
  | cons item rest ih =>
    unfold keysOf
    grind

theorem computeKeys_obeys (r : ListRef) (f : Value) : J.Obeys (computeKeys h r f) := by
  unfold computeKeys
  grind [keysOf_obeys]

theorem sortKeys_obeys (r : ListRef) (version : Nat) (keys : Array Value) (backwards : Bool) :
    J.Obeys (MergeSort.sortKeys keys backwards (guardedLess h r version)) := by
  refine Holds.obeys (MergeSort.sortKeys_perm J.judgement backwards fun a _ b _ => ?_)
  show J.Obeys (guardedLess h r version a b)
  unfold guardedLess
  grind

@[grind ←] theorem remove_commits (r : ListRef) (v : Value) : J.Commits (remove h r v) :=
  removeLoop_commits hooks r v h.fuel

theorem sort_obeys_of_update {r : ListRef} (update : ∀ f, J.Obeys (r.update f))
    (keyFunction : Option Value) (backwards : Bool) : J.Obeys (sort h r keyFunction backwards) := by
  have write : ∀ buffer, J.Obeys (r.write buffer) := fun buffer => update fun _ => buffer
  have detach : J.Obeys r.detach :=
    obeys_bind r.buffer_obeys fun _ => obeys_bind (update _) fun _ => obeys_pure _
  have sorted : ∀ detached keys, J.Obeys (sortDetached h r detached keys backwards) := by
    intro detached keys
    refine obeys_bind r.version_obeys fun version => ?_
    refine obeys_bind_holds (holds_attempt (sortKeys_obeys hooks r version keys backwards))
      fun sorted allowed => ?_
    refine obeys_bind r.version_obeys fun now => ?_
    cases sorted with
    | ok order => grind
    | error e =>
      exact obeys_bind (write detached) fun _ w kept => ⟨kept, J.refl w, allowed e rfl⟩
  unfold sort
  cases keyFunction with
  | none => exact obeys_bind detach fun _ => sorted _ _
  | some f =>
    refine obeys_bind (computeKeys_obeys hooks r f) fun found => ?_
    refine obeys_bind r.version_obeys fun now => ?_
    split
    · exact obeys_raise fun _ => rfl
    · exact obeys_bind detach fun _ => sorted _ _

theorem sort_obeys (writes : J.Writes) (r : ListRef) (keyFunction : Option Value) (backwards : Bool) :
    J.Obeys (sort h r keyFunction backwards) :=
  sort_obeys_of_update hooks (fun f => (update_commits r f).obeys writes) keyFunction backwards

end Asking

section Slots

variable {args : List Value} (own : J.Strict → (Protocol.receiver args).typeKey = .builtin .list)
  (hooks : h.Conducts J)

include own

theorem slot_obeys {body : ListRef → List Value → Run Value}
    (obeys : ∀ r rest, J.Obeys (body r rest)) : J.Obeys (slot body args) :=
  obeys_bind (obeys_liftM fun strict => receive_clean (own strict)) fun p => obeys p.1 p.2

theorem slot_commits {body : ListRef → List Value → Run Value}
    (commits : ∀ r rest, J.Commits (body r rest)) : J.Commits (slot body args) :=
  commits_bind (obeys_liftM fun strict => receive_clean (own strict)) fun p => commits p.1 p.2

include hooks

theorem setItemSlot_commits : J.Commits (setItemSlot h args) := by
  refine slot_commits own fun r rest => commits_bind (by grind) fun p => ?_
  dsimp only
  split
  next => exact commits_value (setSlice_commits hooks r _ _)
  next =>
    split
    next => exact commits_value (set_commits r _ _)
    next => exact (obeys_raise_bind fun _ => rfl).commits

omit hooks in
theorem delItemSlot_commits : J.Commits (delItemSlot h args) := by
  refine slot_commits own fun r rest => commits_bind (by grind) fun key => ?_
  dsimp only
  split
  next => exact commits_value (deleteSlice_commits r _)
  next =>
    split
    next => exact commits_value (delete_commits r _)
    next => exact (obeys_raise_bind fun _ => rfl).commits

theorem sortMethod_obeys (writes : J.Writes) : J.Obeys (sortMethod h args) := by
  refine slot_obeys own fun r rest => ?_
  refine obeys_bind (by grind) fun p => ?_
  dsimp only
  split
  · exact obeys_bind (Protocol.truthy_obeys hooks _) fun _ =>
      obeys_bind (sort_obeys hooks writes r _ _) fun _ => obeys_pure _
  · exact obeys_bind (obeys_pure _) fun _ =>
      obeys_bind (sort_obeys hooks writes r _ _) fun _ => obeys_pure _

theorem method?_commits {name : String} {body : Slot} (found : method? name = some body)
    (other : name ≠ "sort") : J.Commits (body h args) := by
  unfold method? at found
  split at found
  case h_11 => exact absurd rfl other
  case h_13 =>
    cases found
    exact setItemSlot_commits own hooks
  case h_14 =>
    cases found
    exact delItemSlot_commits own
  case h_18 => cases found
  all_goals
    cases found
    refine slot_commits own fun r rest => ?_
    grind

theorem operation?_commits {op : Operation} {body : Slot} (found : operation? op = some body)
    (other : op ≠ .invokeMember "sort") : J.Commits (body h args) := by
  cases op with
  | setItem =>
    cases found
    exact setItemSlot_commits own hooks
  | delItem =>
    cases found
    exact delItemSlot_commits own
  | hash =>
    cases found
    exact unhashableSlot_obeys.commits
  | invokeMember name => exact method?_commits own hooks found fun same => other (same ▸ rfl)
  | getItem | len | contains | repr | compare =>
    cases found
    refine slot_commits own fun r rest => ?_
    grind
  | binary op | reflectedBinary op | inPlace op =>
    cases op <;> cases found
    all_goals
      refine slot_commits own fun r rest => ?_
      grind
  | _ => cases found

theorem operation?_obeys {op : Operation} {body : Slot} (found : operation? op = some body)
    (writes : op.isQuestion = false → J.Writes) : J.Obeys (body h args) := by
  cases question : op.isQuestion with
  | false =>
    by_cases sorts : op = .invokeMember "sort"
    · subst sorts
      cases found
      exact sortMethod_obeys own hooks (writes question)
    · exact (operation?_commits own hooks found sorts).obeys (writes question)
  | true =>
    cases op with
    | len | repr | compare =>
      cases found
      refine slot_obeys own fun r rest => ?_
      grind
    | hash =>
      cases found
      exact unhashableSlot_obeys
    | truth => cases found
    | _ => cases question

omit hooks in
theorem operator_obeys {op : Operation} {body : Slot} (found : operation? op = some body)
    (operator : op.isOperator = true) : J.Obeys (body h args) := by
  cases op with
  | binary op | reflectedBinary op =>
    cases op <;> cases found
    all_goals
      refine slot_obeys own fun r rest => ?_
      grind
  | _ => cases operator

end Slots

end ListRef
end DynamicObjects
