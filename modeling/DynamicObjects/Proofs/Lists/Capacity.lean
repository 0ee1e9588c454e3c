import DynamicObjects.Proofs.Conduct.Callbacks
import DynamicObjects.Proofs.Lists.Room
import DynamicObjects.Proofs.Lists.Sorting

/-!
The room of a list while programs use it. Every operation on lists but one changes a buffer in ways
that keep its room and its counter; a sort takes the whole buffer out, and puts it back if it fails,
but it puts a new one in place if it succeeds. The code that an operation calls may use the list again,
to any depth.
-/
namespace DynamicObjects

open Conduct

/-- What is asked of a buffer over time. Whatever keeps room and counter is good enough. -/
class Lasting (B : Buffer Value → Buffer Value → Prop) : Prop extends IsPreorder (Buffer Value) B where
  of_grown : ∀ {b b' : Buffer Value}, b.Grown b' → B b b'

instance : Lasting Buffer.Grown := ⟨id⟩

/-- There is a place for every item, if there was. -/
def Buffer.StaysRoomy (b b' : Buffer Value) : Prop := b.Roomy → b'.Roomy

instance : Lasting Buffer.StaysRoomy where
  refl _ := id
  trans _ _ _ first second h := second (first h)
  of_grown grown := grown.roomy

def Lasts (B : Buffer Value → Buffer Value → Prop) (r : ListRef) (w w' : World) : Prop :=
  ∀ o, w.list? r = some o → ∃ o', w'.list? r = some o' ∧ B o.buffer o'.buffer

section Lasting

variable (B : Buffer Value → Buffer Value → Prop) [Lasting B] {r : ListRef} {w w' : World}

theorem lasts_of_list?_eq (same : w'.list? r = w.list? r) : Lasts B r w w' :=
  fun o live => ⟨o, same.trans live, refl_of B o.buffer⟩

variable {B}

theorem Lasts.trans {w'' : World} (first : Lasts B r w w') (second : Lasts B r w' w'') :
    Lasts B r w w'' := by
  intro o live
  obtain ⟨o₁, live₁, b₁⟩ := first o live
  obtain ⟨o₂, live₂, b₂⟩ := second o₁ live₁
  exact ⟨o₂, live₂, trans_of B b₁ b₂⟩

end Lasting

def Conduct.lasting (B : Buffer Value → Buffer Value → Prop) [Lasting B] (r : ListRef) : Conduct where
  Step := Lasts B r
  Allowed _ := True
  Kept := Dispatcher.Reached
  Strict := True
  refl _ := lasts_of_list?_eq B rfl
  trans := .trans
  allowed _ := trivial
  retained := by
    intro w store retains o live
    obtain ⟨version, live'⟩ := retains.lists live
    exact ⟨_, live', refl_of B o.buffer⟩
  dispatched _ := lasts_of_list?_eq B rfl
  traced := id
  nested := id
  printed := id
  limited := id
  told reached := reached.tell _ _
  resolved reached := reached.resolve _ _
  fits _ reached := reached.fits _ _

namespace ListRef

variable {B : Buffer Value → Buffer Value → Prop} [Lasting B] {r r' : ListRef} {h : Hooks}

/-! ## Changes that keep the room -/

theorem update_lasts {f : Buffer Value → Buffer Value} (changes : r' = r → ∀ b, B b (f b)) :
    (lasting B r).Obeys (r'.update f) := by
  intro w kept
  refine ⟨kept, ?_, trivial⟩
  by_cases same : r' = r
  · subst same
    intro o live
    rw [update_apply live]
    exact ⟨_, World.list?_putList live _, changes rfl o.buffer⟩
  · exact lasts_of_list?_eq B (World.list?_modifyList_of_ne same _)

theorem update_grown {f : Buffer Value → Buffer Value} (grown : ∀ b : Buffer Value, b.Grown (f b)) :
    (lasting B r).Obeys (r'.update f) :=
  update_lasts fun _ b => Lasting.of_grown (grown b)

theorem tryUpdate_lasts (r' : ListRef) (f : Buffer Value → Except Error (Buffer Value)) {w : World}
    (reached : w.dispatcher.Reached)
    (grown : ∀ b', f (w.store.list r').buffer = .ok b' → (w.store.list r').buffer.Grown b') :
    (r'.tryUpdate f w).2.dispatcher.Reached ∧ Lasts B r w (r'.tryUpdate f w).2 ∧
      (lasting B r).Suits (fun _ => True) (r'.tryUpdate f w).1 := by
  have read : r'.buffer w = (.ok (w.store.list r').buffer, w) := rfl
  rw [tryUpdate, Run.bind_ok read]
  cases done : f (w.store.list r').buffer with
  | ok b' =>
    refine ⟨reached, ?_, trivial⟩
    by_cases same : r' = r
    · subst same
      intro o live
      rw [World.list_of_list? live] at grown done
      dsimp only
      rw [write_apply live]
      exact ⟨_, World.list?_putList live _, Lasting.of_grown (grown b' done)⟩
    · exact lasts_of_list?_eq B (World.list?_modifyList_of_ne same _)
  | error e =>
    have counted : (lasting B r).Obeys (r'.update id >>= fun _ => (Run.raise e : Run Unit)) :=
      obeys_bind (update_grown .refl) fun _ w reached => ⟨reached, lasts_of_list?_eq B rfl, trivial⟩
    exact counted w reached

@[grind ←] theorem set_lasts (index : Int) (v : Value) : (lasting B r).Obeys (r'.set index v) := by
  refine obeys_bind r'.size_obeys fun size => ?_
  split
  next i _ => exact update_grown fun b => b.grown_set i v
  next => exact obeys_raise fun _ => rfl

@[grind ←] theorem delete_lasts (index : Int) : (lasting B r).Obeys (r'.delete index) := by
  refine obeys_bind r'.size_obeys fun size => ?_
  split
  next i _ => exact update_grown fun b => b.grown_eraseAt i
  next => exact obeys_raise fun _ => rfl

@[grind ←] theorem deleteSlice_lasts (s : Slice) : (lasting B r).Obeys (r'.deleteSlice s) := by
  refine obeys_bind r'.size_obeys fun size => ?_
  refine obeys_bind (obeys_ofExcept fun _ _ => trivial) fun p => ?_
  exact update_grown fun b => b.grown_deleteSlice p

@[grind ←] theorem append_lasts (v : Value) : (lasting B r).Obeys (r'.append v) :=
  update_grown fun b => b.grown_push v

@[grind ←] theorem insert_lasts (index : Int) (v : Value) :
    (lasting B r).Obeys (r'.insert index v) :=
  obeys_bind r'.size_obeys fun _ => update_grown fun b => b.grown_insertAt _ v

@[grind ←] theorem pop_lasts (index : Option Int) : (lasting B r).Obeys (r'.pop index) := by
  refine obeys_bind r'.size_obeys fun size => ?_
  split
  · exact obeys_raise fun _ => rfl
  · refine obeys_bind (item?_obeys r' _) fun item => ?_
    split
    next v => exact obeys_bind (delete_lasts _) fun _ => obeys_pure v
    next => exact obeys_raise fun _ => rfl

@[grind ←] theorem clear_lasts : (lasting B r).Obeys r'.clear := update_grown Buffer.grown_clear

@[grind ←] theorem reverse_lasts : (lasting B r).Obeys r'.reverse := update_grown Buffer.grown_reverse

@[grind ←] theorem repeatInPlace_lasts (count : Int) :
    (lasting B r).Obeys (r'.repeatInPlace count) :=
  fun _ reached => tryUpdate_lasts r' (·.repeatInPlace count) reached fun _ =>
    Buffer.grown_repeatInPlace

section Asking

variable (hooks : h.Conducts (lasting B r))

include hooks

@[grind ←] theorem setSlice_lasts (s : Slice) (iterable : Value) :
    (lasting B r).Obeys (setSlice h r' s iterable) := by
  refine obeys_bind (Protocol.collect_obeys hooks iterable) fun values w reached => ?_
  have read : r'.size w = (.ok (w.store.list r').buffer.size, w) := rfl
  rw [Run.bind_ok read]
  cases resolved : s.indices (w.store.list r').buffer.size with
  | error e => exact ⟨reached, lasts_of_list?_eq B rfl, trivial⟩
  | ok p =>
    exact tryUpdate_lasts r' (·.assignSlice p values) reached fun _ =>
      Buffer.grown_assignSlice (Slice.unit_inside resolved)

@[grind ←] theorem extend_lasts (iterable : Value) : (lasting B r).Obeys (extend h r' iterable) :=
  obeys_bind (Protocol.collect_obeys hooks iterable) fun values =>
    update_grown fun b => b.grown_extend values

theorem removeLoop_lasts (v : Value) (fuel : Nat) :
    (lasting B r).Obeys (removeLoop h r' v fuel) := by
  induction fuel with
  | zero => exact obeys_outOfFuel
  | succ fuel ih =>
    refine obeys_bind (find_obeys hooks r' v 0 none) fun found => ?_
    split
    next => exact obeys_raise fun _ => rfl
    next i item =>
      refine obeys_bind r'.buffer_obeys fun b => ?_
      dsimp only
      split
      · exact update_grown fun b => b.grown_eraseAt i
      · exact ih

@[grind ←] theorem remove_lasts (v : Value) : (lasting B r).Obeys (remove h r' v) :=
  removeLoop_lasts hooks v h.fuel

/-! ## Sorting -/

/-- A sort of another list is nothing to this one. -/
theorem sort_other_lasts (other : r' ≠ r) (keyFunction : Option Value) (backwards : Bool) :
    (lasting B r).Obeys (sort h r' keyFunction backwards) :=
  sort_obeys_of_update hooks (fun _ => update_lasts fun same => absurd same other) keyFunction
    backwards

end Asking

end ListRef

/-- How a sort leaves the list that held `b` before it: if it fails, with a buffer that has lasted, and
if not, with a buffer that was made anew. -/
inductive SortLeaves {α : Type} (B : Buffer Value → Buffer Value → Prop) (r : ListRef)
    (b : Buffer Value) : Outcome α × World → Prop
  | failed {e : Error} {w : World} {o : ListObject} (live : w.list? r = some o)
    (lasts : B b o.buffer) : SortLeaves B r b (.error e, w)
  | sorted {a : α} {w : World} {o : ListObject} (live : w.list? r = some o) (items : Array Value)
    (anew : o.buffer = .ofArray items) : SortLeaves B r b (.ok a, w)
  | endless {w : World} : SortLeaves B r b (.outOfFuel, w)

def Resorts {α : Type} (B : Buffer Value → Buffer Value → Prop) (r : ListRef) (x : Run α) : Prop :=
  ∀ w o, w.dispatcher.Reached → w.list? r = some o → SortLeaves B r o.buffer (x w)

section Resorting

variable {α β : Type} {B : Buffer Value → Buffer Value → Prop} [Lasting B] {r : ListRef}
  {x : Run α} {f : α → Run β}

theorem SortLeaves.after {b b' : Buffer Value} {ended : Outcome α × World} (first : B b b')
    (leaves : SortLeaves B r b' ended) : SortLeaves B r b ended := by
  cases leaves with
  | failed live lasts => exact .failed live (trans_of B first lasts)
  | sorted live items anew => exact .sorted live items anew
  | endless => exact .endless

theorem resorts_bind (hx : (lasting B r).Obeys x) (hf : ∀ a, Resorts B r (f a)) :
    Resorts B r (x >>= f) := by
  intro w o reached live
  obtain ⟨reached', lasts, -⟩ := hx w reached
  obtain ⟨o₁, live₁, first⟩ := lasts o live
  refine Run.bind_cases (R := SortLeaves B r o.buffer) ?_ ?_ ?_
  · intro a w₁ ran
    rw [ran] at reached' live₁
    exact (hf a w₁ o₁ reached' live₁).after first
  · intro e w₁ ran
    rw [ran] at live₁
    exact .failed live₁ first
  · exact fun w₁ _ => .endless

omit [Lasting B] in
theorem resorts_value (hx : Resorts B r x) (v : β) : Resorts B r (x >>= fun _ => pure v) := by
  intro w o reached live
  have leaves := hx w o reached live
  rw [Run.bind_apply]
  generalize x w = ended at leaves ⊢
  cases leaves with
  | failed live lasts => exact .failed live lasts
  | sorted live items anew => exact .sorted live items anew
  | endless => exact .endless

theorem resorts_raise (e : Error) : Resorts B r (Run.raise e : Run α) :=
  fun _ o _ live => .failed live (refl_of B o.buffer)

end Resorting

namespace ListRef

section Sorting

variable {B : Buffer Value → Buffer Value → Prop} [Lasting B] {r : ListRef} {h : Hooks}
  (hooks : h.Conducts (lasting B r))

include hooks

/-- What was taken out comes back if a comparison fails or has changed the list, and only then. -/
theorem sortDetached_leaves {b detached : Buffer Value} (lasts : B b detached) (keys : Array Value)
    (backwards : Bool) {w : World} {o : ListObject} (reached : w.dispatcher.Reached)
    (live : w.list? r = some o) : SortLeaves B r b (r.sortDetached h detached keys backwards w) := by
  rw [sortDetached, Run.bind_ok (version_apply live)]
  have sorts := holds_attempt (sortKeys_obeys hooks r o.version keys backwards)
  obtain ⟨-, compared, -⟩ := sorts w reached
  obtain ⟨o₁, live₁, -⟩ := compared o live
  rcases Run.attempt_cases (MergeSort.sortKeys keys backwards (r.guardedLess h o.version)) w with
    ⟨sorted, w₁, ran⟩ | ⟨w₁, ran⟩
  · rw [ran] at live₁
    have put (buffer : Buffer Value) := World.list?_putList live₁ (o₁.holding buffer)
    have restored (e : Error) : SortLeaves B r b
        ((r.write detached >>= fun _ => (Run.raise e : Run Unit)) w₁) := by
      rw [Run.bind_ok (write_apply live₁ detached)]
      exact .failed (put detached) lasts
    rw [Run.bind_ok ran, Run.bind_ok (version_apply live₁)]
    cases sorted with
    | error e => exact restored e
    | ok order =>
      dsimp only
      split
      · exact restored _
      · rw [write_apply live₁]
        exact .sorted (put _) _ rfl
  · rw [Run.bind_outOfFuel ran]
    exact .endless

theorem detached_resorts (keys : Buffer Value → Array Value) (backwards : Bool) :
    Resorts B r (do
      let detached ← r.detach
      r.sortDetached h detached (keys detached) backwards) := by
  intro w o reached live
  rw [Run.bind_ok (detach_apply live)]
  exact sortDetached_leaves hooks (refl_of B o.buffer) _ backwards reached
    (World.list?_putList live _)

theorem sort_resorts (keyFunction : Option Value) (backwards : Bool) :
    Resorts B r (sort h r keyFunction backwards) := by
  unfold sort
  cases keyFunction with
  | none => exact detached_resorts hooks Buffer.items backwards
  | some f =>
    refine resorts_bind (computeKeys_obeys hooks r f) fun found => ?_
    refine resorts_bind r.version_obeys fun now => ?_
    split
    · exact resorts_raise _
    · exact detached_resorts hooks (fun _ => found.1.toArray) backwards

end Sorting

/-! ## Slots -/

theorem sortMethod_eq (h : Hooks) (r : ListRef) (rest : List Value) :
    sortMethod h (.list r :: rest) = (do
      let (key, backwards) ← Arguments.atMostTwo "sort" rest
      let keyFunction :=
        match key with
        | some .none => none
        | other => other
      let backwards ←
        match backwards with
        | some flag => Protocol.truthy h flag
        | none => pure false
      sort h r keyFunction backwards
      return .none : Run Value) := rfl

section Slots

variable {B : Buffer Value → Buffer Value → Prop} [Lasting B] {r : ListRef} {h : Hooks}
  (hooks : h.Conducts (lasting B r)) (r' : ListRef) (rest : List Value)

include hooks

theorem sortMethod_resorts : Resorts B r (sortMethod h (.list r :: rest)) := by
  rw [sortMethod_eq]
  refine resorts_bind (obeys_liftM fun _ => by grind) fun p => ?_
  dsimp only
  split
  · exact resorts_bind (Protocol.truthy_obeys hooks _) fun _ =>
      resorts_value (sort_resorts hooks _ _) _
  · exact resorts_bind (obeys_pure _) fun _ => resorts_value (sort_resorts hooks _ _) _

theorem sortMethod_other_lasts (other : r' ≠ r) :
    (lasting B r).Obeys (sortMethod h (.list r' :: rest)) := by
  rw [sortMethod_eq]
  refine obeys_bind (obeys_liftM fun _ => by grind) fun p => ?_
  dsimp only
  split
  · exact obeys_bind (Protocol.truthy_obeys hooks _) fun _ =>
      obeys_bind (sort_other_lasts hooks other _ _) fun _ => obeys_pure _
  · exact obeys_bind (obeys_pure _) fun _ =>
      obeys_bind (sort_other_lasts hooks other _ _) fun _ => obeys_pure _

theorem setItemSlot_lasts : (lasting B r).Obeys (setItemSlot h (.list r' :: rest)) := by
  refine slot_obeys (fun _ => rfl) fun r' rest => obeys_bind (by grind) fun p => ?_
  dsimp only
  split
  next => exact obeys_bind (setSlice_lasts hooks _ _) fun _ => obeys_pure _
  next =>
    split
    next => exact obeys_bind (set_lasts _ _) fun _ => obeys_pure _
    next => exact obeys_raise_bind fun _ => rfl

omit hooks in
theorem delItemSlot_lasts : (lasting B r).Obeys (delItemSlot h (.list r' :: rest)) := by
  refine slot_obeys (fun _ => rfl) fun r' rest => obeys_bind (by grind) fun key => ?_
  dsimp only
  split
  next => exact obeys_bind (deleteSlice_lasts _) fun _ => obeys_pure _
  next =>
    split
    next => exact obeys_bind (delete_lasts _) fun _ => obeys_pure _
    next => exact obeys_raise_bind fun _ => rfl

theorem method?_lasts {name : String} {body : Slot} (found : method? name = some body)
    (other : name ≠ "sort") : (lasting B r).Obeys (body h (.list r' :: rest)) := by
  unfold method? at found
  split at found
  case h_11 => exact absurd rfl other
  case h_13 =>
    cases found
    exact setItemSlot_lasts hooks r' rest
  case h_14 =>
    cases found
    exact delItemSlot_lasts r' rest
  case h_18 => cases found
  all_goals
    cases found
    refine slot_obeys (fun _ => rfl) fun r' rest => ?_
    grind

/-- Every operation but the sort keeps the room of every list. -/
theorem operation?_lasts {op : Operation} {body : Slot} (found : operation? op = some body)
    (other : op ≠ .invokeMember "sort") : (lasting B r).Obeys (body h (.list r' :: rest)) := by
  cases op with
  | setItem =>
    cases found
    exact setItemSlot_lasts hooks r' rest
  | delItem =>
    cases found
    exact delItemSlot_lasts r' rest
  | hash =>
    cases found
    exact unhashableSlot_obeys
  | invokeMember name => exact method?_lasts hooks r' rest found fun same => other (same ▸ rfl)
  | getItem | len | contains | repr | compare =>
    cases found
    refine slot_obeys (fun _ => rfl) fun r' rest => ?_
    grind
  | binary op | reflectedBinary op | inPlace op =>
    cases op <;> cases found
    all_goals
      refine slot_obeys (fun _ => rfl) fun r' rest => ?_
      grind
  | _ => cases found

end Slots

end ListRef

/-! ## Programs -/

/-- The run has come to an end, and it has succeeded only if that is allowed. -/
def Outcome.EndsIf {α : Type} (allowed : Prop) : Outcome α → Prop
  | .ok _ => allowed
  | .error _ => True
  | .outOfFuel => False

instance {α : Type} {allowed : Prop} [Decidable allowed] :
    (outcome : Outcome α) → Decidable (outcome.EndsIf allowed)
  | .ok _ => inferInstanceAs (Decidable allowed)
  | .error _ => isTrue trivial
  | .outOfFuel => isFalse id

/-- What code may do as far as one list is concerned: leave it alone, call any operation on it or on
another list, and one thing after the other. The code that an operation runs may do the same. Sorts of
the list may succeed only where `sorts` says so. -/
inductive Uses (sorts : Prop) (r : ListRef) : World → World → Prop
  | elsewhere {w w' : World} (same : w'.list? r = w.list? r) : Uses sorts r w w'
  | call {w : World} (reached : w.dispatcher.Reached) (code : UserCode) (n : Nat) (op : Operation)
    (r' : ListRef) (rest : List Value)
    (invoked : ∀ n f args w₁, w₁.dispatcher.Reached → Uses sorts r w₁ (code.invoke n f args w₁).2)
    (enumerated : ∀ n v w₁, w₁.dispatcher.Reached → Uses sorts r w₁ (code.enumerate n v w₁).2)
    (sorted : op = .invokeMember "sort" → r' = r →
      ((code.hooks UserCode.plain n).builtin .list op (.list r' :: rest) w).1.EndsIf sorts) :
    Uses sorts r w ((code.hooks UserCode.plain n).builtin .list op (.list r' :: rest) w).2
  | trans {w₁ w₂ w₃ : World} (first : Uses sorts r w₁ w₂) (second : Uses sorts r w₂ w₃) :
    Uses sorts r w₁ w₃

section Uses

variable {B : Buffer Value → Buffer Value → Prop} [Lasting B] {sorts : Prop} {r : ListRef}
  {w w' : World}

theorem obeys_of_lasts {α : Type} {x : Run α}
    (orderly : ∀ w : World, w.dispatcher.Reached → w.Orderly (x w).2)
    (lasts : ∀ w, w.dispatcher.Reached → Lasts B r w (x w).2) : (lasting B r).Obeys x := by
  intro w reached
  refine ⟨(orderly w reached).dispatcher, lasts w reached, ?_⟩
  cases (x w).1 <;> trivial

omit [Lasting B] in
theorem SortLeaves.lasts {α : Type} {b : Buffer Value} {ended : Outcome α × World}
    (anew : sorts → ∀ items, B b (.ofArray items)) (leaves : SortLeaves B r b ended)
    (ends : ended.1.EndsIf sorts) : ∃ o, ended.2.list? r = some o ∧ B b o.buffer := by
  cases leaves with
  | failed live lasts => exact ⟨_, live, lasts⟩
  | sorted live items made => exact ⟨_, live, made ▸ anew ends items⟩
  | endless => exact ends.elim

theorem slot_lasts (anew : sorts → ∀ b items, B b (.ofArray items)) {h : Hooks}
    (hooks : h.Conducts (lasting B r)) {op : Operation} {body : Slot}
    (found : ListRef.operation? op = some body) (r' : ListRef) (rest : List Value)
    (reached : w.dispatcher.Reached)
    (sorted : op = .invokeMember "sort" → r' = r → (body h (.list r' :: rest) w).1.EndsIf sorts) :
    Lasts B r w (body h (.list r' :: rest) w).2 := by
  by_cases sorting : op = .invokeMember "sort"
  · subst sorting
    cases found
    by_cases same : r' = r
    · subst same
      intro o live
      have leaves := ListRef.sortMethod_resorts hooks rest w o reached live
      exact leaves.lasts (fun may => anew may o.buffer) (sorted rfl rfl)
    · exact (ListRef.sortMethod_other_lasts hooks r' rest same w reached).2.1
  · exact (ListRef.operation?_lasts hooks r' rest found sorting w reached).2.1

/-- The induction follows the nesting of the calls, so that the code which an operation runs is known
to let the list last when the operation is looked at. -/
theorem Uses.lasts (anew : sorts → ∀ b items, B b (.ofArray items)) (uses : Uses sorts r w w') :
    Lasts B r w w' := by
  induction uses with
  | elsewhere same => exact lasts_of_list?_eq B same
  | call reached code n op r' rest _ _ sorted invoked enumerated =>
    have invokes (n f args) : (lasting B r).Obeys (code.invoke n f args) :=
      obeys_of_lasts (code.invoke_orderly n f args) (invoked n f args)
    have enumerates (n v) : (lasting B r).Obeys (code.enumerate n v) :=
      obeys_of_lasts (code.enumerate_orderly n v) (enumerated n v)
    have hooks := UserCode.hooks_conducts UserCode.transparent_plain invokes enumerates trivial
    cases n with
    | zero => exact lasts_of_list?_eq B rfl
    | succ n =>
      simp only [UserCode.hooks, UserCode.plain] at sorted ⊢
      cases found : Kind.slot? .list op with
      | none => exact lasts_of_list?_eq B rfl
      | some body =>
        rw [found] at sorted
        exact slot_lasts anew (hooks n) found r' rest reached sorted
  | trans _ _ first second => exact first.trans second

end Uses

/-- Whatever is done with a list, by any code and to any depth, there is a place for every item. As
long as no sort of it succeeds, it also never loses room, no reallocation is forgotten, and where none
is counted the room is the same. Sizes are meant to be words. -/
theorem ListRef.room_lasts {sorts : Prop} {r : ListRef} {w w' : World} {o : ListObject}
    (live : w.list? r = some o) (roomy : o.buffer.size ≤ o.buffer.capacity)
    (uses : Uses sorts r w w') :
    ∃ o', w'.list? r = some o' ∧
      (o'.buffer.size ≤ Word.sizeMax → o'.buffer.size ≤ o'.buffer.capacity) ∧
      (¬sorts →
        (o.buffer.capacity ≤ Word.sizeMax → o.buffer.capacity ≤ o'.buffer.capacity) ∧
        o.buffer.reallocations ≤ o'.buffer.reallocations ∧
        (o'.buffer.reallocations = o.buffer.reallocations →
          o'.buffer.capacity = o.buffer.capacity)) := by
  have fits : o.buffer.Roomy := Nat.le_trans (Nat.min_le_left _ _) roomy
  obtain ⟨o', live', stays⟩ :=
    uses.lasts (B := Buffer.StaysRoomy) (fun _ _ items _ => Buffer.roomy_ofArray items) o live
  refine ⟨o', live', fun size => ?_, fun never => ?_⟩
  · exact Nat.min_eq_left size ▸ stays fits
  · obtain ⟨o'', live'', grown⟩ :=
      uses.lasts (B := Buffer.Grown) (fun may => absurd may never) o live
    obtain rfl : o' = o'' := Option.some.inj (live'.symm.trans live'')
    refine ⟨fun size => ?_, grown.reallocations, grown.counted⟩
    exact Nat.min_eq_left size ▸ grown.capacity

def UserCode.declining : UserCode where
  invoke _ _ _ := return .notImplemented
  enumerate _ _ := return []
  invoke_orderly _ _ _ _ reached := .refl reached
  enumerate_orderly _ _ _ reached := .refl reached

def UserCode.hoarding : UserCode where
  invoke _ _ _ := do
    ListRef.append ⟨0⟩ .none
    return .notImplemented
  enumerate _ _ := return []
  invoke_orderly _ _ _ w reached := ⟨reached, w.store.grows_modifyList ⟨0⟩ _⟩
  enumerate_orderly _ _ _ reached := .refl reached

theorem UserCode.hoarding_uses (n f args) (w : World) (reached : w.dispatcher.Reached) :
    Uses False ⟨0⟩ w (hoarding.invoke n f args w).2 := by
  have appended : ((declining.hooks plain 1).builtin .list (.invokeMember "append")
      [.list ⟨0⟩, .none] w).2 = (hoarding.invoke n f args w).2 := rfl
  rw [← appended]
  refine .call reached declining 1 (.invokeMember "append") ⟨0⟩ [.none]
    (fun _ _ _ _ _ => .elsewhere rfl) (fun _ _ _ _ => .elsewhere rfl) ?_
  intro other
  exact absurd other (by decide)

def hoard : World :=
  let hoarder (id : Nat) : Value := .object id 0 .none
  { World.blank with
    store := (Store.empty.addList ((Buffer.ofArray #[hoarder 2, hoarder 3]).push (hoarder 4))).2
    dispatcher := .initial ⟨#[⟨some "Hoarder", [("__lt__", .native 1 "hoard" [])]⟩], [], true⟩ {} {}
      false }

/-- The list has grown before. A sort of it fails, and what was added to it meanwhile is gone, but its
room and its counter are those from before. -/
theorem ListRef.room_lasts_hoarded :
    let h := UserCode.hoarding.hooks UserCode.plain 9
    let sorted := h.builtin .list (.invokeMember "sort") [.list ⟨0⟩] hoard
    sorted.1.EndsIf False ∧ ∃ o, sorted.2.list? ⟨0⟩ = some o ∧ o.buffer.size = 3 ∧
      10 ≤ o.buffer.capacity ∧ 1 ≤ o.buffer.reallocations ∧
      (o.buffer.reallocations = 1 → o.buffer.capacity = 10) := by
  intro h sorted
  have reached : hoard.dispatcher.Reached := .initial _ {} {} false
  have ends : sorted.1.EndsIf False := by decide +kernel
  have size : (sorted.2.store.list ⟨0⟩).buffer.size = 3 := by decide +kernel
  have uses : Uses False ⟨0⟩ hoard sorted.2 :=
    .call reached .hoarding 9 (.invokeMember "sort") ⟨0⟩ [] UserCode.hoarding_uses
      (fun _ _ _ _ => .elsewhere rfl) (fun _ _ => ends)
  have live : hoard.list? ⟨0⟩ = some (hoard.store.list ⟨0⟩) := rfl
  have roomy : (hoard.store.list ⟨0⟩).buffer.size ≤ (hoard.store.list ⟨0⟩).buffer.capacity := by
    decide +kernel
  obtain ⟨o, live', -, lasts⟩ := room_lasts live roomy uses
  have lasts := lasts not_false
  have capacity : (hoard.store.list ⟨0⟩).buffer.capacity = 10 := by decide +kernel
  have reallocations : (hoard.store.list ⟨0⟩).buffer.reallocations = 1 := by decide +kernel
  rw [capacity, reallocations] at lasts
  rw [World.list_of_list? live'] at size
  exact ⟨ends, o, live', size, lasts.1 (by decide), lasts.2⟩

/-- An item is added to a list of two numbers, which makes room for ten. A sort of the three gives the
room back, and the reallocation is no longer counted. -/
theorem ListRef.room_lost_by_sort :
    let h := UserCode.declining.hooks UserCode.plain 9
    let w := { World.blank with store := (Store.empty.addList (.ofArray #[.int 3, .int 1])).2 }
    let appended := (h.builtin .list (.invokeMember "append") [.list ⟨0⟩, .int 2] w).2
    let sorted := (h.builtin .list (.invokeMember "sort") [.list ⟨0⟩] appended).2
    let before := (appended.store.list ⟨0⟩).buffer
    let after := (sorted.store.list ⟨0⟩).buffer
    (before.size = 3 ∧ before.capacity = 10 ∧ before.reallocations = 1) ∧
      after.size = 3 ∧ after.capacity = 3 ∧ after.reallocations = 0 := by
  decide +kernel

end DynamicObjects
