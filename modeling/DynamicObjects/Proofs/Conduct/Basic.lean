import DynamicObjects.Slots
import DynamicObjects.Proofs.Runs
import DynamicObjects.Proofs.Dispatch.Recorders

/-!
How runs conduct themselves. A conduct says what a run may do to the state, which errors it may end
with and what it keeps of the dispatch layer, and a run obeys it when it does no more, from wherever it
starts and however it ends. Obedience passes from the parts of a run to the whole, so that the code of
a slot has to be gone through only once for everything that is said in this way.
-/
namespace DynamicObjects

@[grind] def Error.isInternal : Error → Bool
  | .internal _ => true
  | _ => false

def Clean {α : Type} (x : Except Error α) : Prop := ∀ e, x = .error e → e.isInternal = false

/-- A prepared call is one of the operation on the key. It runs a slot only of a kind that has one,
and there it does; on other kinds it has nothing to run. -/
structure Thunk.Fits (t : Thunk) (op : Operation) (key : TypeKey) : Prop where
  sameOp : t.op = op
  sameKey : t.key = key
  hasSlot : t.target = .builtin → ∃ kind : Kind, key = .builtin kind ∧ kind.hasSlot op = true
  runsSlot : ∀ kind : Kind, key = .builtin kind → kind.hasSlot op = true → t.target = .builtin
  runsNothing : ∀ kind : Kind, key = .builtin kind → kind.hasSlot op = false → t.target = .missing

/-- Whatever was there is still there, with the same contents; its changes may have been counted. -/
structure Store.Retains (s s' : Store) : Prop where
  lists : ∀ {i : Nat} {o}, s.lists[i]? = some o → ∃ version, s'.lists[i]? = some { o with version }
  dicts : ∀ {i : Nat} {o}, s.dicts[i]? = some o → ∃ version, s'.dicts[i]? = some { o with version }
  byteArrays : ∀ {i : Nat} {o}, s.byteArrays[i]? = some o → s'.byteArrays[i]? = some o

structure Store.Grows (s s' : Store) : Prop where
  lists : s.lists.size ≤ s'.lists.size
  dicts : s.dicts.size ≤ s'.dicts.size
  byteArrays : s.byteArrays.size ≤ s'.byteArrays.size

section Stores

theorem Store.Grows.refl (s : Store) : s.Grows s := ⟨Nat.le_refl _, Nat.le_refl _, Nat.le_refl _⟩

theorem Store.Grows.trans {s s' s'' : Store} (h : s.Grows s') (h' : s'.Grows s'') : s.Grows s'' :=
  ⟨Nat.le_trans h.lists h'.lists, Nat.le_trans h.dicts h'.dicts,
    Nat.le_trans h.byteArrays h'.byteArrays⟩

theorem Store.grows_modifyList (s : Store) (r : ListRef) (f : ListObject → ListObject) :
    s.Grows (s.modifyList r f) :=
  { Store.Grows.refl s with lists := by simp [Store.modifyList] }

theorem Store.grows_modifyDict (s : Store) (r : DictRef) (f : DictObject → DictObject) :
    s.Grows (s.modifyDict r f) :=
  { Store.Grows.refl s with dicts := by simp [Store.modifyDict] }

theorem Store.grows_modifyByteArray (s : Store) (r : ByteArrayRef)
    (f : ByteArrayObject → ByteArrayObject) : s.Grows (s.modifyByteArray r f) :=
  { Store.Grows.refl s with byteArrays := by simp [Store.modifyByteArray] }

theorem size_le_of_getElem? {α : Type} {xs ys : Array α}
    (found : ∀ (i : Nat) x, xs[i]? = some x → ∃ y, ys[i]? = some y) : xs.size ≤ ys.size := by
  refine Nat.le_of_not_lt fun shorter => ?_
  obtain ⟨y, out⟩ := found ys.size _ (Array.getElem?_eq_getElem shorter)
  simp at out

theorem Store.Retains.grows {s s' : Store} (h : s.Retains s') : s.Grows s' where
  lists := size_le_of_getElem? fun _ _ found => (h.lists found).elim fun _ there => ⟨_, there⟩
  dicts := size_le_of_getElem? fun _ _ found => (h.dicts found).elim fun _ there => ⟨_, there⟩
  byteArrays := size_le_of_getElem? fun _ _ found => ⟨_, h.byteArrays found⟩

theorem Store.Retains.refl (s : Store) : s.Retains s where
  lists found := ⟨_, found⟩
  dicts found := ⟨_, found⟩
  byteArrays found := found

theorem Store.Retains.trans {s s' s'' : Store} (h : s.Retains s') (h' : s'.Retains s'') : s.Retains s'' where
  lists found := by
    obtain ⟨_, found'⟩ := h.lists found
    obtain ⟨version, found''⟩ := h'.lists found'
    exact ⟨version, found''⟩
  dicts found := by
    obtain ⟨_, found'⟩ := h.dicts found
    obtain ⟨version, found''⟩ := h'.dicts found'
    exact ⟨version, found''⟩
  byteArrays found := h'.byteArrays (h.byteArrays found)

theorem getElem?_push_of_some {α : Type} {xs : Array α} {x y : α} {i : Nat} (h : xs[i]? = some x) :
    (xs.push y)[i]? = some x := by
  obtain ⟨bound, rfl⟩ := Array.getElem?_eq_some_iff.mp h
  rw [Array.getElem?_push_lt bound]

variable (s : Store)

theorem Store.retains_fresh : s.Retains s.fresh.2 := { Store.Retains.refl s with }

theorem Store.retains_addList (buffer : Buffer Value) : s.Retains (s.addList buffer).2 :=
  { Store.Retains.refl s with lists := fun found => ⟨_, getElem?_push_of_some found⟩ }

theorem Store.retains_addDict (table : Table Value Value) : s.Retains (s.addDict table).2 :=
  { Store.Retains.refl s with dicts := fun found => ⟨_, getElem?_push_of_some found⟩ }

theorem Store.retains_addByteArray (buffer : Buffer UInt8) : s.Retains (s.addByteArray buffer).2 :=
  { Store.Retains.refl s with byteArrays := getElem?_push_of_some }

theorem Store.retains_modifyList {r : ListRef} {f : ListObject → ListObject}
    (same : ∀ o, ∃ version, f o = { o with version }) : s.Retains (s.modifyList r f) := by
  refine { Store.Retains.refl s with lists := ?_ }
  intro i o found
  simp only [Store.modifyList, Array.getElem?_modify, found, Option.map_some]
  split
  · obtain ⟨version, counted⟩ := same o
    exact ⟨version, congrArg some counted⟩
  · exact ⟨_, rfl⟩

end Stores

/-- Where the conduct is strict, no internal error is allowed, and what is kept of the dispatch layer
has to ensure that prepared calls fit. -/
structure Conduct where
  Step : World → World → Prop
  Allowed : Error → Prop
  Kept : Dispatcher → Prop
  Strict : Prop
  refl : ∀ w, Step w w
  trans : ∀ {w₁ w₂ w₃}, Step w₁ w₂ → Step w₂ w₃ → Step w₁ w₃
  allowed : ∀ {e : Error}, (Strict → e.isInternal = false) → Allowed e
  retained : ∀ {w : World} {store}, w.store.Retains store → Step w { w with store }
  dispatched : ∀ {w : World} {dispatcher}, w.dispatcher.Hushed dispatcher → Step w { w with dispatcher }
  /-- The two ends of a call are told together. -/
  traced : ∀ {w w' : World} {tracer : Tracer} {op name : String} {depth : Nat},
    Step { w with dispatcher := w.dispatcher.tell tracer (.called op name depth) } w' →
    Step w { w' with dispatcher := w'.dispatcher.tell tracer (.returned op (depth - 1)) }
  nested : ∀ {w w' : World}, Step { w with dataDepth := w.dataDepth + 1 } w' →
    Step w { w' with dataDepth := w'.dataDepth - 1 }
  printed : ∀ {w w' : World} {id : Identity}, Step { w with printing := id :: w.printing } w' →
    Step w { w' with printing := w'.printing.erase id }
  limited : ∀ {w w' : World}, Step { w with depth := w.depth + 1 } w' →
    Step w { w' with depth := w.depth }
  told : ∀ {d : Dispatcher} {tracer event}, Kept d → Kept (d.tell tracer event)
  resolved : ∀ {d : Dispatcher} {op key}, Kept d → Kept (d.resolve Kind.hasSlot op key).2
  fits : ∀ {d : Dispatcher} {op key}, Strict → Kept d →
    (d.resolve Kind.hasSlot op key).1.Fits op key

namespace Conduct

variable {α β : Type} (J : Conduct)

def Suits (Q : α → Prop) : Outcome α → Prop
  | .ok a => Q a
  | .error e => J.Allowed e
  | .outOfFuel => True

def Holds (Q : α → Prop) (x : Run α) : Prop :=
  ∀ w, J.Kept w.dispatcher →
    J.Kept (x w).2.dispatcher ∧ J.Step w (x w).2 ∧ J.Suits Q (x w).1

def Obeys (x : Run α) : Prop := J.Holds (fun _ => True) x

def Writes : Prop := ∀ (w : World) store, w.store.Grows store → J.Step w { w with store }

variable {J} {P : α → Prop} {Q : β → Prop} {x : Run α} {f : α → Run β}

theorem holds_pure {a : α} (p : P a) : J.Holds P (pure a) := fun w kept => ⟨kept, J.refl w, p⟩

theorem holds_bind (hx : J.Holds P x) (hf : ∀ a, P a → J.Holds Q (f a)) : J.Holds Q (x >>= f) := by
  intro w kept
  have first := hx w kept
  refine Run.bind_cases
    (R := fun p => J.Kept p.2.dispatcher ∧ J.Step w p.2 ∧ J.Suits Q p.1) ?_ ?_ ?_
  · intro a w₁ ran
    rw [ran] at first
    obtain ⟨kept', step', suits⟩ := hf a first.2.2 w₁ first.1
    exact ⟨kept', J.trans first.2.1 step', suits⟩
  · intro e w₁ ran
    rw [ran] at first
    exact first
  · intro w₁ ran
    rw [ran] at first
    exact first

def judgement (J : Conduct) : Run.Judgement where
  Holds := J.Holds
  pure := holds_pure
  bind := holds_bind

theorem Holds.obeys (h : J.Holds P x) : J.Obeys x := by
  intro w kept
  obtain ⟨kept', step, suits⟩ := h w kept
  refine ⟨kept', step, ?_⟩
  cases ended : (x w).1 with
  | ok a => trivial
  | error e => rwa [ended] at suits
  | outOfFuel => trivial

theorem obeys_bind_holds (hx : J.Holds P x) (hf : ∀ a, P a → J.Obeys (f a)) : J.Obeys (x >>= f) :=
  holds_bind hx hf

@[grind ←] theorem obeys_pure (a : α) : J.Obeys (pure a) := holds_pure trivial

@[grind ←] theorem obeys_bind (hx : J.Obeys x) (hf : ∀ a, J.Obeys (f a)) : J.Obeys (x >>= f) :=
  holds_bind hx fun a _ => hf a

theorem obeys_mapM {f : α → Run β} (hf : ∀ a, J.Obeys (f a)) (xs : List α) :
    J.Obeys (xs.mapM f) := by
  induction xs with
  | nil =>
    rw [List.mapM_nil]
    exact obeys_pure []
  | cons a rest ih =>
    rw [List.mapM_cons]
    exact obeys_bind (hf a) fun b => obeys_bind ih fun bs => obeys_pure (b :: bs)

@[grind ←] theorem obeys_raise {e : Error} (clean : J.Strict → e.isInternal = false) :
    J.Obeys (Run.raise e : Run α) :=
  fun w kept => ⟨kept, J.refl w, J.allowed clean⟩

@[grind ←] theorem obeys_raise_bind {e : Error} (clean : J.Strict → e.isInternal = false) :
    J.Obeys (Run.raise e >>= f) :=
  fun w kept => ⟨kept, J.refl w, J.allowed clean⟩

@[grind ←] theorem obeys_outOfFuel : J.Obeys (Run.outOfFuel : Run α) :=
  fun w kept => ⟨kept, J.refl w, trivial⟩

theorem obeys_ofExcept {x : Except Error α} (allowed : ∀ e, x = .error e → J.Allowed e) :
    J.Obeys (Run.ofExcept x) := by
  cases x with
  | ok a => exact obeys_pure a
  | error e => exact fun w kept => ⟨kept, J.refl w, allowed e rfl⟩

@[grind ←] theorem obeys_ofExcept_clean {x : Except Error α} (clean : Clean x) :
    J.Obeys (Run.ofExcept x) :=
  obeys_ofExcept fun e failed => J.allowed fun _ => clean e failed

@[grind ←] theorem obeys_liftM {x : Except Error α} (clean : J.Strict → Clean x) :
    J.Obeys (liftM x : Run α) :=
  obeys_ofExcept fun e failed => J.allowed fun strict => clean strict e failed

theorem allowed_ok {a : α} : ∀ e, Except.ok a = Except.error e → J.Allowed e := by
  intro e failed
  cases failed

theorem holds_attempt (hx : J.Obeys x) :
    J.Holds (fun result => ∀ e, result = .error e → J.Allowed e) x.attempt := by
  intro w kept
  obtain ⟨kept', step, suits⟩ := hx w kept
  unfold Run.attempt
  split
  next ran =>
    rw [ran] at kept' step
    exact ⟨kept', step, allowed_ok⟩
  next ran =>
    rw [ran] at kept' step suits
    refine ⟨kept', step, ?_⟩
    rintro e ⟨⟩
    exact suits
  next ran =>
    rw [ran] at kept' step
    exact ⟨kept', step, trivial⟩

theorem holds_read {g : World → α} (p : ∀ w, P (g w)) : J.Holds P (Run.read g) :=
  fun w kept => ⟨kept, J.refl w, p w⟩

@[grind ←] theorem obeys_read (g : World → α) : J.Obeys (Run.read g) := holds_read fun _ => trivial

@[grind ←] theorem obeys_readStore (g : Store → α) : J.Obeys (Run.readStore g) := obeys_read _

@[grind ←] theorem obeys_readDispatcher (g : Dispatcher → α) : J.Obeys (Run.readDispatcher g) :=
  obeys_read _

@[grind ←] theorem obeys_typeName (v : Value) : J.Obeys (Run.typeName v) := obeys_read _

theorem obeys_changeStore {g : Store → α × Store} (retains : ∀ s : Store, s.Retains (g s).2) :
    J.Obeys (Run.changeStore g) :=
  fun w kept => ⟨kept, J.retained (retains w.store), trivial⟩

theorem obeys_modifyStore {g : Store → Store} (retains : ∀ s : Store, s.Retains (g s)) :
    J.Obeys (Run.modifyStore g) :=
  fun w kept => ⟨kept, J.retained (retains w.store), trivial⟩

@[grind ←] theorem obeys_fresh : J.Obeys Run.fresh := obeys_changeStore Store.retains_fresh

@[grind ←] theorem obeys_newList (buffer : Buffer Value) : J.Obeys (Run.newList buffer) :=
  obeys_bind (obeys_changeStore (Store.retains_addList · buffer)) fun _ => obeys_pure _

theorem obeys_addDict (table : Table Value Value) :
    J.Obeys (Run.changeStore (·.addDict table)) :=
  obeys_changeStore (Store.retains_addDict · table)

@[grind ←] theorem obeys_newByteArray (buffer : Buffer UInt8) : J.Obeys (Run.newByteArray buffer) :=
  obeys_bind (obeys_changeStore (Store.retains_addByteArray · buffer)) fun _ => obeys_pure _

@[grind ←] theorem obeys_newListOf (items : List Value) : J.Obeys (Run.newListOf items) :=
  obeys_newList _

@[grind ←] theorem obeys_newByteArrayOf (data : Bytes) : J.Obeys (Run.newByteArrayOf data) :=
  obeys_newByteArray _

@[grind ←] theorem obeys_newText (text : String) : J.Obeys (Run.newText text) :=
  obeys_bind obeys_fresh fun _ => obeys_pure _

@[grind ←] theorem obeys_newTuple (items : List Value) : J.Obeys (Run.newTuple items) :=
  obeys_bind obeys_fresh fun _ => obeys_pure _

@[grind ←] theorem obeys_newFrozenSet (t : SetTable) : J.Obeys (Run.newFrozenSet t) :=
  obeys_bind obeys_fresh fun _ => obeys_pure _

@[grind ←] theorem obeys_newObject (number : Nat) (payload : Value) :
    J.Obeys (Run.newObject number payload) :=
  obeys_bind obeys_fresh fun _ => obeys_pure _

@[grind ←] theorem obeys_newBytes (data : Bytes) : J.Obeys (Run.newBytes data) := by
  unfold Run.newBytes
  grind

@[grind ←] theorem obeys_nested (hx : J.Obeys x) : J.Obeys (Run.nested x) := by
  intro w kept
  unfold Run.nested
  split
  · exact ⟨kept, J.refl w, J.allowed fun _ => rfl⟩
  · obtain ⟨kept', step, suits⟩ := hx { w with dataDepth := w.dataDepth + 1 } kept
    exact ⟨kept', J.nested step, suits⟩

@[grind ←] theorem obeys_printing {x : Run String} (id : Identity) (again : String)
    (hx : J.Obeys x) : J.Obeys (Run.printing id again x) := by
  intro w kept
  unfold Run.printing
  split
  · exact ⟨kept, J.refl w, trivial⟩
  · refine obeys_nested ?_ w kept
    intro w kept
    obtain ⟨kept', step, suits⟩ := hx { w with printing := id :: w.printing } kept
    exact ⟨kept', J.printed step, suits⟩

theorem obeys_limited {x : Nat → Run α} (hx : ∀ depth, J.Obeys (x depth)) :
    J.Obeys (Run.limited x) := by
  intro w kept
  unfold Run.limited
  refine iteInduction (motive := fun p : Outcome α × World =>
    J.Kept p.2.dispatcher ∧ J.Step w p.2 ∧ J.Suits (fun _ => True) p.1) ?_ ?_
  · exact fun _ => ⟨kept, J.refl w, J.allowed fun _ => rfl⟩
  · intro _
    obtain ⟨kept', step, suits⟩ := hx (w.depth + 1) { w with depth := w.depth + 1 } kept
    exact ⟨kept', J.limited step, suits⟩

/-- The run writes to the store, if at all, as the last thing it does: whatever could fail came
before, and obeyed. -/
def Commits (J : Conduct) (x : Run α) : Prop :=
  ∀ w, J.Kept w.dispatcher → ∃ w₁, J.Kept w₁.dispatcher ∧ J.Step w w₁ ∧
    ((∃ a store, w₁.store.Grows store ∧ x w = (.ok a, { w₁ with store })) ∨
      ∃ failure : Run.Failure, x w = (failure.outcome, w₁) ∧
        J.Suits (fun _ => True) (failure.outcome : Outcome α))

/-- The run gives a value and does nothing but to change the store. -/
def Settles (x : Run α) : Prop :=
  ∀ w, ∃ a store, w.store.Grows store ∧ x w = (.ok a, { w with store })

@[grind ←] theorem Obeys.commits (hx : J.Obeys x) : J.Commits x := by
  intro w kept
  obtain ⟨kept', step, suits⟩ := hx w kept
  refine ⟨(x w).2, kept', step, ?_⟩
  rcases Run.outcome_cases x w with ⟨a, w', ran⟩ | ⟨failure, w', ran⟩
  · exact .inl ⟨a, w'.store, by rw [ran]; exact .refl _, by rw [ran]⟩
  · rw [ran] at suits ⊢
    exact .inr ⟨failure, rfl, suits⟩

theorem Commits.obeys (hx : J.Commits x) (writes : J.Writes) : J.Obeys x := by
  intro w kept
  obtain ⟨w₁, kept₁, step, ⟨a, store, grows, ran⟩ | ⟨failure, ran, suits⟩⟩ := hx w kept
  · rw [ran]
    exact ⟨kept₁, J.trans step (writes w₁ store grows), trivial⟩
  · rw [ran]
    exact ⟨kept₁, step, suits⟩

@[grind ←] theorem commits_bind (hx : J.Obeys x) (hf : ∀ a, J.Commits (f a)) :
    J.Commits (x >>= f) := by
  intro w kept
  obtain ⟨kept', step, suits⟩ := hx w kept
  rcases Run.outcome_cases x w with ⟨a, w', ran⟩ | ⟨failure, w', ran⟩
  · rw [ran] at kept' step
    obtain ⟨w₁, kept₁, step₁, ends⟩ := hf a w' kept'
    rw [Run.bind_ok ran]
    exact ⟨w₁, kept₁, J.trans step step₁, ends⟩
  · rw [ran] at kept' step suits
    refine ⟨w', kept', step, .inr ⟨failure, Run.bind_failure ran, ?_⟩⟩
    cases failure with
    | error e => exact suits
    | outOfFuel => trivial

theorem commits_modifyStore {g : Store → Store} (grows : ∀ s : Store, s.Grows (g s)) :
    J.Commits (Run.modifyStore g) :=
  fun w kept => ⟨w, kept, J.refl w, .inl ⟨(), g w.store, grows w.store, rfl⟩⟩

@[grind ←] theorem settles_pure (a : α) : Settles (pure a) := fun w => ⟨a, w.store, .refl _, rfl⟩

@[grind ←] theorem settles_newTuple (items : List Value) : Settles (Run.newTuple items) :=
  fun w => ⟨_, _, w.store.retains_fresh.grows, rfl⟩

/-- Once the change is made, only what cannot fail may follow. -/
@[grind ←] theorem commits_then (hx : J.Commits x) (hf : ∀ a, Settles (f a)) :
    J.Commits (x >>= f) := by
  intro w kept
  obtain ⟨w₁, kept₁, step, ⟨a, store, grows, ran⟩ | ⟨failure, ran, suits⟩⟩ := hx w kept
  · obtain ⟨b, store', grows', ran'⟩ := hf a { w₁ with store }
    exact ⟨w₁, kept₁, step,
      .inl ⟨b, store', grows.trans grows', by rw [Run.bind_ok ran, ran']⟩⟩
  · refine ⟨w₁, kept₁, step, .inr ⟨failure, Run.bind_failure ran, ?_⟩⟩
    cases failure with
    | error e => exact suits
    | outOfFuel => trivial

theorem commits_value {x : Run Unit} {v : Value} (hx : J.Commits x) :
    J.Commits (x >>= fun _ => pure v) :=
  commits_then hx fun _ => settles_pure v

end Conduct

end DynamicObjects
