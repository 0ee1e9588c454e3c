import DynamicObjects.Proofs.Atomicity.Spared
import DynamicObjects.Proofs.Lists.Sorting

/-!
Operations on lists, byte arrays and dictionaries that fail leave the container as it was, but for
what code that they called did to it. An update of a dictionary sets its entries one by one: it fails
before it has set any, or at an entry, with exactly those before it set.
-/
namespace DynamicObjects

open Conduct

theorem Run.then_eq_error {α β : Type} {x : Run α} {b : β} {w : World} {e : Error}
    (failed : ((x >>= fun _ => (Pure.pure b : Run β)) w).1 = .error e) :
    x w = (.error e, ((x >>= fun _ => (Pure.pure b : Run β)) w).2) := by
  rcases Run.outcome_cases x w with ⟨a, w₁, ran⟩ | ⟨failure, w₁, ran⟩
  · rw [Run.bind_ok ran] at failed
    cases failed
  · rw [Run.bind_failure ran] at failed ⊢
    cases failure with
    | error e' =>
      cases failed
      exact ran
    | outOfFuel => cases failed

namespace UserCode

variable {α : Type} {code : UserCode} {n : Nat} {c : Value} {op : Operation} {args : List Value}

theorem builtin_spares {bad : Outcome Value → Prop} {kind : Kind}
    (slot : ∀ n body, kind.slot? op = some body → code.Spares c bad (body (code.hooks plain n) args)) :
    code.Spares c bad ((code.hooks plain n).builtin kind op args) := by
  cases n with
  | zero => exact spares_of_obeys obeys_outOfFuel
  | succ n =>
    simp only [hooks, plain]
    split
    next body found => exact slot n body found
    next => exact spares_of_obeys fun w reached => ⟨reached, .refl, trivial⟩

theorem spares_then {x : Run Unit} {v : α} (hx : code.Spares c Outcome.Fails x) :
    code.Spares c Outcome.Fails (x >>= fun _ => pure v) := by
  intro w reached live failed
  generalize ended : ((x >>= fun _ => pure v) w).1 = outcome at failed
  cases failed with
  | error e =>
    have ran := Run.then_eq_error ended
    have spared := hx w reached live
    rw [ran] at spared
    exact spared (.error e)

/-! ## Lists -/

section Lists

variable {r : ListRef}

theorem contents?_write {s : Store} (live : (s.contents? (.list r)).isSome = true)
    (buffer : Buffer Value) :
    (s.modifyList r fun o => { o with buffer, version := o.version + 1 }).contents? (.list r) =
      some (.items buffer) := by
  rw [Store.contents?, Option.isSome_map] at live
  obtain ⟨o, found⟩ := Option.isSome_iff_exists.mp live
  simp [Store.contents?, Store.modifyList, Array.getElem?_modify, found]

theorem sortDetached_restores {detached : Buffer Value} {keys : Array Value} {backwards : Bool}
    {w w' : World} {e : Error} (reached : w.dispatcher.Reached)
    (live : (w.store.contents? (.list r)).isSome = true)
    (failed : r.sortDetached (code.hooks plain n) detached keys backwards w = (.error e, w')) :
    w'.dispatcher.Reached ∧ w.store.Grows w'.store ∧
      w'.store.contents? (.list r) = some (.items detached) := by
  have hooks := code.hooks_spare (.list r) n
  have sorts := ListRef.sortKeys_obeys hooks r (w.store.list r).version keys backwards
  obtain ⟨reached₁, spared, -⟩ := holds_attempt sorts w reached
  have restored : ∀ {w₁ : World}, w₁.dispatcher.Reached → Spared code (.list r) w w₁ → ∀ {e' : Error},
      (r.write detached >>= fun _ => (Run.raise e' : Run Unit)) w₁ = (.error e, w') →
      w'.dispatcher.Reached ∧ w.store.Grows w'.store ∧
        w'.store.contents? (.list r) = some (.items detached) := by
    intro w₁ reached₁ spared e' ran
    obtain ⟨-, rfl⟩ := Prod.mk.inj ran
    exact ⟨reached₁, spared.grows.trans (w₁.store.grows_modifyList r _),
      contents?_write (spared.grows.contents? live) detached⟩
  have read : ∀ w₁ : World, r.version w₁ = (.ok (w₁.store.list r).version, w₁) := fun _ => rfl
  unfold ListRef.sortDetached at failed
  rw [Run.bind_ok (read w)] at failed
  generalize MergeSort.sortKeys keys backwards
    (r.guardedLess (code.hooks plain n) (w.store.list r).version) = sort at *
  rcases Run.attempt_cases sort w with ⟨sorted, w₁, ran⟩ | ⟨w₁, ran⟩
  · rw [ran] at reached₁ spared
    rw [Run.bind_ok ran, Run.bind_ok (read w₁)] at failed
    cases sorted with
    | ok order =>
      dsimp only at failed
      split at failed
      · exact restored reached₁ spared failed
      · cases failed
    | error e' => exact restored reached₁ spared failed
  · rw [Run.bind_outOfFuel ran] at failed
    cases failed

/-- A sort that fails while keys are computed has written nothing; later it puts everything back. -/
theorem detached_spares (keys : Buffer Value → Array Value) (backwards : Bool) :
    code.Spares (.list r) Outcome.Fails (do
      let detached ← r.detach
      r.sortDetached (code.hooks plain n) detached (keys detached) backwards) := by
  intro w reached live failed
  obtain ⟨o, found⟩ : ∃ o, w.list? r = some o := by
    rw [Store.contents?, Option.isSome_map] at live
    exact Option.isSome_iff_exists.mp live
  rw [Run.bind_ok (detach_apply found)] at failed ⊢
  have emptied : w.store.Grows (w.putList r (o.holding o.buffer.detached)).store :=
    { Store.Grows.refl w.store with lists := by simp [World.putList] }
  generalize ran : r.sortDetached (code.hooks plain n) o.buffer (keys o.buffer) backwards
    (w.putList r (o.holding o.buffer.detached)) = ended at failed ⊢
  obtain ⟨outcome, w'⟩ := ended
  cases failed with
  | error e =>
    obtain ⟨reached', grows, restored⟩ :=
      sortDetached_restores (w := w.putList r (o.holding o.buffer.detached)) reached
        (emptied.contents? live) ran
    refine ⟨reached', Spared.refl.library (emptied.trans grows) fun contents held => ?_⟩
    rw [restored, ← held, Store.contents?]
    unfold World.list? at found
    rw [found]
    rfl

theorem sort_spares (keyFunction : Option Value) (backwards : Bool) :
    code.Spares (.list r) Outcome.Fails (r.sort (code.hooks plain n) keyFunction backwards) := by
  have hooks := code.hooks_spare (.list r) n
  unfold ListRef.sort
  cases keyFunction with
  | none => exact detached_spares Buffer.items backwards
  | some f =>
    refine spares_bind (ListRef.computeKeys_obeys hooks r f) fun found => ?_
    refine spares_bind r.version_obeys fun now => ?_
    split
    · exact spares_of_obeys (obeys_raise fun _ => rfl)
    · exact detached_spares (fun _ => found.1.toArray) backwards

theorem list_spares {body : Slot} (found : ListRef.operation? op = some body) :
    code.Spares (.list r) Outcome.Fails (body (code.hooks plain n) (.list r :: args)) := by
  have hooks := code.hooks_spare (.list r) n
  by_cases sorts : op = .invokeMember "sort"
  · subst sorts
    cases found
    refine spares_bind (x := liftM (Arguments.atMostTwo "sort" args)) (by grind) fun p => ?_
    dsimp only
    split
    · exact spares_bind (Protocol.truthy_obeys hooks _) fun _ => spares_then (sort_spares _ _)
    · exact spares_bind (obeys_pure _) fun _ => spares_then (sort_spares _ _)
  · exact spares_of_commits (ListRef.operation?_commits (fun _ => rfl) hooks found sorts)

theorem list_inPlace_spares {op : BinaryOp} {body : Slot}
    (found : ListRef.operation? (.inPlace op) = some body) :
    code.Spares (.list r) Outcome.FailsOrDeclines (body (code.hooks plain n) (.list r :: args)) := by
  have hooks := code.hooks_spare (.list r) n
  cases op with
  | add =>
    cases found
    refine spares_bind (x := liftM (Arguments.one "__iadd__" args)) (by grind) fun source => ?_
    exact spares_value (ListRef.extend_commits hooks r source) rfl
  | mul =>
    cases found
    refine spares_bind (x := liftM (Arguments.one "__imul__" args)) (by grind) fun count => ?_
    split
    · exact spares_value (ListRef.repeatInPlace_commits r _) rfl
    · exact spares_of_obeys (obeys_pure _)
  | _ => cases found

end Lists

/-! ## Byte arrays -/

section ByteArrays

variable {r : ByteArrayRef}

theorem byteArray_spares {body : Slot} (found : ByteArrayRef.operation? op = some body) :
    code.Spares (.byteArray r) Outcome.Fails (body (code.hooks plain n) (.byteArray r :: args)) :=
  spares_of_commits (ByteArrayRef.operation?_commits (fun _ => rfl) (code.hooks_spare _ n) found)

theorem byteArray_inPlace_spares {op : BinaryOp} {body : Slot}
    (found : ByteArrayRef.operation? (.inPlace op) = some body) :
    code.Spares (.byteArray r) Outcome.FailsOrDeclines
      (body (code.hooks plain n) (.byteArray r :: args)) := by
  have hooks := code.hooks_spare (.byteArray r) n
  cases op with
  | add =>
    cases found
    refine spares_bind (x := liftM (Arguments.one "__iadd__" args)) (by grind) fun source => ?_
    exact spares_value (ByteArrayRef.extend_commits hooks r source) rfl
  | mul =>
    cases found
    refine spares_bind (x := liftM (Arguments.one "__imul__" args)) (by grind) fun count => ?_
    split
    · exact spares_value (ByteArrayRef.repeatInPlace_commits r _) rfl
    · exact spares_of_obeys (obeys_pure _)
  | _ => cases found

end ByteArrays

/-! ## Dictionaries -/

section Dicts

variable {r : DictRef}

/-- What is written to another dictionary is not written to this one. -/
theorem modify_other_obeys {other : DictRef} (ne : other ≠ r)
    (f : Table Value Value → Table Value Value) : (sparing code (.dict r)).Obeys (other.modify f) := by
  intro w reached
  have apart : other.number ≠ r.number := by
    intro same
    obtain ⟨number⟩ := r
    obtain ⟨number'⟩ := other
    exact ne (congrArg DictRef.mk same)
  have spares : w.store.Spares (.dict r) (w.store.modifyDict other fun o =>
      { o with table := f o.table, version := o.version + 1 }) := by
    intro contents held
    rw [← held]
    simp [Store.contents?, Store.modifyDict, Array.getElem?_modify, apart]
  exact ⟨reached, Spared.refl.library (w.store.grows_modifyDict other _) spares, trivial⟩

theorem spares_addDict {bad : Outcome α → Prop} (table : Table Value Value) {f : DictRef → Run α}
    (hf : ∀ other, other ≠ r → (sparing code (.dict r)).Obeys (f other)) :
    code.Spares (.dict r) bad (Run.changeStore (·.addDict table) >>= f) := by
  intro w reached live ended
  rw [Store.contents?, Option.isSome_map] at live
  obtain ⟨o, found⟩ := Option.isSome_iff_exists.mp live
  have bound := (Array.getElem?_eq_some_iff.mp found).1
  have apart : (w.store.addDict table).1 ≠ r := by
    intro same
    rw [← same] at bound
    exact Nat.lt_irrefl _ bound
  have added : Spared code (.dict r) w { w with store := (w.store.addDict table).2 } :=
    .of_retains (w.store.retains_addDict table)
  obtain ⟨reached', spared, -⟩ := hf _ apart { w with store := (w.store.addDict table).2 } reached
  exact ⟨reached', added.trans spared⟩

def updates : Value → Operation → Bool
  | .dict _, .inPlace .or | .dict _, .invokeMember "update" => true
  | _, _ => false

theorem dict_spares {body : Slot} (found : DictRef.operation? op = some body)
    (other : updates (.dict r) op = false) :
    code.Spares (.dict r) Outcome.Fails (body (code.hooks plain n) (.dict r :: args)) := by
  have hooks := code.hooks_spare (.dict r) n
  cases once : DictRef.writesOnce op with
  | true => exact spares_of_commits (DictRef.operation?_commits (fun _ => rfl) hooks found once)
  | false =>
    unfold DictRef.writesOnce at once
    split at once
    case h_1 =>
      cases found
      refine spares_bind (x := liftM (Arguments.one "__or__" args)) (by grind) fun operand => ?_
      split
      · simp only [DictRef.copy, bind_assoc]
        refine spares_bind r.table_obeys fun table => spares_addDict table fun merged ne => ?_
        exact obeys_bind (DictRef.update_obeys hooks (modify_other_obeys ne) _) fun _ => obeys_pure _
      · exact spares_of_obeys (obeys_pure _)
    case h_2 => cases other
    case h_3 => cases other
    case h_4 =>
      cases found
      refine spares_bind (x := liftM (Arguments.oneOrTwo "fromkeys" args)) (by grind) fun p => ?_
      simp only [DictRef.fromKeys, DictRef.new, bind_assoc]
      refine spares_addDict .empty fun made ne => ?_
      refine obeys_bind (Protocol.openIterator_obeys hooks p.1) fun it => ?_
      refine obeys_bind (Protocol.fold_obeys hooks (fun _ key => ?_) () it) fun _ => obeys_pure _
      exact DictRef.set_obeys hooks (modify_other_obeys ne) key _
    case h_5 => cases once

def entriesOf (h : Hooks) (source : Value) : Run (List (Value × Value)) :=
  match source with
  | .dict other => other.pairs
  | other => DictRef.pairsOf h other

theorem update_eq (h : Hooks) (r : DictRef) (source : Value) :
    DictRef.update h r source = entriesOf h source >>= DictRef.setAll h r := by
  unfold DictRef.update entriesOf
  cases source <;> rfl

/-- How an update from `start` fails, where `w` is the state before the whole operation: without
looking at a source; because the source cannot be read; or at an entry, when those before it are set. -/
inductive UpdateFails (code : UserCode) (n : Nat) (r : DictRef) (args : List Value)
    (start w : World) (e : Error) (w' : World) : Prop
  | unentered (same : w'.store = w.store)
  | unread {source : Value} {w₁ : World} (given : args = [source])
    (read : entriesOf (code.hooks plain n) source start = (.error e, w₁))
    (spared : Spared code (.dict r) w w')
  | stopped {source key value : Value} {before after : List (Value × Value)} {w₁ w₂ w₃ : World}
    (given : args = [source])
    (read : entriesOf (code.hooks plain n) source start = (.ok (before ++ (key, value) :: after), w₁))
    (untouched : Spared code (.dict r) w w₁)
    (written : r.setAll (code.hooks plain n) before w₁ = (.ok (), w₂))
    (failed : r.set (code.hooks plain n) key value w₂ = (.error e, w₃))
    (spared : Spared code (.dict r) w₂ w')

theorem setAll_stops {entries : List (Value × Value)} {w w' : World} {e : Error}
    (reached : w.dispatcher.Reached)
    (failed : r.setAll (code.hooks plain n) entries w = (.error e, w')) :
    ∃ before key value after w₁, entries = before ++ (key, value) :: after ∧
      r.setAll (code.hooks plain n) before w = (.ok (), w₁) ∧
      r.set (code.hooks plain n) key value w₁ = (.error e, w') ∧ Spared code (.dict r) w₁ w' := by
  induction entries generalizing w with
  | nil => cases failed
  | cons entry rest ih =>
    obtain ⟨key, value⟩ := entry
    have set := DictRef.set_commits (code.hooks_spare (.dict r) n) r key value w reached
    unfold DictRef.setAll at failed
    obtain ⟨w₁, reached₁, spared, ⟨⟨⟩, store, -, ran⟩ | ⟨failure, ran, -⟩⟩ := set
    · rw [Run.bind_ok ran] at failed
      obtain ⟨before, key', value', after, w₂, cut, written, stopped, spared₂⟩ :=
        ih (w := { w₁ with store }) reached₁ failed
      refine ⟨(key, value) :: before, key', value', after, w₂, congrArg _ cut, ?_, stopped, spared₂⟩
      unfold DictRef.setAll
      rw [Run.bind_ok ran, written]
    · rw [Run.bind_failure ran] at failed
      exact ⟨[], key, value, rest, w, rfl, rfl, ran.trans failed, (Prod.mk.inj failed).2 ▸ spared⟩

/-- What the slots that update do is to look at their arguments and to update from the only one. -/
theorem updating_cases {body : Slot} (found : DictRef.operation? op = some body)
    (updating : updates (.dict r) op = true) (h : Hooks) (args : List Value) (w : World) :
    (body h (.dict r :: args) w).2 = w ∨
      ∃ source v, v.isNotImplemented = false ∧ args = [source] ∧
        body h (.dict r :: args) = DictRef.update h r source >>= fun _ => pure v := by
  unfold updates at updating
  split at updating
  · cases found
    match args with
    | [] => exact .inl rfl
    | [source] => exact .inr ⟨source, .dict r, rfl, rfl, rfl⟩
    | _ :: _ :: _ => exact .inl rfl
  · cases found
    match args with
    | [] => exact .inl rfl
    | [source] => exact .inr ⟨source, .none, rfl, rfl, rfl⟩
    | _ :: _ :: _ => exact .inl rfl
  · cases updating

theorem entriesOf_obeys {J : Conduct} {h : Hooks} (hooks : h.Conducts J) (source : Value) :
    J.Obeys (entriesOf h source) := by
  unfold entriesOf
  split <;> grind

theorem update_fails {body : Slot} (found : DictRef.operation? op = some body)
    (updating : updates (.dict r) op = true) {w w' : World} {e : Error}
    (reached : w.dispatcher.Reached)
    (failed : Protocol.callSlot (code.hooks plain (n + 1)) op (.dict r :: args) w = (.error e, w')) :
    UpdateFails code n r args (w.entering op (.dict r :: args)) w e w' := by
  have same : (w.entering op (.dict r :: args)).store = w.store := store_entered _ _
  have entered : (w.entering op (.dict r :: args)).dispatcher.Reached :=
    reached_entered (reached.resolve _ _)
  have own : (Protocol.receiver (.dict r :: args)).typeKey = .builtin .dict := rfl
  have slot : Kind.dict.slot? op = some body := found
  obtain ⟨_, ⟨left, ran⟩ | ⟨left, ran⟩⟩ := callSlot_cases code n slot own reached
  · obtain ⟨-, rfl⟩ := Prod.mk.inj (ran.symm.trans failed)
    exact .unentered left
  · obtain ⟨ended, rfl⟩ := Prod.mk.inj (ran.symm.trans failed)
    generalize w.entering op (.dict r :: args) = start at *
    obtain unchanged | ⟨source, v, -, rfl, body_eq⟩ :=
      updating_cases found updating (code.hooks plain n) args start
    · exact .unentered (by rw [left, unchanged, same])
    · obtain ⟨reached₁, spared₁, -⟩ :=
        entriesOf_obeys (code.hooks_spare (.dict r) n) source start entered
      rw [body_eq] at ended left
      have stopped := Run.then_eq_error ended
      generalize ((DictRef.update (code.hooks plain n) r source >>= fun _ => pure v) start).2 = w₄
        at left stopped
      rw [update_eq] at stopped
      rcases Run.outcome_cases (entriesOf (code.hooks plain n) source) start with
        ⟨entries, w₁, read⟩ | ⟨failure, w₁, read⟩
      · rw [read] at reached₁ spared₁
        rw [Run.bind_ok read] at stopped
        obtain ⟨before, key, value, after, w₂, rfl, written, failed', spared₂⟩ :=
          setAll_stops reached₁ stopped
        exact .stopped rfl read (spared₁.between same rfl) written failed' (spared₂.between rfl left)
      · rw [read] at spared₁
        rw [Run.bind_failure read] at stopped
        obtain ⟨outcome, rfl⟩ := Prod.mk.inj stopped
        cases failure with
        | outOfFuel => cases outcome
        | error e' =>
          cases outcome
          exact .unread rfl read (spared₁.between same left)

theorem inPlace_or_error {source : Value} {w w' : World} {e : Error} (reached : w.dispatcher.Reached)
    (failed : Protocol.inPlace (code.hooks plain (n + 1)) .or (.dict r) source w = (.error e, w')) :
    Protocol.callSlot (code.hooks plain (n + 1)) (.inPlace .or) [.dict r, source] w =
      (.error e, w') := by
  have found : Kind.dict.slot? (.inPlace .or) = some DictRef.inPlaceOrSlot := rfl
  have own : (Protocol.receiver [.dict r, source]).typeKey = .builtin .dict := rfl
  obtain ⟨w₁, ⟨-, ran⟩ | ⟨-, ran⟩⟩ := callSlot_cases code n found own reached
  · rwa [Protocol.inPlace, Run.bind_error ran, ← ran] at failed
  · have body_eq : DictRef.inPlaceOrSlot (code.hooks plain n) [.dict r, source] =
        DictRef.update (code.hooks plain n) r source >>= fun _ => pure (.dict r) := rfl
    rw [body_eq] at ran
    rcases Run.outcome_cases (DictRef.update (code.hooks plain n) r source)
      (w.entering (.inPlace .or) [.dict r, source]) with ⟨_, w₂, updated⟩ | ⟨failure, w₂, updated⟩
    · rw [Run.bind_ok updated] at ran
      rw [Protocol.inPlace, Run.bind_ok ran] at failed
      cases failed
    · rw [Run.bind_failure updated] at ran
      rwa [Protocol.inPlace, Run.bind_failure ran, ← ran] at failed

end Dicts

/-! ## Operators that are fallen back on -/

theorem operator_obeys (operator : op.isOperator = true)
    (other : ¬ ((Protocol.receiver args).typeKey = .builtin .dict ∧ op = .binary .or)) :
    (sparing code c).Obeys (Protocol.callSlot (code.hooks plain n) op args) := by
  refine callSlot_obeys fun kind receives => ?_
  cases n with
  | zero => exact obeys_outOfFuel
  | succ n =>
    obtain ⟨body, found⟩ := Option.isSome_iff_exists.mp receives.hasSlot
    simp only [hooks, plain, found]
    refine Kind.operator_obeys (code.hooks_spare c n) found (fun _ => receives.receiver) operator ?_
    rintro ⟨rfl, merges⟩
    exact other ⟨receives.receiver, merges⟩

theorem binaryDispatch_obeys {op : BinaryOp} {a b : Value}
    (other : ¬ (a.typeKey = .builtin .dict ∧ op = .or)) :
    (sparing code c).Obeys (Protocol.binaryDispatch (code.hooks plain n) op a b) := by
  have forward : (sparing code c).Obeys (Protocol.callSlot (code.hooks plain n) (.binary op) [a, b]) :=
    operator_obeys rfl fun merges => other ⟨merges.1, by simpa using merges.2⟩
  have reflected : (sparing code c).Obeys
      (Protocol.callSlot (code.hooks plain n) (.reflectedBinary op) [b, a]) :=
    operator_obeys rfl nofun
  unfold Protocol.binaryDispatch
  grind

/-! ## All containers -/

theorem callSlot_fails_spares (code : UserCode) (n : Nat) (args : List Value)
    (other : updates c op = false) :
    code.Spares c Outcome.Fails (Protocol.callSlot (code.hooks plain n) op (c :: args)) := by
  intro w reached live
  refine callSlot_spares (fun kind receives => builtin_spares fun n body found => ?_) w reached live
  have own := receives.receiver
  cases c with
  | list r =>
    cases own
    exact list_spares found
  | byteArray r =>
    cases own
    exact byteArray_spares found
  | dict r =>
    cases own
    exact dict_spares found other
  | _ => cases live

theorem inPlace_fails_spares (code : UserCode) (n : Nat) {op : BinaryOp}
    (other : updates c (.inPlace op) = false) (b : Value) :
    code.Spares c Outcome.Fails (Protocol.inPlace (code.hooks plain n) op c b) := by
  intro w reached live
  refine inPlace_spares ?_ (binaryDispatch_obeys ?_) w reached live
  · refine callSlot_spares fun kind receives => builtin_spares fun n body found => ?_
    have own := receives.receiver
    cases c with
    | list r =>
      cases own
      exact list_inPlace_spares found
    | byteArray r =>
      cases own
      exact byteArray_inPlace_spares found
    | dict r =>
      cases own
      cases op with
      | or => cases other
      | _ => cases found
    | _ => cases live
  · rintro ⟨isDict, rfl⟩
    cases c with
    | dict r => cases other
    | list | byteArray => cases isDict
    | _ => cases live

/-- An operation on a container that fails has left the container as it was, but for what code that it
called did. This holds of all operations, also of those in place with their fallbacks, except that an
update of a dictionary sets entries one by one: if its source cannot be read, the dictionary is as it
was, and if an entry cannot be set, those before it are set and that is all. -/
theorem failures_spare (code : UserCode) (n : Nat) {w : World} (reached : w.dispatcher.Reached)
    {c : Value} (live : (w.store.contents? c).isSome = true) {e : Error} {w' : World} :
    (∀ op args, updates c op = false →
      Protocol.callSlot (code.hooks plain n) op (c :: args) w = (.error e, w') →
      Spared code c w w') ∧
    (∀ op b, updates c (.inPlace op) = false →
      Protocol.inPlace (code.hooks plain n) op c b w = (.error e, w') → Spared code c w w') ∧
    ∀ r, c = .dict r →
      (∀ op args, updates c op = true →
        Protocol.callSlot (code.hooks plain (n + 1)) op (c :: args) w = (.error e, w') →
        UpdateFails code n r args (w.entering op (c :: args)) w e w') ∧
      ∀ source, Protocol.inPlace (code.hooks plain (n + 1)) .or c source w = (.error e, w') →
        UpdateFails code n r [source] (w.entering (.inPlace .or) [c, source]) w e w' := by
  refine ⟨fun op args other failed => ?_, fun op b other failed => ?_, ?_⟩
  · have spared := callSlot_fails_spares code n args other w reached live
    rw [failed] at spared
    exact (spared (.error e)).2
  · have spared := inPlace_fails_spares code n other b w reached live
    rw [failed] at spared
    exact (spared (.error e)).2
  · rintro r rfl
    refine ⟨fun op args updating failed => ?_, fun source failed => ?_⟩
    · obtain ⟨body, found⟩ : ∃ body, DictRef.operation? op = some body := by
        unfold updates at updating
        split at updating
        · exact ⟨_, rfl⟩
        · exact ⟨_, rfl⟩
        · cases updating
      exact update_fails found updating reached failed
    · have found : DictRef.operation? (.inPlace .or) = some DictRef.inPlaceOrSlot := rfl
      exact update_fails found rfl reached (inPlace_or_error reached failed)

def sulky : UserCode where
  invoke _ _ _ := do
    ListRef.append ⟨0⟩ .none
    Run.raise .negativeLength
  enumerate _ _ := return []
  invoke_orderly _ _ _ w reached := ⟨reached, w.store.grows_modifyList ⟨0⟩ _⟩
  enumerate_orderly _ _ _ reached := .refl reached

/-- A list of two objects that compare by such a function, an empty list and an empty dictionary. -/
def sulkyWorld : World :=
  let sulker (id : Nat) : Value := .object id 0 .none
  let store := (Store.empty.addList (.ofArray #[sulker 2, sulker 3])).2
  { World.blank with
    store := ((store.addList .empty).2.addDict .empty).2
    dispatcher := .initial ⟨#[⟨some "Sulky", [("__lt__", .native 1 "sulk" [])]⟩], [], true⟩ {} {} false }

/-- The objects cannot be sorted, and what is added meanwhile is gone. The second of two entries has a
key that cannot be hashed; the first one is set. -/
theorem failures_spare_sulky :
    let entries : List Value := [.tuple 4 [.int 1, .int 2], .tuple 5 [.list ⟨1⟩, .none]]
    let update : List Value := [.dict ⟨0⟩, .tuple 6 entries]
    let sorted := Protocol.callSlot (sulky.hooks plain 9) (.invokeMember "sort") [.list ⟨0⟩] sulkyWorld
    let updated := Protocol.callSlot (sulky.hooks plain 9) (.invokeMember "update") update sulkyWorld
    (Spared sulky (.list ⟨0⟩) sulkyWorld sorted.2 ∧ (sorted.2.store.list ⟨0⟩).buffer.size = 2) ∧
      (∃ e, UpdateFails sulky 8 ⟨0⟩ [.tuple 6 entries]
        (sulkyWorld.entering (.invokeMember "update") update) sulkyWorld e updated.2) ∧
      (updated.2.store.dict ⟨0⟩).table.size = 1 := by
  intro entries update sorted updated
  have reached : sulkyWorld.dispatcher.Reached := .initial _ {} {} false
  have unsorted : sorted.1.Fails := by decide +kernel
  have stopped : updated.1.Fails := by decide +kernel
  obtain ⟨e, sortedEq⟩ := unsorted.eq_error
  obtain ⟨e', updatedEq⟩ := stopped.eq_error
  have spared := (failures_spare sulky 9 reached (c := .list ⟨0⟩) rfl).1 (.invokeMember "sort") [] rfl
    sortedEq
  have fails := ((failures_spare sulky 8 reached (c := .dict ⟨0⟩) rfl).2.2 ⟨0⟩ rfl).1
    (.invokeMember "update") [.tuple 6 entries] rfl updatedEq
  refine ⟨⟨spared, ?_⟩, ⟨e', fails⟩, ?_⟩
  all_goals decide +kernel

end UserCode

end DynamicObjects
