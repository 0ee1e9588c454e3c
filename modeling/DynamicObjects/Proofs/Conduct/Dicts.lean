import DynamicObjects.Proofs.Conduct.Protocol
import DynamicObjects.Proofs.Conduct.Failures

/-!
The slots of dictionaries. A key is hashed and looked for before anything is written, and one write
follows; only an update writes several times, and what makes new dictionaries writes to those.
-/
namespace DynamicObjects

open Conduct

variable {J : Conduct} {h : Hooks}

namespace DictRef

@[grind ←] theorem object_obeys (r : DictRef) : J.Obeys r.object := obeys_readStore _

@[grind ←] theorem table_obeys (r : DictRef) : J.Obeys r.table := obeys_readStore _

@[grind ←] theorem version_obeys (r : DictRef) : J.Obeys r.version := obeys_readStore _

@[grind ←] theorem entry?_obeys (r : DictRef) (position : Nat) : J.Obeys (r.entry? position) :=
  obeys_readStore _

@[grind ←] theorem size_obeys (r : DictRef) : J.Obeys r.size := by
  unfold size
  grind

@[grind ←] theorem keys_obeys (r : DictRef) : J.Obeys r.keys := by
  unfold keys
  grind

@[grind ←] theorem values_obeys (r : DictRef) : J.Obeys r.values := by
  unfold values
  grind

@[grind ←] theorem pairs_obeys (r : DictRef) : J.Obeys r.pairs := by
  unfold pairs
  grind

@[grind ←] theorem itemTuples_obeys (r : DictRef) : J.Obeys r.itemTuples :=
  obeys_bind r.pairs_obeys fun _ => obeys_mapM (fun _ => obeys_newTuple _) _

@[grind ←] theorem copy_obeys (r : DictRef) : J.Obeys r.copy :=
  obeys_bind r.table_obeys fun table => obeys_addDict table

@[grind ←] theorem new_obeys : J.Obeys new := obeys_addDict _

section Asking

variable (hooks : h.Conducts J)

include hooks

theorem findCandidate_obeys (key : Value) (candidates : List (Nat × Value)) :
    J.Obeys (findCandidate h key candidates) := by
  induction candidates with
  | nil => exact obeys_pure _
  | cons candidate rest ih =>
    unfold findCandidate
    grind

theorem lookupOnce_obeys (r : DictRef) (key : Value) (hash : HashCode) :
    J.Obeys (lookupOnce h r key hash) := by
  unfold lookupOnce
  grind [findCandidate_obeys]

theorem lookupLoop_obeys (r : DictRef) (key : Value) (hash : HashCode) (retries : Nat) :
    J.Obeys (lookupLoop h r key hash retries) := by
  induction retries with
  | zero =>
    unfold lookupLoop
    grind [lookupOnce_obeys]
  | succ retries ih =>
    unfold lookupLoop
    grind [lookupOnce_obeys]

@[grind ←] theorem lookup_obeys (r : DictRef) (key : Value) (hash : HashCode) :
    J.Obeys (lookup h r key hash) :=
  lookupLoop_obeys hooks r key hash h.fuel

@[grind ←] theorem get?_obeys (r : DictRef) (key : Value) : J.Obeys (get? h r key) := by
  unfold get?
  grind

@[grind ←] theorem raiseMissing_obeys {α : Type} (key : Value) :
    J.Obeys (raiseMissing h key : Run α) := by
  unfold raiseMissing
  grind

@[grind ←] theorem getItem_obeys (r : DictRef) (key : Value) : J.Obeys (getItem h r key) := by
  unfold getItem
  grind

@[grind ←] theorem contains_obeys (r : DictRef) (key : Value) : J.Obeys (contains h r key) := by
  unfold contains
  grind

theorem pairOf_obeys (index : Nat) (element : Value) : J.Obeys (pairOf h index element) := by
  unfold pairOf
  refine obeys_bind_holds (holds_attempt (Protocol.openIterator_obeys hooks element))
    fun result _ => ?_
  cases result with
  | error e => exact obeys_raise fun _ => rfl
  | ok it => grind

@[grind ←] theorem pairsOf_obeys (source : Value) : J.Obeys (pairsOf h source) := by
  unfold pairsOf
  grind [pairOf_obeys]

theorem agrees_obeys (r : DictRef) (entries : List (Value × Value)) :
    J.Obeys (agrees h r entries) := by
  induction entries with
  | nil => exact obeys_pure _
  | cons entry rest ih =>
    unfold agrees
    grind

@[grind ←] theorem equals_obeys (r other : DictRef) : J.Obeys (equals h r other) := by
  unfold equals
  grind [agrees_obeys]

theorem entryTexts_obeys (entries : List (Value × Value)) : J.Obeys (entryTexts h entries) := by
  induction entries with
  | nil => exact obeys_pure _
  | cons entry rest ih =>
    unfold entryTexts
    grind

@[grind ←] theorem repr_obeys (r : DictRef) : J.Obeys (repr h r) := by
  unfold repr
  grind [entryTexts_obeys]

end Asking

@[grind ←] theorem modify_commits (r : DictRef) (f : Table Value Value → Table Value Value) :
    J.Commits (r.modify f) :=
  commits_modifyStore fun s => s.grows_modifyDict r _

/-- A change that leaves the table as it was is only counted. -/
theorem modify_retains {r : DictRef} {f : Table Value Value → Table Value Value} {s : Store}
    (same : f (s.dict r).table = (s.dict r).table) :
    s.Retains (s.modifyDict r fun o => { o with table := f o.table, version := o.version + 1 }) := by
  refine { Store.Retains.refl s with dicts := ?_ }
  intro i o found
  simp only [Store.modifyDict, Array.getElem?_modify, found, Option.map_some]
  split
  next here =>
    have object : s.dict r = o := by
      simp [Store.dict, here, Array.getD_eq_getD_getElem?, found]
    rw [object] at same
    exact ⟨o.version + 1, by rw [same]⟩
  next => exact ⟨_, rfl⟩

theorem modify_id_obeys (r : DictRef) : J.Obeys (r.modify id) :=
  obeys_modifyStore fun _ => modify_retains rfl

@[grind ←] theorem popItem_commits (r : DictRef) : J.Commits r.popItem := by
  unfold popItem
  refine commits_bind (obeys_readStore _) fun last => ?_
  cases last with
  | some found => exact commits_then (modify_commits r _) fun _ => settles_pure _
  | none => exact (obeys_bind r.modify_id_obeys fun _ => obeys_raise fun _ => rfl).commits

@[grind ←] theorem clear_commits (r : DictRef) : J.Commits r.clear := modify_commits r _

section Asking

variable (hooks : h.Conducts J)

include hooks

@[grind ←] theorem set_commits (r : DictRef) (key value : Value) : J.Commits (set h r key value) := by
  unfold set
  grind

@[grind ←] theorem setDefault_commits (r : DictRef) (key default : Value) :
    J.Commits (setDefault h r key default) := by
  unfold setDefault
  refine commits_bind (Protocol.hash_obeys hooks key) fun hash => ?_
  refine commits_bind (lookup_obeys hooks r key hash) fun found => ?_
  cases found with
  | some position => grind
  | none => exact commits_then (modify_commits r _) fun _ => settles_pure _

/-- Taking a key out either gives its value, and then nothing can fail any more, or it has removed
nothing. -/
theorem take?_commits {α : Type} (r : DictRef) (key : Value) {f : Option Value → Run α}
    (present : ∀ v, Settles (f (some v))) (absent : J.Obeys (f none)) :
    J.Commits (take? h r key >>= f) := by
  unfold take?
  simp only [bind_assoc]
  refine commits_bind (Protocol.hash_obeys hooks key) fun hash => ?_
  refine commits_bind (lookup_obeys hooks r key hash) fun found => ?_
  cases found with
  | none => exact absent.commits
  | some position =>
    intro w kept
    let removed : World := { w with
      store := w.store.modifyDict r fun o =>
        { o with table := o.table.remove position, version := o.version + 1 } }
    have ran : ((do
        let entry ← r.entry? position
        r.modify (·.remove position)
        return entry.map Entry.value) >>= f) w =
          f (((w.store.dict r).table.entry? position).map Entry.value) removed := rfl
    rw [ran]
    cases entry : (w.store.dict r).table.entry? position with
    | none =>
      have same : (w.store.dict r).table.remove position = (w.store.dict r).table := by
        simp [Table.remove, entry]
      have counted : J.Step w removed := J.retained (modify_retains (f := (·.remove position)) same)
      obtain ⟨w₁, kept₁, step, ends⟩ := absent.commits removed kept
      exact ⟨w₁, kept₁, J.trans counted step, ends⟩
    | some e =>
      obtain ⟨a, store, grows, settled⟩ := present e.value removed
      have changed := w.store.grows_modifyDict r fun o =>
        { o with table := o.table.remove position, version := o.version + 1 }
      exact ⟨w, kept, J.refl w, .inl ⟨a, store, changed.trans grows, settled⟩⟩

theorem delete_commits (r : DictRef) (key : Value) : J.Commits (delete h r key) := by
  refine take?_commits hooks r key (fun v => ?_) ?_
  · exact settles_pure _
  · exact raiseMissing_obeys hooks key

theorem pop_commits (r : DictRef) (key : Value) (default : Option Value) :
    J.Commits (pop h r key default) := by
  refine take?_commits hooks r key (fun v => ?_) ?_
  · exact settles_pure _
  · cases default with
    | some v => exact obeys_pure v
    | none => exact raiseMissing_obeys hooks key

section Others

variable {r : DictRef} (writes : ∀ f, J.Obeys (r.modify f))

include writes

theorem set_obeys (key value : Value) : J.Obeys (set h r key value) := by
  unfold set
  grind

theorem setAll_obeys (entries : List (Value × Value)) : J.Obeys (setAll h r entries) := by
  induction entries with
  | nil => exact obeys_pure _
  | cons entry rest ih =>
    unfold setAll
    grind [set_obeys]

theorem update_obeys (source : Value) : J.Obeys (update h r source) := by
  unfold update
  dsimp only
  split <;> grind [setAll_obeys]

end Others

variable (writes : J.Writes)

include writes

omit hooks in
theorem modify_obeys (r : DictRef) (f : Table Value Value → Table Value Value) :
    J.Obeys (r.modify f) :=
  (modify_commits r f).obeys writes

theorem ofPairs_obeys (entries : List (Value × Value)) : J.Obeys (ofPairs h entries) := by
  unfold ofPairs
  grind [setAll_obeys, modify_obeys]

theorem ofValue_obeys (source : Value) : J.Obeys (ofValue h source) := by
  unfold ofValue
  grind [update_obeys, modify_obeys]

theorem fromKeys_obeys (iterable value : Value) : J.Obeys (fromKeys h iterable value) := by
  unfold fromKeys
  refine obeys_bind new_obeys fun r => ?_
  refine obeys_bind (Protocol.openIterator_obeys hooks iterable) fun it => ?_
  refine obeys_bind (Protocol.fold_obeys hooks (fun _ key => ?_) () it) fun _ => obeys_pure r
  exact set_obeys hooks (modify_obeys writes r) key value

end Asking

/-- The operations that write once, if at all, and to no other dictionary. -/
def writesOnce : Operation → Bool
  | .binary .or | .inPlace .or | .invokeMember "update" | .invokeMember "fromkeys" => false
  | _ => true

section Slots

variable {args : List Value} (own : J.Strict → (Protocol.receiver args).typeKey = .builtin .dict)
  (hooks : h.Conducts J)

include own

theorem slot_obeys {body : DictRef → List Value → Run Value}
    (obeys : ∀ r rest, J.Obeys (body r rest)) : J.Obeys (slot body args) :=
  obeys_bind (obeys_liftM fun strict => receive_clean (own strict)) fun p => obeys p.1 p.2

theorem slot_commits {body : DictRef → List Value → Run Value}
    (commits : ∀ r rest, J.Commits (body r rest)) : J.Commits (slot body args) :=
  commits_bind (obeys_liftM fun strict => receive_clean (own strict)) fun p => commits p.1 p.2

include hooks

theorem compareSlot_obeys (op : CompareOp) : J.Obeys (compareSlot op h args) := by
  refine slot_obeys own fun r rest => ?_
  refine obeys_bind (by grind) fun other => ?_
  split <;> grind

theorem setItemSlot_commits : J.Commits (setItemSlot h args) := by
  refine slot_commits own fun r rest => commits_bind (by grind) fun p => ?_
  exact commits_value (set_commits hooks r p.1 p.2)

theorem delItemSlot_commits : J.Commits (delItemSlot h args) := by
  refine slot_commits own fun r rest => commits_bind (by grind) fun key => ?_
  exact commits_value (delete_commits hooks r key)

theorem method?_commits {name : String} {body : Slot} (found : method? name = some body)
    (once : writesOnce (.invokeMember name) = true) : J.Commits (body h args) := by
  unfold method? at found
  split at found
  case h_8 => cases once
  case h_11 => cases once
  case h_13 =>
    cases found
    exact setItemSlot_commits own hooks
  case h_14 =>
    cases found
    exact delItemSlot_commits own hooks
  case h_18 => cases found
  all_goals
    cases found
    refine slot_commits own fun r rest => ?_
    grind [pop_commits]

theorem operation?_commits {op : Operation} {body : Slot} (found : operation? op = some body)
    (once : writesOnce op = true) : J.Commits (body h args) := by
  cases op with
  | setItem =>
    cases found
    exact setItemSlot_commits own hooks
  | delItem =>
    cases found
    exact delItemSlot_commits own hooks
  | hash =>
    cases found
    exact unhashableSlot_obeys.commits
  | invokeMember name => exact method?_commits own hooks found once
  | getItem | len | contains | repr =>
    cases found
    refine slot_commits own fun r rest => ?_
    grind
  | compare op =>
    cases found
    exact (compareSlot_obeys own hooks op).commits
  | binary op | inPlace op =>
    cases op with
    | or => cases once
    | _ => cases found
  | _ => cases found

theorem operation?_obeys {op : Operation} {body : Slot} (found : operation? op = some body)
    (writes : op.isQuestion = false → J.Writes) : J.Obeys (body h args) := by
  cases question : op.isQuestion with
  | true =>
    cases op with
    | len | repr =>
      cases found
      refine slot_obeys own fun r rest => ?_
      grind
    | compare op =>
      cases found
      exact compareSlot_obeys own hooks op
    | hash =>
      cases found
      exact unhashableSlot_obeys
    | truth => cases found
    | _ => cases question
  | false =>
    have modify := modify_obeys (writes question)
    cases once : writesOnce op with
    | true => exact (operation?_commits own hooks found once).obeys (writes question)
    | false =>
      unfold writesOnce at once
      split at once
      case h_5 => cases once
      all_goals
        cases found
        refine slot_obeys own fun r rest => ?_
        grind [update_obeys, fromKeys_obeys]

end Slots

end DictRef

end DynamicObjects
