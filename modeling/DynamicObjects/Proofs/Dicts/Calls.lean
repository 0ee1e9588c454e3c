import DynamicObjects.Proofs.Dicts.Association
import DynamicObjects.Proofs.Objects
import DynamicObjects.Proofs.Runs

/-!
Calls on one dictionary, as data. Each call runs on the store (`run`) and on an association list
(`apply`). A call with a key is a search followed by one step that acts on what was found; all other
code runs during the search, or after it to print a key that is missing. The step does to the pairs
of a sound table what `apply` does to the list.
-/
namespace DynamicObjects

inductive DictAnswer
  | done
  | flag (b : Bool)
  | count (n : Nat)
  | value (v : Value)
  | found (v : Option Value)
  | entry (key value : Value)
  | made (r : DictRef)

inductive DictFault
  | missing (key : Value)
  | noEntries

inductive DictCall
  | size
  | get (key : Value)
  | getItem (key : Value)
  | contains (key : Value)
  | set (key value : Value)
  | delete (key : Value)
  | pop (key : Value) (default : Option Value)
  | setDefault (key default : Value)
  | popItem
  | clear

namespace DictCall

def key? : DictCall → Option Value
  | size | popItem | clear => none
  | get key | getItem key | contains key | set key _ | delete key | pop key _ | setDefault key _ =>
    some key

def run (h : Hooks) (r : DictRef) : DictCall → Run DictAnswer
  | size => return .count (← r.size)
  | get key => return .found (← r.get? h key)
  | getItem key => return .value (← r.getItem h key)
  | contains key => return .flag (← r.contains h key)
  | set key value => do
    r.set h key value
    return .done
  | delete key => do
    r.delete h key
    return .done
  | pop key default => return .value (← r.pop h key default)
  | setDefault key default => return .value (← r.setDefault h key default)
  | popItem => do
    let (key, value) ← r.popItem
    return .entry key value
  | clear => do
    r.clear
    return .done

def apply (keys : KeySpace) (l : Association) : DictCall → Except DictFault DictAnswer × Association
  | size => (.ok (.count l.length), l)
  | get key => (.ok (.found (l.get? keys key)), l)
  | getItem key =>
    match Association.get? keys l key with
    | some v => (.ok (.value v), l)
    | none => (.error (.missing key), l)
  | contains key => (.ok (.flag (Association.has keys l key)), l)
  | set key value => (.ok .done, Association.set keys l key value)
  | delete key =>
    if Association.has keys l key then (.ok .done, Association.erase keys l key)
    else (.error (.missing key), l)
  | pop key default =>
    match Association.get? keys l key, default with
    | some v, _ => (.ok (.value v), Association.erase keys l key)
    | none, some v => (.ok (.value v), l)
    | none, none => (.error (.missing key), l)
  | setDefault key default =>
    match Association.get? keys l key with
    | some v => (.ok (.value v), l)
    | none => (.ok (.value default), l ++ [(key, default)])
  | popItem =>
    match l.getLast? with
    | some (key, value) => (.ok (.entry key value), l.dropLast)
    | none => (.error .noEntries, l)
  | clear => (.ok .done, [])

end DictCall

def DictObject.changed (o : DictObject) (f : Table Value Value → Table Value Value) : DictObject :=
  { o with table := f o.table, version := o.version + 1 }

/-- How a call ends when its key is missing: the error has the key's text, unless printing it fails. -/
def missingOutcome : Outcome String → Outcome DictAnswer
  | .ok text => .error (.keyMissing text)
  | .error e => .error e
  | .outOfFuel => .outOfFuel

theorem raiseMissing_apply (h : Hooks) (key : Value) (w : World) :
    DictRef.raiseMissing h key w =
      (missingOutcome (Protocol.repr h key w).1, (Protocol.repr h key w).2) := by
  rw [DictRef.raiseMissing, Run.bind_apply]
  rcases Protocol.repr h key w with ⟨_ | _ | _, _⟩ <;> rfl

namespace DictRef

variable {w : World} {r : DictRef} {o : DictObject}

theorem object_apply (h : w.dict? r = some o) : r.object w = (.ok o, w) := by
  simp [object, Run.readStore, Run.read, World.dict_of_dict? h]

theorem table_apply (h : w.dict? r = some o) : r.table w = (.ok o.table, w) := by
  simp [table, Run.readStore, Run.read, World.dict_of_dict? h]

theorem version_apply (h : w.dict? r = some o) : r.version w = (.ok o.version, w) := by
  simp [version, Run.readStore, Run.read, World.dict_of_dict? h]

theorem entry?_apply (h : w.dict? r = some o) (position : Nat) :
    r.entry? position w = (.ok (o.table.entry? position), w) := by
  simp [ entry?, Run.readStore, Run.read, World.dict_of_dict? h]

theorem modify_apply (h : w.dict? r = some o) (f : Table Value Value → Table Value Value) :
    r.modify f w = (.ok (), w.putDict r (o.changed f)) := by
  have same : w.store.dicts.modify r.number (·.changed f) =
      w.store.dicts.setIfInBounds r.number (o.changed f) := modify_eq_setIfInBounds h _
  simp only [World.putDict, ← same]
  rfl

def search (h : Hooks) (r : DictRef) (key : Value) : Run (HashCode × Option Nat) := do
  let hash ← Protocol.hash h key
  let found ← r.lookup h key hash
  return (hash, found)

def takeAt (r : DictRef) : Option Nat → Run (Option Value)
  | none => return none
  | some position => do
    let entry ← r.entry? position
    r.modify (·.remove position)
    return entry.map Entry.value

def valueAt (r : DictRef) : Option Nat → Run (Option Value)
  | none => return none
  | some position => do return (← r.entry? position).map Entry.value

theorem valueAt_apply {keys : KeySpace} {key : Value} {found : Option Nat}
    (live : w.dict? r = some o) (sound : o.table.Sound keys) (isKey : keys.IsKey key)
    (located : o.table.Locates keys key found) :
    r.valueAt found w = (.ok (Association.get? keys o.table.pairs key), w) := by
  cases found with
  | none => rw [Association.get?_of_absent (Table.pairs_absent located)]; rfl
  | some position =>
    obtain ⟨e, found, equal⟩ := located
    obtain ⟨before, after, all, -, -, front, -⟩ := sound.pairs_cut isKey found equal
    rw [all, Association.get?_of_present equal front]
    rw [valueAt, Run.bind_ok (entry?_apply live position), found]
    rfl

/-- Taking an entry out removes it from the pairs; where there is none, nothing is done. -/
theorem takeAt_apply {keys : KeySpace} {key : Value} {found : Option Nat}
    (live : w.dict? r = some o) (sound : o.table.Sound keys) (isKey : keys.IsKey key)
    (located : o.table.Locates keys key found) :
    (Association.get? keys o.table.pairs key = none ∧ r.takeAt found w = (.ok none, w)) ∨
    ∃ value o', Association.get? keys o.table.pairs key = some value ∧
      r.takeAt found w = (.ok (some value), w.putDict r o') ∧ o'.version = o.version + 1 ∧
      o'.table.Sound keys ∧ o'.table.pairs = Association.erase keys o.table.pairs key := by
  cases found with
  | none => exact .inl ⟨Association.get?_of_absent (Table.pairs_absent located), rfl⟩
  | some position =>
    obtain ⟨e, found, equal⟩ := located
    obtain ⟨before, after, all, -, removed, front, back⟩ := sound.pairs_cut isKey found equal
    refine .inr ⟨e.value, o.changed (·.remove position), ?_, ?_, rfl, sound.remove position, ?_⟩
    · rw [all, Association.get?_of_present equal front]
    · rw [takeAt, Run.bind_ok (entry?_apply live position), Run.bind_ok (modify_apply live _), found]
      rfl
    · rw [all, Association.erase_of_present equal front back]
      exact removed

def placeAt (r : DictRef) (hash : HashCode) (key value : Value) : Option Nat → Run Unit
  | some position => r.modify (·.setValue position value)
  | none => r.modify (·.insertNew hash key value)

theorem placeAt_apply {keys : KeySpace} {key : Value} {found : Option Nat}
    (live : w.dict? r = some o) (sound : o.table.Sound keys) (isKey : keys.IsKey key)
    (located : o.table.Locates keys key found) (value : Value) :
    ∃ o', r.placeAt (keys.code key) key value found w = (.ok (), w.putDict r o') ∧
      o'.version = o.version + 1 ∧ o'.table.Sound keys ∧
      o'.table.pairs = Association.set keys o.table.pairs key value := by
  cases found with
  | none =>
    refine ⟨o.changed (·.insertNew (keys.code key) key value), ?_, rfl,
      sound.insertNew located isKey value, ?_⟩
    · exact modify_apply live (·.insertNew (keys.code key) key value)
    · rw [Association.set_of_absent (Table.pairs_absent located)]
      exact Table.pairs_insertNew _ _ _ _
  | some position =>
    obtain ⟨e, found, equal⟩ := located
    obtain ⟨before, after, all, set, -, front, back⟩ := sound.pairs_cut isKey found equal
    refine ⟨o.changed (·.setValue position value), ?_, rfl, sound.setValue position value, ?_⟩
    · exact modify_apply live (·.setValue position value)
    · rw [all, Association.set_of_present equal front back]
      exact set value

end DictRef

namespace DictCall

def finish (h : Hooks) (r : DictRef) (c : DictCall) (at_ : HashCode × Option Nat) :
    Run DictAnswer :=
  match c with
  | size | popItem | clear => c.run h r
  | get _ => return .found (← r.valueAt at_.2)
  | getItem key => do
    match ← r.valueAt at_.2 with
    | some v => return .value v
    | none => DictRef.raiseMissing h key
  | contains _ => return .flag at_.2.isSome
  | set key value => do
    r.placeAt at_.1 key value at_.2
    return .done
  | delete key => do
    match ← r.takeAt at_.2 with
    | some _ => return .done
    | none => DictRef.raiseMissing h key
  | pop key default => do
    match ← r.takeAt at_.2, default with
    | some v, _ => return .value v
    | none, some v => return .value v
    | none, none => DictRef.raiseMissing h key
  | setDefault key default => do
    match at_.2 with
    | some position => return .value ((← r.valueAt (some position)).getD .none)
    | none =>
      r.placeAt at_.1 key default none
      return .value default

@[simp] theorem map_raiseMissing {α β : Type} (h : Hooks) (key : Value) (f : α → β) :
    f <$> DictRef.raiseMissing h key = DictRef.raiseMissing h key := by
  unfold DictRef.raiseMissing
  rw [map_bind]
  rfl

theorem search_bind {α : Type} (h : Hooks) (r : DictRef) (key : Value)
    (f : HashCode × Option Nat → Run α) :
    (r.search h key >>= f) =
      Protocol.hash h key >>= fun hash => r.lookup h key hash >>= fun found => f (hash, found) := by
  simp [DictRef.search]

theorem run_eq_search (h : Hooks) (r : DictRef) {c : DictCall} {key : Value}
    (hkey : c.key? = some key) : c.run h r = r.search h key >>= c.finish h r := by
  rw [search_bind]
  cases c <;> simp only [key?, Option.some.injEq, reduceCtorEq] at hkey <;> subst hkey
  all_goals
    simp only [run, DictRef.get?, DictRef.getItem, DictRef.contains, DictRef.set, DictRef.delete,
      DictRef.pop, DictRef.setDefault, DictRef.take?, bind_assoc, pure_bind]
    refine congrArg (Protocol.hash h _ >>= ·) (funext fun hash => ?_)
    refine congrArg (DictRef.lookup h r _ hash >>= ·) (funext fun found => ?_)
  case get => cases found <;> simp [finish, DictRef.valueAt]
  case getItem =>
    cases found with
    | none => simp [finish, DictRef.valueAt]
    | some position =>
      simp only [finish, DictRef.valueAt, bind_assoc, pure_bind]
      refine congrArg (r.entry? position >>= ·) (funext fun e => ?_)
      cases e <;> simp
  case contains => simp [finish]
  case set => cases found <;> simp [finish, DictRef.placeAt]
  case delete =>
    cases found with
    | none => simp [finish, DictRef.takeAt]
    | some position =>
      simp only [finish, DictRef.takeAt, bind_assoc, pure_bind]
      refine congrArg (r.entry? position >>= ·) (funext fun e => ?_)
      cases e <;> simp
  case pop default =>
    cases found with
    | none => cases default <;> simp [finish, DictRef.takeAt]
    | some position =>
      simp only [finish, DictRef.takeAt, bind_assoc, pure_bind]
      refine congrArg (r.entry? position >>= ·) (funext fun e => ?_)
      cases e <;> cases default <;> simp
  case setDefault => cases found <;> simp [finish, DictRef.valueAt, DictRef.placeAt]

/-- The call takes effect in one step: the answer and the pairs afterwards are those of the list, the
table stays sound, and nothing else changes. A step that changes the table is counted. -/
def Commits (keys : KeySpace) (r : DictRef) (c : DictCall) (w : World) (a : DictAnswer)
    (w' : World) : Prop :=
  ∃ o o', w.dict? r = some o ∧ w' = w.putDict r o' ∧ (o' = o ∨ o'.version = o.version + 1) ∧
    o'.table.Sound keys ∧ c.apply keys o.table.pairs = (.ok a, o'.table.pairs)

section Commits

variable {keys : KeySpace} {r : DictRef} {c : DictCall} {w : World} {o : DictObject}
  (live : w.dict? r = some o) (sound : o.table.Sound keys)

include live sound

theorem commits_reading {a : DictAnswer} (h : c.apply keys o.table.pairs = (.ok a, o.table.pairs)) :
    c.Commits keys r w a w :=
  ⟨o, o, live, (World.putDict_same live).symm, .inl rfl, sound, h⟩

omit sound in
theorem commits_writing {a : DictAnswer} {o' : DictObject} (counted : o'.version = o.version + 1)
    (sound : o'.table.Sound keys)
    (h : c.apply keys o.table.pairs = (.ok a, o'.table.pairs)) :
    c.Commits keys r w a (w.putDict r o') :=
  ⟨o, o', live, rfl, .inr counted, sound, h⟩

theorem finish_cases (h : Hooks) {key : Value} (hkey : c.key? = some key) (isKey : keys.IsKey key)
    {found : Option Nat} (located : o.table.Locates keys key found) :
    (∃ a w', c.finish h r (keys.code key, found) w = (.ok a, w') ∧ c.Commits keys r w a w') ∨
    (c.apply keys o.table.pairs = (.error (.missing key), o.table.pairs) ∧
      c.finish h r (keys.code key, found) w = DictRef.raiseMissing h key w) := by
  have read := DictRef.valueAt_apply live sound isKey located
  have taken := DictRef.takeAt_apply live sound isKey located
  cases c <;> simp only [key?, Option.some.injEq, reduceCtorEq] at hkey <;> subst hkey
  case get key =>
    refine .inl ⟨.found (Association.get? keys o.table.pairs key), w, ?_, ?_⟩
    · rw [finish, Run.bind_ok read]
      rfl
    · exact commits_reading live sound rfl
  case getItem key =>
    cases there : Association.get? keys o.table.pairs key with
    | some v =>
      refine .inl ⟨.value v, w, ?_, commits_reading live sound (by simp [apply, there])⟩
      rw [finish, Run.bind_ok read, there]
      rfl
    | none =>
      refine .inr ⟨by simp [apply, there], ?_⟩
      rw [finish, Run.bind_ok read, there]
  case contains key =>
    refine .inl ⟨.flag found.isSome, w, rfl, commits_reading live sound ?_⟩
    cases found with
    | none => simp [apply, Association.has_of_absent (Table.pairs_absent located)]
    | some position =>
      obtain ⟨e, found, equal⟩ := located
      obtain ⟨before, after, all, -⟩ := sound.pairs_cut isKey found equal
      simp [apply, all, Association.has_of_present equal]
  case set key value =>
    obtain ⟨o', placed, counted, sound', pairs⟩ :=
      DictRef.placeAt_apply live sound isKey located value
    refine .inl ⟨.done, w.putDict r o', by rw [finish, Run.bind_ok placed]; rfl, ?_⟩
    exact commits_writing live counted sound' (by rw [apply, pairs])
  case delete key =>
    rcases taken with ⟨there, nothing⟩ | ⟨v, o', there, taken, counted, sound', pairs⟩
    · refine .inr ⟨by simp [apply, ← Association.isSome_get?, there], ?_⟩
      rw [finish, Run.bind_ok nothing]
    · refine .inl ⟨.done, w.putDict r o', by rw [finish, Run.bind_ok taken]; rfl, ?_⟩
      refine commits_writing live counted sound' ?_
      simp [apply, ← Association.isSome_get?, there, pairs]
  case pop key default =>
    rcases taken with ⟨there, nothing⟩ | ⟨v, o', there, taken, counted, sound', pairs⟩
    · cases default with
      | none =>
        refine .inr ⟨by simp [apply, there], ?_⟩
        rw [finish, Run.bind_ok nothing]
      | some v =>
        refine .inl ⟨.value v, w, by rw [finish, Run.bind_ok nothing]; rfl, ?_⟩
        exact commits_reading live sound (by simp [apply, there])
    · refine .inl ⟨.value v, w.putDict r o', by rw [finish, Run.bind_ok taken]; rfl, ?_⟩
      exact commits_writing live counted sound' (by simp [apply, there, pairs])
  case setDefault key default =>
    cases found with
    | none =>
      have there := Association.get?_of_absent (Table.pairs_absent located)
      obtain ⟨o', placed, counted, sound', pairs⟩ :=
        DictRef.placeAt_apply live sound isKey located default
      rw [Association.set_of_absent (Table.pairs_absent located)] at pairs
      refine .inl ⟨.value default, w.putDict r o', Run.bind_ok placed, ?_⟩
      exact commits_writing live counted sound' (by simp [apply, there, pairs])
    | some position =>
      obtain ⟨e, found, equal⟩ := located
      obtain ⟨before, after, all, -, -, front, -⟩ := sound.pairs_cut isKey found equal
      have there : Association.get? keys o.table.pairs key = some e.value := by
        rw [all, Association.get?_of_present equal front]
      rw [there] at read
      refine .inl ⟨.value e.value, w, Run.bind_ok read, ?_⟩
      exact commits_reading live sound (by simp [apply, there])

theorem run_cases_of_no_key (h : Hooks) (hkey : c.key? = none) :
    (∃ a w', c.run h r w = (.ok a, w') ∧ c.Commits keys r w a w') ∨
    (c.apply keys o.table.pairs = (.error .noEntries, o.table.pairs) ∧
      c.run h r w =
        (.error .popitemEmpty, w.putDict r (o.changed id))) := by
  cases c <;> simp only [key?, reduceCtorEq] at hkey
  case size =>
    refine .inl ⟨.count o.table.size, w, ?_, commits_reading live sound ?_⟩
    · rw [run, DictRef.size, bind_assoc, Run.bind_ok (DictRef.table_apply live)]
      rfl
    · rw [apply, Table.length_pairs sound.valid]
  case popItem =>
    have read : Run.readStore (fun s => (s.dict r).table.last?) w = (.ok o.table.last?, w) := by
      simp [Run.readStore, Run.read, World.dict_of_dict? live]
    cases last : o.table.last? with
    | none =>
      have empty : o.table.pairs = [] := by simp [Table.pairs, Table.toList_of_last?_eq_none last]
      refine .inr ⟨by simp [apply, empty], ?_⟩
      rw [run, DictRef.popItem, bind_assoc, Run.bind_ok read, last]
      refine (congrFun (bind_assoc (r.modify id) _ _) w).trans ?_
      exact Run.bind_ok (DictRef.modify_apply live id)
    | some at_ =>
      obtain ⟨position, e⟩ := at_
      have pairs : o.table.pairs = (o.table.remove position).pairs ++ [(e.key, e.value)] := by
        simp [Table.pairs, Table.toList_of_last? last]
      refine .inl ⟨.entry e.key e.value, w.putDict r (o.changed (·.remove position)), ?_, ?_⟩
      · rw [run, DictRef.popItem, bind_assoc, Run.bind_ok read, last]
        refine (congrFun (bind_assoc (r.modify _) _ _) w).trans ?_
        exact Run.bind_ok (DictRef.modify_apply live _)
      · refine commits_writing live rfl (sound.remove position) ?_
        rw [apply, pairs]
        simp [DictObject.changed]
  case clear =>
    refine .inl ⟨.done, w.putDict r (o.changed Table.clear), ?_, ?_⟩
    · exact Run.bind_ok (DictRef.modify_apply live Table.clear)
    · exact commits_writing live rfl (Table.sound_clear o.table) rfl

end Commits

end DictCall

end DynamicObjects
