import DynamicObjects.Proofs.Dicts.Refinement
import DynamicObjects.Proofs.InPlace.Sequences

/-!
The union of dictionaries, and the union in place. One sets entries in a copy, the other in the dictionary
itself, and meanwhile keys are hashed and compared, maybe by code that the program brought along. Nothing
is assumed of that code but that it always comes to the same and leaves dictionaries alone: it may call
different keys equal, or give equal keys different hash codes, or fail. Then both forms set the same
entries in the same table.
-/
namespace DynamicObjects

namespace Outcome

variable {α β : Type}

def bind : Outcome α → (α → Outcome β) → Outcome β
  | ok a, f => f a
  | error e, _ => error e
  | outOfFuel, _ => outOfFuel

instance : Monad Outcome where
  pure := ok
  bind := bind

def map (f : α → β) : Outcome α → Outcome β
  | ok a => ok (f a)
  | error e => error e
  | outOfFuel => outOfFuel

end Outcome

namespace Run

variable {α β : Type} {I : World → Prop} {x : Run α} {f : α → Run β} {outcome : Outcome α}
  {g : α → Outcome β}

/-- From every state in `I` the run ends in the given way, and in such a state again. -/
def Comes (I : World → Prop) (x : Run α) (outcome : Outcome α) : Prop :=
  ∀ w, I w → ∃ w', x w = (outcome, w') ∧ I w'

theorem comes_pure (a : α) : Comes I (Pure.pure a) (Pure.pure a) := fun w i => ⟨w, rfl, i⟩

theorem comes_bind (hx : Comes I x outcome) (hf : ∀ a, Comes I (f a) (g a)) :
    Comes I (x >>= f) (outcome >>= g) := by
  intro w i
  obtain ⟨w₁, ran, i₁⟩ := hx w i
  cases outcome with
  | ok a =>
    rw [bind_ok ran]
    exact hf a w₁ i₁
  | error e => exact ⟨w₁, bind_error ran, i₁⟩
  | outOfFuel => exact ⟨w₁, bind_outOfFuel ran, i₁⟩

theorem bind_pure_apply {γ : Type} {y : Run β} {w w' : World} {f : α → β}
    (ran : y w = (outcome.map f, w')) (k : β → γ) :
    (y >>= fun b => Pure.pure (k b)) w = (outcome.map fun a => k (f a), w') := by
  rw [bind_apply, ran]
  cases outcome <;> rfl

end Run

/-- What it comes to when a key is hashed, and when a stored key is compared with another. -/
structure KeyOutcomes where
  hash : Value → Outcome HashCode
  equal : Value → Value → Outcome Bool

namespace KeyOutcomes

variable (k : KeyOutcomes)

def find (key : Value) : List (Nat × Value) → Outcome (Option Nat)
  | [] => return none
  | (position, stored) :: rest => do
    if stored.isSame key then return some position
    else if ← k.equal stored key then return some position
    else find key rest

def search (t : Table Value Value) (key : Value) : Outcome (HashCode × Option Nat) := do
  let hash ← k.hash key
  let found ← k.find key (t.candidates hash)
  return (hash, found)

end KeyOutcomes

def Table.place (t : Table Value Value) (hash : HashCode) (key value : Value) :
    Option Nat → Table Value Value
  | some position => t.setValue position value
  | none => t.insertNew hash key value

namespace KeyOutcomes

variable (k : KeyOutcomes)

def setAll (t : Table Value Value) : List (Value × Value) → Outcome (Table Value Value)
  | [] => return t
  | (key, value) :: rest => do
    let (hash, found) ← k.search t key
    setAll (t.place hash key value found) rest

end KeyOutcomes

/-- Hashing and comparing keys always comes to the same, and leaves the dictionaries alone. All of this in
calm states, whatever is held by the dictionaries that change and by copies. -/
structure SteadyKeys (k : KeyOutcomes) (h : Hooks) (calm : World → Prop) (IsKey : Value → Prop)
    (changes : DictRef → Prop) : Prop where
  hash : ∀ {key}, IsKey key → ∀ dicts,
    Run.Comes (fun w => calm w ∧ w.store.dicts = dicts) (Protocol.hash h key) (k.hash key)
  equal : ∀ {a b}, IsKey a → IsKey b → ∀ dicts,
    Run.Comes (fun w => calm w ∧ w.store.dicts = dicts) (Protocol.equals h a b) (k.equal a b)
  put : ∀ {w r}, calm w → changes r → ∀ o, calm (w.putDict r o)
  copy : ∀ {w}, calm w → ∀ table, calm { w with store := (w.store.addDict table).2 }

theorem PureKeys.steady {keys : KeySpace} {h : Hooks} {calm : World → Prop} (pure : PureKeys keys h calm)
    (changes : DictRef → Prop) :
    SteadyKeys ⟨fun key => .ok (keys.code key), fun a b => .ok (keys.equal a b)⟩ h calm keys.IsKey
      changes where
  hash := pure.hash
  equal := pure.equals
  put {w _} quiet _ _ := pure.store quiet _ w.store.nextId
  copy quiet _ := pure.store quiet _ _

namespace Table

variable {κ ν : Type} {t : Table κ ν}

theorem keys_setValue (t : Table κ ν) (position : Nat) (value : ν) :
    (t.setValue position value).keys = t.keys := by
  cases found : t.entry? position with
  | none => rw [setValue, found]
  | some e =>
    obtain ⟨before, after, all, set, -⟩ := toList_cut found
    simp [keys, set, all]

theorem mem_keys_place {t : Table Value Value} {hash : HashCode} {key value stored : Value}
    {found : Option Nat} (mem : stored ∈ (t.place hash key value found).keys) :
    stored ∈ t.keys ∨ stored = key := by
  cases found with
  | some position => exact .inl (keys_setValue t position value ▸ mem)
  | none => simpa [place, keys, toList_insertNew] using mem

end Table

theorem DictRef.set_eq_search (h : Hooks) (r : DictRef) (key value : Value) :
    r.set h key value = r.search h key >>= fun at_ => r.placeAt at_.1 key value at_.2 := by
  simp only [DictRef.set, DictRef.search, bind_assoc, pure_bind]
  refine congrArg (Protocol.hash h key >>= ·) (funext fun hash => ?_)
  refine congrArg (r.lookup h key hash >>= ·) (funext fun found => ?_)
  cases found <;> rfl

/-- The run ends as the outcome says, in a calm state, and leaves its table in the dictionary. The other
dictionaries stay as they are. -/
def Settles (calm : World → Prop) (r : DictRef) (w : World) (x : Run Unit)
    (outcome : Outcome (Table Value Value)) : Prop :=
  ∃ o w', x w = (outcome.map fun _ => (), w') ∧ calm w' ∧
    w'.store.dicts = w.store.dicts.setIfInBounds r.number o ∧ ∀ t, outcome = .ok t → o.table = t

theorem Settles.of_same {calm : World → Prop} {r : DictRef} {w w' : World} {x : Run Unit}
    {outcome : Outcome (Table Value Value)} {o : DictObject} (live : w.dict? r = some o)
    (ran : x w = (outcome.map fun _ => (), w')) (quiet : calm w') (dicts : w'.store.dicts = w.store.dicts)
    (kept : ∀ t, outcome = .ok t → o.table = t) : Settles calm r w x outcome := by
  refine ⟨o, w', ran, quiet, dicts.trans ?_, kept⟩
  exact (congrArg (·.store.dicts) (World.putDict_same live)).symm

namespace SteadyKeys

variable {k : KeyOutcomes} {h : Hooks} {calm : World → Prop} {IsKey : Value → Prop}
  {changes : DictRef → Prop} (steady : SteadyKeys k h calm IsKey changes) {key : Value}
  {dicts : Array DictObject} {r : DictRef} {o : DictObject} {w : World}

include steady

theorem findCandidate (isKey : IsKey key) (candidates : List (Nat × Value))
    (areKeys : ∀ c ∈ candidates, IsKey c.2) :
    Run.Comes (fun w => calm w ∧ w.store.dicts = dicts) (DictRef.findCandidate h key candidates)
      (k.find key candidates) := by
  induction candidates with
  | nil => exact Run.comes_pure none
  | cons c rest ih =>
    obtain ⟨position, stored⟩ := c
    rw [DictRef.findCandidate, KeyOutcomes.find]
    split
    · exact Run.comes_pure _
    · apply Run.comes_bind (steady.equal (areKeys _ List.mem_cons_self) isKey dicts)
      intro equal
      split
      · exact Run.comes_pure _
      · exact ih fun c mem => areKeys c (List.mem_cons_of_mem _ mem)

/-- No comparison changes the version, so the first attempt counts. -/
theorem lookup (isKey : IsKey key) (held : ∀ stored ∈ o.table.keys, IsKey stored)
    (live : dicts[r.number]? = some o) (hash : HashCode) :
    Run.Comes (fun w => calm w ∧ w.store.dicts = dicts) (r.lookup h key hash)
      (k.find key (o.table.candidates hash)) := by
  intro w quiet
  have liveAt {w : World} (same : w.store.dicts = dicts) : w.dict? r = some o := by
    rw [World.dict?, same, live]
  have walk : Run.Comes (fun w => calm w ∧ w.store.dicts = dicts)
      (DictRef.findCandidate h key (o.table.candidates hash)) (k.find key (o.table.candidates hash)) :=
    steady.findCandidate isKey _ fun c mem => held c.2 (Table.mem_keys_of_candidate mem)
  obtain ⟨w₁, walked, quiet₁⟩ := walk w quiet
  have once : r.lookupOnce h key hash w = ((k.find key (o.table.candidates hash)).map some, w₁) := by
    rw [DictRef.lookupOnce, Run.bind_ok (DictRef.object_apply (liveAt quiet.2)), Run.bind_apply, walked]
    cases k.find key (o.table.candidates hash) with
    | ok found =>
      dsimp only
      rw [Run.bind_ok (DictRef.version_apply (liveAt quiet₁.2)), if_pos rfl]
      rfl
    | error e => rfl
    | outOfFuel => rfl
  refine ⟨w₁, ?_, quiet₁⟩
  unfold DictRef.lookup
  cases h.fuel
  all_goals
    rw [DictRef.lookupLoop, Run.bind_apply, once]
    cases k.find key (o.table.candidates hash) <;> rfl

theorem search (isKey : IsKey key) (held : ∀ stored ∈ o.table.keys, IsKey stored)
    (live : dicts[r.number]? = some o) :
    Run.Comes (fun w => calm w ∧ w.store.dicts = dicts) (r.search h key) (k.search o.table key) := by
  apply Run.comes_bind (steady.hash isKey dicts)
  intro hash
  exact Run.comes_bind (steady.lookup isKey held live hash) fun found => Run.comes_pure _

theorem place (quiet : calm w) (changed : changes r) (live : w.dict? r = some o) (hash : HashCode)
    (key value : Value) (found : Option Nat) :
    ∃ o', o'.table = o.table.place hash key value found ∧
      r.placeAt hash key value found w = (.ok (), w.putDict r o') ∧ calm (w.putDict r o') := by
  have still (o' : DictObject) : calm (w.putDict r o') := steady.put quiet changed o'
  cases found with
  | some position =>
    have ran := DictRef.modify_apply live (·.setValue position value)
    exact ⟨o.changed (·.setValue position value), rfl, ran, still _⟩
  | none =>
    have ran := DictRef.modify_apply live (·.insertNew hash key value)
    exact ⟨o.changed (·.insertNew hash key value), rfl, ran, still _⟩

theorem setAll (entries : List (Value × Value)) (quiet : calm w) (changed : changes r) (live : w.dict? r = some o)
    (held : ∀ stored ∈ o.table.keys, IsKey stored) (areKeys : ∀ e ∈ entries, IsKey e.1) :
    Settles calm r w (r.setAll h entries) (k.setAll o.table entries) := by
  induction entries generalizing w o with
  | nil => exact .of_same live rfl quiet rfl fun t ok => Outcome.ok.inj ok
  | cons e rest ih =>
    obtain ⟨key, value⟩ := e
    have isKey : IsKey key := areKeys (key, value) List.mem_cons_self
    obtain ⟨w₁, searched, quiet₁, dicts⟩ := steady.search isKey held live w ⟨quiet, rfl⟩
    have step : r.setAll h ((key, value) :: rest) w =
        (r.search h key >>= (fun at_ => r.placeAt at_.1 key value at_.2) >>= fun _ => r.setAll h rest) w := by
      rw [DictRef.setAll, DictRef.set_eq_search]
    rw [KeyOutcomes.setAll]
    cases found : k.search o.table key with
    | error e =>
      rw [found] at searched
      exact .of_same live (step.trans (Run.bind_error (Run.bind_error searched))) quiet₁ dicts
        (by rintro t ⟨⟩)
    | outOfFuel =>
      rw [found] at searched
      exact .of_same live (step.trans (Run.bind_outOfFuel (Run.bind_outOfFuel searched))) quiet₁ dicts
        (by rintro t ⟨⟩)
    | ok at_ =>
      obtain ⟨hash, position⟩ := at_
      rw [found] at searched
      have live₁ : w₁.dict? r = some o := (World.dict?_of_dicts_eq dicts).trans live
      obtain ⟨o₂, table, placed, quiet₂⟩ := steady.place quiet₁ changed live₁ hash key value position
      have held₂ : ∀ stored ∈ o₂.table.keys, IsKey stored := by
        intro stored mem
        rcases Table.mem_keys_place (table ▸ mem) with there | rfl
        · exact held stored there
        · exact isKey
      obtain ⟨o₃, w₃, ran, quiet₃, dicts₃, settled⟩ :=
        ih quiet₂ (World.dict?_putDict live₁ o₂) held₂ fun e mem => areKeys e (List.mem_cons_of_mem _ mem)
      rw [table] at ran settled
      refine ⟨o₃, w₃, ?_, quiet₃, ?_, settled⟩
      · rw [step, Run.bind_ok ((Run.bind_ok searched).trans placed)]
        exact ran
      · rw [dicts₃, World.putDict, dicts, Array.setIfInBounds_setIfInBounds]

end SteadyKeys

namespace Run

/-- The run ends as the outcome says, with its table in a fresh dictionary, and the dictionaries that were
there are as they were. -/
def MakesUnion (w : World) (merged : Outcome (Table Value Value)) (x : Run Value) : Prop :=
  ∃ made w', x w = (merged.map fun _ => .dict made, w') ∧ w.dict? made = none ∧
    (∀ t, merged = .ok t → w'.store.contents? (.dict made) = some (.entries t)) ∧
    ∀ r o, w.dict? r = some o → w'.dict? r = some o

/-- The run ends as the outcome says, with its table in the dictionary that it answers with, and the other
dictionaries are as they were. -/
def TurnsIntoUnion (w : World) (r : DictRef) (merged : Outcome (Table Value Value)) (x : Run Value) : Prop :=
  ∃ w', x w = (merged.map fun _ => .dict r, w') ∧
    (∀ t, merged = .ok t → w'.store.contents? (.dict r) = some (.entries t)) ∧
    ∀ other, other ≠ r → w'.dict? other = w.dict? other

end Run

/-- A union and the union in place come to the same entries in the same order, or fail alike. -/
structure UnionsAgree (w : World) (r : DictRef) (merged : Outcome (Table Value Value))
    (plain inPlace : Run Value) : Prop where
  plain : Run.MakesUnion w merged plain
  inPlace : Run.TurnsIntoUnion w r merged inPlace

theorem World.contents?_dict {w : World} {r : DictRef} {o : DictObject} (live : w.dict? r = some o) :
    w.store.contents? (.dict r) = some (.entries o.table) :=
  Option.map_eq_some_iff.mpr ⟨o, live, rfl⟩

theorem World.dict?_of_set {w w' : World} {r : DictRef} {o o' : DictObject} (live : w.dict? r = some o)
    (put : w'.store.dicts = w.store.dicts.setIfInBounds r.number o') :
    w'.dict? r = some o' ∧ ∀ other, other ≠ r → w'.dict? other = w.dict? other := by
  have bound := (Array.getElem?_eq_some_iff.mp live).1
  constructor
  · rw [World.dict?, put]
    simp [bound]
  · intro other apart
    have numbers : r.number ≠ other.number := fun same => apart (by cases r; cases other; simp_all)
    rw [World.dict?, put, Array.getElem?_setIfInBounds_ne numbers, World.dict?]

namespace SteadyKeys

variable {k : KeyOutcomes} {h : Hooks} {calm : World → Prop} {IsKey : Value → Prop}
  {changes : DictRef → Prop} (steady : SteadyKeys k h calm IsKey changes) {r r' : DictRef}
  {o o' : DictObject} {w : World}

include steady

theorem update (quiet : calm w) (changed : changes r) (live : w.dict? r = some o)
    (live' : w.dict? r' = some o') (held : ∀ stored ∈ o.table.keys, IsKey stored)
    (held' : ∀ stored ∈ o'.table.keys, IsKey stored) :
    Settles calm r w (r.update h (.dict r')) (k.setAll o.table o'.table.pairs) := by
  have read : r'.pairs w = (.ok o'.table.pairs, w) := Run.bind_ok (DictRef.table_apply live')
  have areKeys : ∀ e ∈ o'.table.pairs, IsKey e.1 := by
    intro e mem
    obtain ⟨entry, there, rfl⟩ := List.mem_map.mp mem
    exact held' entry.key (List.mem_map_of_mem there)
  obtain ⟨o₁, w₁, ran, settled⟩ := steady.setAll o'.table.pairs quiet changed live held areKeys
  exact ⟨o₁, w₁, (Run.bind_ok read).trans ran, settled⟩

/-- The two may be one dictionary: its entries are read before the first is set, and setting them in a
copy is like setting them in it. -/
theorem unions_agree (quiet : calm w) (changed : changes r) (made : changes ⟨w.store.dicts.size⟩)
    (live : w.dict? r = some o) (live' : w.dict? r' = some o')
    (held : ∀ stored ∈ o.table.keys, IsKey stored) (held' : ∀ stored ∈ o'.table.keys, IsKey stored) :
    UnionsAgree w r (k.setAll o.table o'.table.pairs)
      (DictRef.orSlot h [.dict r, .dict r']) (DictRef.inPlaceOrSlot h [.dict r, .dict r']) := by
  constructor
  · let copy : DictRef := ⟨w.store.dicts.size⟩
    let w₁ : World := { w with store := (w.store.addDict o.table).2 }
    have copied : r.copy w = (.ok copy, w₁) := by
      rw [DictRef.copy, Run.bind_ok (DictRef.table_apply live)]
      rfl
    have pushed : w₁.store.dicts = w.store.dicts.push ⟨w.store.nextId, o.table, 0⟩ := rfl
    have fresh : w₁.dict? copy = some ⟨w.store.nextId, o.table, 0⟩ := by
      rw [World.dict?, pushed]
      exact Array.getElem?_push_size
    have kept {other : DictRef} {object : DictObject} (there : w.dict? other = some object) :
        other ≠ copy ∧ w₁.dict? other = some object := by
      have bound := (Array.getElem?_eq_some_iff.mp there).1
      refine ⟨fun same => absurd (congrArg DictRef.number same) (Nat.ne_of_lt bound), ?_⟩
      rw [World.dict?, pushed, Array.getElem?_push_lt bound]
      exact (Array.getElem?_eq_getElem bound).symm.trans there
    have settled := steady.update (steady.copy quiet o.table) made fresh (kept live').2 held held'
    obtain ⟨o₂, w₂, ran, -, put, table⟩ := settled
    obtain ⟨now, others⟩ := World.dict?_of_set fresh put
    have slot : DictRef.orSlot h [.dict r, .dict r'] =
        r.copy >>= fun merged => merged.update h (.dict r') >>= fun _ => pure (.dict merged) := rfl
    refine ⟨copy, w₂, ?_, Array.getElem?_size, ?_, ?_⟩
    · rw [slot, Run.bind_ok copied]
      exact Run.bind_pure_apply ran fun _ => Value.dict copy
    · intro t ok
      rw [World.contents?_dict now, table t ok]
    · intro other object there
      obtain ⟨apart, there₁⟩ := kept there
      exact (others other apart).trans there₁
  · obtain ⟨o₁, w₁, ran, -, put, table⟩ := steady.update quiet changed live live' held held'
    obtain ⟨now, others⟩ := World.dict?_of_set live put
    have slot : DictRef.inPlaceOrSlot h [.dict r, .dict r'] =
        r.update h (.dict r') >>= fun _ => pure (.dict r) := rfl
    refine ⟨w₁, ?_, ?_, others⟩
    · rw [slot]
      exact Run.bind_pure_apply ran fun _ => Value.dict r
    · intro t ok
      rw [World.contents?_dict now, table t ok]

end SteadyKeys

theorem DictRef.offers_or : Kind.dict.Offers .or orSlot inPlaceOrSlot := ⟨rfl, rfl⟩

/-- A union and the union in place come to the same, as slots in calm states and as operators that
programs use. -/
structure UnionOperatorsAgree (code : UserCode) (n : Nat) (calm : World → Prop) (w : World) (r r' : DictRef)
    (merged : Outcome (Table Value Value)) : Prop where
  slots : Kind.dict.Offers .or DictRef.orSlot DictRef.inPlaceOrSlot ∧
    (calm w → UnionsAgree w r merged (DictRef.orSlot (code.hooks UserCode.plain n) [.dict r, .dict r'])
      (DictRef.inPlaceOrSlot (code.hooks UserCode.plain n) [.dict r, .dict r']))
  operators : w.dispatcher.Reached → w.HasRoom → calm (w.entering (.binary .or) [.dict r, .dict r']) →
    calm (w.entering (.inPlace .or) [.dict r, .dict r']) →
    UnionsAgree w r merged (Protocol.binary (code.hooks UserCode.plain (n + 1)) .or (.dict r) (.dict r'))
      (Protocol.inPlace (code.hooks UserCode.plain (n + 1)) .or (.dict r) (.dict r'))

theorem union_operators_agree {code : UserCode} {n : Nat} {k : KeyOutcomes} {calm : World → Prop}
    {IsKey : Value → Prop} {w : World} {r r' : DictRef} {o o' : DictObject}
    (steady : SteadyKeys k (code.hooks UserCode.plain n) calm IsKey fun d =>
      d = r ∨ d = ⟨w.store.dicts.size⟩) (live : w.dict? r = some o) (live' : w.dict? r' = some o')
    (held : ∀ stored ∈ o.table.keys, IsKey stored) (held' : ∀ stored ∈ o'.table.keys, IsKey stored) :
    UnionOperatorsAgree code n calm w r r' (k.setAll o.table o'.table.pairs) := by
  have agree {w' : World} (same : w'.store = w.store) (quiet : calm w') :=
    steady.unions_agree quiet (.inl rfl) (.inr (same ▸ rfl)) (same ▸ live : w'.store.dicts[r.number]? = some o)
      (same ▸ live' : w'.store.dicts[r'.number]? = some o') held held'
  have answers {made : DictRef} (v : Value)
      (ok : (k.setAll o.table o'.table.pairs).map (fun _ => Value.dict made) = .ok v) :
      v.isNotImplemented = false := by
    cases merged : k.setAll o.table o'.table.pairs <;> rw [merged] at ok <;> cases ok
    rfl
  have slots : (Value.dict r).kind.Offers .or DictRef.orSlot DictRef.inPlaceOrSlot := DictRef.offers_or
  refine ⟨⟨slots, agree rfl⟩, fun reached room quiet quiet' => ⟨?_, ?_⟩⟩
  · have same := UserCode.store_entering w (.binary .or) [.dict r, .dict r']
    obtain ⟨made, w₁, ran, fresh, holds, kept⟩ := (agree same quiet).plain
    obtain ⟨w', store, ended⟩ := UserCode.binary_entered slots.plain rfl reached room ran answers
    refine ⟨made, w', ended, ?_, ?_, ?_⟩
    · rwa [World.dict?_of_dicts_eq (congrArg Store.dicts same)] at fresh
    · exact fun t ok => store ▸ holds t ok
    · intro other object there
      rw [← World.dict?_of_dicts_eq (congrArg Store.dicts same)] at there
      rw [World.dict?_of_dicts_eq (congrArg Store.dicts store)]
      exact kept other object there
  · have same := UserCode.store_entering w (.inPlace .or) [.dict r, .dict r']
    obtain ⟨w₁, ran, holds, others⟩ := (agree same quiet').inPlace
    obtain ⟨w', store, ended⟩ := UserCode.inPlace_entered slots.inPlace rfl reached room ran answers
    refine ⟨w', ended, ?_, ?_⟩
    · exact fun t ok => store ▸ holds t ok
    · intro other apart
      rw [World.dict?_of_dicts_eq (congrArg Store.dicts store),
        ← World.dict?_of_dicts_eq (congrArg Store.dicts same)]
      exact others other apart

end DynamicObjects
