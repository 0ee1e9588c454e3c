import DynamicObjects.Proofs.Dicts.Searching
import DynamicObjects.Proofs.Dispatch

/-!
Calls on a dictionary while other code calls it too. The code that hashes, compares and prints keys
may do whatever it likes elsewhere and may call the same dictionary, to any depth, as long as it
never lies about keys. Then the dictionary stays sound throughout, a call that ends well takes effect
in one step on the dictionary as it is at that moment, and a call that fails has changed nothing.
-/
namespace DynamicObjects

/-- What may happen during a call before it takes effect: the other code that it runs, and nothing
else. -/
def DictCall.Waits (keys : KeySpace) (h : Hooks) (c : DictCall) (w w' : World) : Prop :=
  match c.key? with
  | some key => Calls keys h key w w'
  | none => w' = w

/-- The call asks for a key, and from here on other code does not lie about it. -/
def DictCall.Truthful (keys : KeySpace) (h : Hooks) (c : DictCall) (w : World) : Prop :=
  ∀ key, c.key? = some key → keys.IsKey key ∧ DynamicObjects.Truthful keys h key w

/-- What code may do as far as one dictionary is concerned: leave it alone, call it, and one thing
after the other. The code that a call runs may do the same. -/
inductive Reaches (keys : KeySpace) (r : DictRef) : World → World → Prop
  | elsewhere {w w' : World} (same : w'.dict? r = w.dict? r) : Reaches keys r w w'
  | call {w : World} (h : Hooks) (c : DictCall) (truthful : c.Truthful keys h w)
    (inner : ∀ key, c.key? = some key → ∀ w₁ w₂, Calls keys h key w w₁ →
      Callback keys h key w₁ w₂ → Reaches keys r w₁ w₂) :
    Reaches keys r w (c.run h r w).2
  | trans {w₁ w₂ w₃ : World} (first : Reaches keys r w₁ w₂) (second : Reaches keys r w₂ w₃) :
    Reaches keys r w₁ w₃

instance (keys : KeySpace) (r : DictRef) : IsPreorder World (Reaches keys r) where
  refl _ := .elsewhere rfl
  trans _ _ _ first second := .trans first second

instance (keys : KeySpace) (r : DictRef) : Unconcerned (Reaches keys r) :=
  .of_store fun same => .elsewhere (World.dict?_of_dicts_eq (congrArg Store.dicts same))

/-- How a call ends. With an answer: other code ran, and then the call took effect. Without one:
other code ran, and that is all; only an attempt to remove an entry where there is none is counted. -/
def DictCall.EndsRight (keys : KeySpace) (h : Hooks) (r : DictRef) (c : DictCall) (w : World) :
    Outcome DictAnswer × World → Prop
  | (.ok a, w') => ∃ w₁, c.Waits keys h w w₁ ∧ c.Commits keys r w₁ a w'
  | (_, w') => c.Waits keys h w w' ∨
    ∃ o, w.dict? r = some o ∧ c.apply keys o.table.pairs = (.error .noEntries, o.table.pairs) ∧
      w' = w.putDict r (o.changed id)

variable {keys : KeySpace} {h : Hooks} {r : DictRef} {c : DictCall} {w w' : World}

theorem endsRight_of_search {key : Value} (hkey : c.key? = some key)
    (s : Searchable keys h r key w) : c.EndsRight keys h r w (c.run h r w) := by
  have waits : ∀ {w₁}, Calls keys h key w w₁ → c.Waits keys h w w₁ := by
    intro w₁ calls
    simpa [DictCall.Waits, hkey] using calls
  obtain ⟨searched, located⟩ := search_ends s
  rw [DictCall.run_eq_search h r hkey]
  refine Run.bind_cases (R := c.EndsRight keys h r w) ?_ ?_ ?_
  · rintro ⟨code, found⟩ w₁ ended
    rw [ended] at searched located
    obtain ⟨rfl, o, live, sound, locates⟩ := located (code, found) rfl
    rcases DictCall.finish_cases live sound h hkey s.isKey locates with
      ⟨a, w', finished, commits⟩ | ⟨-, finished⟩
    · rw [finished]
      exact ⟨w₁, waits searched, commits⟩
    · rw [finished, raiseMissing_apply]
      have printed := waits (searched.tail (.repr w₁))
      cases (Protocol.repr h key w₁).1 <;> exact .inl printed
  · intro e w₁ ended
    rw [ended] at searched
    exact .inl (waits searched)
  · intro w₁ ended
    rw [ended] at searched
    exact .inl (waits searched)

theorem run_endsRight {o : DictObject} (live : w.dict? r = some o) (sound : o.table.Sound keys)
    (keyed : ∀ key, c.key? = some key → Searchable keys h r key w) :
    c.EndsRight keys h r w (c.run h r w) := by
  cases hkey : c.key? with
  | some key => exact endsRight_of_search hkey (keyed key hkey)
  | none =>
    rcases DictCall.run_cases_of_no_key live sound h hkey with
      ⟨a, w', ran, commits⟩ | ⟨applied, ran⟩
    · rw [ran]
      exact ⟨w, by simp [DictCall.Waits, hkey], commits⟩
    · rw [ran]
      exact .inr ⟨o, live, applied, rfl⟩

theorem evolves_of_commits {a : DictAnswer} (commits : c.Commits keys r w a w') :
    Evolves keys r w w' := by
  obtain ⟨o, o', live, rfl, counted, sound', -⟩ := commits
  intro seen live' _
  obtain rfl : o = seen := Option.some.inj (live.symm.trans live')
  refine ⟨o', World.dict?_putDict live o', sound', ?_, ?_⟩
  · rcases counted with rfl | counted
    · exact Nat.le_refl _
    · omega
  · intro same
    rcases counted with same | counted
    · exact same
    · omega

theorem evolves_of_endsRight {ended : Outcome DictAnswer × World}
    (waiting : ∀ w₁, c.Waits keys h w w₁ → Evolves keys r w w₁)
    (right : c.EndsRight keys h r w ended) : Evolves keys r w ended.2 := by
  have failed : ∀ w', (c.Waits keys h w w' ∨ ∃ o, w.dict? r = some o ∧
      c.apply keys o.table.pairs = (.error .noEntries, o.table.pairs) ∧
      w' = w.putDict r (o.changed id)) → Evolves keys r w w' := by
    rintro w' (waits | ⟨o, live, -, rfl⟩)
    · exact waiting w' waits
    · intro seen live' sound
      obtain rfl : o = seen := Option.some.inj (live.symm.trans live')
      refine ⟨o.changed id, World.dict?_putDict live _, sound, Nat.le_succ _, ?_⟩
      intro same
      exact absurd same (Nat.succ_ne_self _)
  obtain ⟨outcome, w'⟩ := ended
  cases outcome with
  | ok a =>
    obtain ⟨w₁, waits, commits⟩ := right
    exact trans_of (Evolves keys r) (waiting w₁ waits) (evolves_of_commits commits)
  | error e => exact failed w' right
  | outOfFuel => exact failed w' right

def DictCall.Behaved (keys : KeySpace) (h : Hooks) (r : DictRef) (c : DictCall) (w : World) :
    Prop :=
  c.Truthful keys h w ∧ ∀ key, c.key? = some key → ∀ w₁ w₂, Calls keys h key w w₁ →
    Callback keys h key w₁ w₂ → Reaches keys r w₁ w₂

theorem searchable_of_behaved {o : DictObject} (live : w.dict? r = some o)
    (sound : o.table.Sound keys) (truthful : c.Truthful keys h w)
    (inner : ∀ key, c.key? = some key → ∀ w₁ w₂, Calls keys h key w w₁ →
      Callback keys h key w₁ w₂ → Evolves keys r w₁ w₂) :
    ∀ key, c.key? = some key → Searchable keys h r key w := by
  intro key hkey
  exact ⟨(truthful key hkey).1, (truthful key hkey).2, inner key hkey, o, live, sound⟩

theorem Searchable.evolves_waits (keyed : ∀ key, c.key? = some key → Searchable keys h r key w)
    (w₁ : World) (waits : c.Waits keys h w w₁) : Evolves keys r w w₁ := by
  unfold DictCall.Waits at waits
  split at waits
  next key hkey => exact (keyed key hkey).evolves_calls waits
  next => exact waits ▸ refl_of (Evolves keys r) w

/-- The invariant: whatever is reached, a sound dictionary is sound there. The induction follows the
nesting of the calls, so the code inside a call is known to be harmless when the call is looked at. -/
theorem Reaches.evolves (reached : Reaches keys r w w') : Evolves keys r w w' := by
  induction reached with
  | elsewhere same =>
    intro o live sound
    exact ⟨o, same.trans live, sound, Nat.le_refl _, fun _ => rfl⟩
  | call h c truthful inner ih =>
    intro o live sound
    have keyed := searchable_of_behaved live sound truthful ih
    exact evolves_of_endsRight (Searchable.evolves_waits keyed) (run_endsRight live sound keyed) o
      live sound
  | trans first second ih₁ ih₂ => exact trans_of (Evolves keys r) ih₁ ih₂

theorem Callback.within {R : World → World → Prop} [IsPreorder World R] [Unconcerned R] {key : Value}
    (hooks : h.Within R) (call : Callback keys h key w w') : R w w' := by
  cases call with
  | hash => exact Protocol.hash_within hooks key w
  | equals => exact Protocol.equals_within hooks _ key w
  | repr => exact Protocol.repr_within hooks key w

theorem behaved_of_hooks (truthful : c.Truthful keys h w) (hooks : h.Within (Reaches keys r)) :
    c.Behaved keys h r w :=
  ⟨truthful, fun _ _ _ _ _ call => call.within hooks⟩

theorem reaches_of_waits (behaved : c.Behaved keys h r w) (waits : c.Waits keys h w w') :
    Reaches keys r w w' := by
  unfold DictCall.Waits at waits
  split at waits
  next key hkey =>
    induction waits with
    | refl => exact .elsewhere rfl
    | tail before call ih => exact .trans ih (behaved.2 key hkey _ _ before call)
  next => exact waits ▸ .elsewhere rfl

theorem set_of_commits {key value : Value} {a : DictAnswer} (isKey : keys.IsKey key)
    (commits : (DictCall.set key value).Commits keys r w a w') :
    ∃ o o', w.dict? r = some o ∧ w'.dict? r = some o' ∧
      Association.get? keys o'.table.pairs key = some value ∧
      Association.erase keys o'.table.pairs key = Association.erase keys o.table.pairs key := by
  obtain ⟨o, o', live, rfl, -, -, applied⟩ := commits
  have pairs : Association.set keys o.table.pairs key value = o'.table.pairs :=
    congrArg Prod.snd applied
  refine ⟨o, o', live, World.dict?_putDict live o', ?_, ?_⟩
  · rw [← pairs, Association.get?_set isKey]
  · rw [← pairs, Association.erase_set isKey]

/-- From a sound dictionary on, in every state that code can reach, also in the middle of calls: no
two entries have equal keys. A call made there takes effect in one step, if it ends with an answer,
and that answer and the pairs afterwards are right for the dictionary as it is at that step; for `set`
this means that the key has the value and that all other entries are as they were right before. If
the call ends in any other way, it has changed nothing itself. -/
theorem reentrant_calls {w₀ : World} {o₀ : DictObject} (live : w₀.dict? r = some o₀)
    (sound : o₀.table.Sound keys) (reached : Reaches keys r w₀ w) :
    (∃ o, w.dict? r = some o ∧ Association.Distinct keys o.table.pairs) ∧
    ∀ h c, DictCall.Behaved keys h r c w →
      (∀ w₁, c.Waits keys h w w₁ → Reaches keys r w₀ w₁) ∧
      c.EndsRight keys h r w (c.run h r w) ∧
      ∀ key value a w', c = .set key value → c.run h r w = (.ok a, w') →
        ∃ w₁ o o', c.Waits keys h w w₁ ∧ w₁.dict? r = some o ∧ w'.dict? r = some o' ∧
          Association.get? keys o'.table.pairs key = some value ∧
          Association.erase keys o'.table.pairs key =
            Association.erase keys o.table.pairs key := by
  obtain ⟨o, live', sound', -⟩ := reached.evolves o₀ live sound
  refine ⟨⟨o, live', sound'.distinct⟩, ?_⟩
  intro h c behaved
  have keyed := searchable_of_behaved live' sound' behaved.1 fun key hkey w₁ w₂ calls call =>
    (behaved.2 key hkey w₁ w₂ calls call).evolves
  have right := run_endsRight live' sound' keyed
  refine ⟨fun w₁ waits => reached.trans (reaches_of_waits behaved waits), right, ?_⟩
  rintro key value a w' rfl ran
  rw [ran] at right
  obtain ⟨w₁, waits, commits⟩ := right
  obtain ⟨o₁, o', live₁, live₂, gets, others⟩ := set_of_commits (behaved.1 key rfl).1 commits
  exact ⟨w₁, o₁, o', waits, live₁, live₂, gets, others⟩

/-- Empty tuples as keys, told apart by their identity. All of them have one hash code. -/
def KeySpace.emptyTuples : KeySpace where
  IsKey v := ∃ id, v = .tuple id []
  code _ := HashCode.ofTuple []
  equal a b := a.isSame b
  equal_refl _ := Value.isSame_refl _
  equal_symm := by
    rintro _ _ ⟨a, rfl⟩ ⟨b, rfl⟩ same
    simp only [Value.isSame, beq_iff_eq] at *
    exact same.symm
  equal_trans := by
    rintro _ _ _ ⟨a, rfl⟩ ⟨b, rfl⟩ ⟨c, rfl⟩ first second
    simp only [Value.isSame, beq_iff_eq] at *
    exact first.trans second
  code_eq _ _ _ := rfl

/-- Code that clears a dictionary whenever it is asked to compare two values by identity. -/
def Hooks.clearing (r : DictRef) : Hooks where
  fuel := 1
  hasSlot _ _ := true
  builtin _ _ args := do
    r.clear
    match args with
    | [a, b] => return .bool (a.isSame b)
    | _ => Run.outOfFuel
  invoke _ _ := Run.outOfFuel
  enumerate _ := Run.outOfFuel

theorem clearing_within (keys : KeySpace) (r : DictRef) :
    (Hooks.clearing r).Within (Reaches keys r) where
  builtin kind op args := by
    refine Run.within_bind ?_ fun _ => ?_
    · intro w
      exact .call .silent .clear nofun nofun
    · split
      · exact Run.within_pure _
      · exact Run.within_outOfFuel
  invoke _ _ := Run.within_outOfFuel

theorem clearing_keepsClean (r : DictRef) : (Hooks.clearing r).Within KeepsClean where
  builtin kind op args := by
    refine Run.within_bind (fun w => id) fun _ => ?_
    split
    · exact Run.within_pure _
    · exact Run.within_outOfFuel
  invoke _ _ := Run.within_outOfFuel

section Clearing

variable {a b key : Value}

theorem callSlot_clearing (clean : NoMembers w) {op : Operation} (called : op.readsMember = false) :
    Run.Ends KeepsClean (fun v _ => v = .bool (a.isSame b) ∨ v = .notImplemented) w
      (Protocol.callSlot (.clearing r) op [a, b]) := by
  refine ⟨Protocol.callSlot_within (clearing_keepsClean r) called _ w, ?_⟩
  intro v answered
  obtain ⟨t, w₁, resolved, ran⟩ := Run.bind_eq_ok (Prod.ext answered rfl)
  have target : ∀ v, t.target ≠ .member v := by
    have made : (w.dispatcher.resolve (Hooks.clearing r).hasSlot op
        (Protocol.receiver [a, b]).typeKey).1 = t := Outcome.ok.inj (Prod.mk.inj resolved).1
    exact made ▸ (resolve_noMembers clean _ called _).1
  refine Protocol.callThunk_returns
    (Q := fun v => v = .bool (a.isSame b) ∨ v = .notImplemented) ?_ w₁ v _ ran
  unfold Protocol.runTarget
  split
  · refine Run.returns_bind (Run.returns_true _) fun _ _ => ?_
    exact Run.returns_pure (.inl rfl)
  · exact Run.returns_raise _
  · exact Run.returns_outOfFuel
  · next value member => exact absurd member (target value)
  · cases missing : t.missing with
    | error e => exact Run.returns_raise e
    | ok v =>
      refine Run.returns_pure (.inr ?_)
      unfold Thunk.missing at missing
      split at missing <;> simp_all

theorem compare_clearing (clean : NoMembers w) (ha : KeySpace.emptyTuples.IsKey a)
    (hb : KeySpace.emptyTuples.IsKey b) :
    Run.Ends KeepsClean (fun v _ => v = .bool (a.isSame b)) w
      (Protocol.compare (.clearing r) .eq a b) := by
  obtain ⟨i, rfl⟩ := ha
  obtain ⟨j, rfl⟩ := hb
  refine Run.ends_bind (P := fun order _ => order = none)
    (Run.ends_of_ok rfl (refl_of KeepsClean w) rfl) ?_
  rintro _ w₁ kept rfl
  refine Run.ends_bind (callSlot_clearing (kept clean) rfl) fun forward w₂ kept' answer => ?_
  rcases answer with rfl | rfl
  · exact Run.ends_of_ok rfl (refl_of KeepsClean w₂) rfl
  refine Run.ends_bind (callSlot_clearing (kept' (kept clean)) rfl) fun reflected w₃ _ answer => ?_
  rcases answer with rfl | rfl
  · refine Run.ends_of_ok rfl (refl_of KeepsClean w₃) ?_
    rw [Value.isSame, Value.isSame, Bool.beq_comm]
  · exact Run.ends_of_ok rfl (refl_of KeepsClean w₃) rfl

theorem equals_clearing (clean : NoMembers w) (ha : KeySpace.emptyTuples.IsKey a)
    (hb : KeySpace.emptyTuples.IsKey b) :
    Run.Ends KeepsClean (fun answer _ => answer = a.isSame b) w
      (Protocol.equals (.clearing r) a b) := by
  unfold Protocol.equals
  split
  next same => exact Run.ends_of_ok rfl (refl_of KeepsClean w) same.symm
  next =>
    have decided : ∀ s : Store, s.intrinsicEq? a b = none := by
      obtain ⟨i, rfl⟩ := ha
      obtain ⟨j, rfl⟩ := hb
      exact fun _ => rfl
    refine Run.ends_bind (P := fun answer _ => answer = none)
      (Run.ends_of_ok rfl (refl_of KeepsClean w) (decided w.store)) ?_
    rintro _ w₁ kept rfl
    refine Run.ends_bind (compare_clearing (kept clean) ha hb) fun v w₂ _ same => ?_
    subst same
    exact Run.ends_of_ok rfl (refl_of KeepsClean w₂) rfl

theorem truthful_clearing (clean : NoMembers w) (isKey : KeySpace.emptyTuples.IsKey key) :
    Truthful KeySpace.emptyTuples (.clearing r) key w := by
  intro w₁ calls
  have clean₁ : NoMembers w₁ := by
    induction calls with
    | refl => exact clean
    | tail _ call ih => exact call.within (clearing_keepsClean r) ih
  constructor
  · intro code w₂ hashed
    obtain ⟨i, rfl⟩ := isKey
    rw [Protocol.hash] at hashed
    refine Run.returns_nested (Q := (· = HashCode.ofTuple [])) ?_ w₁ code w₂ hashed
    rw [Protocol.hashAll]
    exact Run.returns_pure rfl
  · intro stored answer w₂ storedKey compared
    have ends := equals_clearing (r := r) clean₁ storedKey isKey
    unfold Run.Ends at ends
    rw [compared] at ends
    exact ends.2 answer rfl

end Clearing

def singleEntry : DictObject :=
  ⟨257, Table.empty.insertNew (HashCode.ofTuple []) (.tuple 258 []) (.int 1), 0⟩

def World.withEntry : World :=
  { World.blank with store := { Store.empty with dicts := #[singleEntry] } }

def newOnly : Option (List (Value × Value)) → Bool
  | some [(.tuple 259 [], .int 2)] => true
  | _ => false

theorem eq_of_newOnly {entries : Option (List (Value × Value))} (only : newOnly entries = true) :
    entries = some [(.tuple 259 [], .int 2)] := by
  unfold newOnly at only
  split at only
  next => rfl
  next => cases only

/-- Setting another empty tuple has to compare it with the first one, which clears the dictionary; the
search starts over, and only the new key is there in the end. -/
theorem reentrant_calls_clearing :
    DictCall.EndsRight KeySpace.emptyTuples (.clearing ⟨0⟩) ⟨0⟩ (.set (.tuple 259 []) (.int 2))
      .withEntry (DictCall.run (.clearing ⟨0⟩) ⟨0⟩ (.set (.tuple 259 []) (.int 2)) .withEntry) ∧
    ((DictCall.run (.clearing ⟨0⟩) ⟨0⟩ (.set (.tuple 259 []) (.int 2)) .withEntry).2.dict? ⟨0⟩).map
      (·.table.pairs) = some [(.tuple 259 [], .int 2)] := by
  have sound : singleEntry.table.Sound KeySpace.emptyTuples := by
    have absent : Table.empty.Locates KeySpace.emptyTuples (.tuple 258 []) none := by
      simp [Table.Locates, Table.toList_empty]
    exact Table.Sound.insertNew absent Table.sound_empty ⟨258, rfl⟩ (.int 1)
  have clean : NoMembers .withEntry := by
    intro k t v mem
    cases mem
  have truthful : DictCall.Truthful KeySpace.emptyTuples (.clearing ⟨0⟩)
      (.set (.tuple 259 []) (.int 2)) .withEntry := by
    rintro key ⟨⟩
    exact ⟨⟨259, rfl⟩, truthful_clearing clean ⟨259, rfl⟩⟩
  have live : World.withEntry.dict? ⟨0⟩ = some singleEntry := rfl
  have calls := (reentrant_calls live sound (.elsewhere rfl : Reaches _ _ _ .withEntry)).2
  have right := calls (.clearing ⟨0⟩) (.set (.tuple 259 []) (.int 2))
    (behaved_of_hooks truthful (clearing_within _ ⟨0⟩))
  refine ⟨?_, eq_of_newOnly (by decide +kernel)⟩
  generalize DictCall.run (.clearing ⟨0⟩) ⟨0⟩ (.set (.tuple 259 []) (.int 2)) .withEntry = ended
    at right ⊢
  exact right.2.1

end DynamicObjects
