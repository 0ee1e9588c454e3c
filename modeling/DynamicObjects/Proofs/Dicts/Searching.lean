import DynamicObjects.Proofs.Dicts.Calls

/-!
Searching while other code runs. Hashing a key, comparing a stored key with it and printing it may
all run other code, and that code may change the dictionary. A search compares what it saw with the
table as it is when the search ends: an answer is given only if the version is the same, and then
the table is the same too, so the answer locates the key in the table of that moment.
-/
namespace DynamicObjects

/-- One call of other code on behalf of an operation that looks for a key. -/
inductive Callback (keys : KeySpace) (h : Hooks) (key : Value) : World → World → Prop
  | hash (w : World) : Callback keys h key w (Protocol.hash h key w).2
  | equals (w : World) {stored : Value} (isKey : keys.IsKey stored) :
    Callback keys h key w (Protocol.equals h stored key w).2
  | repr (w : World) : Callback keys h key w (Protocol.repr h key w).2

abbrev Calls (keys : KeySpace) (h : Hooks) (key : Value) : World → World → Prop :=
  Relation.ReflTransGen (Callback keys h key)

/-- From here on the answers of other code are those of the key space, whenever it answers. -/
def Truthful (keys : KeySpace) (h : Hooks) (key : Value) (w : World) : Prop :=
  ∀ w₁, Calls keys h key w w₁ →
    (∀ code w₂, Protocol.hash h key w₁ = (.ok code, w₂) → code = keys.code key) ∧
    ∀ stored answer w₂, keys.IsKey stored → Protocol.equals h stored key w₁ = (.ok answer, w₂) →
      answer = keys.equal stored key

/-- What may become of a sound dictionary: it stays sound, the version never falls, and nothing has
changed as long as the version is the same. -/
def Evolves (keys : KeySpace) (r : DictRef) (w w' : World) : Prop :=
  ∀ o, w.dict? r = some o → o.table.Sound keys → ∃ o', w'.dict? r = some o' ∧
    o'.table.Sound keys ∧ o.version ≤ o'.version ∧ (o'.version = o.version → o' = o)

instance (keys : KeySpace) (r : DictRef) : IsPreorder World (Evolves keys r) where
  refl w o live sound := ⟨o, live, sound, Nat.le_refl _, fun _ => rfl⟩
  trans w₁ w₂ w₃ first second o₁ live₁ sound₁ := by
    obtain ⟨o₂, live₂, sound₂, le₂, same₂⟩ := first o₁ live₁ sound₁
    obtain ⟨o₃, live₃, sound₃, le₃, same₃⟩ := second o₂ live₂ sound₂
    refine ⟨o₃, live₃, sound₃, Nat.le_trans le₂ le₃, ?_⟩
    intro same
    have middle : o₂ = o₁ := same₂ (by omega)
    subst middle
    exact same₃ same

/-- A dictionary in which a key can be searched for: the table is sound, and other code neither lies
about keys nor brings the dictionary out of order. -/
structure Searchable (keys : KeySpace) (h : Hooks) (r : DictRef) (key : Value) (w : World) :
    Prop where
  isKey : keys.IsKey key
  truthful : Truthful keys h key w
  evolves : ∀ w₁ w₂, Calls keys h key w w₁ → Callback keys h key w₁ w₂ → Evolves keys r w₁ w₂
  sound : ∃ o, w.dict? r = some o ∧ o.table.Sound keys

variable {keys : KeySpace} {h : Hooks} {r : DictRef} {key : Value} {w w₁ : World}

namespace Searchable

theorem evolves_calls (s : Searchable keys h r key w) (calls : Calls keys h key w w₁) :
    Evolves keys r w w₁ := by
  induction calls with
  | refl => exact refl_of (Evolves keys r) w
  | tail before call ih => exact trans_of (Evolves keys r) ih (s.evolves _ _ before call)

theorem after (s : Searchable keys h r key w) (calls : Calls keys h key w w₁) :
    Searchable keys h r key w₁ where
  isKey := s.isKey
  truthful := fun w₂ more => s.truthful w₂ (calls.trans more)
  evolves := fun w₂ w₃ more call => s.evolves w₂ w₃ (calls.trans more) call
  sound := by
    obtain ⟨o, live, sound⟩ := s.sound
    obtain ⟨o', live', sound', -⟩ := s.evolves_calls calls o live sound
    exact ⟨o', live', sound'⟩

theorem equal_of_isSame (s : Searchable keys h r key w) {stored : Value}
    (isKey : keys.IsKey stored) (same : stored.isSame key) : keys.equal stored key := by
  have answer : Protocol.equals h stored key w = (.ok true, w) := by
    simp [Protocol.equals, same]
  exact ((s.truthful w .refl).2 stored true w isKey answer).symm

end Searchable

def Finds (keys : KeySpace) (key : Value) (candidates : List (Nat × Value)) : Option Nat → Prop
  | some position => ∃ stored, (position, stored) ∈ candidates ∧ keys.equal stored key
  | none => ∀ c ∈ candidates, keys.equal c.2 key = false

theorem Finds.cons {c : Nat × Value} {candidates : List (Nat × Value)} {found : Option Nat}
    (differs : keys.equal c.2 key = false) (rest : Finds keys key candidates found) :
    Finds keys key (c :: candidates) found := by
  cases found with
  | none =>
    intro c' mem
    rcases List.mem_cons.mp mem with rfl | mem
    · exact differs
    · exact rest c' mem
  | some position =>
    obtain ⟨stored, mem, equal⟩ := rest
    exact ⟨stored, List.mem_cons_of_mem _ mem, equal⟩

theorem findCandidate_ends (s : Searchable keys h r key w) (candidates : List (Nat × Value))
    (areKeys : ∀ c ∈ candidates, keys.IsKey c.2) :
    Run.Ends (Calls keys h key) (fun found _ => Finds keys key candidates found) w
      (DictRef.findCandidate h key candidates) := by
  induction candidates generalizing w with
  | nil => exact Run.ends_of_ok rfl .refl nofun
  | cons c rest ih =>
    obtain ⟨position, stored⟩ := c
    have isKey : keys.IsKey stored := areKeys (position, stored) List.mem_cons_self
    rw [DictRef.findCandidate]
    by_cases same : stored.isSame key
    · simp only [same, if_true]
      exact Run.ends_of_ok rfl .refl ⟨stored, List.mem_cons_self, s.equal_of_isSame isKey same⟩
    · simp only [same, Bool.false_eq_true, if_false]
      have compared : Run.Ends (Calls keys h key) (fun answer _ => answer = keys.equal stored key) w
          (Protocol.equals h stored key) :=
        ⟨.single (.equals w isKey), fun answer ok =>
          (s.truthful w .refl).2 stored answer _ isKey (Prod.ext ok rfl)⟩
      refine Run.ends_bind compared fun answer w₁ calls right => ?_
      cases answer with
      | true => exact Run.ends_of_ok rfl .refl ⟨stored, List.mem_cons_self, right.symm⟩
      | false =>
        obtain ⟨more, finds⟩ := ih (s.after calls) fun c mem => areKeys c (List.mem_cons_of_mem _ mem)
        exact ⟨more, fun found ok => (finds found ok).cons right.symm⟩

theorem finds_find? (candidates : List (Nat × Value)) :
    Finds keys key candidates
      ((candidates.find? fun c => keys.equal c.2 key).map Prod.fst) := by
  cases first : candidates.find? fun c => keys.equal c.2 key with
  | none => simpa [Finds] using List.find?_eq_none.mp first
  | some c =>
    have equal := List.find?_some first
    exact ⟨c.2, List.mem_of_find?_eq_some first, equal⟩

theorem locates_of_finds {t : Table Value Value} (sound : t.Sound keys) (isKey : keys.IsKey key)
    {found : Option Nat} (finds : Finds keys key (t.candidates (keys.code key)) found) :
    t.Locates keys key found := by
  cases found with
  | some position =>
    obtain ⟨stored, mem, equal⟩ := finds
    obtain ⟨e, entry, -, rfl⟩ := (Table.mem_candidates sound.valid).mp mem
    exact ⟨e, entry, equal⟩
  | none =>
    intro e mem
    rw [Bool.eq_false_iff]
    intro equal
    obtain ⟨position, entry⟩ := Table.mem_toList_iff.mp mem
    have code : e.hash = keys.code key :=
      (sound.code e mem).trans (keys.code_eq (sound.isKey mem) isKey equal)
    have candidate := (Table.mem_candidates sound.valid).mpr ⟨e, entry, code, rfl⟩
    simp [finds (position, e.key) candidate] at equal

/-- The table of this moment is sound, and the search is right about it. -/
def LocatedAt (keys : KeySpace) (r : DictRef) (key : Value) (found : Option Nat) (w : World) : Prop :=
  ∃ o, w.dict? r = some o ∧ o.table.Sound keys ∧ o.table.Locates keys key found

theorem lookupOnce_ends (s : Searchable keys h r key w) :
    Run.Ends (Calls keys h key)
      (fun answer w' => ∀ found, answer = some found → LocatedAt keys r key found w') w
      (r.lookupOnce h key (keys.code key)) := by
  obtain ⟨o, live, sound⟩ := s.sound
  have areKeys : ∀ c ∈ o.table.candidates (keys.code key), keys.IsKey c.2 :=
    fun c mem => sound.isKey_candidate mem
  refine Run.ends_bind (P := fun seen w₁ => seen = o ∧ w₁ = w)
    (Run.ends_of_ok (DictRef.object_apply live) .refl ⟨rfl, rfl⟩) ?_
  rintro seen w₁ - ⟨rfl, rfl⟩
  refine Run.ends_bind (findCandidate_ends s _ areKeys) ?_
  intro found w₂ calls finds
  obtain ⟨o₂, live₂, -, -, unchanged⟩ := s.evolves_calls calls seen live sound
  refine Run.ends_of_ok (Run.bind_ok (DictRef.version_apply live₂)) .refl ?_
  intro found' answered
  by_cases same : o₂.version = seen.version
  · -- the same version, so the candidates are those of the table as it is now
    have table : o₂ = seen := unchanged same
    subst table
    simp only [if_true, Option.some.injEq] at answered
    subst answered
    exact ⟨o₂, live₂, sound, locates_of_finds sound s.isKey finds⟩
  · simp [same] at answered

theorem lookupLoop_ends (s : Searchable keys h r key w) (retries : Nat) :
    Run.Ends (Calls keys h key) (LocatedAt keys r key) w
      (r.lookupLoop h key (keys.code key) retries) := by
  induction retries generalizing w with
  | zero =>
    rw [DictRef.lookupLoop]
    refine Run.ends_bind (lookupOnce_ends s) fun answer w₁ calls located => ?_
    cases answer with
    | some found => exact Run.ends_of_ok rfl .refl (located found rfl)
    | none => exact Run.ends_of_failure rfl .refl nofun
  | succ retries ih =>
    rw [DictRef.lookupLoop]
    refine Run.ends_bind (lookupOnce_ends s) fun answer w₁ calls located => ?_
    cases answer with
    | some found => exact Run.ends_of_ok rfl .refl (located found rfl)
    | none => exact ih (s.after calls)

/-- A search lets other code run and does nothing else. If it ends well, it has the right hash code
and the right position. -/
theorem search_ends (s : Searchable keys h r key w) :
    Run.Ends (Calls keys h key)
      (fun at_ w' => at_.1 = keys.code key ∧ LocatedAt keys r key at_.2 w') w (r.search h key) := by
  have hashed : Run.Ends (Calls keys h key) (fun code _ => code = keys.code key) w
      (Protocol.hash h key) :=
    ⟨.single (.hash w), fun code ok => (s.truthful w .refl).1 code _ (Prod.ext ok rfl)⟩
  refine Run.ends_bind hashed fun code w₁ calls right => ?_
  subst right
  refine Run.ends_bind (lookupLoop_ends (s.after calls) h.fuel) fun found w₂ _ located => ?_
  exact Run.ends_of_ok rfl .refl ⟨rfl, located⟩

end DynamicObjects
