import DynamicObjects.Proofs.Termination.Data

/-!
Walks over elements: along two sequences, through the candidates under a hash code, from set to set.
They come to an end where hashing and comparing elements does, from the same states and with the same
errors.
-/
namespace DynamicObjects

open Script (hooks)
open Run

variable {I : World → Prop} {E : Error → Prop} {s : Store} {n : Nat} {v : Value}

section Sequences

variable {xs ys : List Value}

theorem hashAll_finishes
    (hashes : ∀ x ∈ xs, Finishes I (fun _ => True) E (Protocol.hash (hooks n) x)) :
    Finishes I (fun _ => True) E (Protocol.hashAll (hooks n) xs) := by
  induction xs with
  | nil =>
    unfold Protocol.hashAll
    exact finishes_pure trivial
  | cons x xs ih =>
    unfold Protocol.hashAll
    refine finishes_bind (hashes x List.mem_cons_self) fun code _ => ?_
    refine finishes_bind (ih fun x' mem => hashes x' (List.mem_cons_of_mem _ mem)) fun codes _ => ?_
    exact finishes_pure trivial

theorem equalElements_finishes
    (equal : ∀ x ∈ xs, ∀ y ∈ ys, Finishes I (fun _ => True) E (Protocol.equals (hooks n) x y)) :
    Finishes I (fun _ => True) E (Protocol.equalElements (hooks n) xs ys) := by
  induction xs generalizing ys with
  | nil => exact finishes_pure trivial
  | cons x xs ih =>
    cases ys with
    | nil => exact finishes_pure trivial
    | cons y ys =>
      refine finishes_bind (equal x List.mem_cons_self y List.mem_cons_self) fun same _ => ?_
      cases same with
      | true =>
        exact ih fun x' mem y' mem' =>
          equal x' (List.mem_cons_of_mem _ mem) y' (List.mem_cons_of_mem _ mem')
      | false => exact finishes_pure trivial

/-- The elements are compared by the operator only if it orders them. -/
theorem compareElements_finishes (op : CompareOp)
    (equal : ∀ x ∈ xs, ∀ y ∈ ys, Finishes I (fun _ => True) E (Protocol.equals (hooks n) x y))
    (ordered : op ≠ .eq → op ≠ .ne → ∀ x ∈ xs, ∀ y ∈ ys,
      Finishes I (fun _ => True) E (Protocol.compareBool (hooks n) op x y)) :
    Finishes I (fun _ => True) E (Protocol.compareElements (hooks n) op xs ys) := by
  induction xs generalizing ys with
  | nil =>
    cases ys with
    | nil => exact finishes_pure trivial
    | cons y ys => exact finishes_pure trivial
  | cons x xs ih =>
    cases ys with
    | nil => exact finishes_pure trivial
    | cons y ys =>
      refine finishes_bind (equal x List.mem_cons_self y List.mem_cons_self) fun same _ => ?_
      cases same with
      | true =>
        refine ih (fun x' mem y' mem' => ?_) fun order order' x' mem y' mem' => ?_
        · exact equal x' (List.mem_cons_of_mem _ mem) y' (List.mem_cons_of_mem _ mem')
        · exact ordered order order' x' (List.mem_cons_of_mem _ mem) y' (List.mem_cons_of_mem _ mem')
      | false =>
        cases op with
        | eq | ne => exact finishes_pure trivial
        | lt | le | gt | ge =>
          exact ordered nofun nofun x List.mem_cons_self y List.mem_cons_self

end Sequences

theorem findCandidate_finishes {key : Value} {candidates : List (Nat × Value)}
    (equal : ∀ c ∈ candidates, Finishes I (fun _ => True) E (Protocol.equals (hooks n) c.2 key)) :
    Finishes I (fun _ => True) E (DictRef.findCandidate (hooks n) key candidates) := by
  induction candidates with
  | nil => exact finishes_pure trivial
  | cons c rest ih =>
    obtain ⟨position, candidate⟩ := c
    have others := ih fun c mem => equal c (List.mem_cons_of_mem _ mem)
    unfold DictRef.findCandidate
    split
    · exact finishes_pure trivial
    · refine finishes_bind (equal _ List.mem_cons_self) fun same _ => ?_
      cases same with
      | true => exact finishes_pure trivial
      | false => exact others

section Dicts

variable {r other : DictRef} {key : Value} (calm : ∀ {w}, I w → Calm s 0 w)

include calm

theorem lookup_finishes (hash : HashCode)
    (equal : ∀ k ∈ (s.dict r).table.keys,
      Finishes I (fun _ => True) E (Protocol.equals (hooks n) k key)) :
    Finishes I (fun _ => True) E (r.lookup (hooks n) key hash) := by
  have once : Finishes I (fun found => found.isSome = true) E
      (r.lookupOnce (hooks n) key hash) := by
    refine finishes_bind (dictObject_finishes calm r) ?_
    rintro o rfl
    refine finishes_bind
      (findCandidate_finishes fun c mem => equal c.2 (Table.mem_keys_of_candidate mem)) fun found _ => ?_
    refine finishes_bind (finishes_readStore (P := fun version => version = (s.dict r).version)
      fun w i => congrArg DictObject.version ((calm i).dict r)) ?_
    rintro version rfl
    exact finishes_pure (by simp)
  unfold DictRef.lookup
  cases (hooks n).fuel with
  | zero =>
    refine finishes_bind once fun found some => ?_
    obtain ⟨position, rfl⟩ := Option.isSome_iff_exists.mp some
    exact finishes_pure trivial
  | succ retries =>
    refine finishes_bind once fun found some => ?_
    obtain ⟨position, rfl⟩ := Option.isSome_iff_exists.mp some
    exact finishes_pure trivial

theorem get?_finishes (hashes : Finishes I (fun _ => True) E (Protocol.hash (hooks n) key))
    (equal : ∀ k ∈ (s.dict r).table.keys,
      Finishes I (fun _ => True) E (Protocol.equals (hooks n) k key)) :
    Finishes I (fun found => ∀ x, found = some x → x ∈ (s.dict r).table.values) E
      (r.get? (hooks n) key) := by
  refine finishes_bind hashes fun hash _ => ?_
  refine finishes_bind (lookup_finishes calm hash equal) fun found _ => ?_
  cases found with
  | none => exact finishes_pure nofun
  | some position =>
    refine finishes_map (finishes_readStore fun w i x given => ?_)
    obtain ⟨e, entry, rfl⟩ := Option.map_eq_some_iff.mp given
    rw [(calm i).dict r] at entry
    exact List.mem_map_of_mem (Table.mem_toList_iff.mpr ⟨position, entry⟩)

theorem agrees_finishes {entries : List (Value × Value)}
    (hashes : ∀ e ∈ entries, Finishes I (fun _ => True) E (Protocol.hash (hooks n) e.1))
    (keys : ∀ e ∈ entries, ∀ k ∈ (s.dict other).table.keys,
      Finishes I (fun _ => True) E (Protocol.equals (hooks n) k e.1))
    (values : ∀ e ∈ entries, ∀ x ∈ (s.dict other).table.values,
      Finishes I (fun _ => True) E (Protocol.equals (hooks n) e.2 x)) :
    Finishes I (fun _ => True) E (other.agrees (hooks n) entries) := by
  induction entries with
  | nil => exact finishes_pure trivial
  | cons entry rest ih =>
    obtain ⟨key, value⟩ := entry
    refine finishes_bind (get?_finishes calm (hashes _ List.mem_cons_self)
      (keys _ List.mem_cons_self)) fun found inside => ?_
    cases found with
    | none => exact finishes_pure trivial
    | some theirs =>
      refine finishes_bind (values _ List.mem_cons_self theirs (inside theirs rfl)) fun same _ => ?_
      cases same with
      | true =>
        exact ih (fun e mem => hashes e (List.mem_cons_of_mem _ mem))
          (fun e mem => keys e (List.mem_cons_of_mem _ mem))
          fun e mem => values e (List.mem_cons_of_mem _ mem)
      | false => exact finishes_pure trivial

theorem dictEquals_finishes
    (walk : Finishes I (fun _ => True) E
      (nested (other.agrees (hooks n) (s.dict r).table.pairs))) :
    Finishes I (fun _ => True) E (r.equals (hooks n) other) := by
  unfold DictRef.equals
  split
  · exact finishes_pure trivial
  refine finishes_bind (pairs_finishes calm r) ?_
  rintro _ rfl
  have size : Finishes I (fun _ => True) E other.size :=
    finishes_map (finishes_readStore fun _ _ => trivial)
  refine finishes_bind size fun size _ => ?_
  split
  · exact finishes_pure trivial
  · exact walk

end Dicts

section Sets

variable {t other : SetTable}

theorem containsHashed_finishes (hash : HashCode)
    (equal : ∀ key ∈ t.keys, Finishes I (fun _ => True) E (Protocol.equals (hooks n) key v)) :
    Finishes I (fun _ => True) E (t.containsHashed (hooks n) hash v) := by
  unfold SetTable.containsHashed
  rw [SetTable.matchesAny_eq]
  refine finishes_map (findCandidate_finishes fun c mem => ?_).any
  exact equal c.2 (Table.mem_keys_of_candidate mem)

theorem containsAll_finishes {entries : List (Entry Value Unit)}
    (equal : ∀ key ∈ t.keys, ∀ e ∈ entries,
      Finishes I (fun _ => True) E (Protocol.equals (hooks n) key e.key)) :
    Finishes I (fun _ => True) E (t.containsAll (hooks n) entries) := by
  induction entries with
  | nil => exact finishes_pure trivial
  | cons e rest ih =>
    refine finishes_bind (containsHashed_finishes e.hash fun key mem =>
      equal key mem e List.mem_cons_self) fun found _ => ?_
    cases found with
    | true => exact ih fun key mem e mem' => equal key mem e (List.mem_cons_of_mem _ mem')
    | false => exact finishes_pure trivial

theorem isSubset_finishes
    (equal : ∀ x ∈ t.keys, ∀ y ∈ other.keys,
      Finishes I (fun _ => True) E (Protocol.equals (hooks n) y x)) :
    Finishes I (fun _ => True) E (t.isSubset (hooks n) other) := by
  unfold SetTable.isSubset
  split
  · exact finishes_pure trivial
  · exact containsAll_finishes fun key mem e mem' => equal e.key (List.mem_map_of_mem mem') key mem

theorem setCompare_finishes (op : CompareOp)
    (equal : ∀ x ∈ t.keys, ∀ y ∈ other.keys,
      Finishes I (fun _ => True) E (Protocol.equals (hooks n) x y) ∧
        Finishes I (fun _ => True) E (Protocol.equals (hooks n) y x)) :
    Finishes I (fun _ => True) E (t.compare (hooks n) op other) := by
  have forward : Finishes I (fun _ => True) E (t.isSubset (hooks n) other) :=
    isSubset_finishes fun x mem y mem' => (equal x mem y mem').2
  have backward : Finishes I (fun _ => True) E (other.isSubset (hooks n) t) :=
    isSubset_finishes fun y mem x mem' => (equal x mem' y mem).1
  unfold SetTable.compare
  cases op with
  | eq | lt =>
    dsimp only
    split
    · exact forward
    · exact finishes_pure trivial
  | ne =>
    dsimp only
    split
    · exact finishes_map forward
    · exact finishes_pure trivial
  | le => exact forward
  | ge => exact backward
  | gt =>
    dsimp only
    split
    · exact backward
    · exact finishes_pure trivial

theorem insertAll_finishes {M : Value → Prop}
    (hashes : ∀ x, M x → Finishes I (fun _ => True) E (Protocol.hash (hooks n) x))
    (equal : ∀ x y, M x → M y → Finishes I (fun _ => True) E (Protocol.equals (hooks n) x y))
    (values : List Value) (inside : ∀ x ∈ values, M x) (keys : ∀ key ∈ t.keys, M key) :
    Finishes I (fun made => ∀ key ∈ made.keys, M key) E (t.insertAll (hooks n) values) := by
  induction values generalizing t with
  | nil => exact finishes_pure keys
  | cons x rest ih =>
    have mem := inside x List.mem_cons_self
    have inserts : Finishes I (fun made => ∀ key ∈ made.keys, M key) E (t.insert (hooks n) x) := by
      refine finishes_bind (hashes x mem) fun hash _ => ?_
      refine finishes_bind (containsHashed_finishes hash fun key found =>
        equal key x (keys key found) mem) fun found _ => ?_
      cases found with
      | true => exact finishes_pure keys
      | false =>
        refine finishes_pure (Table.forall_mem_keys.mpr fun e listed => ?_)
        rw [Table.toList_insertNew] at listed
        rcases List.mem_append.mp listed with old | new
        · exact keys e.key (List.mem_map_of_mem old)
        · obtain rfl := List.mem_singleton.mp new
          exact mem
    exact finishes_bind inserts fun made keys' =>
      ih (fun y mem => inside y (List.mem_cons_of_mem _ mem)) keys'

end Sets

end DynamicObjects
