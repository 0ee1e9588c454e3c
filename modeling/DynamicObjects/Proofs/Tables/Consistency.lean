import DynamicObjects.Proofs.Tables.Indexes

/-!
Tables in order. After any history a table and its index agree, whatever the index is like, so that every search
comes to the entries under a hash code, and to each of them once.
-/
namespace DynamicObjects.Table

variable {ι κ ν : Type}

section Found

variable (t : Table κ ν) (found : List Nat) (hash : HashCode)

variable {found} in
theorem nodup_candidatesAmong (distinct : found.Nodup) : ((t.candidatesAmong found hash).map Prod.fst).Nodup := by
  have from_ (p q : Nat) (h : q ∈ Option.map Prod.fst
      (((t.entry? p).filter (·.hash == hash)).map fun e => (p, e.key))) : q = p := by
    rw [Option.map_map] at h
    obtain ⟨e, -, same⟩ := Option.map_eq_some_iff.mp h
    exact same.symm
  rw [candidatesAmong, List.map_filterMap]
  exact distinct.filterMap fun p p' q h h' => (from_ p q h).symm.trans (from_ p' q h')

theorem findAmong?_eq (test : κ → Bool) : t.findAmong? found hash test =
    ((t.candidatesAmong found hash).find? fun c => test c.2).map Prod.fst := by
  have tests : (fun position => Option.any (fun c : Nat × κ => test c.2)
      (((t.entry? position).filter (·.hash == hash)).map fun e => (position, e.key))) =
      fun position => (t.entry? position).any fun e => e.hash == hash && test e.key := by
    funext position
    cases t.entry? position with
    | none => rfl
    | some e => by_cases same : e.hash = hash <;> simp [Option.filter, same]
  rw [candidatesAmong, List.find?_filterMap, tests, findAmong?]
  cases first : found.find? fun position => (t.entry? position).any fun e => e.hash == hash && test e.key with
  | none => rfl
  | some position =>
    have found_passes := List.find?_some first
    obtain ⟨e, entry, passes⟩ := (Option.any_eq_true _ _).mp found_passes
    have same : e.hash = hash := beq_iff_eq.mp (Bool.and_eq_true_iff.mp passes).1
    simp [entry, Option.filter, same]

theorem toList_eq_filterMap : t.toList = (List.range t.entries.size).filterMap t.entry? := by
  have slots : t.entries.toList = (List.range t.entries.size).map t.entry? := by
    refine List.ext_getElem (by simp) fun position inside _ => ?_
    simp only [Array.length_toList] at inside
    simp [ entry?, inside]
  rw [toList, slots, List.filterMap_map]
  rfl

end Found

/-- A table whose index holds these positions, and where a search comes upon those. With the positions of the table's
own index they are the ones that `candidates` and `find?` go through. -/
structure Consistent (t : Table κ ν) (held : Multiset (HashCode × Nat)) (search : HashCode → List Nat) : Prop where
  index : Placed t.hashAt? held
  live : t.live = t.entries.toList.countP (·.isSome)
  last : t.entries.toList.getLast? ≠ some none
  iter : t.toList = (List.range t.entries.size).filterMap t.entry?
  reads : ∀ hash, ∀ position ∈ search hash, ∃ e, t.entry? position = some e
  candidates : ∀ hash, ((t.candidatesAmong (search hash) hash).map Prod.fst).Nodup ∧
    ∀ position key, (position, key) ∈ t.candidatesAmong (search hash) hash ↔
      ∃ e, t.entry? position = some e ∧ e.hash = hash ∧ e.key = key
  find : ∀ hash test, t.findAmong? (search hash) hash test =
    ((t.candidatesAmong (search hash) hash).find? fun c => test c.2).map Prod.fst

section Search

variable {t : Table κ ν} {ix : HashIndex ι} {i : ι} (placed : Placed t.hashAt? (ix.held i))

include placed

theorem nodup_search (hash : HashCode) : (ix.search i hash).Nodup :=
  List.nodup_iff_count_le_one.mpr fun position =>
    (ix.search_le_count i hash position).trans (Multiset.nodup_iff_count_le_one.mp placed.nodup position)

theorem exists_of_mem_search {hash : HashCode} {position : Nat} (mem : position ∈ ix.search i hash) :
    ∃ e, t.entry? position = some e := by
  have counted := (List.count_pos_iff.mpr mem).trans_le (ix.search_le_count i hash position)
  obtain ⟨⟨hash', _⟩, place, rfl⟩ := Multiset.mem_map.mp (Multiset.count_pos.mp counted)
  obtain ⟨e, entry, -⟩ := hashAt?_eq_some_iff.mp (placed.mem_iff.mp place)
  exact ⟨e, entry⟩

theorem mem_search {position : Nat} {e : Entry κ ν} (entry : t.entry? position = some e) :
    position ∈ ix.search i e.hash := by
  have place := placed.mem_iff.mpr (hashAt?_eq_some_iff.mpr ⟨e, entry, rfl⟩)
  exact List.count_pos_iff.mp ((Multiset.count_pos.mpr place).trans_le (ix.count_le_search i e.hash position))

theorem Valid.consistent (h : t.Valid) : t.Consistent (ix.held i) (ix.search i) where
  index := placed
  live := by
    rw [h.live, toList, List.length_filterMap_eq_countP]
    rfl
  last hole := by simpa using h.last none hole
  iter := toList_eq_filterMap t
  reads _ _ mem := exists_of_mem_search placed mem
  candidates hash := by
    refine ⟨?_, fun position key => ?_⟩
    · exact nodup_candidatesAmong t hash (nodup_search placed hash)
    · rw [mem_candidatesAmong]
      refine and_iff_right_of_imp ?_
      rintro ⟨e, entry, rfl, -⟩
      exact mem_search placed entry
  find hash test := findAmong?_eq t (ix.search i hash) hash test

end Search

/-- Whatever the history, an index never asks for a position without an entry, and agrees with the table in the end;
the index of the library is one of them, and what the same calls make of it. The entries stand in the order of their
insertion, and stay where they are for as long as the layout does. -/
theorem tables_in_order (ix : HashIndex ι) (history : List (TableAction κ ν)) :
    (∃ i, ix.run? history = some i ∧ (run history).Consistent (ix.held i) (ix.search i)) ∧
      PositionIndex.hashIndex.run? history = some (run history).index ∧
      (run history).Consistent (run history).index.held (run history).index.positions ∧
      InsertionOrder history ∧ PositionsStay history := by
  obtain ⟨i, ran, placed⟩ := ix.exists_run history
  obtain ⟨own, ranOwn, placedOwn⟩ := PositionIndex.hashIndex.exists_run history
  have follows : PositionIndex.hashIndex.run? history = some (run history).index :=
    PositionIndex.runFrom?_hashIndex empty history
  obtain rfl := Option.some.inj (ranOwn.symm.trans follows)
  refine ⟨⟨i, ran, (valid_run history).consistent placed⟩, follows, (valid_run history).consistent placedOwn,
    insertionOrder history, ?_⟩
  rintro earlier later rfl still p q e e' here there same
  exact position_stays still here there same

/-- Five of eight entries are removed, and the others move to the front as the ninth is inserted. -/
def crowded : List (TableAction Nat Unit) :=
  (List.range 8).map (fun n => .insert (UInt64.ofNat (n % 3)) n ()) ++ (List.range 5).map .remove ++
    [.insert 0 99 ()]

/-- An index that asks for everything at every insertion, and a history that makes entries move. -/
theorem tables_in_order_crowded :
    (run crowded).keys = [5, 6, 7, 99] ∧ (run crowded).layout = 1 ∧
      (∃ places, HashIndex.restless.run? crowded = some places ∧
        (run crowded).Consistent places (fun _ => places.map Prod.snd)) ∧
      InsertionOrder crowded ∧ PositionsStay crowded := by
  obtain ⟨served, -, -, order, stay⟩ := tables_in_order HashIndex.restless crowded
  exact ⟨by decide +kernel, by decide +kernel, served, order, stay⟩

end DynamicObjects.Table
