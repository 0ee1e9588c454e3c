import DynamicObjects.Proofs.Tables.Histories
import Mathlib.Data.Multiset.Bind

/-!
Tables and their indexes. An index is a bag of positions, each under a hash code, and a table may be served by any:
by one that finds more positions than it is asked for, and by one that asks for the hash codes of all its positions
whenever it has to make room. Whatever the history, the index holds the positions of the entries and no others,
so that it never asks for a position without an entry, and a search comes to the same with every index.
-/
namespace DynamicObjects

/-- What a table relies on. To make room for one more position, an index may place those that it holds anew, and asks
for their hash codes; a search comes upon all positions under the hash code, and perhaps upon others. -/
structure HashIndex (ι : Type) where
  held : ι → Multiset (HashCode × Nat)
  empty : ι
  clear : ι → ι
  insert? : (Nat → Option HashCode) → ι → HashCode → Nat → Option ι
  erase : ι → HashCode → Nat → ι
  search : ι → HashCode → List Nat
  held_empty : held empty = 0
  held_clear : ∀ i, held (clear i) = 0
  exists_insert : ∀ (hashAt? : Nat → Option HashCode) (i : ι) (hash : HashCode) (position : Nat),
    (∀ place ∈ (hash, position) ::ₘ held i, hashAt? place.2 = some place.1) →
      ∃ i', insert? hashAt? i hash position = some i' ∧ held i' = (hash, position) ::ₘ held i
  held_erase : ∀ (i : ι) (hash : HashCode) (position : Nat),
    (∀ hash', (hash', position) ∈ held i ↔ hash' = hash) → held (erase i hash position) = (held i).erase (hash, position)
  count_le_search : ∀ (i : ι) (hash : HashCode) (position : Nat),
    (held i).count (hash, position) ≤ (search i hash).count position
  search_le_count : ∀ (i : ι) (hash : HashCode) (position : Nat),
    (search i hash).count position ≤ ((held i).map Prod.snd).count position

theorem count_le_count_snd (held : Multiset (HashCode × Nat)) (hash : HashCode) (position : Nat) :
    held.count (hash, position) ≤ (held.map Prod.snd).count position := by
  rw [Multiset.count_map, Multiset.count_eq_card_filter_eq]
  exact Multiset.card_le_card (Multiset.monotone_filter_right _ fun _ same => congrArg Prod.snd same)

/-- The bag holds every position that has a hash code, once and under its hash code. -/
def Placed (hashAt? : Nat → Option HashCode) (held : Multiset (HashCode × Nat)) : Prop :=
  ∀ hash position, held.count (hash, position) = if hashAt? position = some hash then 1 else 0

namespace Placed

variable {hashAt? hashAt?' : Nat → Option HashCode} {held : Multiset (HashCode × Nat)} {hash : HashCode}
  {position : Nat}

theorem mem_iff (h : Placed hashAt? held) : (hash, position) ∈ held ↔ hashAt? position = some hash := by
  rw [← Multiset.count_pos, h]
  split <;> simp_all

theorem empty (bare : ∀ p, hashAt? p = none) : Placed hashAt? 0 := by
  intro hash p
  rw [bare, if_neg nofun, Multiset.count_zero]

theorem insert (h : Placed hashAt? held) (free : hashAt? position = none)
    (set : ∀ p, hashAt?' p = if p = position then some hash else hashAt? p) :
    Placed hashAt?' ((hash, position) ::ₘ held) := by
  intro hash' p
  rw [Multiset.count_cons, h, set]
  by_cases here : p = position
  · subst here
    simp [free, eq_comm]
  · simp [here]

theorem erase (h : Placed hashAt? held) (taken : hashAt? position = some hash)
    (set : ∀ p, hashAt?' p = if p = position then none else hashAt? p) :
    Placed hashAt?' (held.erase (hash, position)) := by
  intro hash' p
  rw [set]
  by_cases here : p = position
  · subst here
    rw [if_pos rfl, if_neg nofun]
    by_cases same : hash' = hash
    · rw [same, Multiset.count_erase_self, h, if_pos taken]
    · rw [Multiset.count_erase_of_ne (by simp [same]), h, taken, if_neg fun told => same (Option.some.inj told).symm]
  · rw [Multiset.count_erase_of_ne (by simp [here]), h, if_neg here]

theorem nodup (h : Placed hashAt? held) : (held.map Prod.snd).Nodup := by
  refine Multiset.Nodup.map_on ?_ (Multiset.nodup_iff_count_le_one.mpr fun place => ?_)
  · rintro ⟨hash, p⟩ mem ⟨hash', _⟩ mem' rfl
    have same := (h.mem_iff.mp mem).symm.trans (h.mem_iff.mp mem')
    rw [Option.some.inj same]
  · rw [h place.1 place.2]
    split <;> simp

end Placed

variable {ι κ ν : Type}

def Table.hashIn (slots : List (Option (Entry κ ν))) (position : Nat) : Option HashCode :=
  (slots[position]?).join.map Entry.hash

/-- The hash code of the entry at a position: of a hole there is none, nor of a position outside the table. -/
def Table.hashAt? (t : Table κ ν) (position : Nat) : Option HashCode := (t.entry? position).map Entry.hash

namespace HashIndex

variable (ix : HashIndex ι)

def fill? (hashAt? : Nat → Option HashCode) (i : ι) (position : Nat) : List (Option (Entry κ ν)) → Option ι
  | [] => some i
  | none :: rest => fill? hashAt? i (position + 1) rest
  | some e :: rest => do
    let i ← ix.insert? hashAt? i e.hash position
    fill? hashAt? i (position + 1) rest

def squeeze? (t : Table κ ν) (i : ι) : Option ι :=
  if t.needsCompaction then ix.fill? t.compact.hashAt? (ix.clear i) 0 t.compact.entries.toList else some i

def drop (t : Table κ ν) (i : ι) (position : Nat) : ι :=
  match t.entry? position with
  | none => i
  | some e => ix.erase i e.hash position

/-- What the index does as an action is performed. An entry that is added stands in the table already. -/
def follow? (t : Table κ ν) (i : ι) : TableAction κ ν → Option ι
  | .insert hash key value => do
    let i ← ix.squeeze? t i
    ix.insert? (t.insertNew hash key value).hashAt? i hash t.squeezed.entries.size
  | .modify .. => some i
  | .remove position => some (ix.drop t i position)
  | .popLast =>
    match t.last? with
    | none => some i
    | some (position, _) => some (ix.drop t i position)
  | .clear => some (ix.clear i)

def runFrom? (t : Table κ ν) (i : ι) : List (TableAction κ ν) → Option ι
  | [] => some i
  | a :: rest => do
    let i ← ix.follow? t i a
    runFrom? (t.perform a) i rest

def run? (history : List (TableAction κ ν)) : Option ι := ix.runFrom? Table.empty ix.empty history

end HashIndex

namespace Table

variable {front rest : List (Option (Entry κ ν))} {position : Nat} {hash : HashCode}

theorem hashIn_concat (front : List (Option (Entry κ ν))) (slot : Option (Entry κ ν)) (p : Nat) :
    hashIn (front ++ [slot]) p = if p = front.length then slot.map Entry.hash else hashIn front p := by
  unfold hashIn
  rw [List.getElem?_append]
  rcases Nat.lt_trichotomy p front.length with below | rfl | beyond
  · rw [if_pos below, if_neg (by omega)]
  · simp
  · rw [if_neg (by omega), if_neg (by omega), List.getElem?_eq_none (by simp; omega), List.getElem?_eq_none (by omega)]

theorem hashIn_length (front : List (Option (Entry κ ν))) : hashIn front front.length = none := by
  simp [hashIn]

theorem hashIn_append (found : hashIn front position = some hash) : hashIn (front ++ rest) position = some hash := by
  unfold hashIn at found ⊢
  have bound : position < front.length := by
    by_contra outside
    simp [List.getElem?_eq_none (Nat.le_of_not_lt outside)] at found
  rw [List.getElem?_append_left bound, found]

theorem hashAt?_eq (t : Table κ ν) : t.hashAt? = hashIn t.entries.toList := by
  funext p
  rw [hashAt?, hashIn, Array.getElem?_toList]
  rfl

theorem hashAt?_eq_some_iff {t : Table κ ν} :
    t.hashAt? position = some hash ↔ ∃ e, t.entry? position = some e ∧ e.hash = hash :=
  Option.map_eq_some_iff

end Table

namespace HashIndex

open Table (hashIn hashIn_length hashIn_concat hashIn_append)

variable {ix : HashIndex ι} {i : ι} {t : Table κ ν} {hashAt? : Nat → Option HashCode}

/-- As the index takes up one entry after another, it asks only for entries that it has taken up already. -/
theorem exists_fill (front rest : List (Option (Entry κ ν))) (placed : Placed (hashIn front) (ix.held i))
    (tells : ∀ position hash, hashIn (front ++ rest) position = some hash → hashAt? position = some hash) :
    ∃ i', ix.fill? hashAt? i front.length rest = some i' ∧ Placed (hashIn (front ++ rest)) (ix.held i') := by
  induction rest generalizing front i with
  | nil => exact ⟨i, rfl, by rwa [List.append_nil]⟩
  | cons slot rest ih =>
    have regroup : front ++ slot :: rest = front ++ [slot] ++ rest := by simp
    rw [regroup] at tells ⊢
    have size : (front ++ [slot]).length = front.length + 1 := List.length_append
    cases slot with
    | none =>
      have same : Placed (hashIn (front ++ [none])) (ix.held i) := by
        have unchanged : hashIn (front ++ [none]) = hashIn front := by
          funext p
          rw [hashIn_concat]
          split
          next here => rw [here, hashIn_length]; rfl
          next => rfl
        rwa [unchanged]
      have rest := ih (front ++ [none]) same tells
      rwa [size] at rest
    | some e =>
      have told : ∀ place ∈ (e.hash, front.length) ::ₘ ix.held i, hashAt? place.2 = some place.1 := by
        rintro ⟨hash, p⟩ mem
        refine tells p hash (hashIn_append ?_)
        rcases Multiset.mem_cons.mp mem with new | old
        · obtain ⟨rfl, rfl⟩ := Prod.mk.inj new
          rw [hashIn_concat, if_pos rfl, Option.map_some]
        · exact hashIn_append (placed.mem_iff.mp old)
      obtain ⟨i', inserted, held⟩ := ix.exists_insert hashAt? i e.hash front.length told
      have same : Placed (hashIn (front ++ [some e])) (ix.held i') := by
        rw [held]
        exact placed.insert (hashIn_length front) (hashIn_concat front (some e))
      obtain ⟨i'', filled, placed'⟩ := ih (front ++ [some e]) same tells
      rw [size] at filled
      exact ⟨i'', by rw [fill?, inserted, Option.bind_eq_bind, Option.bind_some, filled], placed'⟩

theorem exists_squeeze (placed : Placed t.hashAt? (ix.held i)) :
    ∃ i', ix.squeeze? t i = some i' ∧ Placed t.squeezed.hashAt? (ix.held i') := by
  unfold squeeze? Table.squeezed
  cases t.needsCompaction with
  | false => exact ⟨i, rfl, placed⟩
  | true =>
    have cleared : Placed (hashIn ([] : List (Option (Entry κ ν)))) (ix.held (ix.clear i)) := by
      rw [ix.held_clear]
      exact Placed.empty fun p => rfl
    simp only [if_true, Table.hashAt?_eq]
    exact exists_fill [] t.compact.entries.toList cleared fun _ _ => id

theorem placed_drop (placed : Placed t.hashAt? (ix.held i)) (position : Nat) :
    Placed (t.remove position).hashAt? (ix.held (ix.drop t i position)) := by
  unfold drop
  cases found : t.entry? position with
  | none => simpa [Table.remove, found] using placed
  | some e =>
    have here : t.hashAt? position = some e.hash := Table.hashAt?_eq_some_iff.mpr ⟨e, found, rfl⟩
    have alone : ∀ hash, (hash, position) ∈ ix.held i ↔ hash = e.hash := fun hash => by
      rw [placed.mem_iff, here, Option.some_inj, eq_comm]
    rw [ix.held_erase i e.hash position alone]
    refine placed.erase here fun p => ?_
    simp only [Table.hashAt?, Table.entry?_remove]
    split <;> rfl

/-- An index that holds the positions of the entries is not led astray by an action, and holds them afterwards. -/
theorem exists_follow (placed : Placed t.hashAt? (ix.held i)) (a : TableAction κ ν) :
    ∃ i', ix.follow? t i a = some i' ∧ Placed (t.perform a).hashAt? (ix.held i') := by
  cases a with
  | insert hash key value =>
    obtain ⟨i', squeezed, placed'⟩ := exists_squeeze placed
    have hashes : ∀ p, (t.insertNew hash key value).hashAt? p =
        if p = t.squeezed.entries.size then some hash else t.squeezed.hashAt? p := fun p => by
      rw [Table.hashAt?, Table.entry?_insertNew]
      split <;> rfl
    have free : t.squeezed.hashAt? t.squeezed.entries.size = none := by
      rw [Table.hashAt?, Table.entry?_eq_none_of_size_le (Nat.le_refl _)]
      rfl
    have after := placed'.insert free hashes
    obtain ⟨i'', inserted, held⟩ := ix.exists_insert (t.insertNew hash key value).hashAt? i' hash
      t.squeezed.entries.size fun place mem => after.mem_iff.mp mem
    refine ⟨i'', ?_, held ▸ after⟩
    rw [follow?, squeezed, Option.bind_eq_bind, Option.bind_some, inserted]
  | modify position f =>
    refine ⟨i, rfl, ?_⟩
    have same : (t.modify position f).hashAt? = t.hashAt? := funext fun p => by
      rw [Table.hashAt?, Table.entry?_modify, Table.hashAt?]
      split <;> simp [Function.comp_def]
    exact same.symm ▸ placed
  | remove position => exact ⟨_, rfl, placed_drop placed position⟩
  | popLast =>
    rw [follow?, Table.perform, Table.popLast]
    cases t.last? with
    | none => exact ⟨i, rfl, placed⟩
    | some found => exact ⟨_, rfl, placed_drop placed found.1⟩
  | clear =>
    refine ⟨ix.clear i, rfl, ?_⟩
    rw [ix.held_clear]
    exact Placed.empty fun p => rfl

theorem exists_runFrom (placed : Placed t.hashAt? (ix.held i)) (history : List (TableAction κ ν)) :
    ∃ i', ix.runFrom? t i history = some i' ∧ Placed (history.foldl Table.perform t).hashAt? (ix.held i') := by
  induction history generalizing t i with
  | nil => exact ⟨i, rfl, placed⟩
  | cons a rest ih =>
    obtain ⟨i', followed, placed'⟩ := exists_follow placed a
    obtain ⟨i'', ran, placed''⟩ := ih placed'
    exact ⟨i'', by rw [runFrom?, followed, Option.bind_eq_bind, Option.bind_some, ran], placed''⟩

theorem exists_run (ix : HashIndex ι) (history : List (TableAction κ ν)) :
    ∃ i, ix.run? history = some i ∧ Placed (Table.run history).hashAt? (ix.held i) := by
  refine exists_runFrom ?_ history
  rw [ix.held_empty]
  exact Placed.empty fun p => rfl

end HashIndex

namespace PositionIndex

def held (index : PositionIndex) : Multiset (HashCode × Nat) :=
  (index.toList : Multiset (HashCode × List Nat)).bind fun places =>
    (places.2 : Multiset Nat).map (places.1, ·)

theorem count_held (index : PositionIndex) (hash : HashCode) (position : Nat) :
    index.held.count (hash, position) = (index.positions hash).count position := by
  have elsewhere (others : List (HashCode × List Nat)) (apart : ∀ places ∈ others, places.1 ≠ hash) :
      Multiset.count (hash, position) ((others : Multiset (HashCode × List Nat)).bind fun places =>
        (places.2 : Multiset Nat).map (places.1, ·)) = 0 := by
    refine Multiset.count_eq_zero.mpr fun mem => ?_
    obtain ⟨places, there, found⟩ := Multiset.mem_bind.mp mem
    obtain ⟨p, -, same⟩ := Multiset.mem_map.mp found
    exact apart places there (Prod.mk.inj same).1
  have distinct : index.toList.Pairwise (·.1 ≠ ·.1) :=
    Std.TreeMap.distinct_keys_toList.imp fun differ same => differ (Std.compare_eq_iff_eq.mpr same)
  rw [held, positions, Std.TreeMap.getD_eq_getD_getElem?]
  cases found : index[hash]? with
  | none =>
    refine elsewhere _ fun places mem same => ?_
    have present := Std.TreeMap.mem_toList_iff_getElem?_eq_some.mp mem
    rw [same, found] at present
    cases present
  | some positions =>
    obtain ⟨before, after, cut⟩ := List.append_of_mem (Std.TreeMap.mem_toList_iff_getElem?_eq_some.mpr found)
    rw [cut, List.pairwise_append, List.pairwise_cons] at distinct
    obtain ⟨-, ⟨behind, -⟩, ahead⟩ := distinct
    rw [cut, ← Multiset.coe_add, ← Multiset.cons_coe, Multiset.add_bind, Multiset.cons_bind, Multiset.count_add,
      Multiset.count_add, elsewhere before fun places mem => ahead places mem _ List.mem_cons_self,
      elsewhere after fun places mem => (behind places mem).symm,
      Multiset.count_map_eq_count' _ _ fun _ _ same => (Prod.mk.inj same).2]
    simp

theorem held_add (index : PositionIndex) (hash : HashCode) (position : Nat) :
    (index.add hash position).held = (hash, position) ::ₘ index.held := by
  ext ⟨hash', p⟩
  rw [Multiset.count_cons, count_held, count_held, add, positions_insert]
  by_cases same : hash' = hash
  · subst same
    rw [if_pos rfl, List.count_append, List.count_singleton]
    by_cases here : p = position
    · simp [here]
    · simp [here, Ne.symm here]
  · simp [same]

theorem held_drop (index : PositionIndex) (hash : HashCode) (position : Nat) :
    (index.drop hash position).held = index.held.erase (hash, position) := by
  ext ⟨hash', p⟩
  rw [count_held, drop, positions_insert]
  by_cases same : hash' = hash
  · subst same
    by_cases here : p = position
    · subst here
      rw [if_pos rfl, Multiset.count_erase_self, count_held, List.count_erase_self]
    · rw [if_pos rfl, Multiset.count_erase_of_ne (by simp [here]), count_held, List.count_erase_of_ne here]
  · rw [if_neg same, Multiset.count_erase_of_ne (by simp [same]), count_held]

/-- It never asks for a hash code. -/
def hashIndex : HashIndex PositionIndex where
  held := held
  empty := ∅
  clear _ := ∅
  insert? _ index hash position := some (index.add hash position)
  erase := drop
  search := positions
  held_empty := rfl
  held_clear _ := rfl
  exists_insert _ index hash position _ := ⟨_, rfl, held_add index hash position⟩
  held_erase index hash position _ := held_drop index hash position
  count_le_search index hash position := (count_held index hash position).le
  search_le_count index hash position := by
    rw [← count_held]
    exact count_le_count_snd index.held hash position

section Follow

variable (t : Table κ ν)

theorem fill?_hashIndex (hashAt? : Nat → Option HashCode) (index : PositionIndex) (position : Nat)
    (slots : List (Option (Entry κ ν))) :
    hashIndex.fill? hashAt? index position slots = some (Table.indexFrom index position slots) := by
  induction slots generalizing index position with
  | nil => rfl
  | cons slot rest ih =>
    cases slot with
    | none => exact ih index (position + 1)
    | some e => exact ih (index.add e.hash position) (position + 1)

theorem drop_hashIndex (position : Nat) : hashIndex.drop t t.index position = (t.remove position).index := by
  unfold HashIndex.drop Table.remove
  cases t.entry? position <;> rfl

theorem follow?_hashIndex (a : TableAction κ ν) :
    hashIndex.follow? t t.index a = some (t.perform a).index := by
  cases a with
  | insert hash key value =>
    have squeezed : hashIndex.squeeze? t t.index = some t.squeezed.index := by
      unfold HashIndex.squeeze? Table.squeezed
      cases t.needsCompaction with
      | false => rfl
      | true => exact fill?_hashIndex _ _ _ _
    rw [HashIndex.follow?, squeezed]
    rfl
  | modify position f =>
    simp only [HashIndex.follow?, Table.perform, Table.modify, Table.setValue]
    cases t.entry? position <;> rfl
  | remove position => exact congrArg some (drop_hashIndex t position)
  | popLast =>
    rw [HashIndex.follow?, Table.perform, Table.popLast]
    cases t.last? with
    | none => rfl
    | some found => exact congrArg some (drop_hashIndex t found.1)
  | clear => rfl

theorem runFrom?_hashIndex (history : List (TableAction κ ν)) :
    hashIndex.runFrom? t t.index history = some (history.foldl Table.perform t).index := by
  induction history generalizing t with
  | nil => rfl
  | cons a rest ih => rw [HashIndex.runFrom?, follow?_hashIndex, Option.bind_eq_bind, Option.bind_some, ih, List.foldl_cons]

end Follow

end PositionIndex

namespace HashIndex

/-- Whenever it takes up a position, this index places all that it holds anew, and every search comes upon all. -/
def restless : HashIndex (List (HashCode × Nat)) where
  held places := places
  empty := []
  clear _ := []
  insert? hashAt? places hash position :=
    ((hash, position) :: places).mapM fun place => (hashAt? place.2).map (·, place.2)
  erase places hash position := @List.erase _ instBEqOfDecidableEq places (hash, position)
  search places _ := places.map Prod.snd
  held_empty := rfl
  held_clear _ := rfl
  exists_insert hashAt? places hash position told := by
    refine ⟨(hash, position) :: places, ?_, rfl⟩
    have same (asked : List (HashCode × Nat)) (told : ∀ place ∈ asked, hashAt? place.2 = some place.1) :
        (asked.mapM fun place => (hashAt? place.2).map (·, place.2)) = some asked := by
      induction asked with
      | nil => rfl
      | cons place asked ih =>
        obtain ⟨here, there⟩ := List.forall_mem_cons.mp told
        rw [List.mapM_cons, here, ih there]
        rfl
    exact same _ told
  held_erase _ _ _ _ := rfl
  count_le_search places hash position := by
    rw [← Multiset.coe_count, ← Multiset.map_coe]
    exact count_le_count_snd places hash position
  search_le_count places _ position := (Multiset.coe_count position (places.map Prod.snd)).ge

end HashIndex

end DynamicObjects
