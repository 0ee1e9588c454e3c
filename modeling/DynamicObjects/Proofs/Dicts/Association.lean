import DynamicObjects.Dicts.Basic
import DynamicObjects.Proofs.Tables

/-!
Dictionaries as association lists. The list operations below say what a dictionary is to do: an equal
key keeps its place when it gets a new value, a new key goes to the end, and at most one entry has a
key equal to a given one. A sound table, seen through its pairs, does the same with the position that
a search has located.
-/
namespace DynamicObjects

/-- The values that serve as keys, the hash code of each, and when two of them are equal. -/
structure KeySpace where
  IsKey : Value → Prop
  code : Value → HashCode
  equal : Value → Value → Bool
  equal_refl : ∀ {a}, IsKey a → equal a a
  equal_symm : ∀ {a b}, IsKey a → IsKey b → equal a b → equal b a
  equal_trans : ∀ {a b c}, IsKey a → IsKey b → IsKey c → equal a b → equal b c → equal a c
  code_eq : ∀ {a b}, IsKey a → IsKey b → equal a b → code a = code b

namespace KeySpace

variable {keys : KeySpace} {a b c : Value} (ha : keys.IsKey a) (hb : keys.IsKey b)

include ha hb

theorem equal_comm : keys.equal a b = keys.equal b a := by
  rw [Bool.eq_iff_iff]
  exact ⟨keys.equal_symm ha hb, keys.equal_symm hb ha⟩

theorem differs_of_equal (hc : keys.IsKey c) (differs : keys.equal a b = false)
    (equal : keys.equal b c) : keys.equal a c = false := by
  rw [Bool.eq_false_iff]
  intro reached
  have back : keys.equal a b := keys.equal_trans ha hc hb reached (keys.equal_symm hb hc equal)
  simp [differs] at back

end KeySpace

abbrev Association := List (Value × Value)

namespace Association

variable (keys : KeySpace)

def get? (l : Association) (key : Value) : Option Value :=
  (l.find? fun e => keys.equal e.1 key).map Prod.snd

def has (l : Association) (key : Value) : Bool := l.any fun e => keys.equal e.1 key

/-- Replaces the value of an equal key, which stays the key, or adds an entry at the end. -/
def set (l : Association) (key value : Value) : Association :=
  if has keys l key then l.map fun e => if keys.equal e.1 key then (e.1, value) else e
  else l ++ [(key, value)]

def erase (l : Association) (key : Value) : Association :=
  l.filter fun e => !keys.equal e.1 key

def update (l entries : Association) : Association :=
  entries.foldl (fun l e => set keys l e.1 e.2) l

structure Distinct (l : Association) : Prop where
  isKey : ∀ e ∈ l, keys.IsKey e.1
  apart : l.Pairwise fun a b => keys.equal a.1 b.1 = false

variable {keys}

theorem isSome_get? (l : Association) (key : Value) : (get? keys l key).isSome = has keys l key := by
  rw [Bool.eq_iff_iff]
  simp [get?, has]

section Absent

variable {l : Association} {key : Value} (absent : ∀ e ∈ l, keys.equal e.1 key = false)

include absent

theorem get?_of_absent : get? keys l key = none := by
  simpa [get?] using fun a b mem => absent (a, b) mem

theorem has_of_absent : has keys l key = false := by
  simpa [has] using fun a b mem => absent (a, b) mem

theorem set_of_absent (value : Value) : set keys l key value = l ++ [(key, value)] := by
  simp [set, has_of_absent absent]

end Absent

section Present

variable {before after : Association} {stored old key : Value} (equal : keys.equal stored key)
  (clear_before : ∀ e ∈ before, keys.equal e.1 key = false)
  (clear_after : ∀ e ∈ after, keys.equal e.1 key = false)

include equal

theorem has_of_present : has keys (before ++ (stored, old) :: after) key = true := by
  simp [has, equal]

include clear_before

theorem get?_of_present : get? keys (before ++ (stored, old) :: after) key = some old := by
  have skipped : before.find? (fun e => keys.equal e.1 key) = none := by
    simpa using fun a b mem => clear_before (a, b) mem
  simp [get?, List.find?_append, skipped, equal]

include clear_after

theorem set_of_present (value : Value) :
    set keys (before ++ (stored, old) :: after) key value =
      before ++ (stored, value) :: after := by
  have same : ∀ part : Association, (∀ e ∈ part, keys.equal e.1 key = false) →
      part.map (fun e => if keys.equal e.1 key then (e.1, value) else e) = part := by
    intro part clear
    refine (List.map_congr_left ?_).trans (List.map_id part)
    intro e mem
    simp [clear e mem]
  simp [set, has_of_present equal, same before clear_before, same after clear_after, equal]

theorem erase_of_present :
    erase keys (before ++ (stored, old) :: after) key = before ++ after := by
  have same : ∀ part : Association, (∀ e ∈ part, keys.equal e.1 key = false) →
      part.filter (fun e => !keys.equal e.1 key) = part := by
    intro part clear
    rw [List.filter_eq_self]
    intro e mem
    simp [clear e mem]
  simp [erase, same before clear_before, same after clear_after, equal]

end Present

section Set

variable {key : Value} (isKey : keys.IsKey key) (l : Association) (value : Value)

include isKey

theorem get?_set : get? keys (set keys l key value) key = some value := by
  unfold get? set
  cases there : has keys l key with
  | true =>
    have keeps : ((fun e : Value × Value => keys.equal e.1 key) ∘
        fun e => if keys.equal e.1 key then (e.1, value) else e) = fun e => keys.equal e.1 key := by
      funext e
      by_cases equal : keys.equal e.1 key <;> simp [equal]
    obtain ⟨e, first⟩ : ∃ e, l.find? (fun e => keys.equal e.1 key) = some e := by
      rw [← Option.isSome_iff_exists]
      simpa [has] using there
    have equal := List.find?_some first
    rw [if_pos rfl, List.find?_map, keeps, first]
    simp [equal]
  | false =>
    have absent : l.find? (fun e => keys.equal e.1 key) = none := by
      simpa [has] using there
    simp [List.find?_append, absent, keys.equal_refl isKey]

theorem erase_set : erase keys (set keys l key value) key = erase keys l key := by
  unfold erase set
  split
  · rw [List.filter_map]
    have keeps : ((fun e : Value × Value => !keys.equal e.1 key) ∘
        fun e => if keys.equal e.1 key then (e.1, value) else e) =
          fun e => !keys.equal e.1 key := by
      funext e
      by_cases equal : keys.equal e.1 key <;> simp [equal]
    rw [keeps]
    refine (List.map_congr_left ?_).trans (List.map_id _)
    intro e mem
    have other : keys.equal e.1 key = false := by simpa using (List.mem_filter.mp mem).2
    simp [other]
  · simp [List.filter_append, keys.equal_refl isKey]

end Set

theorem Distinct.set_mem {l : Association} (h : Distinct keys l) {key value : Value}
    (mem : (key, value) ∈ l) : set keys l key value = l := by
  obtain ⟨before, after, rfl⟩ := List.append_of_mem mem
  have apart := List.pairwise_append.mp h.apart
  have behind := List.pairwise_cons.mp apart.2.1
  refine set_of_present (keys.equal_refl (h.isKey _ mem)) ?_ ?_ value
  · intro e there
    exact apart.2.2 e there _ List.mem_cons_self
  · intro e there
    rw [KeySpace.equal_comm (h.isKey e (by simp [there])) (h.isKey _ mem)]
    exact behind.1 e there

theorem Distinct.update_self {l : Association} (h : Distinct keys l) : update keys l l = l := by
  have part : ∀ entries : Association, entries ⊆ l → update keys l entries = l := by
    intro entries
    induction entries with
    | nil => intro _; rfl
    | cons e rest ih =>
      intro sub
      have first : set keys l e.1 e.2 = l := h.set_mem (sub List.mem_cons_self)
      have others := ih (List.subset_of_cons_subset sub)
      simpa [update, first] using others
  exact part l (List.Subset.refl l)

end Association

namespace Table

variable (keys : KeySpace)

/-- A table in good order whose entries have distinct keys, each under its own hash code. -/
structure Sound (t : Table Value Value) : Prop where
  valid : t.Valid
  code : ∀ e ∈ t.toList, e.hash = keys.code e.key
  distinct : Association.Distinct keys t.pairs

/-- What a search for a key is to find: the position of an equal key, or nothing if none is equal. -/
def Locates (t : Table Value Value) (key : Value) : Option Nat → Prop
  | some position => ∃ e, t.entry? position = some e ∧ keys.equal e.key key
  | none => ∀ e ∈ t.toList, keys.equal e.key key = false

variable {keys} {t : Table Value Value} {key : Value}

theorem length_pairs (h : t.Valid) : t.pairs.length = t.size := by
  simp [pairs, size, h.live]

theorem sound_empty : (empty : Table Value Value).Sound keys where
  valid := valid_empty
  code := by simp [toList_empty]
  distinct := ⟨by simp [pairs, toList_empty], by simp [pairs, toList_empty]⟩

theorem sound_clear (t : Table Value Value) : t.clear.Sound keys where
  valid := valid_clear t
  code := by simp [toList_clear]
  distinct := ⟨by simp [pairs, toList_clear], by simp [pairs, toList_clear]⟩

theorem Sound.isKey (h : t.Sound keys) {e : Entry Value Value} (mem : e ∈ t.toList) :
    keys.IsKey e.key :=
  h.distinct.isKey (e.key, e.value) (List.mem_map_of_mem mem)

theorem Sound.isKey_candidate (h : t.Sound keys) {hash : HashCode} {c : Nat × Value}
    (mem : c ∈ t.candidates hash) : keys.IsKey c.2 := by
  obtain ⟨e, entry, -, same⟩ := (mem_candidates h.valid).mp mem
  exact same ▸ h.isKey (mem_toList_iff.mpr ⟨c.1, entry⟩)

theorem pairs_insertNew (t : Table Value Value) (hash : HashCode) (key value : Value) :
    (t.insertNew hash key value).pairs = t.pairs ++ [(key, value)] := by
  simp [pairs, toList_insertNew]

section Absent

variable (absent : t.Locates keys key none)

include absent

theorem pairs_absent : ∀ e ∈ t.pairs, keys.equal e.1 key = false := by
  intro e mem
  obtain ⟨entry, there, rfl⟩ := List.mem_map.mp mem
  exact absent entry there

theorem Sound.insertNew (h : t.Sound keys) (isKey : keys.IsKey key) (value : Value) :
    (t.insertNew (keys.code key) key value).Sound keys where
  valid := h.valid.insertNew _ key value
  code := by
    intro e mem
    rw [toList_insertNew, List.mem_append, List.mem_singleton] at mem
    rcases mem with old | rfl
    · exact h.code e old
    · rfl
  distinct := by
    rw [pairs_insertNew]
    constructor
    · intro e mem
      rw [List.mem_append, List.mem_singleton] at mem
      rcases mem with old | rfl
      · exact h.distinct.isKey e old
      · exact isKey
    · rw [List.pairwise_append]
      refine ⟨h.distinct.apart, List.pairwise_singleton _ _, ?_⟩
      intro e mem new there
      rw [List.mem_singleton] at there
      rw [there]
      exact pairs_absent absent e mem

end Absent

/-- The entry at a located position is the only one with an equal key, so the pairs are cut there in
two parts that a search passes over. -/
theorem Sound.pairs_cut (h : t.Sound keys) (isKey : keys.IsKey key) {position : Nat}
    {e : Entry Value Value} (found : t.entry? position = some e) (equal : keys.equal e.key key) :
    ∃ before after : Association, t.pairs = before ++ (e.key, e.value) :: after ∧
      (∀ value, (t.setValue position value).pairs = before ++ (e.key, value) :: after) ∧
      (t.remove position).pairs = before ++ after ∧
      (∀ x ∈ before, keys.equal x.1 key = false) ∧ ∀ x ∈ after, keys.equal x.1 key = false := by
  obtain ⟨before, after, all, set, removed⟩ := toList_cut found
  have listed : t.pairs = before.map (fun e => (e.key, e.value)) ++ (e.key, e.value) ::
      after.map (fun e => (e.key, e.value)) := by
    simp [pairs, all]
  have eKey : keys.IsKey e.key := h.isKey (mem_toList_iff.mpr ⟨position, found⟩)
  have areKeys := h.distinct.isKey
  have apart := h.distinct.apart
  rw [listed] at areKeys
  rw [listed, List.pairwise_append, List.pairwise_cons] at apart
  refine ⟨before.map fun e => (e.key, e.value), after.map fun e => (e.key, e.value), listed,
    ?_, ?_, ?_, ?_⟩
  · intro value
    simp [pairs, set]
  · simp [pairs, removed]
  · intro x mem
    have xKey : keys.IsKey x.1 := areKeys x (List.mem_append_left _ mem)
    have other : keys.equal x.1 e.key = false := apart.2.2 x mem _ List.mem_cons_self
    exact KeySpace.differs_of_equal xKey eKey isKey other equal
  · intro x mem
    have xKey : keys.IsKey x.1 := areKeys x (List.mem_append_right _ (List.mem_cons_of_mem _ mem))
    have other : keys.equal e.key x.1 = false := apart.2.1.1 x mem
    rw [KeySpace.equal_comm eKey xKey] at other
    exact KeySpace.differs_of_equal xKey eKey isKey other equal

theorem Sound.remove (h : t.Sound keys) (position : Nat) : (t.remove position).Sound keys := by
  cases found : t.entry? position with
  | none => simpa [Table.remove, found] using h
  | some e =>
    obtain ⟨before, after, all, -, removed⟩ := toList_cut found
    have sub : (t.remove position).toList.Sublist t.toList := by
      rw [all, removed]
      exact List.Sublist.append_left (List.sublist_cons_self e after) before
    have subPairs : (t.remove position).pairs.Sublist t.pairs := sub.map _
    exact
      { valid := h.valid.remove position
        code := fun e mem => h.code e (sub.subset mem)
        distinct :=
          ⟨fun e mem => h.distinct.isKey e (subPairs.subset mem), h.distinct.apart.sublist subPairs⟩ }

theorem Sound.setValue (h : t.Sound keys) (position : Nat) (value : Value) :
    (t.setValue position value).Sound keys := by
  cases found : t.entry? position with
  | none => simpa [Table.setValue, found] using h
  | some e =>
    obtain ⟨before, after, all, set, -⟩ := toList_cut found
    -- keys and codes are those of before, entry by entry
    have sameKeys : (t.setValue position value).pairs.map Prod.fst = t.pairs.map Prod.fst := by
      simp [pairs, set, all]
    refine ⟨h.valid.setValue position value, ?_, ?_, ?_⟩
    · intro x mem
      rw [set, List.mem_append, List.mem_cons] at mem
      rcases mem with front | rfl | back
      · exact h.code x (by simp [all, front])
      · exact h.code e (by simp [all])
      · exact h.code x (by simp [all, back])
    · intro x mem
      have there : x.1 ∈ t.pairs.map Prod.fst := sameKeys ▸ List.mem_map_of_mem mem
      obtain ⟨y, yMem, same⟩ := List.mem_map.mp there
      exact same ▸ h.distinct.isKey y yMem
    · have apart : (t.pairs.map Prod.fst).Pairwise fun a b => keys.equal a b = false :=
        List.pairwise_map.mpr h.distinct.apart
      rw [← sameKeys] at apart
      exact List.pairwise_map.mp apart

end Table

end DynamicObjects
