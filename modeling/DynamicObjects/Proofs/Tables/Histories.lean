import DynamicObjects.Proofs.Tables.Positions
import Mathlib.Data.List.Induction

/-!
Histories of tables. An action may go to any position, whether there is an entry or not. A table never looks at its
values, so they may carry the number of the action that inserted them, which tells all entries apart: the numbers
of the entries ascend, whatever the history, and an entry stays where it is for as long as the layout does.
-/
namespace DynamicObjects

inductive TableAction (κ ν : Type)
  | insert (hash : HashCode) (key : κ) (value : ν)
  | modify (position : Nat) (f : ν → ν)
  | remove (position : Nat)
  | popLast
  | clear

namespace Table

variable {κ ν ν' : Type}

def modify (t : Table κ ν) (position : Nat) (f : ν → ν) : Table κ ν :=
  match t.entry? position with
  | none => t
  | some e => t.setValue position (f e.value)

def popLast (t : Table κ ν) : Table κ ν :=
  match t.last? with
  | none => t
  | some (position, _) => t.remove position

def perform (t : Table κ ν) : TableAction κ ν → Table κ ν
  | .insert hash key value => t.insertNew hash key value
  | .modify position f => t.modify position f
  | .remove position => t.remove position
  | .popLast => t.popLast
  | .clear => t.clear

def run (history : List (TableAction κ ν)) : Table κ ν := history.foldl perform empty

theorem run_concat (history : List (TableAction κ ν)) (a : TableAction κ ν) :
    run (history ++ [a]) = (run history).perform a := by
  rw [run, List.foldl_append]
  rfl

section Actions

variable {t : Table κ ν}

theorem Valid.modify (h : t.Valid) (position : Nat) (f : ν → ν) : (t.modify position f).Valid := by
  unfold Table.modify
  split
  · exact h
  · exact h.setValue position _

theorem Valid.popLast (h : t.Valid) : t.popLast.Valid := by
  unfold Table.popLast
  split
  · exact h
  · exact h.remove _

theorem Valid.perform (h : t.Valid) (a : TableAction κ ν) : (t.perform a).Valid := by
  cases a with
  | insert hash key value => exact h.insertNew hash key value
  | modify position f => exact h.modify position f
  | remove position => exact h.remove position
  | popLast => exact h.popLast
  | clear => exact valid_clear t

theorem valid_run (history : List (TableAction κ ν)) : (run history).Valid := by
  induction history using List.reverseRecOn with
  | nil => exact valid_empty
  | append_singleton history a ih => exact run_concat history a ▸ ih.perform a

theorem entry?_modify (q p : Nat) (f : ν → ν) : Table.entry? (t.modify q f) p =
    if p = q then (t.entry? p).map (fun e => { e with value := f e.value }) else t.entry? p := by
  unfold modify
  cases found : t.entry? q with
  | none => by_cases same : p = q <;> simp [same, found]
  | some e => by_cases same : p = q <;> simp [same, found, entry?_setValue]

end Actions

end Table

def Entry.mapValue {κ ν ν' : Type} (f : ν → ν') (e : Entry κ ν) : Entry κ ν' := ⟨e.hash, e.key, f e.value⟩

namespace Table

variable {κ ν ν' : Type}

def mapValues (f : ν → ν') (t : Table κ ν) : Table κ ν' where
  index := t.index
  entries := t.entries.map (Option.map (Entry.mapValue f))
  live := t.live
  layout := t.layout

section MapValues

variable (f : ν → ν') (t : Table κ ν)

theorem entry?_mapValues (p : Nat) : Table.entry? (t.mapValues f) p = (t.entry? p).map (Entry.mapValue f) := by
  unfold entry? mapValues
  rw [Array.getElem?_map]
  rcases t.entries[p]? with _ | _ | e <;> rfl

theorem lastBelow_mapValues (bound : Nat) : (t.mapValues f).lastBelow bound =
    (t.lastBelow bound).map fun found => (found.1, found.2.mapValue f) := by
  induction bound with
  | zero => rfl
  | succ bound ih =>
    rw [lastBelow, lastBelow, entry?_mapValues]
    cases t.entry? bound with
    | none => exact ih
    | some e => rfl

theorem indexFrom_map (index : PositionIndex) (position : Nat) (slots : List (Option (Entry κ ν))) :
    indexFrom index position (slots.map (Option.map (Entry.mapValue f))) = indexFrom index position slots := by
  induction slots generalizing index position with
  | nil => rfl
  | cons slot rest ih =>
    cases slot with
    | none => exact ih index (position + 1)
    | some e => exact ih (index.add e.hash position) (position + 1)

theorem mapValues_compact : (t.compact).mapValues f = (t.mapValues f).compact := by
  have kept : (fun slot : Option (Entry κ ν') => slot.isSome) ∘ Option.map (Entry.mapValue f) =
      fun slot : Option (Entry κ ν) => slot.isSome :=
    funext fun slot => Option.isSome_map
  simp only [compact, mapValues, Array.filter_map, kept, Array.toList_map, indexFrom_map]

theorem mapValues_insertNew (hash : HashCode) (key : κ) (value : ν) :
    (t.insertNew hash key value).mapValues f = (t.mapValues f).insertNew hash key (f value) := by
  have needs : (t.mapValues f).needsCompaction = t.needsCompaction := by
    simp only [needsCompaction, mapValues, Array.size_map]
  unfold insertNew
  rw [needs, ← mapValues_compact]
  cases t.needsCompaction <;> simp [mapValues, Entry.mapValue]

theorem mapValues_modify {g : ν → ν} {g' : ν' → ν'} (commutes : ∀ v, f (g v) = g' (f v)) (position : Nat) :
    (t.modify position g).mapValues f = (t.mapValues f).modify position g' := by
  unfold modify setValue
  rw [entry?_mapValues]
  cases found : t.entry? position with
  | none => rfl
  | some e => simp [mapValues, Array.map_setIfInBounds, Entry.mapValue, commutes]

theorem mapValues_remove (position : Nat) :
    (t.remove position).mapValues f = (t.mapValues f).remove position := by
  have holes : (fun slot : Option (Entry κ ν') => slot.isNone) ∘ Option.map (Entry.mapValue f) =
      fun slot : Option (Entry κ ν) => slot.isNone :=
    funext fun slot => Option.isNone_map
  unfold remove
  rw [entry?_mapValues]
  cases found : t.entry? position with
  | none => rfl
  | some e =>
    have popped (slots : Array (Option (Entry κ ν))) :
        (slots.popWhile (·.isNone)).map (Option.map (Entry.mapValue f)) =
          (slots.map (Option.map (Entry.mapValue f))).popWhile (·.isNone) := by
      rw [Array.popWhile_map, holes]
    simp only [mapValues, Option.map_some, popped, Array.map_setIfInBounds, Option.map_none]
    rfl

theorem mapValues_popLast : t.popLast.mapValues f = (t.mapValues f).popLast := by
  have last : (t.mapValues f).last? = t.last?.map fun found => (found.1, found.2.mapValue f) := by
    rw [last?, last?, ← lastBelow_mapValues, mapValues, Array.size_map]
  unfold popLast
  rw [last]
  cases t.last? with
  | none => rfl
  | some found => exact mapValues_remove f t found.1

theorem mapValues_clear : t.clear.mapValues f = (t.mapValues f).clear := by
  simp [clear, mapValues]

end MapValues

end Table

/-- What stays of an entry when its value is forgotten. -/
structure Tag (κ : Type) where
  number : Nat
  hash : HashCode
  key : κ

def Entry.tag {κ ν : Type} (e : Entry κ (Nat × ν)) : Tag κ := ⟨e.value.1, e.hash, e.key⟩

section Numbers

variable {κ ν : Type}

def TableAction.numbered (n : Nat) : TableAction κ ν → TableAction κ (Nat × ν)
  | .insert hash key value => .insert hash key (n, value)
  | .modify position f => .modify position (Prod.map id f)
  | .remove position => .remove position
  | .popLast => .popLast
  | .clear => .clear

def numbered (history : List (TableAction κ ν)) : List (TableAction κ (Nat × ν)) :=
  history.mapIdx TableAction.numbered

def Table.tags (t : Table κ (Nat × ν)) : List (Tag κ) := t.toList.map Entry.tag

def TableAction.tagsAfter (n : Nat) (t : Table κ (Nat × ν)) : TableAction κ ν → List (Tag κ)
  | .insert hash key _ => t.tags ++ [⟨n, hash, key⟩]
  | .modify .. => t.tags
  | .remove position => t.tags.filter fun tag => (t.entry? position).all (·.value.1 != tag.number)
  | .popLast => t.tags.dropLast
  | .clear => []

theorem numbered_concat (history : List (TableAction κ ν)) (a : TableAction κ ν) :
    numbered (history ++ [a]) = numbered history ++ [a.numbered history.length] :=
  List.mapIdx_concat

namespace Table

variable {t : Table κ (Nat × ν)} {n : Nat}

theorem mapValues_perform (t : Table κ (Nat × ν)) (n : Nat) (a : TableAction κ ν) :
    (t.perform (a.numbered n)).mapValues Prod.snd = (t.mapValues Prod.snd).perform a := by
  cases a with
  | insert hash key value => exact mapValues_insertNew Prod.snd t hash key (n, value)
  | modify position f => exact mapValues_modify Prod.snd t (fun _ => rfl) position
  | remove position => exact mapValues_remove Prod.snd t position
  | popLast => exact mapValues_popLast Prod.snd t
  | clear => exact mapValues_clear Prod.snd t

theorem mapValues_run (history : List (TableAction κ ν)) :
    (run (numbered history)).mapValues Prod.snd = run history := by
  induction history using List.reverseRecOn with
  | nil => simp [numbered, run, empty, mapValues]
  | append_singleton history a ih =>
    rw [numbered_concat, run_concat, run_concat, mapValues_perform, ih]

theorem layout_run (history : List (TableAction κ ν)) :
    (run (numbered history)).layout = (run history).layout :=
  congrArg layout (mapValues_run history)

section Tags

variable (ascending : t.tags.Pairwise (·.number < ·.number)) (a : TableAction κ ν)

include ascending

theorem tags_remove (position : Nat) : (t.remove position).tags =
    t.tags.filter fun tag => (t.entry? position).all (·.value.1 != tag.number) := by
  cases found : t.entry? position with
  | none => simp [remove, found, List.filter_eq_self.mpr]
  | some e =>
    obtain ⟨before, after, all, -, removed⟩ := toList_cut found
    rw [tags, all, List.map_append, List.map_cons, List.pairwise_append, List.pairwise_cons] at ascending
    obtain ⟨-, ⟨above, -⟩, below⟩ := ascending
    have first : ∀ tag ∈ before.map Entry.tag, (e.value.1 != tag.number) = true := fun tag mem =>
      bne_iff_ne.mpr (Nat.ne_of_gt (below tag mem e.tag List.mem_cons_self))
    have last : ∀ tag ∈ after.map Entry.tag, (e.value.1 != tag.number) = true := fun tag mem =>
      bne_iff_ne.mpr (Nat.ne_of_lt (above tag mem))
    simp only [tags, all, removed, List.map_append, List.map_cons, List.filter_append, Option.all_some]
    rw [List.filter_eq_self.mpr first, List.filter_cons_of_neg (by simp [Entry.tag]), List.filter_eq_self.mpr last]

theorem tags_perform (n : Nat) : (t.perform (a.numbered n)).tags = a.tagsAfter n t := by
  cases a with
  | insert hash key value =>
    simp [perform, TableAction.numbered, TableAction.tagsAfter, tags, toList_insertNew, Entry.tag]
  | modify position f =>
    simp only [perform, TableAction.numbered, TableAction.tagsAfter, tags, modify]
    cases found : t.entry? position with
    | none => rfl
    | some e =>
      obtain ⟨before, after, all, set, -⟩ := toList_cut found
      simp [set, all, Entry.tag]
  | remove position => exact tags_remove ascending position
  | popLast =>
    simp only [perform, TableAction.numbered, TableAction.tagsAfter, tags, popLast]
    cases last : t.last? with
    | none => simp [toList_of_last?_eq_none last]
    | some found => simp [toList_of_last? last]
  | clear => rfl

theorem ascending_tagsAfter (below : ∀ tag ∈ t.tags, tag.number < n) :
    (a.tagsAfter n t).Pairwise (·.number < ·.number) := by
  cases a with
  | insert hash key value =>
    refine List.pairwise_append.mpr ⟨ascending, List.pairwise_singleton .., fun tag mem new here => ?_⟩
    rw [List.mem_singleton.mp here]
    exact below tag mem
  | modify position f => exact ascending
  | remove position => exact ascending.filter _
  | popLast => exact ascending.sublist (List.dropLast_sublist _)
  | clear => exact List.Pairwise.nil

end Tags

theorem mem_tagsAfter {tag : Tag κ} {a : TableAction κ ν} (mem : tag ∈ a.tagsAfter n t) :
    tag ∈ t.tags ∨ tag.number = n ∧ ∃ value, a = .insert tag.hash tag.key value := by
  cases a with
  | insert hash key value =>
    refine (List.mem_append.mp mem).imp_right fun new => ?_
    rw [List.mem_singleton.mp new]
    exact ⟨rfl, value, rfl⟩
  | modify position f => exact .inl mem
  | remove position => exact .inl (List.mem_filter.mp mem).1
  | popLast => exact .inl ((List.dropLast_sublist _).subset mem)
  | clear => cases mem

theorem tags_run (history : List (TableAction κ ν)) :
    (run (numbered history)).tags.Pairwise (·.number < ·.number) ∧
      ∀ tag ∈ (run (numbered history)).tags,
        ∃ value, history[tag.number]? = some (.insert tag.hash tag.key value) := by
  induction history using List.reverseRecOn with
  | nil => exact ⟨List.Pairwise.nil, nofun⟩
  | append_singleton history a ih =>
    obtain ⟨ascending, inserted⟩ := ih
    have below : ∀ tag ∈ (run (numbered history)).tags, tag.number < history.length := fun tag mem =>
      (List.getElem?_eq_some_iff.mp (inserted tag mem).choose_spec).1
    rw [numbered_concat, run_concat, tags_perform ascending]
    refine ⟨ascending_tagsAfter ascending a below, fun tag mem => ?_⟩
    rcases mem_tagsAfter mem with old | ⟨number, value, rfl⟩
    · rw [List.getElem?_append_left (below tag old)]
      exact inserted tag old
    · exact ⟨value, by rw [number, List.getElem?_concat_length]⟩

/-- An entry that is there after an action which leaves the layout as it is was there before, or it is new. -/
theorem tag_of_entry?_perform {a : TableAction κ ν} {q : Nat} {e' : Entry κ (Nat × ν)}
    (still : (t.perform (a.numbered n)).layout = t.layout)
    (found : Table.entry? (t.perform (a.numbered n)) q = some e') :
    e'.tag.number = n ∨ ∃ e, t.entry? q = some e ∧ e.tag = e'.tag := by
  have removed (position : Nat) (found : Table.entry? (t.remove position) q = some e') :
      ∃ e, t.entry? q = some e ∧ e.tag = e'.tag := by
    rw [entry?_remove] at found
    split at found
    · cases found
    · exact ⟨e', found, rfl⟩
  cases a with
  | insert hash key value =>
    have roomy : t.needsCompaction = false := by
      by_contra squeezed
      rw [Bool.not_eq_false] at squeezed
      simp [perform, TableAction.numbered, insertNew, squeezed, compact] at still
    simp only [perform, TableAction.numbered, entry?_insertNew, squeezed_of_roomy roomy] at found
    split at found
    · rw [← Option.some.inj found]
      exact .inl rfl
    · exact .inr ⟨e', found, rfl⟩
  | modify position f =>
    simp only [perform, TableAction.numbered, entry?_modify] at found
    split at found
    · obtain ⟨e, there, rfl⟩ := Option.map_eq_some_iff.mp found
      exact .inr ⟨e, there, rfl⟩
    · exact .inr ⟨e', found, rfl⟩
  | remove position => exact .inr (removed position found)
  | popLast =>
    simp only [perform, TableAction.numbered, popLast] at found
    split at found
    · exact .inr ⟨e', found, rfl⟩
    · exact .inr (removed _ found)
  | clear => cases found

theorem mem_tags {p : Nat} {e : Entry κ (Nat × ν)} (found : t.entry? p = some e) : e.tag ∈ t.tags :=
  List.mem_map_of_mem (mem_toList_iff.mpr ⟨p, found⟩)

theorem number_lt {p q : Nat} {e e' : Entry κ (Nat × ν)} (ascending : t.tags.Pairwise (·.number < ·.number))
    (here : t.entry? p = some e) (there : t.entry? q = some e') (lt : p < q) : e.tag.number < e'.tag.number := by
  obtain ⟨before, after, cut, at_position⟩ := exists_cut here
  have behind : some e' ∈ after := by
    have found := entry?_eq_some_iff.mp there
    rw [cut, List.getElem?_append_right (by omega), List.getElem?_cons, if_neg (by omega)] at found
    exact List.mem_of_getElem? found
  rw [tags, toList, cut, List.filterMap_append, List.map_append, List.pairwise_append] at ascending
  exact (List.pairwise_cons.mp ascending.2.1).1 e'.tag
    (List.mem_map_of_mem (List.mem_filterMap.mpr ⟨some e', behind, rfl⟩))

theorem position_stays {earlier later : List (TableAction κ ν)}
    (still : ∀ middle, middle <+: later → (run (earlier ++ middle)).layout = (run earlier).layout)
    {p q : Nat} {e e' : Entry κ (Nat × ν)} (here : Table.entry? (run (numbered earlier)) p = some e)
    (there : Table.entry? (run (numbered (earlier ++ later))) q = some e')
    (same : e.tag.number = e'.tag.number) : p = q := by
  obtain ⟨ascending, inserted⟩ := tags_run earlier
  induction later using List.reverseRecOn generalizing e' with
  | nil =>
    rw [List.append_nil] at there
    by_contra differ
    rcases Nat.lt_or_gt_of_ne differ with lt | gt
    · exact absurd same (Nat.ne_of_lt (number_lt ascending here there lt))
    · exact absurd same (Nat.ne_of_gt (number_lt ascending there here gt))
  | append_singleton later a ih =>
    have before := still later (List.prefix_append later [a])
    have after := still (later ++ [a]) (List.prefix_refl _)
    rw [← List.append_assoc] at after there
    have unmoved : ((run (numbered (earlier ++ later))).perform (a.numbered (earlier ++ later).length)).layout =
        (run (numbered (earlier ++ later))).layout := by
      rw [← run_concat, ← numbered_concat, layout_run, layout_run, after, before]
    rw [numbered_concat, run_concat] at there
    rcases tag_of_entry?_perform unmoved there with new | ⟨e₁, old, tag⟩
    · obtain ⟨_, known⟩ := inserted e.tag (mem_tags here)
      have bound := (List.getElem?_eq_some_iff.mp known).1
      rw [same, new, List.length_append] at bound
      omega
    · exact ih (fun middle part => still middle (part.trans (List.prefix_append later [a]))) old
        (same.trans (congrArg Tag.number tag.symm))

/-- The numbers ascend and name the insertions. What is left after one more action is what was there before, less
the entry that the action takes out, and behind it the one that it adds. -/
structure InsertionOrder (history : List (TableAction κ ν)) : Prop where
  same : (run (numbered history)).mapValues Prod.snd = run history
  ascending : (run (numbered history)).tags.Pairwise (·.number < ·.number)
  inserted : ∀ tag ∈ (run (numbered history)).tags,
    ∃ value, history[tag.number]? = some (.insert tag.hash tag.key value)
  next : ∀ a, (run (numbered (history ++ [a]))).tags = a.tagsAfter history.length (run (numbered history))

theorem insertionOrder (history : List (TableAction κ ν)) : InsertionOrder history where
  same := mapValues_run history
  ascending := (tags_run history).1
  inserted := (tags_run history).2
  next a := by rw [numbered_concat, run_concat, tags_perform (tags_run history).1]

/-- An entry is found where it was unless the layout has changed meanwhile. -/
def PositionsStay (history : List (TableAction κ ν)) : Prop :=
  ∀ earlier later, history = earlier ++ later →
    (∀ middle, middle <+: later → (run (earlier ++ middle)).layout = (run earlier).layout) →
    ∀ p q e e', Table.entry? (run (numbered earlier)) p = some e →
      Table.entry? (run (numbered history)) q = some e' → e.tag.number = e'.tag.number → p = q

end Table

end Numbers

end DynamicObjects
