import Mathlib.Data.List.Nodup
import DynamicObjects.Proofs.Dicts.Changes

/-!
Walking over a dictionary while it changes. A history records the changes of the table and the answers of
the steps since the walk was opened. A walk only compares the number of entries and the layout with what
they were, so entries may come and go unnoticed; but while the layout is the same every entry that was
there at the beginning and was never removed is where it was, and the walk passes all positions in order.
Positions that were given up and used again belong to entries that came later.
-/
namespace DynamicObjects

/-- What a step of a walk comes to; an element comes from a position of the table. -/
inductive StepAnswer
  | yields (position : Nat) (v : Value)
  | ends
  | faults (e : Error)

inductive DictMoment
  | change (c : DictChange)
  | step (a : StepAnswer)

/-! ## Histories -/

section Histories

def tableAfter (t : Table Value Value) : List DictMoment → Table Value Value
  | [] => t
  | .change c :: earlier => c.apply (tableAfter t earlier)
  | .step _ :: earlier => tableAfter t earlier

def movesIn (t : Table Value Value) : List DictMoment → Nat
  | [] => 0
  | .change c :: earlier => movesIn t earlier + (c.moves (tableAfter t earlier)).toNat
  | .step _ :: earlier => movesIn t earlier

def removedIn (p : Nat) : List DictMoment → Bool
  | [] => false
  | .change c :: earlier => c.removes p || removedIn p earlier
  | .step _ :: earlier => removedIn p earlier

def changedIn : List DictMoment → Bool
  | [] => false
  | .change _ :: _ => true
  | .step _ :: earlier => changedIn earlier

def stoppedIn : List DictMoment → Bool
  | [] => false
  | .change _ :: earlier => stoppedIn earlier
  | .step (.yields ..) :: earlier => stoppedIn earlier
  | .step _ :: _ => true

/-- The positions of the elements so far, in the order in which they came. -/
def yieldedIn : List DictMoment → List Nat
  | [] => []
  | .step (.yields p _) :: earlier => yieldedIn earlier ++ [p]
  | _ :: earlier => yieldedIn earlier

def Table.positions {κ ν : Type} (t : Table κ ν) : List Nat :=
  (List.range t.entries.size).filter fun p => (t.entry? p).isSome

/-- The positions of the entries that were there at the beginning and have never been removed. -/
def survivors (t : Table Value Value) (history : List DictMoment) : List Nat :=
  t.positions.filter fun p => !removedIn p history

variable {t : Table Value Value} {history : List DictMoment} {p : Nat}

theorem mem_survivors : p ∈ survivors t history ↔
    (∃ e, t.entry? p = some e) ∧ removedIn p history = false := by
  have inside : (∃ e, t.entry? p = some e) → p < t.entries.size := by
    rintro ⟨e, found⟩
    by_contra outside
    rw [Table.entry?_eq_none_of_size_le (by omega)] at found
    cases found
  simp only [survivors, Table.positions, List.mem_filter, List.mem_range, Option.isSome_iff_exists,
    Bool.not_eq_true']
  constructor
  · exact fun h => ⟨h.1.2, h.2⟩
  · exact fun h => ⟨⟨inside h.1, h.1⟩, h.2⟩

theorem valid_tableAfter (valid : t.Valid) (history : List DictMoment) : (tableAfter t history).Valid := by
  induction history with
  | nil => exact valid
  | cons moment earlier ih =>
    cases moment with
    | change c => exact c.valid_apply ih
    | step a => exact ih

theorem layout_tableAfter (valid : t.Valid) (history : List DictMoment) :
    (tableAfter t history).layout = t.layout + movesIn t history := by
  induction history with
  | nil => rfl
  | cons moment earlier ih =>
    cases moment with
    | change c =>
      rw [tableAfter, movesIn, c.layout_apply (valid_tableAfter valid earlier), ih, Nat.add_assoc]
    | step a => exact ih

/-- While nothing has moved, entries that were never removed are where they were, under their keys. -/
theorem entry?_tableAfter {e : Entry Value Value} (still : movesIn t history = 0)
    (kept : removedIn p history = false) (found : t.entry? p = some e) :
    ∃ e', Table.entry? (tableAfter t history) p = some e' ∧ e'.key = e.key ∧ e'.hash = e.hash := by
  induction history with
  | nil => exact ⟨e, found, rfl, rfl⟩
  | cons moment earlier ih =>
    cases moment with
    | change c =>
      simp only [movesIn, Nat.add_eq_zero_iff, Bool.toNat_eq_zero] at still
      simp only [removedIn, Bool.or_eq_false_iff] at kept
      obtain ⟨e₁, there, key, hash⟩ := ih still.1 kept.2
      obtain ⟨e₂, there', key', hash'⟩ := c.entry?_apply still.2 kept.1 there
      exact ⟨e₂, there', key'.trans key, hash'.trans hash⟩
    | step a => exact ih still kept

theorem tableAfter_of_not_changed (t : Table Value Value) (h : changedIn history = false) :
    tableAfter t history = t := by
  induction history with
  | nil => rfl
  | cons moment earlier ih =>
    cases moment with
    | change c => cases h
    | step a => exact ih h

theorem movesIn_of_not_changed (t : Table Value Value) (h : changedIn history = false) :
    movesIn t history = 0 := by
  induction history with
  | nil => rfl
  | cons moment earlier ih =>
    cases moment with
    | change c => cases h
    | step a => exact ih h

end Histories

/-! ## Interleavings -/

def DictPart.Shows (e : Entry Value Value) (v : Value) : DictPart → Prop
  | .keys => v = e.key
  | .values => v = e.value
  | .items => ∃ id, v = .tuple id [e.key, e.value]

def DictPart.sources (r : DictRef) : DictPart → List Value
  | .keys => [.dict r, .dictKeys r]
  | .values => [.dictValues r]
  | .items => [.dictItems r]

/-- The answer of a step, from its result and the iterator after it, which stands behind the element. -/
def StepAnswer.of : Except Error (Option Value) → Iterator → StepAnswer
  | .ok (some v), .dict _ _ position .. => .yields (position - 1) v
  | .ok (some v), _ => .yields 0 v
  | .ok none, _ => .ends
  | .error e, _ => .faults e

/-- A walk over a value is opened, and then it takes steps while the dictionary changes and other things
happen elsewhere, in any order. -/
inductive Interleaving (h : Hooks) (r : DictRef) (source : Value) (w₀ : World) :
    List DictMoment → Iterator → World → Prop
  | opened {it : Iterator} {w : World} (ran : Protocol.openIterator h source w₀ = (.ok it, w)) :
    Interleaving h r source w₀ [] it w
  | elsewhere {history : List DictMoment} {it : Iterator} {w w' : World} {o o' : DictObject}
    (before : Interleaving h r source w₀ history it w) (live : w.dict? r = some o)
    (live' : w'.dict? r = some o') (same : o'.table = o.table) :
    Interleaving h r source w₀ history it w'
  | change {history : List DictMoment} {it : Iterator} {w w' : World} {o o' : DictObject}
    (before : Interleaving h r source w₀ history it w) (c : DictChange) (live : w.dict? r = some o)
    (live' : w'.dict? r = some o') (changed : o'.table = c.apply o.table) :
    Interleaving h r source w₀ (.change c :: history) it w'
  | step {history : List DictMoment} {it it' : Iterator} {w w' : World}
    {result : Except Error (Option Value)} (before : Interleaving h r source w₀ history it w)
    (ran : Protocol.step h it w = (.ok (result, it'), w')) :
    Interleaving h r source w₀ (.step (.of result it') :: history) it' w'

theorem Interleaving.stepped {h : Hooks} {r : DictRef} {source : Value} {w₀ w w' : World}
    {history : List DictMoment} {it it' : Iterator} {a : StepAnswer}
    (before : Interleaving h r source w₀ history it w) (result : Except Error (Option Value))
    (ran : Protocol.step h it w = (.ok (result, it'), w')) (answer : .of result it' = a) :
    Interleaving h r source w₀ (.step a :: history) it' w' :=
  answer ▸ .step before ran

/-- What the answer of a step has to be after what has happened. -/
structure StepRight (part : DictPart) (t : Table Value Value) (earlier : List DictMoment) (a : StepAnswer) :
    Prop where
  stopped : stoppedIn earlier = true → a = .ends
  resized : stoppedIn earlier = false → (tableAfter t earlier).size ≠ t.size →
    a = .faults .dictChangedSize
  moved : stoppedIn earlier = false → (tableAfter t earlier).size = t.size → movesIn t earlier ≠ 0 →
    a = .faults .dictKeysChanged
  /-- An element is shown from an entry of the table as it is, which is the entry of the beginning if that
  was never removed. -/
  current : stoppedIn earlier = false → (tableAfter t earlier).size = t.size → movesIn t earlier = 0 →
    a = .ends ∨ ∃ p v e, a = .yields p v ∧ Table.entry? (tableAfter t earlier) p = some e ∧ part.Shows e v ∧
      ∀ e₀, t.entry? p = some e₀ → removedIn p earlier = false → e.key = e₀.key ∧ e.hash = e₀.hash
  /-- At the end all entries that stayed have been shown, once each and in order. -/
  complete : stoppedIn earlier = false → a = .ends →
    (yieldedIn earlier).filter (· ∈ survivors t earlier) = survivors t earlier
  /-- Without changes the entries are shown one after the other, and then the walk ends. -/
  inOrder : stoppedIn earlier = false → changedIn earlier = false →
    match t.toList[(yieldedIn earlier).length]? with
    | some e => ∃ p v, a = .yields p v ∧ part.Shows e v
    | none => a = .ends

/-! ## The position of a walk -/

/-- A walk that has come to a position: what it has shown is below, in order, and nothing below that
stayed has been left out. -/
structure Passed (t : Table Value Value) (history : List DictMoment) (position : Nat) : Prop where
  ascending : (yieldedIn history).Pairwise (· < ·)
  below : ∀ p ∈ yieldedIn history, p < position
  visited : ∀ p ∈ survivors t history, p < position → p ∈ yieldedIn history
  counted : changedIn history = false → (t.below position).length = (yieldedIn history).length

namespace Passed

variable {t : Table Value Value} {history : List DictMoment} {position : Nat}

theorem opened : Passed t [] 0 := ⟨.nil, nofun, nofun, fun _ => rfl⟩

theorem change (passed : Passed t history position) (c : DictChange) :
    Passed t (.change c :: history) position := by
  refine ⟨passed.ascending, passed.below, fun p mem => passed.visited p ?_, nofun⟩
  rw [mem_survivors, removedIn, Bool.or_eq_false_iff] at mem
  exact mem_survivors.mpr ⟨mem.1, mem.2.2⟩

theorem ends (passed : Passed t history position) : Passed t (.step .ends :: history) position :=
  ⟨passed.ascending, passed.below, passed.visited, passed.counted⟩

theorem faults (passed : Passed t history position) (e : Error) :
    Passed t (.step (.faults e) :: history) position :=
  ⟨passed.ascending, passed.below, passed.visited, passed.counted⟩

/-- The next entry is shown; the positions in between are holes, so no entry that stayed is there. -/
theorem yields (passed : Passed t history position) (still : movesIn t history = 0) {q : Nat}
    {e : Entry Value Value} (next : (tableAfter t history).nextFrom position = some (q, e)) (v : Value) :
    Passed t (.step (.yields q v) :: history) (q + 1) := by
  obtain ⟨above, found, holes⟩ := Table.nextAmong_eq_some next
  refine ⟨?_, ?_, ?_, ?_⟩
  · rw [yieldedIn, List.pairwise_append]
    refine ⟨passed.ascending, List.pairwise_singleton _ _, ?_⟩
    intro p mem q' last
    rw [List.mem_singleton.mp last]
    exact Nat.lt_of_lt_of_le (passed.below p mem) above
  · intro p mem
    rw [yieldedIn, List.mem_append, List.mem_singleton] at mem
    rcases mem with mem | rfl
    · have := passed.below p mem
      omega
    · omega
  · intro p survives less
    rw [yieldedIn, List.mem_append, List.mem_singleton]
    by_cases before : p < position
    · exact .inl (passed.visited p survives before)
    · right
      by_contra other
      obtain ⟨⟨e₀, there⟩, kept⟩ := mem_survivors.mp survives
      obtain ⟨e', there', _⟩ := entry?_tableAfter still kept there
      rw [holes p (by omega) (by omega)] at there'
      cases there'
  · intro (same : changedIn history = false)
    rw [tableAfter_of_not_changed t same] at found holes
    rw [Table.below_succ found, Table.below_of_holes above holes, yieldedIn, List.length_append,
      List.length_append, passed.counted same]
    rfl

theorem complete (passed : Passed t history position) (still : movesIn t history = 0)
    (next : (tableAfter t history).nextFrom position = none) :
    (yieldedIn history).filter (· ∈ survivors t history) = survivors t history := by
  have sorted : (survivors t history).Pairwise (· < ·) :=
    (List.pairwise_lt_range.filter _).filter _
  have all : ∀ p ∈ survivors t history, p ∈ yieldedIn history := by
    intro p survives
    apply passed.visited p survives
    by_contra beyond
    obtain ⟨⟨e, there⟩, kept⟩ := mem_survivors.mp survives
    obtain ⟨e', there', _⟩ := entry?_tableAfter still kept there
    rw [Table.nextFrom_eq_none next p (by omega)] at there'
    cases there'
  refine List.Perm.eq_of_pairwise ?_ (passed.ascending.filter _) sorted ?_
  · intro a b _ _ less less'
    omega
  · rw [List.perm_ext_iff_of_nodup (passed.ascending.filter _).nodup sorted.nodup]
    intro p
    simpa using all p

end Passed

namespace StepRight

variable {part : DictPart} {t : Table Value Value} {history : List DictMoment} {position : Nat}
  (stopped : stoppedIn history = false) (size : (tableAfter t history).size = t.size)
  (still : movesIn t history = 0) (passed : Passed t history position)

include stopped size still passed

omit stopped in
theorem ends (next : (tableAfter t history).nextFrom position = none) :
    StepRight part t history .ends where
  stopped _ := rfl
  resized _ other := absurd size other
  moved _ _ moved := absurd still moved
  current _ _ _ := .inl rfl
  complete _ _ := passed.complete still next
  inOrder _ same := by
    rw [tableAfter_of_not_changed t same] at next
    rw [← passed.counted same, Table.below_of_nextFrom_eq_none next, List.getElem?_length]

theorem yields {q : Nat} {e : Entry Value Value} {v : Value}
    (next : (tableAfter t history).nextFrom position = some (q, e)) (shows : part.Shows e v) :
    StepRight part t history (.yields q v) := by
  obtain ⟨above, found, holes⟩ := Table.nextAmong_eq_some next
  refine ⟨by simp [stopped], fun _ other => absurd size other, fun _ _ moved => absurd still moved, ?_,
    nofun, ?_⟩
  · intro _ _ _
    refine .inr ⟨q, v, e, rfl, found, shows, fun e₀ there kept => ?_⟩
    obtain ⟨e', there', same⟩ := entry?_tableAfter still kept there
    obtain rfl : e = e' := Option.some.inj (found.symm.trans there')
    exact same
  · intro _ same
    rw [tableAfter_of_not_changed t same] at found holes
    rw [← passed.counted same, ← Table.below_of_holes above holes, Table.getElem?_toList_below found]
    exact ⟨q, v, rfl, shows⟩

end StepRight

/-! ## One step and many -/

theorem dictPart_apply (part : DictPart) (e : Entry Value Value) (r : DictRef) (w : World) :
    ∃ v w', Protocol.dictPart part e w = (.ok v, w') ∧ part.Shows e v ∧ w'.dict? r = w.dict? r := by
  cases part with
  | keys => exact ⟨e.key, w, rfl, rfl, rfl⟩
  | values => exact ⟨e.value, w, rfl, rfl, rfl⟩
  | items => exact ⟨.tuple w.store.nextId [e.key, e.value], _, rfl, ⟨_, rfl⟩, rfl⟩

/-- The state of a walk after what has happened: the table is what the changes have made of it, and the
iterator remembers the beginning and stands at a position. -/
structure Walking (r : DictRef) (part : DictPart) (t : Table Value Value) (history : List DictMoment)
    (it : Iterator) (w : World) : Prop where
  table : ∃ o, w.dict? r = some o ∧ o.table = tableAfter t history
  iterator : ∃ position, it = .dict r part position t.size t.layout (stoppedIn history) ∧
    Passed t history position

namespace Walking

variable {h : Hooks} {r : DictRef} {part : DictPart} {t : Table Value Value} {history : List DictMoment}
  {it : Iterator} {w w' : World} {source : Value}

theorem opened {o : DictObject} (opens : source ∈ part.sources r) (live : w.dict? r = some o) :
    ∃ it, Protocol.openIterator h source w = (.ok it, w) ∧ Walking r part o.table [] it w := by
  have fresh : Walking r part o.table [] (.ofDict w.store r part) w := by
    refine ⟨⟨o, live, rfl⟩, 0, ?_, Passed.opened⟩
    rw [Iterator.ofDict, World.dict_of_dict? live]
    rfl
  refine ⟨_, ?_, fresh⟩
  cases part <;> simp only [DictPart.sources, List.mem_cons, List.not_mem_nil, or_false] at opens
  case keys => rcases opens with rfl | rfl <;> rfl
  all_goals
    subst opens
    rfl

theorem elsewhere (walking : Walking r part t history it w) {o o' : DictObject}
    (live : w.dict? r = some o) (live' : w'.dict? r = some o') (same : o'.table = o.table) :
    Walking r part t history it w' := by
  obtain ⟨seen, live₀, table⟩ := walking.table
  obtain rfl : seen = o := Option.some.inj (live₀.symm.trans live)
  exact ⟨⟨o', live', same.trans table⟩, walking.iterator⟩

theorem change (walking : Walking r part t history it w) (c : DictChange) {o o' : DictObject}
    (live : w.dict? r = some o) (live' : w'.dict? r = some o') (changed : o'.table = c.apply o.table) :
    Walking r part t (.change c :: history) it w' := by
  obtain ⟨seen, live₀, table⟩ := walking.table
  obtain ⟨position, iterator, passed⟩ := walking.iterator
  obtain rfl : seen = o := Option.some.inj (live₀.symm.trans live)
  refine ⟨⟨o', live', ?_⟩, position, iterator, passed.change c⟩
  rw [changed, table]
  rfl

/-- A step of a walk that has not stopped asks the table. -/
theorem step_apply {o : DictObject} (live : w.dict? r = some o) (position size layout : Nat) :
    Protocol.step h (.dict r part position size layout false) w =
      (match o.table.step position size layout with
        | .error e => return (.error e, .dict r part position size layout true)
        | .ok none => return (.ok none, .dict r part position size layout true)
        | .ok (some (found, e)) => do
          return (.ok (some (← Protocol.dictPart part e)), .dict r part (found + 1) size layout false) :
        Run (Except Error (Option Value) × Iterator)) w := by
  have read : (Run.readStore fun s => (s.dict r).table.step position size layout) w =
      (.ok (o.table.step position size layout), w) := by
    simp only [Run.readStore, Run.read, World.dict_of_dict? live]
  exact Run.bind_ok read

theorem step (valid : t.Valid) (walking : Walking r part t history it w) :
    ∃ result it' w', Protocol.step h it w = (.ok (result, it'), w') ∧
      StepRight part t history (.of result it') ∧
      Walking r part t (.step (.of result it') :: history) it' w' := by
  obtain ⟨o, live, table⟩ := walking.table
  obtain ⟨position, rfl, passed⟩ := walking.iterator
  have layout := layout_tableAfter valid history
  cases stopped : stoppedIn history with
  | true =>
    refine ⟨.ok none, _, w, rfl, ?_, ⟨o, live, table⟩, position, rfl, passed.ends⟩
    constructor <;> simp [stopped, StepAnswer.of]
  | false =>
    rw [step_apply live, table]
    unfold Table.step
    by_cases size : (tableAfter t history).size = t.size
    · rw [if_neg (not_not.mpr size)]
      by_cases still : movesIn t history = 0
      · rw [if_neg (by omega)]
        cases next : (tableAfter t history).nextFrom position with
        | none =>
          refine ⟨.ok none, _, w, rfl, ?_, ⟨o, live, table⟩, position, rfl, passed.ends⟩
          exact .ends size still passed next
        | some found =>
          obtain ⟨q, e⟩ := found
          obtain ⟨v, w', shown, shows, same⟩ := dictPart_apply part e r w
          refine ⟨.ok (some v), .dict r part (q + 1) t.size t.layout false, w', Run.bind_ok shown, ?_,
            ⟨o, same.trans live, table⟩, q + 1, by rw [← stopped]; rfl, passed.yields still next v⟩
          exact .yields stopped size still passed next shows
      · rw [if_pos (by omega)]
        refine ⟨.error .dictKeysChanged, _, w, rfl, ?_, ⟨o, live, table⟩, position, rfl, passed.faults _⟩
        constructor <;> simp [stopped, StepAnswer.of, size, still]
        exact fun same => absurd (movesIn_of_not_changed t same) still
    · rw [if_pos size]
      refine ⟨.error .dictChangedSize, _, w, rfl, ?_, ⟨o, live, table⟩, position, rfl, passed.faults _⟩
      constructor <;> simp [stopped, StepAnswer.of, size]
      exact fun same => absurd (congrArg Table.size (tableAfter_of_not_changed t same)) size

end Walking

namespace Interleaving

variable {h : Hooks} {r : DictRef} {part : DictPart} {source : Value} {w₀ w w' : World} {o : DictObject}
  {history : List DictMoment} {it : Iterator}

theorem walking (opens : source ∈ part.sources r) (live : w₀.dict? r = some o) (valid : o.table.Valid)
    (run : Interleaving h r source w₀ history it w) : Walking r part o.table history it w := by
  induction run with
  | opened ran =>
    obtain ⟨it', ran', walking⟩ := Walking.opened (h := h) opens live
    rw [ran'] at ran
    cases ran
    exact walking
  | elsewhere _ live live' same ih => exact ih.elsewhere live live' same
  | change _ c live live' changed ih => exact ih.change c live live' changed
  | step _ ran ih =>
    obtain ⟨result, it', w', ran', _, walking⟩ := ih.step (h := h) valid
    rw [ran'] at ran
    cases ran
    exact walking

theorem stepRight (opens : source ∈ part.sources r) (live : w₀.dict? r = some o) (valid : o.table.Valid)
    (run : Interleaving h r source w₀ history it w) (later earlier : List DictMoment) (a : StepAnswer)
    (split : history = later ++ .step a :: earlier) : StepRight part o.table earlier a := by
  induction run generalizing later with
  | opened => simp at split
  | elsewhere _ _ _ _ ih => exact ih later split
  | change _ c _ _ _ ih =>
    cases later with
    | nil => simp at split
    | cons moment later => exact ih later (List.cons.inj split).2
  | step before ran ih =>
    cases later with
    | nil =>
      obtain ⟨result, it', w', ran', right, _⟩ := (before.walking opens live valid).step (h := h) valid
      rw [ran'] at ran
      cases ran
      simp only [List.nil_append, List.cons.injEq, DictMoment.step.injEq] at split
      rw [← split.1, ← split.2]
      exact right
    | cons moment later => exact ih later (List.cons.inj split).2

theorem altered (opens : source ∈ part.sources r) (live : w₀.dict? r = some o) (valid : o.table.Valid)
    (run : Interleaving h r source w₀ history it w) (altered : Altered r w w') :
    ∃ changes : List DictChange, Interleaving h r source w₀ (changes.map .change ++ history) it w' := by
  induction altered with
  | refl => exact ⟨[], run⟩
  | tail _ alters ih =>
    obtain ⟨changes, run⟩ := ih
    obtain ⟨seen, live₁, _⟩ := (run.walking opens live valid).table
    obtain ⟨o', live', same | ⟨c, changed⟩⟩ := alters seen live₁
    · exact ⟨changes, run.elsewhere live₁ live' same⟩
    · exact ⟨c :: changes, run.change c live₁ live' changed⟩

end Interleaving

/-- A walk over the keys, values or items of a dictionary in good order, however its steps are interleaved
with changes of the dictionary and with other code: every step has an answer, and it is the right one; and
every call on the dictionary, with whatever other code it runs, is a number of changes. -/
theorem iteration_interleaved {h : Hooks} {r : DictRef} {part : DictPart} {source : Value} {w₀ w : World}
    {o : DictObject} {history : List DictMoment} {it : Iterator} (opens : source ∈ part.sources r)
    (live : w₀.dict? r = some o) (valid : o.table.Valid)
    (run : Interleaving h r source w₀ history it w) :
    o.table.toList.length = o.table.size ∧
    (∀ later a earlier, history = later ++ .step a :: earlier → StepRight part o.table earlier a) ∧
    (∃ result it' w', Protocol.step h it w = (.ok (result, it'), w')) ∧
    ∀ h' c, h'.Within (Altered r) → ∃ changes : List DictChange,
      Interleaving h r source w₀ (changes.map .change ++ history) it (DictCall.run h' r c w).2 := by
  refine ⟨valid.live.symm, fun later a earlier => run.stepRight opens live valid later earlier a, ?_, ?_⟩
  · obtain ⟨result, it', w', ran, _⟩ := (run.walking opens live valid).step (h := h) valid
    exact ⟨result, it', w', ran⟩
  · intro h' c hooks
    exact run.altered opens live valid (c.run_within hooks w)

namespace ReusedPosition

def keyed (t : Table Value Value) (n : Int64) : Table Value Value :=
  t.insertNew (HashCode.ofInt n) (.int n) .none

def table : Table Value Value := keyed (keyed (keyed .empty 1) 2) 3

def world : World :=
  { World.blank with store := { Store.empty with dicts := #[⟨257, table, 0⟩] } }

def later (f : Table Value Value → Table Value Value) : World :=
  world.putDict ⟨0⟩ ⟨257, f table, 0⟩

/-- The key 1 is shown, 3 is removed and 4 takes its position; 2 and 4 are shown, and that is all. -/
def history : List DictMoment :=
  [.step .ends, .step (.yields 2 (.int 4)), .step (.yields 1 (.int 2)),
    .change (.insert (HashCode.ofInt 4) (.int 4) .none), .change (.remove 2), .step (.yields 0 (.int 1))]

theorem valid : table.Valid :=
  ((Table.valid_empty.insertNew _ _ _).insertNew _ _ _).insertNew _ _ _

theorem interleaving : Interleaving .silent ⟨0⟩ (.dict ⟨0⟩) world history
    (.dict ⟨0⟩ .keys 3 3 0 true) (later fun t => keyed (t.remove 2) 4) := by
  have first : Interleaving .silent ⟨0⟩ (.dict ⟨0⟩) world [.step (.yields 0 (.int 1))]
      (.dict ⟨0⟩ .keys 1 3 0 false) world := .stepped (.opened rfl) (.ok (some (.int 1))) rfl rfl
  have removed : Interleaving .silent ⟨0⟩ (.dict ⟨0⟩) world
      [.change (.remove 2), .step (.yields 0 (.int 1))] (.dict ⟨0⟩ .keys 1 3 0 false)
      (later (·.remove 2)) := first.change _ rfl rfl rfl
  have inserted : Interleaving .silent ⟨0⟩ (.dict ⟨0⟩) world (history.drop 3)
      (.dict ⟨0⟩ .keys 1 3 0 false) (later fun t => keyed (t.remove 2) 4) :=
    removed.change _ rfl rfl rfl
  have second : Interleaving .silent ⟨0⟩ (.dict ⟨0⟩) world (history.drop 2)
      (.dict ⟨0⟩ .keys 2 3 0 false) (later fun t => keyed (t.remove 2) 4) :=
    .stepped inserted (.ok (some (.int 2))) (by with_unfolding_all rfl) rfl
  have third : Interleaving .silent ⟨0⟩ (.dict ⟨0⟩) world (history.drop 1)
      (.dict ⟨0⟩ .keys 3 3 0 false) (later fun t => keyed (t.remove 2) 4) :=
    .stepped second (.ok (some (.int 4))) (by with_unfolding_all rfl) rfl
  exact .stepped third (.ok none) (by with_unfolding_all rfl) rfl

end ReusedPosition

/-- The entry that came later is shown in the place of the removed one, and the two that stayed are shown
once each. -/
theorem iteration_interleaved_reused :
    StepRight .keys ReusedPosition.table ReusedPosition.history.tail .ends ∧
      survivors ReusedPosition.table ReusedPosition.history.tail = [0, 1] ∧
      yieldedIn ReusedPosition.history.tail = [0, 1, 2] :=
  have opens : Value.dict ⟨0⟩ ∈ DictPart.sources ⟨0⟩ .keys := List.mem_cons_self
  have live : ReusedPosition.world.dict? ⟨0⟩ = some ⟨257, ReusedPosition.table, 0⟩ := rfl
  have right := iteration_interleaved opens live ReusedPosition.valid ReusedPosition.interleaving
  ⟨right.2.1 [] .ends ReusedPosition.history.tail rfl, by decide, by decide⟩

end DynamicObjects
