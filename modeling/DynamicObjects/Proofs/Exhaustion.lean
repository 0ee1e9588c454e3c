import DynamicObjects.Script.Verbs
import DynamicObjects.Proofs.Dicts.Iteration

/-!
Iterators after their end. Between two steps of an iterator anything may have happened to its container.
An iterator backwards over a list and one over a dictionary or a view remember that they have ended;
an iterator forward over a list or a byte array remembers only how many elements it has shown, and looks
for the next one again at each step.
-/
namespace DynamicObjects

inductive IterationSource
  | list (r : ListRef)
  | listBackwards (r : ListRef)
  | byteArray (r : ByteArrayRef)
  /-- A dictionary or one of its views. -/
  | dict (r : DictRef) (part : DictPart) (v : Value) (opens : v ∈ part.sources r)

namespace IterationSource

def value : IterationSource → Value
  | list r | listBackwards r => .list r
  | byteArray r => .byteArray r
  | dict _ _ v _ => v

def backwards : IterationSource → Bool
  | listBackwards _ => true
  | _ => false

/-- The elements as they are in a state, where an iterator knows no more than their number. -/
def live? : IterationSource → Option (World → List Value)
  | list r => some fun w => (w.store.list r).buffer.toList
  | byteArray r => some fun w => (w.store.bytesOf r).map fun b => .int (Int64.ofNat b.toNat)
  | _ => none

end IterationSource

/-- The answer of a step and the state in which it was taken. -/
structure IteratorStep where
  before : World
  answer : Except Error (Option Value)

namespace IteratorStep

def Ends (s : IteratorStep) : Prop := s.answer = .ok none

def shows (s : IteratorStep) : Bool :=
  match s.answer with
  | .ok (some _) => true
  | _ => false

end IteratorStep

def shownIn (history : List IteratorStep) : Nat := history.countP IteratorStep.shows

/-- An iterator is opened and takes steps, the latest first, each in any state whatever. -/
inductive Stepped (h : Hooks) (source : IterationSource) (w₀ : World) :
    List IteratorStep → Iterator → Prop
  | opened {it : Iterator} {w : World}
    (ran : Script.iteratorOver h source.backwards source.value w₀ = (.ok it, w)) :
    Stepped h source w₀ [] it
  | step {history : List IteratorStep} {it it' : Iterator} {w w' : World}
    {answer : Except Error (Option Value)} (earlier : Stepped h source w₀ history it)
    (ran : Protocol.step h it w = (.ok (answer, it'), w')) :
    Stepped h source w₀ (⟨w, answer⟩ :: history) it'

def IterationSource.Remembers (history : List IteratorStep) : IterationSource → Iterator → Prop
  | .list r, it => it = .list r (shownIn history)
  | .byteArray r, it => it = .byteArray r (shownIn history)
  | .listBackwards r, it =>
    ∃ cursor, it = .listBackwards r cursor ∧ ((∃ s ∈ history, s.Ends) → cursor = 0)
  | .dict r part .., it =>
    ∃ position size layout finished, it = .dict r part position size layout finished ∧
      ((∃ s ∈ history, s.Ends) → finished = true)

/-- What the answer of a step has to be after the earlier ones. -/
structure EndRight (source : IterationSource) (history : List IteratorStep) (s : IteratorStep) : Prop where
  lasting : source.live? = none → (∃ s ∈ history, s.Ends) → s.Ends
  counted : ∀ elements, source.live? = some elements →
    s.answer = .ok (elements s.before)[shownIn history]?

section Steps

variable {h : Hooks} {source : IterationSource} {w₀ : World} {history : List IteratorStep}
  {it : Iterator}

theorem exists_opened (h : Hooks) (source : IterationSource) (w₀ : World) :
    ∃ it, Script.iteratorOver h source.backwards source.value w₀ = (.ok it, w₀) ∧
      source.Remembers [] it := by
  cases source with
  | list r | byteArray r => exact ⟨_, rfl, rfl⟩
  | listBackwards r => exact ⟨_, rfl, _, rfl, by simp⟩
  | dict r part v opens =>
    refine ⟨.ofDict w₀.store r part, ?_, _, _, _, _, rfl, by simp⟩
    cases part <;> simp only [DictPart.sources, List.mem_cons, List.not_mem_nil, or_false] at opens
    case keys => rcases opens with rfl | rfl <;> rfl
    all_goals
      subst opens
      rfl

theorem shownIn_cons (w : World) (history : List IteratorStep) (next : Option Value) :
    shownIn (⟨w, .ok next⟩ :: history) = shownIn history + next.isSome.toNat := by
  cases next <;> simp [shownIn, IteratorStep.shows, List.countP_cons]

theorem step_list (h : Hooks) (r : ListRef) (cursor : Nat) (w : World) :
    let next := (w.store.list r).buffer.toList[cursor]?
    Protocol.step h (.list r cursor) w =
      (.ok (.ok next, .list r (cursor + next.isSome.toNat)), w) := by
  simp only [Buffer.toList, Array.getElem?_toList, Protocol.step, Run.readStore, Run.read]
  cases (w.store.list r).buffer.items[cursor]? <;> rfl

theorem step_byteArray (h : Hooks) (r : ByteArrayRef) (cursor : Nat) (w : World) :
    let next := ((w.store.bytesOf r).map fun b => Value.int (Int64.ofNat b.toNat))[cursor]?
    Protocol.step h (.byteArray r cursor) w =
      (.ok (.ok next, .byteArray r (cursor + next.isSome.toNat)), w) := by
  simp only [Store.bytesOf, Buffer.toList, List.getElem?_map, Array.getElem?_toList, Protocol.step,
    Run.readStore, Run.read]
  cases (w.store.byteArray r).buffer.items[cursor]? <;> rfl

/-- A cursor at the front stays there, and one that finds nothing before it goes there. -/
theorem step_listBackwards (h : Hooks) (r : ListRef) (cursor : Nat) (w : World) :
    ∃ answer cursor', Protocol.step h (.listBackwards r cursor) w =
        (.ok (answer, .listBackwards r cursor'), w) ∧
      (cursor = 0 → answer = .ok none) ∧ (answer = .ok none → cursor' = 0) := by
  simp only [Protocol.step, Run.readStore, Run.read]
  cases least : min cursor (w.store.list r).buffer.items.size with
  | zero => exact ⟨.ok none, 0, rfl, fun _ => rfl, fun _ => rfl⟩
  | succ before =>
    have bound : before < (w.store.list r).buffer.items.size := by omega
    refine ⟨.ok (some (w.store.list r).buffer.items[before]), before, ?_, fun front => ?_, fun ended => ?_⟩
    · simp only [Array.getElem?_eq_getElem bound]
    · omega
    · cases ended

theorem step_dict (h : Hooks) (r : DictRef) (part : DictPart) (position size layout : Nat)
    (finished : Bool) (w : World) :
    ∃ answer w' position' finished',
      Protocol.step h (.dict r part position size layout finished) w =
        (.ok (answer, .dict r part position' size layout finished'), w') ∧
      (finished = true → answer = .ok none) ∧ (answer = .ok none → finished' = true) := by
  cases finished with
  | true => exact ⟨.ok none, w, position, true, rfl, fun _ => rfl, fun _ => rfl⟩
  | false =>
    have read : (Run.readStore fun s => (s.dict r).table.step position size layout) w =
      (.ok ((w.store.dict r).table.step position size layout), w) := rfl
    cases next : (w.store.dict r).table.step position size layout with
    | error e =>
      exact ⟨.error e, w, position, true, (Run.bind_ok read).trans (by rw [next]; rfl), nofun, nofun⟩
    | ok found =>
      cases found with
      | none =>
        exact ⟨.ok none, w, position, true, (Run.bind_ok read).trans (by rw [next]; rfl), nofun,
          fun _ => rfl⟩
      | some found =>
        obtain ⟨q, e⟩ := found
        obtain ⟨v, w', shown, -, -⟩ := dictPart_apply part e r w
        refine ⟨.ok (some v), w', q + 1, false, (Run.bind_ok read).trans ?_, nofun, nofun⟩
        rw [next]
        exact Run.bind_ok shown

theorem IterationSource.Remembers.step (remembers : source.Remembers history it) (h : Hooks) (w : World) :
    ∃ answer it' w', Protocol.step h it w = (.ok (answer, it'), w') ∧
      EndRight source history ⟨w, answer⟩ ∧ source.Remembers (⟨w, answer⟩ :: history) it' := by
  cases source with
  | list r =>
    obtain rfl := remembers
    refine ⟨_, _, w, step_list h r _ w, ⟨nofun, ?_⟩, ?_⟩
    · intro elements live
      obtain rfl := Option.some.inj live
      rfl
    · rw [Remembers, shownIn_cons]
  | byteArray r =>
    obtain rfl := remembers
    refine ⟨_, _, w, step_byteArray h r _ w, ⟨nofun, ?_⟩, ?_⟩
    · intro elements live
      obtain rfl := Option.some.inj live
      rfl
    · rw [Remembers, shownIn_cons]
  | listBackwards r =>
    obtain ⟨cursor, rfl, ended⟩ := remembers
    obtain ⟨answer, cursor', ran, stays, notes⟩ := step_listBackwards h r cursor w
    refine ⟨answer, _, w, ran, ⟨fun _ before => stays (ended before), nofun⟩, cursor', rfl, ?_⟩
    rintro ⟨s, mem, ends⟩
    rcases List.mem_cons.mp mem with rfl | mem
    · exact notes ends
    · exact notes (stays (ended ⟨s, mem, ends⟩))
  | dict r part v opens =>
    obtain ⟨position, size, layout, finished, rfl, ended⟩ := remembers
    obtain ⟨answer, w', position', finished', ran, stays, notes⟩ :=
      step_dict h r part position size layout finished w
    refine ⟨answer, _, w', ran, ⟨fun _ before => stays (ended before), nofun⟩,
      position', size, layout, finished', rfl, ?_⟩
    rintro ⟨s, mem, ends⟩
    rcases List.mem_cons.mp mem with rfl | mem
    · exact notes ends
    · exact notes (stays (ended ⟨s, mem, ends⟩))

namespace Stepped

theorem remembers (steps : Stepped h source w₀ history it) : source.Remembers history it := by
  induction steps with
  | opened ran =>
    obtain ⟨it', ran', remembers⟩ := exists_opened h source w₀
    cases ran.symm.trans ran'
    exact remembers
  | step _ ran ih =>
    obtain ⟨answer, it', w', ran', -, remembers⟩ := ih.step h _
    cases ran.symm.trans ran'
    exact remembers

theorem right (steps : Stepped h source w₀ history it) (later earlier : List IteratorStep)
    (s : IteratorStep) (split : history = later ++ s :: earlier) : EndRight source earlier s := by
  induction steps generalizing later with
  | opened => simp at split
  | step before ran ih =>
    cases later with
    | nil =>
      obtain ⟨answer, it', w', ran', right, -⟩ := before.remembers.step h _
      cases ran.symm.trans ran'
      obtain ⟨rfl, rfl⟩ := List.cons.inj split
      exact right
    | cons _ later => exact ih later (List.cons.inj split).2

end Stepped

theorem ends_of_length_le {elements : World → List Value} {later earlier : List IteratorStep}
    {s : IteratorStep} (ends : s.Ends)
    (counted : ∀ (front : List IteratorStep) (t : IteratorStep) (back : List IteratorStep),
      later ++ s :: earlier = front ++ t :: back →
        t.answer = .ok (elements t.before)[shownIn back]?)
    (short : ∀ t ∈ later, (elements t.before).length ≤ shownIn earlier) :
    (∀ t ∈ later, t.Ends) ∧ shownIn (later ++ s :: earlier) = shownIn earlier := by
  induction later with
  | nil => exact ⟨List.forall_mem_nil _, by simp [shownIn, IteratorStep.shows, show s.answer = _ from ends]⟩
  | cons t later ih =>
    obtain ⟨here, behind⟩ := List.forall_mem_cons.mp short
    obtain ⟨all, same⟩ := ih (fun front u back split => counted (t :: front) u back (by simp [split])) behind
    have end_here : t.Ends := by
      rw [IteratorStep.Ends, counted [] t (later ++ s :: earlier) rfl, same, List.getElem?_eq_none here]
    refine ⟨List.forall_mem_cons.mpr ⟨end_here, all⟩, ?_⟩
    rw [List.cons_append, ← same]
    simp [shownIn, IteratorStep.shows, show t.answer = _ from end_here]

/-- Whatever happens to the container between the steps of an iterator over it, every step has an answer.
Backwards over a list, and over a dictionary or a view, all steps after an end come to the end. Forward over
a list or a byte array a step shows the element whose number is that of the elements shown before, as it is
now, and comes to the end if there is none; so after an end all steps come to the end for as long as there
are no more elements than were shown, and only for so long. -/
theorem iterators_stay_at_end (steps : Stepped h source w₀ history it) :
    (∀ w, ∃ answer it' w', Protocol.step h it w = (.ok (answer, it'), w')) ∧
    (source.live? = none → ∀ (later : List IteratorStep) (s : IteratorStep) (earlier : List IteratorStep),
      history = later ++ s :: earlier → s.Ends → ∀ t ∈ later, t.Ends) ∧
    ∀ elements, source.live? = some elements →
      (∀ (later : List IteratorStep) (s : IteratorStep) (earlier : List IteratorStep),
        history = later ++ s :: earlier → s.answer = .ok (elements s.before)[shownIn earlier]?) ∧
      ∀ (later : List IteratorStep) (s : IteratorStep) (earlier : List IteratorStep),
        history = later ++ s :: earlier → s.Ends →
          (∀ t ∈ later, (elements t.before).length ≤ shownIn earlier) → ∀ t ∈ later, t.Ends := by
  refine ⟨fun w => ?_, fun live later s earlier split ends t mem => ?_, fun elements live => ?_⟩
  · obtain ⟨answer, it', w', ran, -⟩ := steps.remembers.step h w
    exact ⟨answer, it', w', ran⟩
  · obtain ⟨front, back, rfl⟩ := List.append_of_mem mem
    refine (steps.right front (back ++ s :: earlier) t ?_).lasting live ⟨s, by simp, ends⟩
    rw [split, List.append_assoc, List.cons_append]
  · have counted (later s earlier) (split : history = later ++ s :: earlier) :=
      (steps.right later earlier s split).counted elements live
    refine ⟨counted, fun later s earlier split ends short => ?_⟩
    exact (ends_of_length_le ends (split ▸ counted) short).1

end Steps

namespace ChangingContainers

def world : World :=
  { World.blank with
    store := ((Store.empty.addList (.ofArray #[.int 1])).2.addByteArray (.ofArray #[1])).2 }

def longer : World := (ByteArrayRef.append ⟨0⟩ 2 (ListRef.append ⟨0⟩ (.int 2) world).2).2

def cleared : World := (ListRef.clear ⟨0⟩ longer).2

def untilEnd : List IteratorStep := [⟨world, .ok none⟩, ⟨world, .ok (some (.int 1))⟩]

end ChangingContainers

open ChangingContainers

/-- Backwards over the list the end stays, though the list has grown; forward it stays when the list has
been cleared. -/
theorem iterators_stay_at_end_changed :
    (∃ it, Stepped .silent (.listBackwards ⟨0⟩) world (⟨longer, .ok none⟩ :: untilEnd) it ∧
      ∀ t ∈ ([⟨longer, .ok none⟩] : List IteratorStep), t.Ends) ∧
    ∃ it, Stepped .silent (.list ⟨0⟩) world (⟨cleared, .ok none⟩ :: untilEnd) it ∧
      ∀ t ∈ ([⟨cleared, .ok none⟩] : List IteratorStep), t.Ends := by
  have backwards : Stepped .silent (.listBackwards ⟨0⟩) world (⟨longer, .ok none⟩ :: untilEnd)
      (.listBackwards ⟨0⟩ 0) := (((Stepped.opened rfl).step rfl).step rfl).step rfl
  have forward : Stepped .silent (.list ⟨0⟩) world (⟨cleared, .ok none⟩ :: untilEnd) (.list ⟨0⟩ 1) :=
    (((Stepped.opened rfl).step rfl).step rfl).step rfl
  refine ⟨⟨_, backwards, (iterators_stay_at_end backwards).2.1 rfl [_] _ _ rfl rfl⟩, _, forward,
    ((iterators_stay_at_end forward).2.2 _ rfl).2 [_] _ _ rfl rfl ?_⟩
  rintro t (_ | ⟨_, ⟨⟩⟩)
  exact Nat.zero_le _

/-- Forward over a list or a byte array an end is no longer the end once the container has grown. -/
theorem iterators_resume_after_end :
    (∃ it, Stepped .silent (.list ⟨0⟩) world (⟨longer, .ok (some (.int 2))⟩ :: untilEnd) it) ∧
    ∃ it, Stepped .silent (.byteArray ⟨0⟩) world (⟨longer, .ok (some (.int 2))⟩ :: untilEnd) it :=
  ⟨⟨_, (((Stepped.opened rfl).step rfl).step rfl).step rfl⟩,
    _, (((Stepped.opened rfl).step rfl).step rfl).step rfl⟩

end DynamicObjects
