import DynamicObjects.Proofs.Termination.Data

/-!
Printing built-in data. A container is printed one level down, and what is inside it is printed there.
Lists, dictionaries and sets are remembered while they are being printed, so that they are met again
by their placeholder; the views of a dictionary go by the identity of the dictionary.
-/
namespace DynamicObjects

open Script (hooks)
open Run

/-- The values whose texts are in the text of a value; those of items are tuples. -/
def Store.shown (s : Store) : Value → List Value
  | .tuple _ items => items
  | .list r => (s.list r).buffer.toList
  | .dict r => (s.dict r).table.pairs.flatMap fun p => [p.1, p.2]
  | .dictKeys r => (s.dict r).table.keys
  | .dictValues r => (s.dict r).table.values
  | .dictItems r => (s.dict r).table.pairs.map itemTuple
  | .frozenSet _ t => t.keys
  | _ => []

def Value.isContainer : Value → Bool
  | .tuple .. | .list _ | .dict _ | .dictKeys _ | .dictValues _ | .dictItems _ => true
  | .frozenSet _ t => t.size ≠ 0
  | _ => false

/-- The identity that is remembered while a container is being printed, and its placeholder. -/
def Store.mark (s : Store) : Value → Option (Identity × String)
  | .list r => some ((s.list r).id, "[...]")
  | .dict r => some ((s.dict r).id, "\x7b...\x7d")
  | .dictKeys r => some ((s.dict r).id, "dict_keys(...)")
  | .dictValues r => some ((s.dict r).id, "dict_values(...)")
  | .dictItems r => some ((s.dict r).id, "dict_items(...)")
  | .frozenSet id _ => some (id, "frozenset(...)")
  | _ => none

def Store.enclosed (s : Store) (v : Value) (body : Run String) : Run String :=
  match s.mark v with
  | some (id, again) => Run.printing id again body
  | none => Run.nested body

variable {s : Store} {P : Value → Prop} {levels n : Nat} {v : Value}

section Parts

variable {J : World → Prop} {F : Value → Prop} {G : Value → Error → Prop} {h : Hooks}

theorem reprAll_finishes {xs ys : List Value} (retags : List.Forall₂ Retags xs ys)
    (inner : ∀ x ∈ xs, ∀ y, Retags x y → Finishes J (fun _ => F x) (G x) (Protocol.repr h y)) :
    Finishes J (fun _ => ∀ x ∈ xs, F x) (fun e => ∃ x ∈ xs, G x e) (Protocol.reprAll h ys) := by
  induction retags with
  | nil => exact finishes_pure nofun
  | @cons x y xs ys retags _ ih =>
    have first := inner x List.mem_cons_self y retags
    have others := ih fun x mem => inner x (List.mem_cons_of_mem _ mem)
    refine finishes_bind (first.mono (fun _ => id) fun e g => ⟨x, List.mem_cons_self, g⟩) ?_
    intro text holds
    refine finishes_bind (others.mono (fun _ => id) ?_) fun texts holds' => finishes_pure ?_
    · rintro e ⟨x', mem, g⟩
      exact ⟨x', List.mem_cons_of_mem _ mem, g⟩
    · exact List.forall_mem_cons.mpr ⟨holds, holds'⟩

theorem entryTexts_finishes {pairs : List (Value × Value)}
    (inner : ∀ x ∈ pairs.flatMap fun p => [p.1, p.2],
      Finishes J (fun _ => F x) (G x) (Protocol.repr h x)) :
    Finishes J (fun _ => ∀ x ∈ pairs.flatMap fun p => [p.1, p.2], F x)
      (fun e => ∃ x ∈ pairs.flatMap fun p => [p.1, p.2], G x e) (DictRef.entryTexts h pairs) := by
  induction pairs with
  | nil => exact finishes_pure nofun
  | cons p rest ih =>
    obtain ⟨key, value⟩ := p
    simp only [List.flatMap_cons, List.cons_append, List.nil_append] at inner ⊢
    obtain ⟨left, inner⟩ := List.forall_mem_cons.mp inner
    obtain ⟨right, inner⟩ := List.forall_mem_cons.mp inner
    refine finishes_bind (left.mono (fun _ => id) fun e g => ⟨key, List.mem_cons_self, g⟩) ?_
    intro text holds
    refine finishes_bind (right.mono (fun _ => id) fun e g =>
      ⟨value, List.mem_cons_of_mem _ List.mem_cons_self, g⟩) ?_
    intro text' holds'
    refine finishes_bind ((ih inner).mono (fun _ => id) ?_) fun texts others => finishes_pure ?_
    · rintro e ⟨x, mem, g⟩
      exact ⟨x, List.mem_cons_of_mem _ (List.mem_cons_of_mem _ mem), g⟩
    · exact List.forall_mem_cons.mpr ⟨holds, List.forall_mem_cons.mpr ⟨holds', others⟩⟩

end Parts

def IsText (Q : String → Prop) (v : Value) : Prop := ∃ id text, v = .str id text ∧ Q text

namespace Steady

variable {I : Nat → World → Prop} (steady : Steady I) {E : Error → Prop} {Q : String → Prop}

include steady

theorem isText_finishes (depth : Nat) {text : String} (q : Q text) :
    Finishes (I depth) (IsText Q) E (Run.newText text) := by
  refine (steady.newText_finishes depth text).imp ?_
  rintro _ ⟨id, rfl⟩
  exact ⟨id, text, rfl, q⟩

theorem asText_finishes (depth : Nat) {x : Run String} (hx : Finishes (I depth) Q E x) :
    Finishes (I depth) (IsText Q) E (do Run.newText (← x)) :=
  finishes_bind hx fun _ => steady.isText_finishes depth

section Containers

variable {J : World → Prop} {F : Value → Prop} {G : Value → Error → Prop} {h : Hooks} (depth : Nat)
  (calm : ∀ {w}, I depth w → Calm s 0 w)
  (inner : ∀ x ∈ s.shown v, ∀ y, Retags x y → Finishes J (fun _ => F x) (G x) (Protocol.repr h y))
  (enclosed : ∀ body,
    Finishes J (fun _ => ∀ x ∈ s.shown v, F x) (fun e => ∃ x ∈ s.shown v, G x e) body →
    Finishes (I depth) Q E (s.enclosed v body))

include calm inner enclosed

theorem viewSlot_finishes {r : DictRef} (view : DictView.dict v = .ok r)
    (mark : s.mark v = some ((s.dict r).id, v.kind.name ++ "(...)"))
    (elements : Finishes (I depth) (List.Forall₂ Retags (s.shown v)) E (DictView.elements v)) :
    Finishes (I depth) (IsText Q) E (DictView.reprSlot h [v]) := by
  have reads : Finishes (I depth) (fun r' => r = r') E (Run.ofExcept (DictView.dict v)) := by
    rw [view]
    exact finishes_pure rfl
  refine finishes_bind (P := fun p => p = (v, [])) (finishes_pure rfl) ?_
  rintro _ rfl
  refine finishes_bind reads ?_
  rintro r' rfl
  refine finishes_bind elements fun items retags => ?_
  refine finishes_bind (dictObject_finishes calm _) ?_
  rintro _ rfl
  have around (body : Run String) :
      Run.printing (s.dict r).id (v.kind.name ++ "(...)") body = s.enclosed v body := by
    unfold Store.enclosed
    rw [mark]
  rw [around]
  exact steady.asText_finishes depth (enclosed _ (finishes_map (reprAll_finishes retags inner)))

/-- The slot of a container prints what is inside, unless it is met again. -/
theorem containerSlot_finishes (container : v.isContainer = true) {slot : Slot}
    (found : v.kind.slot? .repr = some slot) : Finishes (I depth) (IsText Q) E (slot h [v]) := by
  have same (items : List Value) : List.Forall₂ Retags items items :=
    List.forall₂_same.mpr fun x _ => .refl x
  cases v
  case tuple id items =>
    cases found
    refine steady.asText_finishes depth (enclosed _ ?_)
    exact finishes_map (reprAll_finishes (same _) inner)
  case list r =>
    cases found
    refine steady.asText_finishes depth (finishes_bind (listObject_finishes calm r) ?_)
    rintro _ rfl
    refine enclosed _ ?_
    exact finishes_map (reprAll_finishes (same _) inner)
  case dict r =>
    cases found
    refine steady.asText_finishes depth (finishes_bind (dictObject_finishes calm r) ?_)
    rintro _ rfl
    refine enclosed _ ?_
    exact finishes_map (entryTexts_finishes fun x mem => inner x mem x (.refl x))
  case frozenSet id t =>
    cases found
    refine steady.asText_finishes depth ?_
    have filled : t.size ≠ 0 := of_decide_eq_true container
    unfold SetTable.repr
    rw [if_neg filled]
    refine enclosed _ ?_
    exact finishes_map (reprAll_finishes (same _) inner)
  case dictKeys r =>
    cases found
    refine steady.viewSlot_finishes depth calm inner enclosed rfl rfl ?_
    refine (keys_finishes calm r).imp ?_
    rintro _ rfl
    exact same _
  case dictValues r =>
    cases found
    refine steady.viewSlot_finishes depth calm inner enclosed rfl rfl ?_
    refine (values_finishes calm r).imp ?_
    rintro _ rfl
    exact same _
  case dictItems r =>
    cases found
    exact steady.viewSlot_finishes depth calm inner enclosed rfl rfl
      (steady.itemTuples_finishes depth calm r)
  all_goals cases container

end Containers

theorem leafSlot_finishes (depth : Nat) {h : Hooks} (leaf : v.isContainer = false) {slot : Slot}
    (found : v.kind.slot? .repr = some slot) :
    Finishes (I depth) (IsText fun _ => True) E (slot h [v]) := by
  cases v
  case frozenSet id t =>
    cases found
    refine steady.asText_finishes depth ?_
    have empty : t.size = 0 := not_not.mp (of_decide_eq_false leaf)
    unfold SetTable.repr
    rw [if_pos empty]
    exact finishes_pure trivial
  case byteArray | bytes =>
    cases found
    refine finishes_bind (P := fun _ => True) (finishes_pure trivial) fun _ _ => ?_
    refine finishes_bind (P := fun _ => True) ?_ fun data _ => steady.isText_finishes depth trivial
    exact finishes_map (finishes_readStore fun _ _ => trivial)
  case slice | native =>
    cases found
    exact steady.isText_finishes depth trivial
  case tuple | list | dict | dictKeys | dictValues | dictItems => cases leaf
  all_goals cases found

section Calls

variable (depth : Nat)
  (refusal : ∀ w limit, I depth w → w.limit = some limit → limit ≤ w.depth → E .recursionLimit)

include refusal

theorem printed_finishes {k : Kind} (builtin : v.typeKey = .builtin k)
    (present : k.hasSlot .repr = true)
    (called : ∀ slot, k.slot? .repr = some slot → ∀ deeper, deeper ≤ depth + 1 → depth ≤ deeper →
      Finishes (I deeper) (IsText Q) E (slot (hooks n) [v])) :
    Finishes (I depth) Q E (do
      Protocol.expectText (← Protocol.callSlot (hooks (n + 1)) .repr [v])) := by
  refine finishes_bind (steady.callSlot_finishes depth builtin called ?_ refusal) ?_
  · intro missing
    simp [Kind.hasSlot, missing] at present
  · rintro _ ⟨id, text, rfl, q⟩
    exact finishes_pure q

theorem container_finishes {J : Nat → World → Prop} {F : Value → Prop} {G : Value → Error → Prop}
    (calm : ∀ {deeper w}, I deeper w → Calm s 0 w) (container : v.isContainer = true)
    (inner : ∀ deeper, deeper ≤ depth + 1 → ∀ x ∈ s.shown v, ∀ y, Retags x y →
      Finishes (J deeper) (fun _ => F x) (G x) (Protocol.repr (hooks n) y))
    (enclosed : ∀ deeper body,
      Finishes (J deeper) (fun _ => ∀ x ∈ s.shown v, F x) (fun e => ∃ x ∈ s.shown v, G x e) body →
      Finishes (I deeper) Q E (s.enclosed v body)) :
    Finishes (I depth) Q E (Protocol.repr (hooks (n + 1)) v) := by
  have called : ∀ slot, v.kind.slot? .repr = some slot → ∀ deeper, deeper ≤ depth + 1 →
      depth ≤ deeper → Finishes (I deeper) (IsText Q) E (slot (hooks n) [v]) :=
    fun slot found deeper le _ =>
      steady.containerSlot_finishes deeper calm (inner deeper le) (enclosed deeper) container found
  cases v
  case tuple | list | dict | dictKeys | dictValues | dictItems | frozenSet =>
    exact steady.printed_finishes depth refusal rfl rfl called
  all_goals cases container

theorem leaf_finishes (builtin : v.kind ≠ .object) (leaf : v.isContainer = false) :
    Finishes (I depth) (fun _ => True) E (Protocol.repr (hooks (n + 1)) v) := by
  have called : ∀ slot, v.kind.slot? .repr = some slot → ∀ deeper, deeper ≤ depth + 1 →
      depth ≤ deeper → Finishes (I deeper) (IsText fun _ => True) E (slot (hooks n) [v]) :=
    fun slot found deeper _ _ => steady.leafSlot_finishes deeper leaf found
  cases v
  case object => exact absurd rfl builtin
  case frozenSet | byteArray | slice | native =>
    exact steady.printed_finishes depth refusal rfl rfl called
  case tuple | list | dict | dictKeys | dictValues | dictItems => cases leaf
  all_goals exact finishes_pure trivial

end Calls

end Steady

/-- The tuples of items are new; what is in them is not. -/
theorem Made.shown (data : BuiltinData s P) (made : Made s P v) :
    ∀ x ∈ s.shown v, Made s P x := by
  intro x mem
  cases v
  case dict r =>
    obtain ⟨p, listed, among⟩ := List.mem_flatMap.mp mem
    obtain ⟨key, value⟩ := mem_of_pair listed
    simp only [List.mem_cons, List.not_mem_nil, or_false] at among
    rcases among with rfl | rfl
    · exact data.made (made.contained _ (List.mem_append_left _ key))
    · exact data.made (made.contained _ (List.mem_append_right _ value))
  case dictItems r =>
    obtain ⟨p, listed, rfl⟩ := List.mem_map.mp mem
    obtain ⟨key, value⟩ := mem_of_pair listed
    exact .itemTuple (made.contained _ (List.mem_append_left _ key))
      (made.contained _ (List.mem_append_right _ value))
  all_goals exact data.made (made.contained x mem)

theorem enclosed_halts {body : Run String}
    (inner : Finishes (ReadyBelow s levels) (fun _ => True) (fun _ => True) body) :
    Halts s levels (fun _ => True) (s.enclosed v body) := by
  unfold Store.enclosed
  split
  · exact finishes_printing (fun _ _ _ => trivial) inner (fun _ _ _ => trivial)
      (fun w ready _ left => ready.opened left _) fun w below => below.closed _
  · exact finishes_nested (fun _ _ _ => trivial) inner
      (fun w ready left => ready.opened left w.printing) fun w below => below.closed w.printing

theorem BuiltinData.repr_halts (data : BuiltinData s P) (made : Made s P v) (enough : levels < n) :
    Halts s levels (fun _ => True) (Protocol.repr (hooks n) v) := by
  have steady := steady_ready s levels
  induction n generalizing v levels with
  | zero => omega
  | succ n ih =>
    cases container : v.isContainer with
    | false => exact steady.leaf_finishes 0 (fun _ _ _ _ _ => trivial) made.builtin container
    | true =>
      refine steady.container_finishes (J := fun _ => ReadyBelow s levels) (F := fun _ => True)
        (G := fun _ _ => True) 0 (fun _ _ _ _ _ => trivial) (fun ready => ready.1) container ?_ ?_
      · intro _ _ x mem y retags
        refine finishes_readyBelow fun below same => ?_
        exact ih (retags.made (made.shown data x mem)) (by omega) (steady_ready s below)
      · intro _ body inner
        exact enclosed_halts (inner.mono (fun _ _ => trivial) fun _ _ => trivial)

/-- Where a run stands: its depth, the levels it has used and the containers it prints. -/
structure Stands (s : Store) (limit : Option Nat) (path : List Identity) (used depth : Nat)
    (w : World) : Prop where
  calm : Calm s 0 w
  limit : w.limit = limit
  printing : w.printing = path
  used : w.dataDepth = used
  depth : w.depth = depth

theorem steady_stands (s : Store) (limit : Option Nat) (path : List Identity) (used : Nat) :
    Steady (Stands s limit path used) where
  honest stands := stands.calm.honest
  dispatched stands honest policy :=
    ⟨⟨stands.calm.store, stands.calm.bound, honest⟩,
      (congrArg DispatchPolicy.recursionLimit policy).trans stands.limit, stands.printing,
      stands.used, stands.depth⟩
  identified := by
    rintro depth w nextId ⟨calm, limit, printing, used, depth⟩ -
    exact ⟨⟨by rw [calm.store], Nat.zero_le _, calm.honest⟩, limit, printing, used, depth⟩
  entered stands :=
    ⟨⟨stands.calm.store, stands.calm.bound, stands.calm.honest⟩, stands.limit, stands.printing,
      stands.used, congrArg (· + 1) stands.depth⟩
  left before after :=
    ⟨⟨after.calm.store, after.calm.bound, after.calm.honest⟩, after.limit, after.printing,
      after.used, before.depth⟩

theorem repr_again {limit : Option Nat} {path : List Identity} {used depth : Nat} {id : Identity}
    {again : String} (container : v.isContainer = true) (mark : s.mark v = some (id, again))
    (open_ : id ∈ path) (room : ∀ most, limit = some most → depth < most) :
    Finishes (Stands s limit path used depth) (fun text => text = again) (fun _ => False)
      (Protocol.repr (hooks (n + 1)) v) := by
  have steady := steady_stands s limit path used
  refine steady.container_finishes (J := fun _ _ => False) (F := fun _ => True)
    (G := fun _ _ => True) depth ?_ (fun stands => stands.calm) container
    (fun _ _ _ _ _ _ _ => False.elim) fun deeper body _ => ?_
  · intro w most stands found reached
    have := room most (stands.limit ▸ found)
    have := stands.depth
    omega
  · unfold Store.enclosed
    rw [mark]
    intro w stands
    have met : w.printing.contains id = true := by
      rw [stands.printing]
      exact List.contains_iff_mem.mpr open_
    simp only [printing, met, if_true]
    exact ⟨stands, rfl⟩

end DynamicObjects
