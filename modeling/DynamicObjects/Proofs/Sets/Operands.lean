import DynamicObjects.Proofs.Sets.Algebra
import DynamicObjects.Proofs.Termination.Hashable

/-!
What a set operator makes of its operands. Items are new tuples each time that they are asked for, and
two values with one identity are one value; so there is no fixed collection of keys for a whole run.
Keys come into existence: hashing and comparing are known for those that exist in a state, the sets are
described by members that do not depend on it, and a run may leave more keys than it has found.
-/
namespace DynamicObjects

open Script (hooks)

/-- The states in which certain values exist, for each depth of calls. -/
abbrev States := (Value → Prop) → Nat → World → Prop

namespace Run

variable {α β : Type} {I : States} {depth : Nat} {E : Value → Prop} {P : (Value → Prop) → α → Prop}
  {Q : (Value → Prop) → β → Prop} {x : Run α} {f : α → Run β}

/-- From every state in which the values of `E` exist the run gives a value with a property, and then
these values exist and maybe others. -/
def Grows (I : States) (depth : Nat) (E : Value → Prop) (P : (Value → Prop) → α → Prop) (x : Run α) :
    Prop :=
  ∀ w, I E depth w → ∃ a w' E', x w = (.ok a, w') ∧ E ≤ E' ∧ I E' depth w' ∧ P E' a

theorem grows_pure {a : α} (p : P E a) : Grows I depth E P (Pure.pure a) :=
  fun w i => ⟨a, w, E, rfl, le_refl E, i, p⟩

theorem grows_bind (hx : Grows I depth E P x)
    (hf : ∀ E' a, E ≤ E' → P E' a → Grows I depth E' Q (f a)) : Grows I depth E Q (x >>= f) := by
  intro w i
  obtain ⟨a, w₁, E₁, ran, more, i₁, p⟩ := hx w i
  obtain ⟨b, w', E', ran', more', i', q⟩ := hf E₁ a more p w₁ i₁
  exact ⟨b, w', E', (bind_ok ran).trans ran', le_trans more more', i', q⟩

theorem Grows.imp {P' : (Value → Prop) → α → Prop} (h : Grows I depth E P x)
    (weaker : ∀ E' a, P E' a → P' E' a) : Grows I depth E P' x := by
  intro w i
  obtain ⟨a, w', E', ran, more, i', p⟩ := h w i
  exact ⟨a, w', E', ran, more, i', weaker E' a p⟩

theorem Yields.grows (h : Yields (I E depth) (P E) x) : Grows I depth E P x := by
  intro w i
  obtain ⟨a, w', ran, i', p⟩ := h w i
  exact ⟨a, w', E, ran, le_refl E, i', p⟩

theorem Finishes.yields {J : World → Prop} {R : α → Prop} {B : Error → Prop}
    (h : Finishes J R B x) (never : ∀ e, ¬ B e) : Yields J R x := by
  intro w j
  rcases h.cases j with ⟨a, w', ran, j', r⟩ | ⟨e, w', -, -, failed⟩
  · exact ⟨a, w', ran, j', r⟩
  · exact absurd failed (never e)

end Run

variable {keys : KeySpace} {n depth level : Nat} {I : States} {E E' : Value → Prop}
  {M N : Value → Prop} {values : List Value} {t other : SetTable} {op : BinaryOp} {v : Value}

def KeySpace.on (keys : KeySpace) (E : Value → Prop) : KeySpace where
  IsKey v := keys.IsKey v ∧ E v
  code := keys.code
  equal := keys.equal
  equal_refl ha := keys.equal_refl ha.1
  equal_symm ha hb := keys.equal_symm ha.1 hb.1
  equal_trans ha hb hc := keys.equal_trans ha.1 hb.1 hc.1
  code_eq ha hb := keys.code_eq ha.1 hb.1

/-- The values exist and are keys, and `M` says which keys are equal to one of them. -/
structure KeySpace.Lists (keys : KeySpace) (E M : Value → Prop) (values : List Value) : Prop where
  there : ∀ v ∈ values, E v
  isKey : ∀ v ∈ values, keys.IsKey v
  members : ∀ x, keys.IsKey x → (keys.Among values x ↔ M x)

/-- A set of keys that exist. Its members are those that `M` says, also among keys to come. -/
structure SetIn (keys : KeySpace) (E M : Value → Prop) (t : SetTable) : Prop
    extends SetOf keys M t where
  there : ∀ v ∈ t.keys, E v

namespace SetIn

theorem mono (s : SetIn keys E M t) (more : E ≤ E') : SetIn keys E' M t :=
  { s with there := fun v mem => more v (s.there v mem) }

theorem on (s : SetIn keys E M t) : SetOf (keys.on E) M t where
  valid := s.valid
  isKey e mem := ⟨s.isKey e mem, s.there e.key (List.mem_map_of_mem mem)⟩
  coded := s.coded
  distinct := s.distinct
  members x isKey := s.members x isKey.1

theorem of_on (s : SetOf (keys.on E) M t) (respects : ∀ x y, keys.Same x y → M x → M y)
    (met : ∀ x, keys.IsKey x → M x → ∃ v, E v ∧ keys.Same v x) : SetIn keys E M t where
  valid := s.valid
  isKey e mem := (s.isKey e mem).1
  coded := s.coded
  distinct := s.distinct
  there _ mem := (s.isKey_of_mem mem).2
  members x isKey := by
    have areKeys : ∀ v ∈ t.keys, keys.IsKey v := fun _ mem => (s.isKey_of_mem mem).1
    constructor
    · rintro ⟨v, mem, equal⟩
      exact respects v x ⟨areKeys v mem, isKey, equal⟩ (s.member_of_mem mem)
    · intro member
      obtain ⟨v, there, same⟩ := met x isKey member
      have among := (s.members v ⟨same.1, there⟩).mpr (respects x v same.symm member)
      exact KeySpace.Among.of_same areKeys among same

end SetIn

theorem KeySpace.Combined.either {x : Value} (combined : KeySpace.Combined op M N x) : M x ∨ N x := by
  cases op <;> simp only [KeySpace.Combined, Xor] at combined <;> tauto

theorem KeySpace.combined_congr {x y : Value} (first : M x ↔ M y) (second : N x ↔ N y) :
    KeySpace.Combined op M N x ↔ KeySpace.Combined op M N y := by
  cases op <;> simp only [KeySpace.Combined, first, second]

namespace Elements

variable {h : Hooks} {J : World → Prop} (elements : Elements (keys.on E) h J)

include elements

theorem ofLists_yields (lists : keys.Lists E M values) :
    Run.Yields J (SetIn keys E M) (SetTable.ofValues h values) := by
  have built := elements.ofValues_yields values fun v mem => ⟨lists.isKey v mem, lists.there v mem⟩
  refine built.imp fun t s => ?_
  have s : SetIn keys E (keys.Among values) t := by
    refine .of_on s (fun x y same among => among.of_same lists.isKey same) ?_
    rintro x isKey ⟨v, mem, equal⟩
    exact ⟨v, lists.there v mem, lists.isKey v mem, isKey, equal⟩
  exact { s.toSetOf.congr lists.members with there := s.there }

theorem combined_yields (s : SetIn keys E M t) (s' : SetIn keys E N other)
    (known : SetTable.isSetOperator op = true) :
    Run.Yields J (fun answer => ∃ t', answer = some t' ∧ SetIn keys E (KeySpace.Combined op M N) t')
      (SetTable.algebra h op t other) := by
  refine (elements.algebra_yields s.on s'.on known).imp ?_
  rintro _ ⟨t', rfl, set⟩
  refine ⟨t', rfl, .of_on set (fun x y same => ?_) fun x isKey combined => ?_⟩
  · exact (KeySpace.combined_congr (s.respects_iff same) (s'.respects_iff same)).mp
  · rcases combined.either with member | member
    · obtain ⟨v, mem, equal⟩ := (s.members x isKey).mpr member
      exact ⟨v, s.there v mem, s.isKey_of_mem mem, isKey, equal⟩
    · obtain ⟨v, mem, equal⟩ := (s'.members x isKey).mpr member
      exact ⟨v, s'.there v mem, s'.isKey_of_mem mem, isKey, equal⟩

end Elements

/-- Where an operator is called, with `n` levels of hooks below the call and `depth` limited calls
open. What dispatch does by itself stays in `I`, one more call is within the limit and leads back, and
keys that exist can be hashed and compared both before and inside of that call. Which levels of nested
data are left is up to `I`, so keys may be nested as deep as these allow. -/
structure Workplace (keys : KeySpace) (n depth : Nat) (I : States) : Prop where
  steady : ∀ E, Steady (I E)
  back : ∀ E E' w w', E ≤ E' → I E depth w → I E' (depth + 1) w' →
    I E' depth { w' with depth := w.depth }
  room : ∀ E w limit, I E depth w → w.limit = some limit → w.depth < limit
  elements : ∀ E level, depth ≤ level → level ≤ depth + 1 →
    Elements (keys.on E) (hooks n) (I E level)

/-- The members of an operand: those of a set, or else what a view or an iteration yields in the states
of `I`. Items are the new tuples that the view makes, which become keys then. -/
inductive Presents (keys : KeySpace) (n depth : Nat) (I : States) : Value → (Value → Prop) → Prop
  | frozenSet {id : Identity} {t : SetTable} {M : Value → Prop} (set : SetOf keys M t)
    (there : ∀ E level w, I E level w → ∀ v ∈ t.keys, E v) :
    Presents keys n depth I (.frozenSet id t) M
  | view {r : DictRef} {v : Value} {M : Value → Prop} (view : SetView r v)
    (listed : ∀ E level, depth ≤ level → level ≤ depth + 1 →
      Run.Grows I level E (keys.Lists · M) (DictView.elements v)) : Presents keys n depth I v M
  | iterable {v : Value} {M : Value → Prop} (other : Store.isSetLike v = false)
    (listed : ∀ E level, depth ≤ level → level ≤ depth + 1 →
      Run.Grows I level E (keys.Lists · M)
        (do Protocol.drain (hooks n) (← Protocol.openIterator (hooks n) v))) :
    Presents keys n depth I v M

def IsSetView (v : Value) : Prop := ∃ r, SetView r v

/-- The value is a frozen set of these members, all of which exist. -/
def FrozenSetIn (keys : KeySpace) (E M : Value → Prop) (v : Value) : Prop :=
  ∃ id t, v = .frozenSet id t ∧ SetIn keys E M t

theorem FrozenSetIn.settled {v : Value} (set : FrozenSetIn keys E M v) :
    v.isNotImplemented = false := by
  obtain ⟨id, t, rfl, -⟩ := set
  rfl

theorem Protocol.search_elements {h : Hooks} (values acc : List Value) {fuel : Nat}
    (fits : values.length < fuel) :
    search h (β := Empty) (fun acc v => return .inl (← (return v :: acc : Run (List Value)))) fuel acc
      (.elements values) = pure (.inl (values.reverse ++ acc)) := by
  induction values generalizing fuel acc with
  | nil =>
    cases fuel with
    | zero => cases fits
    | succ fuel => rfl
  | cons v rest ih =>
    cases fuel with
    | zero => cases fits
    | succ fuel =>
      rw [List.reverse_cons, List.append_assoc]
      exact ih (v :: acc) (Nat.lt_of_succ_lt_succ fits)

theorem Presents.tuple {id : Identity} {items : List Value}
    (listed : ∀ E level w, I E level w → keys.Lists E M items) (fits : items.length < n) :
    Presents keys n depth I (.tuple id items) M := by
  have fuel : (hooks n).fuel = n := by cases n <;> rfl
  have drained : Protocol.drain (hooks n) (.elements items) = pure items := by
    rw [Protocol.drain, Protocol.fold, Protocol.search_elements items [] (fuel.symm ▸ fits)]
    simp
  refine .iterable rfl fun E level _ _ => ?_
  show Run.Grows _ _ _ _ (Protocol.drain (hooks n) (.elements items))
  rw [drained]
  exact fun w i => Run.grows_pure (P := (keys.Lists · M)) (listed E level w i) w i

section Receiving

variable (work : Workplace keys n depth I) (low : depth ≤ level) (high : level ≤ depth + 1)

include work low high

theorem ofLists_grows (lists : keys.Lists E M values) :
    Run.Grows I level E (SetIn keys · M) (SetTable.ofValues (hooks n) values) :=
  ((work.elements E level low high).ofLists_yields lists).grows

theorem receiveSet_grows {r : DictRef} (view : SetView r v) (presents : Presents keys n depth I v M) :
    Run.Grows I level E (SetIn keys · M) (DictView.receiveSet (hooks n) v) := by
  cases presents with
  | frozenSet => cases view
  | view _ listed =>
    rw [view.receiveSet_eq]
    exact Run.grows_bind (listed E level low high) fun _ _ _ => ofLists_grows work low high
  | iterable other => cases view <;> cases other

theorem operandSet?_grows (presents : Presents keys n depth I v M) :
    Run.Grows I level E (fun E' answer => ∃ t, answer = some t ∧ SetIn keys E' M t)
      (DictView.operandSet? (hooks n) v) := by
  cases presents with
  | frozenSet set there =>
    exact fun w i => Run.grows_pure ⟨_, rfl, { set with there := there E level w i }⟩ w i
  | view view listed =>
    rw [DictView.operandSet?, view.snapshot?_eq, bind_assoc]
    refine Run.grows_bind (receiveSet_grows work low high view (.view view listed)) ?_
    exact fun E' t _ set => Run.grows_pure ⟨t, rfl, set⟩
  | iterable other listed =>
    have snapshot : SetTable.snapshot? (hooks n) v = pure none := by
      cases v <;> first | rfl | cases other
    rw [DictView.operandSet?, snapshot, pure_bind]
    intro w i
    obtain ⟨values, w', E', ran, more, i', lists⟩ := listed E level low high w i
    obtain ⟨it, w₁, opened, drained⟩ := Run.bind_eq_ok ran
    have attempted : (Protocol.openIterator (hooks n) v).attempt w = (.ok (.ok it), w₁) := by
      simp [Run.attempt, opened]
    obtain ⟨t, w₂, E₂, built, more', i₂, set⟩ := ofLists_grows work low high lists w' i'
    refine ⟨some t, w₂, E₂, ?_, le_trans more more', i₂, t, rfl, set⟩
    exact (Run.bind_ok attempted).trans ((Run.bind_ok drained).trans (Run.bind_ok built))

end Receiving

end DynamicObjects
