import DynamicObjects.Proofs.Equality.Views

/-!
What comparisons come to, said without running anything. Numbers, text and bytes are ordered by
themselves; equality is being alike; sequences are decided by the first items that are not alike, and
what acts as a set by inclusion. An operator and its reflection, asked of the operands in the other
order, never come to different answers.
-/
namespace DynamicObjects

namespace Bytes

theorem order_swap (x y : Bytes) : order y x = (order x y).swap := by
  induction x generalizing y with
  | nil => cases y <;> rfl
  | cons a x ih =>
    cases y with
    | nil => rfl
    | cons b y =>
      rw [order, order, ih, Ordering.swap_then, Nat.compare_swap]

theorem order_eq_iff (x y : Bytes) : order x y = .eq ↔ x = y := by
  induction x generalizing y with
  | nil => cases y <;> simp [order]
  | cons a x ih =>
    cases y with
    | nil => simp [order]
    | cons b y =>
      rw [order, Ordering.then_eq_eq, ih, compare_eq_iff_eq, UInt8.toNat_inj, List.cons.injEq]

end Bytes

namespace Content

/-- The order that contents have by themselves. The inner option is empty for a NaN. -/
def order? : Content → Content → Option (Option Ordering)
  | text x, text y => some (some (Bytes.order x y))
  | bytes x, bytes y => some (some (Bytes.order x y))
  | number x, number y => some (x.compare? y)
  | _, _ => none

def compound : Content → Content → Bool
  | tuple _, tuple _ | list _, list _ | mapping _, mapping _ | elements _, elements _ => true
  | _, _ => false

theorem order?_swap (c c' : Content) :
    c'.order? c = (c.order? c').map (Option.map Ordering.swap) := by
  cases c <;> cases c' <;> try rfl
  case number.number x y => simp [order?, Number.compare?_swap x y]
  case text.text x y => simp [order?, Bytes.order_swap x y]
  case bytes.bytes x y => simp [order?, Bytes.order_swap x y]

/-- A NaN apart, contents that have an order match if and only if it is that of equals. -/
theorem matches_iff_order {code : Value → Option HashCode} {R : Value → Value → Prop}
    {c c' : Content} {order : Option Ordering} (known : c.order? c' = some order)
    (differ : ∀ d, c = number (.float d) → c' ≠ c) : c.Matches code R c' ↔ order = some .eq := by
  cases c <;> cases c' <;> cases known
  case number.number x y =>
    refine ⟨?_, .inr⟩
    rintro (rfl | same)
    · cases x with
      | int n => simp [Number.compare?]
      | float d => exact absurd rfl (differ d rfl)
    · exact same
  case text.text x y => exact (Bytes.order_eq_iff x y).symm.trans (Option.some_inj).symm
  case bytes.bytes x y => exact (Bytes.order_eq_iff x y).symm.trans (Option.some_inj).symm

theorem eq_token_of_matches {code : Value → Option HashCode} {R : Value → Value → Prop}
    {c c' : Content} (matched : c.Matches code R c') (unknown : c.order? c' = none)
    (simple : c.compound c' = false) : ∃ t, c = token t ∧ c' = token t := by
  cases c <;> cases c' <;> try exact matched.elim
  case token.token t t' => exact ⟨t, rfl, congrArg token (Eq.symm matched)⟩
  case number.number | text.text | bytes.bytes => cases unknown
  case tuple.tuple | list.list | mapping.mapping | elements.elements => cases simple

end Content

variable {s : Store} {a b : Value} {op : CompareOp} {x y : Bool}

theorem intrinsicCompare?_eq (s : Store) (a b : Value) :
    s.intrinsicCompare? a b = (s.content a).order? (s.content b) := by
  cases a <;> cases b <;> rfl

theorem intrinsicEq?_eq (s : Store) (ha : a.kind ≠ .object) (hb : b.kind ≠ .object) :
    s.intrinsicEq? a b =
      match (s.content a).order? (s.content b) with
      | some order => some (order == some .eq)
      | none => if (s.content a).compound (s.content b) then none else some (a.isSame b) := by
  cases a <;> cases b <;> first | rfl | exact absurd rfl ha | exact absurd rfl hb

theorem isSame_of_token {t : Token} (ha : s.content a = .token t) (hb : s.content b = .token t) :
    a.isSame b := by
  cases a <;> cases ha <;> cases b <;> cases hb <;> simp [Value.isSame]

theorem isSame_of_float {d : Double} (ha : s.content a = .number (.float d))
    (hb : s.content b = .number (.float d)) : a.isSame b := by
  cases a <;> cases ha
  cases b <;> cases hb
  simp [Value.isSame]

/-- Where an order is known and the values are not one and the same, it decides equality. -/
theorem alike_iff_order {order : Option Ordering}
    (known : (s.content a).order? (s.content b) = some order) (differ : ¬ a.isSame b) :
    Alike s a b ↔ order = some .eq := by
  rw [Alike.iff_matches]
  exact Content.matches_iff_order known fun d float same =>
    differ (isSame_of_float float (same.trans float))

/-- What is neither ordered nor made of other values is only like itself. -/
theorem isSame_of_alike (alike : Alike s a b) (unknown : (s.content a).order? (s.content b) = none)
    (simple : (s.content a).compound (s.content b) = false) : a.isSame b := by
  obtain ⟨t, left, right⟩ :=
    Content.eq_token_of_matches (Alike.iff_matches.mp alike) unknown simple
  exact isSame_of_token left right

/-- Where two sequences part: one of them, or both, may end first. -/
inductive Parting
  | ends (order : Ordering)
  | items (a b : Value)

def Parting.swap : Parting → Parting
  | ends order => ends order.swap
  | items a b => items b a

open Classical in
/-- The first items of two sequences that are not alike. -/
noncomputable def parting (s : Store) : List Value → List Value → Parting
  | [], [] => .ends .eq
  | [], _ :: _ => .ends .lt
  | _ :: _, [] => .ends .gt
  | a :: as, b :: bs => if Alike s a b then parting s as bs else .items a b

theorem parting_swap (s : Store) (xs ys : List Value) :
    parting s ys xs = (parting s xs ys).swap := by
  induction xs generalizing ys with
  | nil => cases ys <;> rfl
  | cons a as ih =>
    cases ys with
    | nil => rfl
    | cons b bs =>
      rw [parting, parting, ih, Alike.comm]
      split <;> rfl

theorem parting_eq_iff (s : Store) (xs ys : List Value) :
    parting s xs ys = .ends .eq ↔ List.Forall₂ (Alike s) xs ys := by
  induction xs generalizing ys with
  | nil => cases ys <;> simp [parting]
  | cons a as ih =>
    cases ys with
    | nil => simp [parting]
    | cons b bs =>
      rw [parting, List.forall₂_cons, ← ih]
      split
      next alike => simp [alike]
      next unlike => simp [unlike]

/-- How a comparison is decided: by a statement about the operands, by the same comparison of two of
their items, or not at all. -/
inductive Ruling
  | states (p : Prop)
  | defers (a b : Value)
  | refuses

namespace Ruling

def swap : Ruling → Ruling
  | states p => states p
  | defers a b => defers b a
  | refuses => refuses

def ofParting (op : CompareOp) : Parting → Ruling
  | .ends order => states (op.holds order = true)
  | .items a b => defers a b

theorem ofParting_swap (op : CompareOp) (p : Parting) :
    ofParting op.reflected p.swap = (ofParting op p).swap := by
  cases p with
  | ends order => rw [Parting.swap, ofParting, ofParting, CompareOp.holds_reflected]; rfl
  | items a b => rfl

end Ruling

noncomputable def Content.ruling (s : Store) (op : CompareOp) : Content → Content → Ruling
  | elements xs, elements ys => .states (SetOrder s op xs ys)
  | tuple xs, tuple ys | list xs, list ys => .ofParting op (parting s xs ys)
  | _, _ => .refuses

noncomputable def ruling (s : Store) (op : CompareOp) (a b : Value) : Ruling :=
  match (s.content a).order? (s.content b), op with
  | some order, op => .states (Protocol.intrinsicAnswer op order = true)
  | none, .eq => .states (Alike s a b)
  | none, .ne => .states (¬ Alike s a b)
  | none, op => (s.content a).ruling s op (s.content b)

theorem ruling_of_unknown (unknown : (s.content a).order? (s.content b) = none)
    (ordering : op ≠ .eq ∧ op ≠ .ne) : ruling s op a b = (s.content a).ruling s op (s.content b) := by
  unfold ruling
  rw [unknown]
  cases op with
  | eq => exact absurd rfl ordering.1
  | ne => exact absurd rfl ordering.2
  | lt | le | gt | ge => rfl

inductive Verdict (s : Store) (op : CompareOp) : Value → Value → Bool → Prop
  | said {a b : Value} {x : Bool} {p : Prop} (ruled : ruling s op a b = .states p)
    (answer : x = true ↔ p) : Verdict s op a b x
  | deferred {a b a' b' : Value} {x : Bool} (ruled : ruling s op a b = .defers a' b')
    (later : Verdict s op a' b' x) : Verdict s op a b x

@[simp] theorem CompareOp.reflected_reflected (op : CompareOp) : op.reflected.reflected = op := by
  cases op <;> rfl

theorem setOrder_reflected (s : Store) (op : CompareOp) (xs ys : List Value) :
    SetOrder s op.reflected ys xs ↔ SetOrder s op xs ys := by
  have both : Mutual (Near s) ys xs ↔ Mutual (Near s) xs ys := by
    rw [mutual_near_iff, mutual_near_iff, and_comm]
  cases op with
  | eq => exact both
  | ne => exact not_congr both
  | lt | le | gt | ge => rfl

theorem Content.ruling_reflected (s : Store) (op : CompareOp) (c c' : Content) :
    c'.ruling s op.reflected c = (c.ruling s op c').swap := by
  cases c <;> cases c' <;> try rfl
  case elements.elements xs ys =>
    exact congrArg Ruling.states (propext (setOrder_reflected s op xs ys))
  all_goals
    rw [ruling, ruling, parting_swap, Ruling.ofParting_swap]

theorem intrinsicAnswer_reflected (op : CompareOp) (order : Option Ordering) :
    Protocol.intrinsicAnswer op.reflected (order.map Ordering.swap) =
      Protocol.intrinsicAnswer op order := by
  cases order with
  | some order => exact op.holds_reflected order
  | none => cases op <;> rfl

theorem ruling_reflected (s : Store) (op : CompareOp) (a b : Value) :
    ruling s op.reflected b a = (ruling s op a b).swap := by
  unfold ruling
  rw [Content.order?_swap (s.content a) (s.content b)]
  cases (s.content a).order? (s.content b) with
  | some order =>
    exact congrArg (fun x => Ruling.states (x = true)) (intrinsicAnswer_reflected op order)
  | none =>
    cases op with
    | eq => exact congrArg Ruling.states (propext Alike.comm)
    | ne => exact congrArg Ruling.states (propext (not_congr Alike.comm))
    | lt | le | gt | ge => exact Content.ruling_reflected s _ (s.content a) (s.content b)

theorem ruling_ne (s : Store) (a b : Value) :
    ∃ p, ruling s .eq a b = .states p ∧ ruling s .ne a b = .states (¬ p) := by
  unfold ruling
  cases (s.content a).order? (s.content b) with
  | some order =>
    refine ⟨_, rfl, congrArg Ruling.states (propext ?_)⟩
    cases order <;> simp [Protocol.intrinsicAnswer, CompareOp.holds]
  | none => exact ⟨_, rfl, rfl⟩

namespace Verdict

theorem reflected (h : Verdict s op a b x) : Verdict s op.reflected b a x := by
  induction h with
  | said ruled answer => exact .said (by rw [ruling_reflected, ruled]; rfl) answer
  | deferred ruled _ ih => exact .deferred (by rw [ruling_reflected, ruled]; rfl) ih

theorem unique (h : Verdict s op a b x) (h' : Verdict s op a b y) : x = y := by
  induction h with
  | said ruled answer =>
    cases h' with
    | said ruled' answer' =>
      obtain rfl := Ruling.states.inj (ruled.symm.trans ruled')
      exact Bool.eq_iff_iff.mpr (answer.trans answer'.symm)
    | deferred ruled' _ => cases ruled.symm.trans ruled'
  | deferred ruled _ ih =>
    cases h' with
    | said ruled' _ => cases ruled.symm.trans ruled'
    | deferred ruled' later =>
      obtain ⟨rfl, rfl⟩ := Ruling.defers.inj (ruled.symm.trans ruled')
      exact ih later

theorem iff_of_states {p : Prop} (h : Verdict s op a b x) (ruled : ruling s op a b = .states p) :
    x = true ↔ p := by
  cases h with
  | said ruled' answer =>
    obtain rfl := Ruling.states.inj (ruled'.symm.trans ruled)
    exact answer
  | deferred ruled' _ => cases ruled'.symm.trans ruled

theorem not (h : Verdict s .eq a b x) : Verdict s .ne a b (!x) := by
  obtain ⟨p, equal, unequal⟩ := ruling_ne s a b
  refine .said unequal ?_
  rw [← h.iff_of_states equal]
  cases x <;> simp

theorem of_alike (unknown : (s.content a).order? (s.content b) = none)
    (answer : x = true ↔ Alike s a b) : Verdict s .eq a b x :=
  .said (by unfold ruling; rw [unknown]) answer

theorem alike_iff (h : Verdict s .eq a b x) (unknown : (s.content a).order? (s.content b) = none) :
    x = true ↔ Alike s a b :=
  h.iff_of_states (by unfold ruling; rw [unknown])

end Verdict

end DynamicObjects
