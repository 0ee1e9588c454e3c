import DynamicObjects.Protocol
import DynamicObjects.Proofs.Numbers
import Mathlib.Data.List.Forall2
import Mathlib.Logic.Relation

/-!
What it means for two values to be equal, said without running anything. A value has a content, which
may be made of other values; two values are alike if their contents match and the values inside are
alike in turn. Since values may contain themselves through references, this is a largest relation: two
values are alike if some relation that keeps up with their contents relates them. It is an equivalence.
-/
namespace DynamicObjects

/-- What tells values apart that are only ever equal to themselves. -/
inductive Token
  | none
  | notImplemented
  | slice (s : Slice)
  | function (id : Identity)
  | values (ref : DictRef)
  | object (id : Identity)
  deriving DecidableEq

/-- What equality looks at. Text counts by its bytes, truth values are numbers, and sets and views of
keys and items are collections of elements. -/
inductive Content
  | number (x : Number)
  | text (utf8 : Bytes)
  | bytes (data : Bytes)
  | token (t : Token)
  | tuple (items : List Value)
  | list (items : List Value)
  | mapping (pairs : List (Value × Value))
  | elements (items : List Value)

/-- An item of a dictionary as a value; equality does not look at its identity. -/
def itemTuple (pair : Value × Value) : Value := .tuple 0 [pair.1, pair.2]

def Store.content (s : Store) : Value → Content
  | .none => .token .none
  | .notImplemented => .token .notImplemented
  | .bool b => .number (.int (Word.ofBool b))
  | .int n => .number (.int n)
  | .float d => .number (.float d)
  | .str _ text => .text text.toUTF8.toList
  | .bytes _ data => .bytes data
  | .byteArray r => .bytes (s.bytesOf r)
  | .tuple _ items => .tuple items
  | .list r => .list (s.list r).buffer.toList
  | .dict r => .mapping (s.dict r).table.pairs
  | .dictKeys r => .elements (s.dict r).table.keys
  | .dictValues r => .token (.values r)
  | .dictItems r => .elements ((s.dict r).table.pairs.map itemTuple)
  | .frozenSet _ t => .elements t.keys
  | .slice x => .token (.slice x)
  | .native id .. => .token (.function id)
  | .object id .. => .token (.object id)

mutual

/-- The hash code of a value, if it has one without asking a class. -/
def Store.code? (s : Store) : Value → Option HashCode
  | .none => some Protocol.noneHash
  | .notImplemented => some Protocol.notImplementedHash
  | .bool b => some (HashCode.ofInt (Word.ofBool b))
  | .int n => some (HashCode.ofInt n)
  | .float d => some (HashCode.ofDouble d)
  | .str _ text => some (HashCode.ofText text)
  | .bytes _ data => some (HashCode.ofBytes data)
  | .tuple _ items => (s.codes? items).map HashCode.ofTuple
  | .frozenSet _ t => some (HashCode.ofSet t.hashes)
  | .native id .. => some (Protocol.identityCode id)
  | .dictValues r => some (Protocol.identityCode (s.dict r).id)
  | _ => none

def Store.codes? (s : Store) : List Value → Option (List HashCode)
  | [] => some []
  | v :: rest => (s.code? v).bind fun code => (s.codes? rest).map (code :: ·)

end

def Covers {α β : Type} (C : α → β → Prop) (xs : List α) (ys : List β) : Prop :=
  ∀ x ∈ xs, ∃ y ∈ ys, C x y

def Mutual {α β : Type} (C : α → β → Prop) (xs : List α) (ys : List β) : Prop :=
  Covers C xs ys ∧ Covers (fun y x => C x y) ys xs

section Covering

variable {α β γ : Type} {C C' : α → β → Prop} {D : β → γ → Prop} {xs : List α} {ys : List β}
  {zs : List γ}

theorem Covers.imp (h : Covers C xs ys) (weaker : ∀ x y, C x y → C' x y) : Covers C' xs ys := by
  intro x mem
  obtain ⟨y, mem', related⟩ := h x mem
  exact ⟨y, mem', weaker x y related⟩

theorem Covers.comp (first : Covers C xs ys) (second : Covers D ys zs) :
    Covers (fun x z => ∃ y, C x y ∧ D y z) xs zs := by
  intro x mem
  obtain ⟨y, mem', related⟩ := first x mem
  obtain ⟨z, mem'', related'⟩ := second y mem'
  exact ⟨z, mem'', y, related, related'⟩

theorem Mutual.imp (h : Mutual C xs ys) (weaker : ∀ x y, C x y → C' x y) : Mutual C' xs ys :=
  ⟨h.1.imp weaker, h.2.imp fun y x => weaker x y⟩

theorem Mutual.comp (first : Mutual C xs ys) (second : Mutual D ys zs) :
    Mutual (fun x z => ∃ y, C x y ∧ D y z) xs zs := by
  refine ⟨first.1.comp second.1, (second.2.comp first.2).imp ?_⟩
  rintro z x ⟨y, related', related⟩
  exact ⟨y, related, related'⟩

theorem Mutual.refl {R : α → α → Prop} (refl : ∀ x, R x x) (xs : List α) : Mutual R xs xs :=
  ⟨fun x mem => ⟨x, mem, refl x⟩, fun x mem => ⟨x, mem, refl x⟩⟩

theorem Mutual.of_forall₂ (h : List.Forall₂ C xs ys) : Mutual C xs ys := by
  induction h with
  | nil => exact ⟨nofun, nofun⟩
  | cons first _ ih =>
    refine ⟨List.forall_mem_cons.mpr ⟨⟨_, List.mem_cons_self, first⟩, fun x mem => ?_⟩,
      List.forall_mem_cons.mpr ⟨⟨_, List.mem_cons_self, first⟩, fun y mem => ?_⟩⟩
    · obtain ⟨y, mem', related⟩ := ih.1 x mem
      exact ⟨y, List.mem_cons_of_mem _ mem', related⟩
    · obtain ⟨x, mem', related⟩ := ih.2 y mem
      exact ⟨x, List.mem_cons_of_mem _ mem', related⟩

theorem Covers.tail {x : α} (h : Covers C (x :: xs) ys)
    (distinct : ∀ x' ∈ xs, ∀ y, C x y → ¬ C x' y) :
    ∃ front y back, ys = front ++ y :: back ∧ C x y ∧ Covers C xs (front ++ back) := by
  obtain ⟨y, mem, related⟩ := h x List.mem_cons_self
  obtain ⟨front, back, rfl⟩ := List.append_of_mem mem
  refine ⟨front, y, back, rfl, related, fun x' mem' => ?_⟩
  obtain ⟨y', among, related'⟩ := h x' (List.mem_cons_of_mem _ mem')
  refine ⟨y', ?_, related'⟩
  rcases List.mem_append.mp among with before | after
  · exact List.mem_append_left _ before
  · rcases List.mem_cons.mp after with rfl | after
    · exact absurd related' (distinct x' mem' _ related)
    · exact List.mem_append_right _ after

theorem Covers.length_le (h : Covers C xs ys)
    (distinct : xs.Pairwise fun x x' => ∀ y, C x y → ¬ C x' y) : xs.length ≤ ys.length := by
  induction xs generalizing ys with
  | nil => exact Nat.zero_le _
  | cons x rest ih =>
    obtain ⟨first, distinct⟩ := List.pairwise_cons.mp distinct
    obtain ⟨front, y, back, rfl, -, others⟩ := h.tail first
    have shorter := ih others distinct
    simp only [List.length_append, List.length_cons] at shorter ⊢
    omega

theorem Covers.map_perm {δ : Type} {f : α → δ} {g : β → δ} (h : Covers C xs ys)
    (distinct : xs.Pairwise fun x x' => ∀ y, C x y → ¬ C x' y) (few : ys.length ≤ xs.length)
    (shared : ∀ x y, C x y → f x = g y) : (xs.map f).Perm (ys.map g) := by
  induction xs generalizing ys with
  | nil =>
    obtain rfl := List.length_eq_zero_iff.mp (Nat.le_zero.mp few)
    exact .nil
  | cons x rest ih =>
    obtain ⟨first, distinct⟩ := List.pairwise_cons.mp distinct
    obtain ⟨front, y, back, rfl, related, others⟩ := h.tail first
    have perm := ih others distinct (by simp at few ⊢; omega)
    calc (x :: rest).map f
        = g y :: rest.map f := by rw [List.map_cons, shared x y related]
      List.Perm _ (g y :: (front ++ back).map g) := perm.cons _
      List.Perm _ ((front ++ y :: back).map g) := by simpa using List.perm_middle.symm

theorem Covers.symm_of_length_le (h : Covers C xs ys)
    (distinct : xs.Pairwise fun x x' => ∀ y, C x y → ¬ C x' y) (few : ys.length ≤ xs.length) :
    Covers (fun y x => C x y) ys xs := by
  intro y mem
  by_contra unused
  obtain ⟨front, back, rfl⟩ := List.append_of_mem mem
  have others : Covers C xs (front ++ back) := by
    intro x mem'
    obtain ⟨y', among, related⟩ := h x mem'
    refine ⟨y', ?_, related⟩
    rcases List.mem_append.mp among with before | after
    · exact List.mem_append_left _ before
    · rcases List.mem_cons.mp after with rfl | after
      · exact absurd ⟨x, mem', related⟩ unused
      · exact List.mem_append_right _ after
  have shorter := others.length_le distinct
  simp only [List.length_append, List.length_cons] at shorter few
  omega

theorem mutual_iff_of_symm {C : α → α → Prop} (symm : ∀ x y, C x y → C y x) {xs ys : List α} :
    Mutual C xs ys ↔ Covers C xs ys ∧ Covers C ys xs :=
  and_congr_right fun _ =>
    ⟨fun covers => covers.imp fun y x => symm x y, fun covers => covers.imp fun y x => symm y x⟩

/-- Of two lists in which no two members share a counterpart, one that covers the other and is no
larger is covered by it. -/
theorem mutual_iff_covers {C : α → α → Prop} (symm : ∀ x y, C x y → C y x) {xs ys : List α}
    (hx : xs.Pairwise fun x x' => ∀ y, C x y → ¬ C x' y)
    (hy : ys.Pairwise fun y y' => ∀ x, C y x → ¬ C y' x) :
    Mutual C xs ys ↔ xs.length = ys.length ∧ Covers C xs ys := by
  constructor
  · rintro ⟨forward, backward⟩
    have backward : Covers C ys xs := backward.imp fun y x => symm x y
    exact ⟨Nat.le_antisymm (forward.length_le hx) (backward.length_le hy), forward⟩
  · rintro ⟨same, forward⟩
    exact ⟨forward, forward.symm_of_length_le hx (Nat.le_of_eq same.symm)⟩

end Covering

theorem forall₂_comp {α β γ : Type} {C : α → β → Prop} {D : β → γ → Prop} {xs : List α}
    {ys : List β} {zs : List γ} (first : List.Forall₂ C xs ys) (second : List.Forall₂ D ys zs) :
    List.Forall₂ (Relation.Comp C D) xs zs := by
  induction first generalizing zs with
  | nil =>
    cases second
    exact .nil
  | cons related _ ih =>
    cases second with
    | cons related' rest => exact .cons ⟨_, related, related'⟩ (ih rest)

namespace Content

/-- Two values under one hash code that a relation relates. -/
def Near (code : Value → Option HashCode) (R : Value → Value → Prop) (x y : Value) : Prop :=
  code x = code y ∧ R x y

def NearPair (code : Value → Option HashCode) (R : Value → Value → Prop) (p q : Value × Value) :
    Prop :=
  Near code R p.1 q.1 ∧ R p.2 q.2

def Matches (code : Value → Option HashCode) (R : Value → Value → Prop) : Content → Content → Prop
  | number x, number y => x.Equal y
  | text x, text y => x = y
  | bytes x, bytes y => x = y
  | token x, token y => x = y
  | tuple xs, tuple ys => List.Forall₂ R xs ys
  | list xs, list ys => List.Forall₂ R xs ys
  | mapping ps, mapping qs => Mutual (NearPair code R) ps qs
  | elements xs, elements ys => Mutual (Near code R) xs ys
  | _, _ => False

variable {code : Value → Option HashCode} {R S : Value → Value → Prop} {c c' c'' : Content}

theorem Matches.imp (h : c.Matches code R c') (weaker : ∀ x y, R x y → S x y) :
    c.Matches code S c' := by
  cases c <;> cases c' <;> try exact h
  case tuple.tuple => exact List.Forall₂.imp weaker h
  case list.list => exact List.Forall₂.imp weaker h
  case mapping.mapping =>
    exact Mutual.imp h fun p q near => ⟨⟨near.1.1, weaker _ _ near.1.2⟩, weaker _ _ near.2⟩
  case elements.elements => exact Mutual.imp h fun x y near => ⟨near.1, weaker _ _ near.2⟩

theorem Matches.refl (refl : ∀ x, R x x) (c : Content) : c.Matches code R c := by
  have : Std.Refl R := ⟨refl⟩
  have near (x : Value) : Near code R x x := ⟨rfl, refl x⟩
  have pair (p : Value × Value) : NearPair code R p p := ⟨near p.1, refl p.2⟩
  cases c with
  | number x => exact Number.Equal.refl x
  | text _ | bytes _ | token _ => exact rfl
  | tuple xs | list xs => exact List.forall₂_refl xs
  | mapping ps => exact Mutual.refl pair ps
  | elements xs => exact Mutual.refl near xs

theorem Matches.symm (h : c.Matches code R c') : c'.Matches code (fun y x => R x y) c := by
  cases c <;> cases c' <;> try exact h
  case number.number => exact Number.Equal.symm h
  case text.text | bytes.bytes | token.token => exact Eq.symm h
  case tuple.tuple | list.list => exact List.Forall₂.flip h
  case mapping.mapping =>
    exact Mutual.imp ⟨h.2, h.1⟩ fun q p near => ⟨⟨near.1.1.symm, near.1.2⟩, near.2⟩
  case elements.elements =>
    exact Mutual.imp ⟨h.2, h.1⟩ fun y x near => ⟨near.1.symm, near.2⟩

theorem Matches.comp (first : c.Matches code R c') (second : c'.Matches code S c'') :
    c.Matches code (Relation.Comp R S) c'' := by
  cases c' <;> cases c <;> try exact first.elim
  all_goals cases c'' <;> try exact second.elim
  case number.number.number => exact Number.Equal.trans first second
  case text.text.text | bytes.bytes.bytes | token.token.token => exact Eq.trans first second
  case tuple.tuple.tuple | list.list.list => exact forall₂_comp first second
  case mapping.mapping.mapping =>
    refine Mutual.imp (Mutual.comp first second) ?_
    rintro p r ⟨q, near, near'⟩
    exact ⟨⟨near.1.1.trans near'.1.1, q.1, near.1.2, near'.1.2⟩, q.2, near.2, near'.2⟩
  case elements.elements.elements =>
    refine Mutual.imp (Mutual.comp first second) ?_
    rintro x z ⟨y, near, near'⟩
    exact ⟨near.1.trans near'.1, y, near.2, near'.2⟩

end Content

def Store.KeepsUp (s : Store) (R : Value → Value → Prop) : Prop :=
  ∀ x y, R x y → (s.content x).Matches s.code? R (s.content y)

def Alike (s : Store) (a b : Value) : Prop := ∃ R, R a b ∧ s.KeepsUp R

namespace Alike

variable {s : Store} {a b c : Value}

theorem keepsUp (s : Store) : s.KeepsUp (Alike s) := by
  rintro x y ⟨R, related, keepsUp⟩
  exact (keepsUp x y related).imp fun x y related => ⟨R, related, keepsUp⟩

/-- Values are alike if and only if their contents match, as far as alike values can be told apart. -/
theorem iff_matches : Alike s a b ↔ (s.content a).Matches s.code? (Alike s) (s.content b) := by
  refine ⟨keepsUp s a b, fun first => ?_⟩
  let R (x y : Value) := (s.content x).Matches s.code? (Alike s) (s.content y)
  exact ⟨R, first, fun x y related => related.imp (keepsUp s)⟩

theorem of_content_eq (same : s.content a = s.content b) : Alike s a b := by
  rw [iff_matches, same]
  refine Content.Matches.refl ?_ _
  exact fun x => ⟨Eq, rfl, fun x y (same : x = y) => same ▸ .refl Eq.refl _⟩

theorem refl (a : Value) : Alike s a a := of_content_eq rfl

theorem symm (h : Alike s a b) : Alike s b a := by
  obtain ⟨R, related, keepsUp⟩ := h
  exact ⟨fun y x => R x y, related, fun x y related => (keepsUp y x related).symm⟩

theorem trans (first : Alike s a b) (second : Alike s b c) : Alike s a c := by
  obtain ⟨R, related, keepsUp⟩ := first
  obtain ⟨S, related', keepsUp'⟩ := second
  refine ⟨Relation.Comp R S, ⟨b, related, related'⟩, ?_⟩
  rintro x z ⟨y, left, right⟩
  exact (keepsUp x y left).comp (keepsUp' y z right)

theorem comm : Alike s a b ↔ Alike s b a := ⟨symm, symm⟩

end Alike

end DynamicObjects
