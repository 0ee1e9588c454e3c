import DynamicObjects.Proofs.MergeSort

/-!
The merge sort on one array of links. Each position names the one behind it, runs are chains of links, and
merging writes into the same array that the other runs lie in. Every access is checked here, and every loop
has an end; a check that fails is a fault. Whatever the comparisons do and answer, there are no faults: the
chains stay apart, so that the sort takes the same steps as the one on lists of positions.
-/
namespace DynamicObjects.LinkSort

/-- For each position the one behind it in its run, if there is one. -/
abbrev Links := Array (Option Nat)

inductive Fault
  | outOfRange
  | endless
  deriving DecidableEq

/-- Runs that may also end with a fault of the sort itself. -/
abbrev Linked := ExceptT Fault Run

def follow (links : Links) (p : Nat) : Linked (Option Nat) :=
  match links[p]? with
  | some next => pure next
  | none => throw .outOfRange

/-- Puts what comes next behind the last position of a chain, or makes it the head of the chain. -/
def append (links : Links) (head last next : Option Nat) : Linked (Links × Option Nat) :=
  match last with
  | none => pure (links, next)
  | some t => if t < links.size then pure (links.setIfInBounds t next, head) else throw .outOfRange

def ask {α : Type} (keys : Array α) (backwards : Bool) (less : α → α → Run Bool)
    (earlier later : Nat) : Linked Bool :=
  match keys[earlier]?, keys[later]? with
  | some a, some b => ExceptT.lift (if backwards then less a b else less b a)
  | _, _ => throw .outOfRange

section

variable (inverted : Nat → Nat → Linked Bool)

def mergeChains : Nat → Links → Option Nat → Option Nat → Option Nat → Option Nat →
    Linked (Links × Option Nat)
  | 0, _, _, _, _, _ => throw .endless
  | fuel + 1, links, some p, some q, head, last => do
    let answer ← inverted p q
    let taken := if answer then q else p
    let next ← follow links taken
    let (links, head) ← append links head last (some taken)
    if answer then mergeChains fuel links (some p) next head (some taken)
    else mergeChains fuel links next (some q) head (some taken)
  | _ + 1, links, p, q, head, last => append links head last (p.or q)

/-- Links each position to the one before it, unless a new run has to begin there. -/
def findChains (links : Links) (head last : Nat) : List Nat → Linked (Links × List (Option Nat))
  | [] => return (links, [some head])
  | i :: rest => do
    if ← inverted last i then
      let (links, heads) ← findChains links i i rest
      return (links, some head :: heads)
    else
      let (links, _) ← append links none (some last) (some i)
      findChains links head i rest

def mergePairs (links : Links) : List (Option Nat) → Linked (Links × List (Option Nat))
  | p :: q :: rest => do
    let (links, head) ← mergeChains inverted (links.size + 1) links p q none none
    let (links, heads) ← mergePairs links rest
    return (links, head :: heads)
  | heads => return (links, heads)

def mergeLevels : Nat → Links → List (Option Nat) → Linked (Links × Option Nat)
  | 0, _, _ => throw .endless
  | _ + 1, links, [] => return (links, none)
  | _ + 1, links, [head] => return (links, head)
  | fuel + 1, links, heads => do
    let (links, heads) ← mergePairs inverted links heads
    mergeLevels fuel links heads

end

def collect (links : Links) : Nat → Option Nat → Linked (List Nat)
  | _, none => return []
  | 0, some _ => throw .endless
  | fuel + 1, some p => do
    let next ← follow links p
    return p :: (← collect links fuel next)

def sortKeys {α : Type} (keys : Array α) (backwards : Bool) (less : α → α → Run Bool) :
    Linked (List Nat) := do
  let n := keys.size
  if n < 2 then return List.range n
  else
    let inverted := ask keys backwards less
    let (links, heads) ← findChains inverted (Array.replicate n none) 0 0 (List.range' 1 (n - 1))
    let (links, head) ← mergeLevels inverted (n + 1) links heads
    collect links (n + 1) head

/-! ## Chains -/

/-- From `start` on, the links lead through exactly these positions. -/
def Chain (links : Links) : Option Nat → List Nat → Prop
  | start, [] => start = none
  | start, p :: rest => start = some p ∧ ∃ next, links[p]? = some next ∧ Chain links next rest

def SameOutside (changed : List Nat) (links links' : Links) : Prop :=
  links'.size = links.size ∧ ∀ i, i ∉ changed → links'[i]? = links[i]?

section Chains

variable {links links' : Links} {start : Option Nat} {xs : List Nat}

theorem SameOutside.refl (changed : List Nat) (links : Links) : SameOutside changed links links :=
  ⟨rfl, fun _ _ => rfl⟩

theorem SameOutside.mono {changed changed' : List Nat} (h : SameOutside changed links links')
    (more : ∀ i ∈ changed, i ∈ changed') : SameOutside changed' links links' :=
  ⟨h.1, fun i out => h.2 i fun mem => out (more i mem)⟩

theorem SameOutside.trans {links'' : Links} {changed : List Nat}
    (first : SameOutside changed links links') (second : SameOutside changed links' links'') :
    SameOutside changed links links'' :=
  ⟨second.1.trans first.1, fun i out => (second.2 i out).trans (first.2 i out)⟩

/-- Links of other positions do not matter for a chain. -/
theorem Chain.frame {changed : List Nat} (h : Chain links start xs)
    (same : SameOutside changed links links') (apart : ∀ i ∈ xs, i ∉ changed) :
    Chain links' start xs := by
  induction xs generalizing start with
  | nil => exact h
  | cons p rest ih =>
    obtain ⟨here, next, linked, further⟩ := h
    refine ⟨here, next, ?_, ih further fun i mem => apart i (List.mem_cons_of_mem _ mem)⟩
    rw [same.2 p (apart p List.mem_cons_self), linked]

theorem Chain.lt_size (h : Chain links start xs) : ∀ i ∈ xs, i < links.size := by
  induction xs generalizing start with
  | nil => simp
  | cons p rest ih =>
    obtain ⟨-, next, linked, further⟩ := h
    intro i mem
    rcases List.mem_cons.mp mem with rfl | mem
    · exact (Array.getElem?_eq_some_iff.mp linked).1
    · exact ih further i mem

theorem sameOutside_set (links : Links) (t : Nat) (next : Option Nat) :
    SameOutside [t] links (links.setIfInBounds t next) := by
  refine ⟨Array.size_setIfInBounds, fun i out => ?_⟩
  rw [List.mem_singleton] at out
  exact Array.getElem?_setIfInBounds_ne (Ne.symm out)

theorem Chain.snoc {run : List Nat} {last i : Nat} (h : Chain links start (run ++ [last]))
    (fresh : links[i]? = some none) (apart : i ∉ run ++ [last]) (nodup : last ∉ run) :
    Chain (links.setIfInBounds last (some i)) start (run ++ [last] ++ [i]) := by
  induction run generalizing start with
  | nil =>
    obtain ⟨here, next, linked, -⟩ := h
    have inside := (Array.getElem?_eq_some_iff.mp linked).1
    have other : i ≠ last := by simpa using apart
    refine ⟨here, some i, by simp [inside], rfl, none, ?_, rfl⟩
    rw [Array.getElem?_setIfInBounds_ne (Ne.symm other), fresh]
  | cons p rest ih =>
    obtain ⟨here, next, linked, further⟩ := h
    simp only [List.cons_append, List.mem_cons, not_or] at apart nodup
    refine ⟨here, next, ?_, ih further apart.2 nodup.2⟩
    rw [Array.getElem?_setIfInBounds_ne nodup.1, linked]

end Chains

/-! ## Steps side by side -/

/-- Two runs take the same steps. If they end with values, these are related. -/
def Alongside {α β : Type} (R : α → β → Prop) (x : Linked α) (y : Run β) : Prop :=
  ∀ w, (∃ a b w', x.run w = (.ok (.ok a), w') ∧ y w = (.ok b, w') ∧ R a b) ∨
    ∃ failure w', x.run w = (Run.Failure.outcome failure, w') ∧
      y w = (Run.Failure.outcome failure, w')

section Alongside

variable {α β γ δ : Type} {R : α → β → Prop} {S : γ → δ → Prop} {x : Linked α} {y : Run β}

theorem alongside_pure {a : α} {b : β} (related : R a b) : Alongside R (pure a) (pure b) :=
  fun w => .inl ⟨a, b, w, rfl, rfl, related⟩

theorem alongside_lift (y : Run β) : Alongside Eq (ExceptT.lift y) y := by
  intro w
  rcases Run.outcome_cases y w with ⟨b, w', ran⟩ | ⟨failure, w', ran⟩
  · exact .inl ⟨b, b, w', Run.bind_ok ran, ran, rfl⟩
  · exact .inr ⟨failure, w', Run.bind_failure ran, ran⟩

theorem Alongside.bind {f : α → Linked γ} {g : β → Run δ} (h : Alongside R x y)
    (further : ∀ a b, R a b → Alongside S (f a) (g b)) : Alongside S (x >>= f) (y >>= g) := by
  intro w
  rcases h w with ⟨a, b, w₁, ran, ran', related⟩ | ⟨failure, w', ran, ran'⟩
  · have stepped : (x >>= f).run w = (f a).run w₁ := Run.bind_ok ran
    rw [stepped, Run.bind_ok ran']
    exact further a b related w₁
  · exact .inr ⟨failure, w', Run.bind_failure ran, Run.bind_failure ran'⟩

theorem Alongside.imp {S : α → β → Prop} (h : Alongside R x y) (weaker : ∀ a b, R a b → S a b) :
    Alongside S x y := by
  intro w
  rcases h w with ⟨a, b, w', ran, ran', related⟩ | failed
  · exact .inl ⟨a, b, w', ran, ran', weaker a b related⟩
  · exact .inr failed

theorem Alongside.map {S : α → δ → Prop} {g : β → δ} (h : Alongside R x y)
    (related : ∀ a b, R a b → S a (g b)) : Alongside S x (y >>= fun b => pure (g b)) := by
  have both := h.bind fun a b r => alongside_pure (R := S) (related a b r)
  rwa [bind_pure] at both

theorem Alongside.run_eq {x : Linked β} (h : Alongside Eq x y) : x.run = Except.ok <$> y := by
  funext w
  rw [map_eq_pure_bind]
  rcases h w with ⟨a, b, w', ran, ran', rfl⟩ | ⟨failure, w', ran, ran'⟩
  · rw [ran, Run.bind_ok ran']
    rfl
  · rw [ran, Run.bind_failure ran']

end Alongside

/-! ## Merging -/

section Steps

variable {links : Links} {head start : Option Nat} {xs : List Nat}

theorem follow_eq {p : Nat} {next : Option Nat} (linked : links[p]? = some next) :
    follow links p = pure next := by
  rw [follow, linked]

theorem append_some {t : Nat} (inside : t < links.size) (next : Option Nat) :
    append links head (some t) next = pure (links.setIfInBounds t next, head) :=
  if_pos inside

theorem Chain.behind {t : Nat} (h : Chain links start xs) (apart : t ∉ xs) (inside : t < links.size) :
    Chain (links.setIfInBounds t start) (some t) (t :: xs) := by
  refine ⟨rfl, start, by simp [inside], h.frame (sameOutside_set links t start) fun i mem same => ?_⟩
  rw [List.mem_singleton] at same
  exact apart (same ▸ mem)

theorem Chain.of_head {p : Nat} {rest : List Nat} (h : Chain links start (p :: rest)) :
    start = some p ∧ p < links.size ∧ ∃ next, links[p]? = some next ∧ Chain links next rest := by
  obtain ⟨here, next, linked, further⟩ := h
  exact ⟨here, (Array.getElem?_eq_some_iff.mp linked).1, next, linked, further⟩

end Steps

/-- What merging two chains leaves behind the position `t`: one chain of the merged positions, in links
that are the same outside. -/
structure Merged (links : Links) (head : Option Nat) (t : Nat) (merged : List Nat)
    (got : Links × Option Nat) (out : List Nat) : Prop where
  head : got.2 = head
  chain : Chain got.1 (some t) (t :: out)
  perm : out.Perm merged
  same : SameOutside (t :: out) links got.1

section Merging

variable {n : Nat} {inverted : Nat → Nat → Linked Bool} {compare : Nat → Nat → Run Bool}
  (compares : ∀ p q, p < n → q < n → Alongside Eq (inverted p q) (compare p q))

theorem append_merged {links : Links} {head start : Option Nat} {t : Nat} {xs merged : List Nat}
    (h : Chain links start xs) (apart : t ∉ xs) (inside : t < links.size) (perm : xs.Perm merged) :
    Alongside (Merged links head t merged) (append links head (some t) start) (pure xs) := by
  rw [append_some inside]
  refine alongside_pure ⟨rfl, h.behind apart inside, perm, ?_⟩
  exact (sameOutside_set links t start).mono (by simp)

theorem Merged.cons {links : Links} {head : Option Nat} {t taken : Nat} {merged merged' : List Nat}
    {got : Links × Option Nat} {out : List Nat}
    (h : Merged (links.setIfInBounds t (some taken)) head taken merged got out)
    (inside : t < links.size) (apart : t ∉ taken :: merged) (perm : (taken :: merged).Perm merged') :
    Merged links head t merged' got (taken :: out) := by
  have out' : t ∉ taken :: out := by
    intro mem
    exact apart ((h.perm.cons taken).mem_iff.mp mem)
  refine ⟨h.head, ⟨rfl, some taken, ?_, h.chain⟩, (h.perm.cons taken).trans perm, ?_⟩
  · rw [h.same.2 t out']
    simp [inside]
  · have set : SameOutside (t :: taken :: out) links (links.setIfInBounds t (some taken)) :=
      (sameOutside_set links t (some taken)).mono (by simp)
    exact set.trans (h.same.mono fun i mem => List.mem_cons_of_mem t mem)

include compares

theorem mergeChains_behind (fuel fuel' : Nat) {links : Links} {p q head : Option Nat} {t : Nat}
    {ps qs : List Nat} (enough : ps.length + qs.length < fuel) (enough' : ps.length + qs.length ≤ fuel')
    (size : links.size = n) (hp : Chain links p ps) (hq : Chain links q qs) (inside : t < links.size)
    (nodup : (t :: (ps ++ qs)).Nodup) :
    Alongside (Merged links head t (ps ++ qs)) (mergeChains inverted fuel links p q head (some t))
      (MergeSort.mergeRuns compare fuel' ps qs) := by
  induction fuel' generalizing fuel links p q head t ps qs with
  | zero =>
    obtain rfl : ps = [] := List.eq_nil_of_length_eq_zero (by omega)
    obtain rfl : qs = [] := List.eq_nil_of_length_eq_zero (by omega)
    obtain ⟨fuel, rfl⟩ : ∃ k, fuel = k + 1 := ⟨fuel - 1, by omega⟩
    obtain rfl : p = none := hp
    obtain rfl : q = none := hq
    have nothing : Chain links none [] := rfl
    exact append_merged nothing (by simp) inside (.refl _)
  | succ fuel' ih =>
    obtain ⟨fuel, rfl⟩ : ∃ k, fuel = k + 1 := ⟨fuel - 1, by omega⟩
    obtain ⟨other, distinct⟩ := List.nodup_cons.mp nodup
    have apart := not_or.mp (List.mem_append.not.mp other)
    cases ps with
    | nil =>
      obtain rfl : p = none := hp
      have used : mergeChains inverted (fuel + 1) links none q head (some t) =
          append links head (some t) q := by cases q <;> rfl
      rw [used]
      exact append_merged hq apart.2 inside (.refl _)
    | cons a ps =>
      obtain ⟨rfl, ha, next, linked, hp'⟩ := hp.of_head
      cases qs with
      | nil =>
        obtain rfl : q = none := hq
        exact append_merged hp apart.1 inside (by simp)
      | cons b qs =>
        obtain ⟨rfl, hb, next', linked', hq'⟩ := hq.of_head
        rw [mergeChains, MergeSort.mergeRuns]
        simp only [List.length_cons] at enough enough'
        refine (compares a b (size ▸ ha) (size ▸ hb)).bind ?_
        rintro answer _ rfl
        have frame {start : Option Nat} {xs : List Nat} {taken : Nat} (h : Chain links start xs)
            (out : t ∉ xs) : Chain (links.setIfInBounds t (some taken)) start xs :=
          h.frame (sameOutside_set links t _) fun i mem same =>
            out (List.mem_singleton.mp same ▸ mem)
        cases answer with
        | true =>
          simp only [if_true, follow_eq linked', append_some inside, pure_bind]
          have rest : Alongside (Merged (links.setIfInBounds t (some b)) head b (a :: ps ++ qs))
              (mergeChains inverted fuel (links.setIfInBounds t (some b)) (some a) next' head (some b))
              (MergeSort.mergeRuns compare fuel' (a :: ps) qs) :=
            ih fuel (by simp only [List.length_cons]; omega) (by simp only [List.length_cons]; omega)
              (by simpa using size) (frame hp apart.1)
              (frame hq' fun mem => apart.2 (List.mem_cons_of_mem _ mem)) (by simpa using hb)
              ((List.perm_middle.nodup_iff).mp distinct)
          exact rest.map fun got out merged => merged.cons inside
            (fun mem => other (List.perm_middle.mem_iff.mpr mem)) List.perm_middle.symm
        | false =>
          simp only [Bool.false_eq_true, if_false, follow_eq linked, append_some inside, pure_bind]
          have rest : Alongside (Merged (links.setIfInBounds t (some a)) head a (ps ++ b :: qs))
              (mergeChains inverted fuel (links.setIfInBounds t (some a)) next (some b) head (some a))
              (MergeSort.mergeRuns compare fuel' ps (b :: qs)) :=
            ih fuel (by simp only [List.length_cons]; omega) (by simp only [List.length_cons]; omega)
              (by simpa using size) (frame hp' fun mem => apart.1 (List.mem_cons_of_mem _ mem))
              (frame hq apart.2) (by simpa using ha) distinct
          exact rest.map fun got out merged => merged.cons inside other (.refl _)

theorem mergeChains_alongside {fuel fuel' : Nat} {links : Links} {p q : Option Nat} {ps qs : List Nat}
    (enough : ps.length + qs.length < fuel) (enough' : ps.length + qs.length ≤ fuel')
    (size : links.size = n) (hp : Chain links p ps) (hq : Chain links q qs) (nodup : (ps ++ qs).Nodup) :
    Alongside (fun got out => Chain got.1 got.2 out ∧ out.Perm (ps ++ qs) ∧ SameOutside out links got.1)
      (mergeChains inverted fuel links p q none none) (MergeSort.mergeRuns compare fuel' ps qs) := by
  obtain ⟨fuel, rfl⟩ : ∃ k, fuel = k + 1 := ⟨fuel - 1, by omega⟩
  cases ps with
  | nil =>
    obtain rfl : p = none := hp
    have used : mergeChains inverted (fuel + 1) links none q none none = pure (links, q) := by
      cases q <;> rfl
    have used' : MergeSort.mergeRuns compare fuel' [] qs = pure qs := by cases fuel' <;> rfl
    rw [used, used']
    exact alongside_pure ⟨hq, .refl _, .refl _ _⟩
  | cons a ps =>
    obtain ⟨rfl, ha, next, linked, hp'⟩ := hp.of_head
    obtain ⟨fuel', rfl⟩ : ∃ k, fuel' = k + 1 := ⟨fuel' - 1, by simp only [List.length_cons] at enough'; omega⟩
    cases qs with
    | nil =>
      obtain rfl : q = none := hq
      exact alongside_pure ⟨hp, by simp, .refl _ _⟩
    | cons b qs =>
      obtain ⟨rfl, hb, next', linked', hq'⟩ := hq.of_head
      rw [mergeChains, MergeSort.mergeRuns]
      simp only [List.length_cons] at enough enough'
      refine (compares a b (size ▸ ha) (size ▸ hb)).bind ?_
      rintro answer _ rfl
      have begun (next : Option Nat) : append links none none next = pure (links, next) := rfl
      cases answer with
      | true =>
        simp only [if_true, follow_eq linked', begun, pure_bind]
        have rest : Alongside (Merged links (some b) b (a :: ps ++ qs))
            (mergeChains inverted fuel links (some a) next' (some b) (some b))
            (MergeSort.mergeRuns compare fuel' (a :: ps) qs) :=
          mergeChains_behind compares fuel fuel' (by simp only [List.length_cons]; omega)
            (by simp only [List.length_cons]; omega) size hp hq' hb
            ((List.perm_middle.nodup_iff).mp nodup)
        refine rest.map fun got out merged => ⟨?_, ?_, merged.same⟩
        · rw [merged.head]
          exact merged.chain
        · exact (merged.perm.cons b).trans List.perm_middle.symm
      | false =>
        simp only [Bool.false_eq_true, if_false, follow_eq linked, begun, pure_bind]
        have rest : Alongside (Merged links (some a) a (ps ++ b :: qs))
            (mergeChains inverted fuel links next (some b) (some a) (some a))
            (MergeSort.mergeRuns compare fuel' ps (b :: qs)) :=
          mergeChains_behind compares fuel fuel' (by simp only [List.length_cons]; omega)
            (by simp only [List.length_cons]; omega) size hp' hq ha nodup
        refine rest.map fun got out merged => ⟨?_, merged.perm.cons a, merged.same⟩
        rw [merged.head]
        exact merged.chain

end Merging

/-! ## All runs -/

/-- The chains from the heads are the runs, and no position lies in two of them. -/
structure Threaded (links : Links) (heads : List (Option Nat)) (runs : List (List Nat)) : Prop where
  chains : List.Forall₂ (Chain links) heads runs
  nodup : runs.flatten.Nodup

section Threads

variable {links links' : Links} {head : Option Nat} {heads : List (Option Nat)} {run : List Nat}
  {runs : List (List Nat)}

theorem Threaded.frame {changed : List Nat} (h : Threaded links heads runs)
    (same : SameOutside changed links links') (apart : ∀ i ∈ runs.flatten, i ∉ changed) :
    Threaded links' heads runs := by
  refine ⟨?_, h.nodup⟩
  have chains := h.chains
  clear h
  induction chains with
  | nil => exact .nil
  | cons chain _ ih =>
    simp only [List.flatten_cons, List.mem_append] at apart
    exact .cons (chain.frame same fun i mem => apart i (.inl mem)) (ih fun i mem => apart i (.inr mem))

theorem Threaded.cons (chain : Chain links head run) (h : Threaded links heads runs)
    (nodup : (run ++ runs.flatten).Nodup) : Threaded links (head :: heads) (run :: runs) :=
  ⟨.cons chain h.chains, nodup⟩

theorem Threaded.lt_size (h : Threaded links heads runs) : ∀ i ∈ runs.flatten, i < links.size := by
  have chains := h.chains
  clear h
  induction chains with
  | nil => simp
  | cons chain _ ih =>
    intro i mem
    rcases List.mem_append.mp (List.flatten_cons ▸ mem) with here | later
    · exact chain.lt_size i here
    · exact ih i later

theorem Threaded.length_le (h : Threaded links heads runs) : runs.flatten.length ≤ links.size := by
  have below : runs.flatten ⊆ List.range links.size :=
    fun i mem => List.mem_range.mpr (h.lt_size i mem)
  have := (List.subperm_of_subset h.nodup below).length_le
  rwa [List.length_range] at this

theorem collect_eq {fuel : Nat} {start : Option Nat} {xs : List Nat} (h : Chain links start xs)
    (enough : xs.length ≤ fuel) : collect links fuel start = pure xs := by
  induction xs generalizing fuel start with
  | nil =>
    obtain rfl : start = none := h
    cases fuel <;> rfl
  | cons p rest ih =>
    obtain ⟨rfl, -, next, linked, further⟩ := h.of_head
    obtain ⟨fuel, rfl⟩ : ∃ k, fuel = k + 1 := ⟨fuel - 1, by simp only [List.length_cons] at enough; omega⟩
    rw [collect, follow_eq linked, pure_bind, ih further (Nat.le_of_succ_le_succ enough), pure_bind]

variable {n : Nat} {inverted : Nat → Nat → Linked Bool} {compare : Nat → Nat → Run Bool}
  (compares : ∀ p q, p < n → q < n → Alongside Eq (inverted p q) (compare p q))

include compares

theorem mergePairs_alongside (size : links.size = n) (h : Threaded links heads runs) :
    Alongside (fun got out => Threaded got.1 got.2 out ∧ out.flatten.Perm runs.flatten ∧
        SameOutside runs.flatten links got.1 ∧ out.length = (runs.length + 1) / 2)
      (mergePairs inverted links heads) (MergeSort.mergePairs compare runs) := by
  induction runs using MergeSort.mergePairs.induct generalizing links heads with
  | case1 ps qs rest ih =>
    obtain ⟨p, _, hp, behind, rfl⟩ := List.forall₂_cons_right_iff.mp h.chains
    obtain ⟨q, heads, hq, chains, rfl⟩ := List.forall₂_cons_right_iff.mp behind
    have nodup := h.nodup
    simp only [List.flatten_cons, ← List.append_assoc] at nodup
    obtain ⟨distinct, others, apart⟩ := List.nodup_append.mp nodup
    have small : (ps ++ qs).length ≤ links.size := by
      have one : Threaded links [p, q] [ps, qs] := ⟨.cons hp (.cons hq .nil), by simpa using distinct⟩
      simpa using one.length_le
    rw [List.length_append] at small
    rw [mergePairs, MergeSort.mergePairs]
    refine (mergeChains_alongside compares (Nat.lt_succ_of_le small) (Nat.le_refl _) size hp hq
      distinct).bind ?_
    rintro ⟨links₁, head⟩ out ⟨chain, perm, same⟩
    have away : ∀ i ∈ rest.flatten, i ∉ out := fun i mem there =>
      apart i (perm.mem_iff.mp there) i mem rfl
    have left : Threaded links₁ heads rest := Threaded.frame ⟨chains, others⟩ same away
    refine (ih (same.1.trans size) left).bind ?_
    rintro ⟨links₂, heads'⟩ out' ⟨threaded, perm', same', halved⟩
    refine alongside_pure ⟨?_, ?_, ?_, ?_⟩
    · refine threaded.cons (chain.frame same' fun i mem there => away i there mem) ?_
      exact ((perm.append perm').nodup_iff).mpr nodup
    · simpa using perm.append perm'
    · refine SameOutside.trans (same.mono fun i mem => ?_) (same'.mono fun i mem => ?_)
      · have := perm.mem_iff.mp mem
        simp only [List.flatten_cons, List.mem_append] at this ⊢
        tauto
      · simp only [List.flatten_cons, List.mem_append]
        tauto
    · simp only [List.length_cons, halved]
      omega
  | case2 runs few =>
    have alone (halved : runs.length = (runs.length + 1) / 2) :
        Alongside (fun got out => Threaded got.1 got.2 out ∧ out.flatten.Perm runs.flatten ∧
          SameOutside runs.flatten links got.1 ∧ out.length = (runs.length + 1) / 2)
        (pure (links, heads)) (pure runs) :=
      alongside_pure ⟨h, .refl _, .refl _ _, halved⟩
    rcases runs with _ | ⟨ps, _ | ⟨qs, rest⟩⟩
    · obtain rfl := List.forall₂_nil_right_iff.mp h.chains
      exact alone (by simp)
    · obtain ⟨p, _, -, none, rfl⟩ := List.forall₂_cons_right_iff.mp h.chains
      obtain rfl := List.forall₂_nil_right_iff.mp none
      exact alone (by simp)
    · exact absurd rfl (few ps qs rest)

theorem mergeLevels_alongside {fuel fuel' : Nat} (enough : runs.length < fuel)
    (enough' : runs.length ≤ fuel') (size : links.size = n) (h : Threaded links heads runs) :
    Alongside (fun got out => Chain got.1 got.2 out ∧ out.Perm runs.flatten ∧ got.1.size = n)
      (mergeLevels inverted fuel links heads) (MergeSort.mergeLevels compare fuel' runs) := by
  induction fuel' generalizing fuel links heads runs with
  | zero =>
    obtain rfl : runs = [] := List.eq_nil_of_length_eq_zero (by omega)
    obtain rfl := List.forall₂_nil_right_iff.mp h.chains
    obtain ⟨fuel, rfl⟩ : ∃ k, fuel = k + 1 := ⟨fuel - 1, by omega⟩
    exact alongside_pure ⟨rfl, .refl _, size⟩
  | succ fuel' ih =>
    obtain ⟨fuel, rfl⟩ : ∃ k, fuel = k + 1 := ⟨fuel - 1, by omega⟩
    match runs, h, enough, enough' with
    | [], h, _, _ =>
      obtain rfl := List.forall₂_nil_right_iff.mp h.chains
      exact alongside_pure ⟨rfl, .refl _, size⟩
    | [run], h, _, _ =>
      obtain ⟨p, _, hp, none, rfl⟩ := List.forall₂_cons_right_iff.mp h.chains
      obtain rfl := List.forall₂_nil_right_iff.mp none
      exact alongside_pure ⟨hp, by simp, size⟩
    | ps :: qs :: rest, h, enough, enough' =>
      have pairs := mergePairs_alongside compares size h
      obtain ⟨p, _, -, others, rfl⟩ := List.forall₂_cons_right_iff.mp h.chains
      obtain ⟨q, heads, -, -, rfl⟩ := List.forall₂_cons_right_iff.mp others
      refine pairs.bind ?_
      rintro ⟨links₁, heads₁⟩ out ⟨threaded, perm, same, halved⟩
      simp only [List.length_cons] at enough enough' halved
      have few : out.length < fuel ∧ out.length ≤ fuel' := by omega
      exact (ih few.1 few.2 (same.1.trans size) threaded).imp fun got result ⟨chain, perm', size'⟩ => ⟨chain, perm'.trans perm, size'⟩

theorem findChains_alongside {head last : Nat} {run rest : List Nat} (size : links.size = n)
    (chain : Chain links (some head) (last :: run).reverse)
    (fresh : ∀ i ∈ rest, links[i]? = some none) (nodup : ((last :: run).reverse ++ rest).Nodup) :
    Alongside (fun got out => Threaded got.1 got.2 out ∧ out.flatten = (last :: run).reverse ++ rest ∧
        SameOutside (last :: rest) links got.1 ∧ out.length ≤ rest.length + 1)
      (findChains inverted links head last rest) (MergeSort.findRuns compare last (last :: run) rest) := by
  induction rest generalizing links head last run with
  | nil =>
    refine alongside_pure ⟨⟨.cons chain .nil, ?_⟩, ?_, .refl _ _, by simp⟩
    · simpa using nodup
    · simp
  | cons i rest ih =>
    have lastInside : last < links.size := chain.lt_size last (by simp)
    have inside : i < links.size := (Array.getElem?_eq_some_iff.mp (fresh i List.mem_cons_self)).1
    obtain ⟨before, behind, apart⟩ := List.nodup_append.mp nodup
    rw [findChains, MergeSort.findRuns]
    refine (compares last i (size ▸ lastInside) (size ▸ inside)).bind ?_
    rintro answer _ rfl
    cases answer with
    | true =>
      have single : Chain links (some i) [i].reverse :=
        ⟨rfl, none, fresh i List.mem_cons_self, rfl⟩
      refine (ih size single (fun j mem => fresh j (List.mem_cons_of_mem _ mem)) behind).bind ?_
      rintro ⟨links₁, heads⟩ out ⟨threaded, all, same, few⟩
      have flat : out.flatten = i :: rest := by simpa using all
      refine alongside_pure ⟨?_, by simp [flat], same.mono fun j mem => List.mem_cons_of_mem _ mem,
        Nat.succ_le_succ few⟩
      refine threaded.cons (chain.frame same fun j mem there => apart j mem j there rfl) ?_
      rw [flat]
      exact nodup
    | false =>
      have linked : append links none (some last) (some i) =
          pure (links.setIfInBounds last (some i), none) := append_some lastInside _
      simp only [Bool.false_eq_true, if_false, linked, pure_bind]
      have set := sameOutside_set links last (some i)
      have distinct : last ∉ run.reverse := by
        rw [List.reverse_cons] at before
        exact fun mem => (List.nodup_append.mp before).2.2 last mem last (by simp) rfl
      have longer : Chain (links.setIfInBounds last (some i)) (some head)
          (i :: last :: run).reverse := by
        rw [List.reverse_cons, List.reverse_cons]
        rw [List.reverse_cons] at chain apart
        exact chain.snoc (fresh i List.mem_cons_self)
          (fun mem => apart i mem i List.mem_cons_self rfl) distinct
      have rest := ih (by simpa using size) longer
        (fun j mem => ?_) (by simpa using nodup)
      · refine rest.imp fun got out ⟨threaded, all, same, few⟩ =>
          ⟨threaded, by simpa using all, ?_, Nat.le_succ_of_le few⟩
        refine SameOutside.trans (set.mono (by simp)) (same.mono fun j mem => ?_)
        exact List.mem_cons_of_mem _ mem
      · rw [set.2 j fun same => ?_]
        · exact fresh j (List.mem_cons_of_mem _ mem)
        · rw [List.mem_singleton] at same
          exact apart j (same ▸ by simp) j (List.mem_cons_of_mem _ mem) rfl

end Threads

/-! ## Sorting -/

section Keys

variable {α : Type} (keys : Array α) (backwards : Bool) (less : α → α → Run Bool)

theorem ask_alongside {p q : Nat} (hp : p < keys.size) (hq : q < keys.size) :
    Alongside Eq (ask keys backwards less p q)
      (match keys[p]?, keys[q]? with
        | some a, some b => if backwards then less a b else less b a
        | _, _ => return false) := by
  unfold ask
  simp only [Array.getElem?_eq_getElem hp, Array.getElem?_eq_getElem hq]
  exact alongside_lift _

theorem findChains_start {n : Nat} (some : 0 < n) :
    Chain (Array.replicate n none) (Option.some 0) [0].reverse ∧
      ∀ i ∈ List.range' 1 (n - 1), (Array.replicate n (none : Option Nat))[i]? = Option.some none := by
  refine ⟨⟨rfl, none, by simp [some], rfl⟩, fun i mem => ?_⟩
  have inside := List.mem_range'_1.mp mem
  simp [show i < n by omega]

theorem sortKeys_run :
    (sortKeys keys backwards less).run = Except.ok <$> MergeSort.sortKeys keys backwards less := by
  apply Alongside.run_eq
  unfold sortKeys MergeSort.sortKeys
  dsimp only
  split
  next few =>
    obtain none | one : keys.size = 0 ∨ keys.size = 1 := by omega
    · rw [none]
      exact alongside_pure rfl
    · rw [one]
      exact alongside_pure rfl
  next many =>
    have all : List.range keys.size = 0 :: List.range' 1 (keys.size - 1) := by
      rw [List.range_eq_range', show keys.size = keys.size - 1 + 1 by omega, List.range'_succ]
      simp
    have compares := fun p q => ask_alongside keys backwards less (p := p) (q := q)
    have distinct : (0 :: List.range' 1 (keys.size - 1)).Nodup := all ▸ List.nodup_range
    have bound : (List.range' 1 (keys.size - 1)).length = keys.size - 1 := List.length_range'
    obtain ⟨chain, fresh⟩ := findChains_start (show 0 < keys.size by omega)
    unfold MergeSort.positions
    rw [all]
    refine (findChains_alongside compares Array.size_replicate chain fresh distinct).bind ?_
    rintro ⟨links, heads⟩ runs ⟨threaded, flat, same, few⟩
    rw [bound] at few
    have size : links.size = keys.size := same.1.trans Array.size_replicate
    have enough : runs.length < keys.size + 1 := by omega
    have levels := mergeLevels_alongside compares enough (Nat.le_refl runs.length) size threaded
    rw [← bind_pure (MergeSort.mergeLevels _ _ _)]
    refine levels.bind ?_
    rintro ⟨links', head⟩ order ⟨chain', perm, size'⟩
    have length : order.length ≤ keys.size + 1 := by
      rw [perm.length_eq, flat]
      simp [bound]
    dsimp only
    rw [collect_eq chain' length]
    exact alongside_pure rfl

/-- One comparison of two keys that answers, whatever the answer is and whatever else it does. -/
def Answered (w w' : World) : Prop :=
  ∃ a ∈ keys, ∃ b ∈ keys, ∃ answer, less a b w = (.ok answer, w')

def Fails (w : World) (failure : Run.Failure) (w' : World) : Prop :=
  ∃ a ∈ keys, ∃ b ∈ keys, less a b w = (failure.outcome, w')

theorem less_holds {a b : α} (ha : a ∈ keys) (hb : b ∈ keys) :
    (Run.Judgement.untilStopped (Relation.ReflTransGen (Answered keys less)) (Fails keys less)).Holds
      (fun _ => True) (less a b) := by
  intro w
  rcases Run.outcome_cases (less a b) w with ⟨answer, w', ran⟩ | ⟨failure, w', ran⟩
  · exact .inl ⟨answer, w', ran, .single ⟨a, ha, b, hb, answer, ran⟩, trivial⟩
  · exact .inr ⟨w, failure, w', .refl, ⟨a, ha, b, hb, ran⟩, ran⟩

/-- Whatever the comparisons do and answer, the sort on links meets no fault: no link leads out of the
array, and every loop comes to its end. It gives what the sort on lists gives. That is an order in which
every position stands once, if all comparisons answer, and else the failure of the first that does not. -/
theorem sort_any_comparison :
    (sortKeys keys backwards less).run = Except.ok <$> MergeSort.sortKeys keys backwards less ∧
    ∀ w, (∃ order w', MergeSort.sortKeys keys backwards less w = (.ok order, w') ∧
        Relation.ReflTransGen (Answered keys less) w w' ∧ order.Perm (List.range keys.size)) ∨
      ∃ w₁ failure w', Relation.ReflTransGen (Answered keys less) w w₁ ∧
        Fails keys less w₁ failure w' ∧
        MergeSort.sortKeys keys backwards less w = (failure.outcome, w') :=
  ⟨sortKeys_run keys backwards less,
    MergeSort.sortKeys_perm _ backwards fun _ ha _ hb => less_holds keys less ha hb⟩

end Keys

end DynamicObjects.LinkSort
