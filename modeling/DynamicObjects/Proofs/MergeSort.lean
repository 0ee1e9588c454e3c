import DynamicObjects.MergeSort
import DynamicObjects.Proofs.Runs
import Mathlib.Data.List.Perm.Basic

/-!
The merge sort. Whatever comparisons do and answer, an order that is returned holds every position
once. If they answer as a strict weak order does, the order is sorted, and positions with equivalent
keys stand in it as they did before. Both are proved together, for any judgement about runs.
-/
namespace DynamicObjects.MergeSort

/-- The answers below `n` are those of a strict weak order. -/
structure Weak (n : Nat) (inv : Nat → Nat → Bool) : Prop where
  asymm : ∀ {p q}, p < n → q < n → inv p q → inv q p = false
  cotrans : ∀ {p q r}, p < n → q < n → r < n → inv p r → inv p q ∨ inv q r

/-- Position `p` has to stand before `q`: nothing puts `q` in front, and it is not a mere tie in which
`q` comes first. -/
def Before (inv : Nat → Nat → Bool) (p q : Nat) : Prop :=
  inv p q = false ∧ (inv q p = true ∨ p < q)

theorem Weak.before_trans {n : Nat} {inv : Nat → Nat → Bool} (weak : Weak n inv) {p q r : Nat}
    (hp : p < n) (hq : q < n) (hr : r < n) (first : Before inv p q) (second : Before inv q r) :
    Before inv p r := by
  obtain ⟨pq, first⟩ := first
  obtain ⟨qr, second⟩ := second
  constructor
  · rw [Bool.eq_false_iff]
    intro pr
    rcases weak.cotrans hp hq hr pr with h | h
    · simp [pq] at h
    · simp [qr] at h
  · rcases first with qp | less
    · refine .inl ?_
      rcases weak.cotrans hq hr hp qp with h | h
      · simp [qr] at h
      · exact h
    · rcases second with rq | less'
      · refine .inl ?_
        rcases weak.cotrans hr hp hq rq with h | h
        · exact h
        · simp [pq] at h
      · exact .inr (Nat.lt_trans less less')

/-- A run of positions below `n` that is sorted, if the answers are good. -/
structure Ascending (n : Nat) (inv : Nat → Nat → Bool) (good : Prop) (run : List Nat) : Prop where
  bound : ∀ p ∈ run, p < n
  sorted : good → run.Pairwise (Before inv)

/-- Runs one behind the other: each is sorted and lies below those behind it. -/
structure Staggered (n : Nat) (inv : Nat → Nat → Bool) (good : Prop) (runs : List (List Nat)) :
    Prop where
  ascending : ∀ run ∈ runs, Ascending n inv good run
  apart : runs.Pairwise fun run later => ∀ p ∈ run, ∀ q ∈ later, p < q

section Positions

variable (J : Run.Judgement) {n : Nat} {inv : Nat → Nat → Bool} {good : Prop}
  {inverted : Inverted Run}

theorem Ascending.tail {p : Nat} {run : List Nat} (h : Ascending n inv good (p :: run)) :
    Ascending n inv good run :=
  ⟨fun q mem => h.bound q (List.mem_cons_of_mem _ mem), fun ok => (h.sorted ok).tail⟩

theorem Ascending.cons {p : Nat} {run : List Nat} (hp : p < n) (h : Ascending n inv good run)
    (first : good → ∀ q ∈ run, Before inv p q) : Ascending n inv good (p :: run) := by
  refine ⟨?_, fun ok => List.pairwise_cons.mpr ⟨first ok, h.sorted ok⟩⟩
  intro q mem
  rcases List.mem_cons.mp mem with rfl | mem
  · exact hp
  · exact h.bound q mem

variable (weak : good → Weak n inv)

include weak

theorem Ascending.before {p head : Nat} {rest : List Nat} (h : Ascending n inv good (head :: rest))
    (ok : good) (hp : p < n) (next : Before inv p head) : ∀ q ∈ head :: rest, Before inv p q := by
  intro q mem
  rcases List.mem_cons.mp mem with rfl | later
  · exact next
  · have behind := (List.pairwise_cons.mp (h.sorted ok)).1 q later
    exact (weak ok).before_trans hp (h.bound head List.mem_cons_self) (h.bound q mem) next behind

theorem Ascending.snoc {last i : Nat} {run : List Nat} (h : Ascending n inv good (run ++ [last]))
    (hi : i < n) (next : good → Before inv last i) :
    Ascending n inv good (run ++ [last] ++ [i]) := by
  have hlast : last < n := h.bound last (by simp)
  constructor
  · intro p mem
    rcases List.mem_append.mp mem with mem | mem
    · exact h.bound p mem
    · exact List.mem_singleton.mp mem ▸ hi
  · intro ok
    have sorted := h.sorted ok
    refine List.pairwise_append.mpr ⟨sorted, List.pairwise_singleton _ _, ?_⟩
    intro p mem q there
    rw [List.mem_singleton.mp there]
    rcases List.mem_append.mp mem with earlier | final
    · have before := (List.pairwise_append.mp sorted).2.2 p earlier last (List.mem_singleton_self _)
      exact (weak ok).before_trans (h.bound p mem) hlast hi before (next ok)
    · rw [List.mem_singleton.mp final]
      exact next ok

variable (compares : ∀ p q, p < n → q < n →
    J.Holds (fun answer => good → answer = inv p q) (inverted p q))

include compares

theorem mergeRuns_holds (fuel : Nat) (ps qs : List Nat) (enough : ps.length + qs.length ≤ fuel)
    (hps : Ascending n inv good ps) (hqs : Ascending n inv good qs)
    (apart : ∀ p ∈ ps, ∀ q ∈ qs, p < q) :
    J.Holds (fun out => out.Perm (ps ++ qs) ∧ Ascending n inv good out)
      (mergeRuns inverted fuel ps qs) := by
  induction fuel generalizing ps qs with
  | zero =>
    obtain rfl : ps = [] := List.eq_nil_of_length_eq_zero (by omega)
    exact J.pure ⟨.refl _, hqs⟩
  | succ fuel ih =>
    cases ps with
    | nil => exact J.pure ⟨.refl _, hqs⟩
    | cons p ps =>
      cases qs with
      | nil => exact J.pure ⟨by rw [List.append_nil], hps⟩
      | cons q qs =>
        have hp : p < n := hps.bound p List.mem_cons_self
        have hq : q < n := hqs.bound q List.mem_cons_self
        have less : p < q := apart p List.mem_cons_self q List.mem_cons_self
        simp only [List.length_cons] at enough
        refine J.bind (compares p q hp hq) fun answer right => ?_
        cases answer with
        | true =>
          have rest := ih (p :: ps) qs (by simp only [List.length_cons]; omega) hps hqs.tail
            fun x mem y there => apart x mem y (List.mem_cons_of_mem _ there)
          refine J.bind rest fun out ⟨perm, ascending⟩ => J.pure ⟨?_, ?_⟩
          · exact (perm.cons q).trans List.perm_middle.symm
          · refine ascending.cons hq fun ok x mem => ?_
            have inverted : inv p q = true := (right ok).symm
            rcases List.mem_append.mp (perm.mem_iff.mp mem) with there | there
            · exact hps.before weak ok hq ⟨(weak ok).asymm hp hq inverted, .inl inverted⟩ x there
            · exact (List.pairwise_cons.mp (hqs.sorted ok)).1 x there
        | false =>
          have rest := ih ps (q :: qs) (by simp only [List.length_cons]; omega) hps.tail hqs
            fun x mem y there => apart x (List.mem_cons_of_mem _ mem) y there
          refine J.bind rest fun out ⟨perm, ascending⟩ => J.pure ⟨perm.cons p, ?_⟩
          refine ascending.cons hp fun ok x mem => ?_
          rcases List.mem_append.mp (perm.mem_iff.mp mem) with there | there
          · exact (List.pairwise_cons.mp (hps.sorted ok)).1 x there
          · exact hqs.before weak ok hp ⟨(right ok).symm, .inr less⟩ x there

/-- The runs hold the positions in their order. The current run is never empty. -/
theorem findRuns_holds (last : Nat) (run rest : List Nat)
    (current : Ascending n inv good (last :: run).reverse) (bound : ∀ i ∈ rest, i < n)
    (increasing : (last :: rest).Pairwise (· < ·)) :
    J.Holds (fun runs => runs.flatten = (last :: run).reverse ++ rest ∧
        ∀ run ∈ runs, Ascending n inv good run)
      (findRuns inverted last (last :: run) rest) := by
  induction rest generalizing last run with
  | nil =>
    refine J.pure ⟨by simp, ?_⟩
    intro run' mem
    rw [List.mem_singleton] at mem
    exact mem ▸ current
  | cons i rest ih =>
    have hi : i < n := bound i List.mem_cons_self
    have hlast : last < n := current.bound last (by simp)
    have bound' : ∀ j ∈ rest, j < n := fun j mem => bound j (List.mem_cons_of_mem _ mem)
    have less : last < i := (List.pairwise_cons.mp increasing).1 i List.mem_cons_self
    have increasing' := (List.pairwise_cons.mp increasing).2
    refine J.bind (compares last i hlast hi) fun answer right => ?_
    cases answer with
    | true =>
      have single : Ascending n inv good [i].reverse :=
        ⟨by simpa using hi, fun _ => List.pairwise_singleton _ _⟩
      refine J.bind (ih i [] single bound' increasing') fun runs ⟨all, ascending⟩ => ?_
      refine J.pure ⟨by simp [all], ?_⟩
      intro run' mem
      rcases List.mem_cons.mp mem with rfl | mem
      · exact current
      · exact ascending run' mem
    | false =>
      have longer : Ascending n inv good (i :: last :: run).reverse := by
        rw [List.reverse_cons, List.reverse_cons]
        rw [List.reverse_cons] at current
        exact current.snoc weak hi fun ok => ⟨(right ok).symm, .inr less⟩
      have rest := ih i (last :: run) longer bound' increasing'
      simpa using rest

theorem mergePairs_holds (runs : List (List Nat)) (h : Staggered n inv good runs) :
    J.Holds (fun out => out.flatten.Perm runs.flatten ∧ Staggered n inv good out ∧
        out.length = (runs.length + 1) / 2)
      (mergePairs inverted runs) := by
  induction runs using mergePairs.induct with
  | case1 p q rest ih =>
    have apart := List.pairwise_cons.mp h.apart
    have apart' := List.pairwise_cons.mp apart.2
    have hrest : Staggered n inv good rest :=
      ⟨fun run mem => h.ascending run (by simp [mem]), apart'.2⟩
    have merges := mergeRuns_holds J weak compares (p.length + q.length) p q (Nat.le_refl _)
      (h.ascending p (by simp)) (h.ascending q (by simp)) (apart.1 q List.mem_cons_self)
    rw [mergePairs]
    refine J.bind merges fun merged ⟨perm, ascending⟩ => ?_
    refine J.bind (ih hrest) fun out ⟨perm', staggered, halved⟩ => J.pure ⟨?_, ⟨?_, ?_⟩, ?_⟩
    · simp only [List.flatten_cons, ← List.append_assoc]
      exact perm.append perm'
    · intro run mem
      rcases List.mem_cons.mp mem with rfl | mem
      · exact ascending
      · exact staggered.ascending run mem
    · refine List.pairwise_cons.mpr ⟨?_, staggered.apart⟩
      intro later mem x inMerged y inLater
      -- what lies behind was in one of the runs behind `p` and `q`
      have there : y ∈ rest.flatten := perm'.mem_iff.mp (List.mem_flatten_of_mem mem inLater)
      obtain ⟨run, runMem, inRun⟩ := List.mem_flatten.mp there
      rcases List.mem_append.mp (perm.mem_iff.mp inMerged) with inP | inQ
      · exact apart.1 run (List.mem_cons_of_mem _ runMem) x inP y inRun
      · exact apart'.1 run runMem x inQ y inRun
    · simp only [List.length_cons, halved]
      omega
  | case2 runs few =>
    rw [mergePairs]
    · refine J.pure ⟨.refl _, h, ?_⟩
      match runs, few with
      | [], _ => rfl
      | [_], _ => simp
      | p :: q :: rest, few => exact absurd rfl (few p q rest)
    · exact few

theorem mergeLevels_holds (fuel : Nat) (runs : List (List Nat)) (enough : runs.length ≤ fuel)
    (h : Staggered n inv good runs) :
    J.Holds (fun out => out.Perm runs.flatten ∧ Ascending n inv good out)
      (mergeLevels inverted fuel runs) := by
  have none : Ascending n inv good [] := ⟨by simp, fun _ => .nil⟩
  induction fuel generalizing runs with
  | zero =>
    obtain rfl : runs = [] := List.eq_nil_of_length_eq_zero (by omega)
    exact J.pure ⟨.refl _, none⟩
  | succ fuel ih =>
    match runs, h, enough with
    | [], _, _ => exact J.pure ⟨.refl _, none⟩
    | [run], h, _ => exact J.pure ⟨by simp, h.ascending run (by simp)⟩
    | p :: q :: rest, h, enough =>
      refine J.bind (mergePairs_holds J weak compares _ h) fun out ⟨perm, staggered, halved⟩ => ?_
      simp only [List.length_cons] at enough halved
      have rest := ih out (by omega) staggered
      exact J.imp rest fun result ⟨perm', ascending⟩ => ⟨perm'.trans perm, ascending⟩

theorem positions_holds :
    J.Holds (fun order => order.Perm (List.range n) ∧ (good → order.Pairwise (Before inv)))
      (positions n inverted) := by
  unfold positions
  have bound : ∀ i ∈ List.range n, i < n := fun i mem => List.mem_range.mp mem
  have increasing : (List.range n).Pairwise (· < ·) := List.pairwise_lt_range
  cases all : List.range n with
  | nil => exact J.pure ⟨.refl _, fun _ => .nil⟩
  | cons i rest =>
    rw [all] at bound increasing
    have first : Ascending n inv good [i].reverse :=
      ⟨by simpa using bound i List.mem_cons_self, fun _ => List.pairwise_singleton _ _⟩
    have found := findRuns_holds J weak compares i [] rest first
      (fun j mem => bound j (List.mem_cons_of_mem _ mem)) increasing
    refine J.bind found fun runs ⟨flat, ascending⟩ => ?_
    have flat' : runs.flatten = i :: rest := by simpa using flat
    have staggered : Staggered n inv good runs := by
      refine ⟨ascending, ?_⟩
      rw [← flat'] at increasing
      exact (List.pairwise_flatten.mp increasing).2
    have merged := mergeLevels_holds J weak compares runs.length runs (Nat.le_refl _) staggered
    rw [flat'] at merged
    exact J.imp merged fun order ⟨perm, ascending⟩ => ⟨perm, ascending.sorted⟩

end Positions

/-- On these keys the answers are those of a strict weak order. -/
structure StrictWeak {α : Type} (keys : Array α) (lt : α → α → Bool) : Prop where
  irrefl : ∀ a ∈ keys, lt a a = false
  trans : ∀ a ∈ keys, ∀ b ∈ keys, ∀ c ∈ keys, lt a b → lt b c → lt a c
  tie_trans : ∀ a ∈ keys, ∀ b ∈ keys, ∀ c ∈ keys, lt a b = false → lt b a = false →
    lt b c = false → lt c b = false → lt a c = false

def inversion {α : Type} (keys : Array α) (backwards : Bool) (lt : α → α → Bool) (p q : Nat) : Bool :=
  match keys[p]?, keys[q]? with
  | some a, some b => if backwards then lt a b else lt b a
  | _, _ => false

section Keys

variable {α : Type} {keys : Array α} {lt : α → α → Bool}

theorem inversion_eq {backwards : Bool} {p q : Nat} (hp : p < keys.size) (hq : q < keys.size) :
    inversion keys backwards lt p q =
      if backwards then lt keys[p] keys[q] else lt keys[q] keys[p] := by
  simp [inversion, hp, hq]

theorem StrictWeak.asymm (h : StrictWeak keys lt) {a b : α} (ha : a ∈ keys) (hb : b ∈ keys)
    (less : lt a b) : lt b a = false := by
  rw [Bool.eq_false_iff]
  intro greater
  have loop := h.trans a ha b hb a ha less greater
  simp [h.irrefl a ha] at loop

theorem StrictWeak.cotrans (h : StrictWeak keys lt) {a b c : α} (ha : a ∈ keys) (hb : b ∈ keys)
    (hc : c ∈ keys) (less : lt a c) : lt a b ∨ lt b c := by
  by_contra neither
  rw [not_or, Bool.not_eq_true, Bool.not_eq_true] at neither
  obtain ⟨ab, bc⟩ := neither
  -- neither `b < a` nor `c < b`, or transitivity would give what is denied
  have ba : lt b a = false := by
    rw [Bool.eq_false_iff]
    intro ba
    simp [h.trans b hb a ha c hc ba less] at bc
  have cb : lt c b = false := by
    rw [Bool.eq_false_iff]
    intro cb
    simp [h.trans a ha c hc b hb less cb] at ab
  simp [h.tie_trans a ha b hb c hc ab ba bc cb] at less

theorem StrictWeak.inversion (h : StrictWeak keys lt) (backwards : Bool) :
    Weak keys.size (inversion keys backwards lt) where
  asymm := by
    intro p q hp hq
    rw [inversion_eq hp hq, inversion_eq hq hp]
    cases backwards with
    | true => exact h.asymm (Array.getElem_mem hp) (Array.getElem_mem hq)
    | false => exact h.asymm (Array.getElem_mem hq) (Array.getElem_mem hp)
  cotrans := by
    intro p q r hp hq hr
    rw [inversion_eq hp hr, inversion_eq hp hq, inversion_eq hq hr]
    have mp := Array.getElem_mem hp
    have mq := Array.getElem_mem hq
    have mr := Array.getElem_mem hr
    cases backwards with
    | true => exact h.cotrans mp mq mr
    | false => exact fun less => (h.cotrans mr mq mp less).symm

theorem sortKeys_holds (J : Run.Judgement) {good : Prop} (weak : good → StrictWeak keys lt)
    (backwards : Bool) {less : α → α → Run Bool} (compares : ∀ a ∈ keys, ∀ b ∈ keys,
      J.Holds (fun answer => good → answer = lt a b) (less a b)) :
    J.Holds (fun order => order.Perm (List.range keys.size) ∧
        (good → order.Pairwise (Before (inversion keys backwards lt))))
      (sortKeys keys backwards less) := by
  refine positions_holds J (fun ok => (weak ok).inversion backwards) ?_
  intro p q hp hq
  rw [inversion_eq hp hq]
  simp only [Array.getElem?_eq_getElem hp, Array.getElem?_eq_getElem hq]
  have mp := Array.getElem_mem hp
  have mq := Array.getElem_mem hq
  cases backwards with
  | true => exact compares _ mp _ mq
  | false => exact compares _ mq _ mp

theorem sortKeys_perm (J : Run.Judgement) (backwards : Bool) {less : α → α → Run Bool}
    (compares : ∀ a ∈ keys, ∀ b ∈ keys, J.Holds (fun _ => True) (less a b)) :
    J.Holds (fun order => order.Perm (List.range keys.size)) (sortKeys keys backwards less) := by
  have weak : False → StrictWeak keys fun _ _ => false := False.elim
  have holds := sortKeys_holds J weak backwards fun a ha b hb =>
    J.imp (compares a ha b hb) fun _ _ => False.elim
  exact J.imp holds fun _ found => found.1

end Keys

end DynamicObjects.MergeSort
