import DynamicObjects.Proofs.Dicts.Searching
import DynamicObjects.Proofs.Dicts.IntegerKeys
import Mathlib.Data.List.Forall2

/-!
Programs over several dictionaries, and the same programs over association lists. When hashing and
comparing keys only give answers, every step of a program gives the answer of the list, and after
every step each dictionary has the pairs of its list.
-/
namespace DynamicObjects

inductive DictStep
  | call (r : DictRef) (c : DictCall)
  | update (r source : DictRef)
  | copy (r : DictRef)
  | new

namespace DictStep

def run (h : Hooks) : DictStep → Run DictAnswer
  | call r c => c.run h r
  | update r source => do
    r.update h (.dict source)
    return .done
  | copy r => return .made (← r.copy)
  | new => return .made (← DictRef.new)

/-- The step on association lists; the dictionary with number `i` is the list at place `i`. -/
def apply (keys : KeySpace) (lists : List Association) :
    DictStep → Except DictFault DictAnswer × List Association
  | call r c =>
    let (answer, l) := c.apply keys (lists.getD r.number [])
    (answer, lists.set r.number l)
  | update r source =>
    let l := Association.update keys (lists.getD r.number []) (lists.getD source.number [])
    (.ok .done, lists.set r.number l)
  | copy r => (.ok (.made ⟨lists.length⟩), lists ++ [lists.getD r.number []])
  | new => (.ok (.made ⟨lists.length⟩), lists ++ [[]])

def Legal (keys : KeySpace) (count : Nat) : DictStep → Prop
  | call r c => r.number < count ∧ ∀ key, c.key? = some key → keys.IsKey key
  | update r source => r.number < count ∧ source.number < count
  | copy r => r.number < count
  | new => True

def countAfter (count : Nat) : DictStep → Nat
  | call _ _ | update _ _ => count
  | copy _ | new => count + 1

end DictStep

def World.contents (w : World) : List Association := w.store.dicts.toList.map (·.table.pairs)

namespace DictProgram

def Legal (keys : KeySpace) : Nat → List DictStep → Prop
  | _, [] => True
  | count, s :: rest => s.Legal keys count ∧ Legal keys (s.countAfter count) rest

def trace (h : Hooks) : List DictStep → World → List (Outcome DictAnswer × List Association)
  | [], _ => []
  | s :: rest, w => ((s.run h w).1, (s.run h w).2.contents) :: trace h rest (s.run h w).2

def listTrace (keys : KeySpace) :
    List DictStep → List Association → List (Except DictFault DictAnswer × List Association)
  | [], _ => []
  | s :: rest, lists => s.apply keys lists :: listTrace keys rest (s.apply keys lists).2

end DictProgram

/-- Hashing keys and comparing them gives the answers of the key space and leaves the dictionaries
alone. Printing a key leaves them alone too. All of this in calm states, whatever the dictionaries
hold. -/
structure PureKeys (keys : KeySpace) (h : Hooks) (calm : World → Prop) : Prop where
  hash : ∀ {key}, keys.IsKey key → ∀ dicts,
    Run.Answers (fun w => calm w ∧ w.store.dicts = dicts) (Protocol.hash h key) (keys.code key)
  equals : ∀ {a b}, keys.IsKey a → keys.IsKey b → ∀ dicts,
    Run.Answers (fun w => calm w ∧ w.store.dicts = dicts) (Protocol.equals h a b) (keys.equal a b)
  repr : ∀ {key}, keys.IsKey key → ∀ w, calm w →
    calm (Protocol.repr h key w).2 ∧ (Protocol.repr h key w).2.store.dicts = w.store.dicts
  store : ∀ {w}, calm w → ∀ dicts nextId,
    calm { w with store := { w.store with dicts, nextId } }

def Agrees (h : Hooks) (calm : World → Prop) (outcome : Outcome DictAnswer) :
    Except DictFault DictAnswer → Prop
  | .ok answer => outcome = .ok answer
  | .error (.missing key) => ∃ w, calm w ∧ outcome = missingOutcome (Protocol.repr h key w).1
  | .error .noEntries => outcome = .error .popitemEmpty

/-- One dictionary gets a sound table with the given pairs; the other dictionaries stay as they are. -/
def Becomes (keys : KeySpace) (calm : World → Prop) (r : DictRef) (l : Association)
    (w w' : World) : Prop :=
  calm w' ∧ ∃ o, w'.store.dicts = w.store.dicts.setIfInBounds r.number o ∧ o.table.Sound keys ∧
    o.table.pairs = l

section Becomes

variable {keys : KeySpace} {calm : World → Prop} {r : DictRef} {l l' : Association} {w w₁ w₂ : World}

theorem Becomes.live (b : Becomes keys calm r l w w₁) {o : DictObject} (live : w.dict? r = some o) :
    ∃ o₁, w₁.dict? r = some o₁ ∧ o₁.table.Sound keys ∧ o₁.table.pairs = l := by
  obtain ⟨-, o₁, put, sound, pairs⟩ := b
  have bound := (Array.getElem?_eq_some_iff.mp live).1
  refine ⟨o₁, ?_, sound, pairs⟩
  rw [World.dict?, put]
  simp [bound]

theorem Becomes.trans (first : Becomes keys calm r l w w₁) (second : Becomes keys calm r l' w₁ w₂) :
    Becomes keys calm r l' w w₂ := by
  obtain ⟨-, o₁, put₁, -, -⟩ := first
  obtain ⟨quiet, o₂, put₂, sound, pairs⟩ := second
  refine ⟨quiet, o₂, ?_, sound, pairs⟩
  rw [put₂, put₁, Array.setIfInBounds_setIfInBounds]

end Becomes

namespace PureKeys

variable {keys : KeySpace} {h : Hooks} {calm : World → Prop} (pure : PureKeys keys h calm)
  {key : Value} {dicts : Array DictObject}

include pure

theorem equal_of_isSame {a b : Value} (ha : keys.IsKey a) (hb : keys.IsKey b) (same : a.isSame b)
    {w : World} (quiet : calm w) : keys.equal a b = true := by
  have answer : Protocol.equals h a b w = (.ok true, w) := by
    simp [Protocol.equals, same]
  obtain ⟨w', answered, -⟩ := pure.equals ha hb w.store.dicts w ⟨quiet, rfl⟩
  rw [answer] at answered
  simp only [Prod.mk.injEq, Outcome.ok.injEq] at answered
  exact answered.1.symm

theorem findCandidate (isKey : keys.IsKey key) (candidates : List (Nat × Value))
    (areKeys : ∀ c ∈ candidates, keys.IsKey c.2) :
    Run.Answers (fun w => calm w ∧ w.store.dicts = dicts) (DictRef.findCandidate h key candidates)
      ((candidates.find? fun c => keys.equal c.2 key).map Prod.fst) := by
  induction candidates with
  | nil => exact Run.answers_pure
  | cons c rest ih =>
    obtain ⟨position, stored⟩ := c
    have storedKey : keys.IsKey stored := areKeys (position, stored) List.mem_cons_self
    have others := ih fun c mem => areKeys c (List.mem_cons_of_mem _ mem)
    rw [DictRef.findCandidate]
    by_cases same : stored.isSame key
    · intro w quiet
      have equal := pure.equal_of_isSame storedKey isKey same quiet.1
      exact ⟨w, by simp [same, equal], quiet⟩
    · simp only [same, Bool.false_eq_true, if_false]
      refine Run.answers_bind (pure.equals storedKey isKey dicts) ?_
      cases equal : keys.equal stored key with
      | true =>
        simp only [if_true, List.find?_cons_of_pos, equal]
        exact Run.answers_pure
      | false =>
        simp only [Bool.false_eq_true, if_false, List.find?_cons, equal]
        exact others

theorem search {r : DictRef} {o : DictObject} (isKey : keys.IsKey key)
    (live : dicts[r.number]? = some o) (sound : o.table.Sound keys) :
    ∃ found, o.table.Locates keys key found ∧
      Run.Answers (fun w => calm w ∧ w.store.dicts = dicts) (r.search h key)
        (keys.code key, found) := by
  let candidates := o.table.candidates (keys.code key)
  let found := (candidates.find? fun c => keys.equal c.2 key).map Prod.fst
  refine ⟨found, locates_of_finds sound isKey (finds_find? candidates), ?_⟩
  have areKeys : ∀ c ∈ candidates, keys.IsKey c.2 := fun c mem => sound.isKey_candidate mem
  have liveAt : ∀ {w : World}, w.store.dicts = dicts → w.dict? r = some o := by
    intro w same
    rw [World.dict?, same, live]
  have walk : Run.Answers (fun w => calm w ∧ w.store.dicts = dicts)
      (DictRef.findCandidate h key candidates) found :=
    pure.findCandidate isKey candidates areKeys
  have once : Run.Answers (fun w => calm w ∧ w.store.dicts = dicts)
      (r.lookupOnce h key (keys.code key)) (some found) := by
    intro w quiet
    obtain ⟨w₁, walked, quiet₁⟩ := walk w quiet
    refine ⟨w₁, ?_, quiet₁⟩
    rw [DictRef.lookupOnce, Run.bind_ok (DictRef.object_apply (liveAt quiet.2)), Run.bind_ok walked,
      Run.bind_ok (DictRef.version_apply (liveAt quiet₁.2)), if_pos rfl]
    rfl
  have looked : Run.Answers (fun w => calm w ∧ w.store.dicts = dicts)
      (r.lookup h key (keys.code key)) found := by
    unfold DictRef.lookup
    cases h.fuel with
    | zero => exact Run.answers_bind once Run.answers_pure
    | succ retries => exact Run.answers_bind once Run.answers_pure
  exact Run.answers_bind (pure.hash isKey dicts) (Run.answers_bind looked Run.answers_pure)

theorem becomes_putDict {r : DictRef} {w : World} {o : DictObject} (quiet : calm w)
    (sound : o.table.Sound keys) : Becomes keys calm r o.table.pairs w (w.putDict r o) :=
  ⟨pure.store quiet (w.store.dicts.setIfInBounds r.number o) w.store.nextId, o, rfl, sound, rfl⟩

theorem call {r : DictRef} {c : DictCall} {w : World} {o : DictObject} (quiet : calm w)
    (live : w.dict? r = some o) (sound : o.table.Sound keys)
    (areKeys : ∀ key, c.key? = some key → keys.IsKey key) :
    Agrees h calm (c.run h r w).1 (c.apply keys o.table.pairs).1 ∧
      Becomes keys calm r (c.apply keys o.table.pairs).2 w (c.run h r w).2 := by
  have same : ∀ {w₁}, calm w₁ → w₁.store.dicts = w.store.dicts →
      Becomes keys calm r o.table.pairs w w₁ := by
    intro w₁ quiet₁ dicts
    obtain ⟨-, o', put, sound', pairs⟩ := pure.becomes_putDict (r := r) quiet sound
    rw [World.putDict_same live] at put
    exact ⟨quiet₁, o', dicts.trans put, sound', pairs⟩
  have committed : ∀ {w₁ a w'}, calm w₁ → w₁.store.dicts = w.store.dicts →
      c.Commits keys r w₁ a w' → c.run h r w = (.ok a, w') →
      Agrees h calm (c.run h r w).1 (c.apply keys o.table.pairs).1 ∧
        Becomes keys calm r (c.apply keys o.table.pairs).2 w (c.run h r w).2 := by
    rintro w₁ a w' quiet₁ dicts ⟨o₁, o', live₁, rfl, -, sound', applied⟩ ran
    have seen : o₁ = o := by
      rw [World.dict?_of_dicts_eq dicts, live] at live₁
      exact (Option.some.inj live₁).symm
    subst seen
    obtain ⟨quiet', o₂, put, sound₂, pairs⟩ := pure.becomes_putDict (r := r) quiet₁ sound'
    rw [dicts] at put
    rw [ran, applied]
    exact ⟨rfl, quiet', o₂, put, sound₂, pairs⟩
  cases hkey : c.key? with
  | none =>
    rcases DictCall.run_cases_of_no_key live sound h hkey with
      ⟨a, w', ran, commits⟩ | ⟨applied, ran⟩
    · exact committed quiet rfl commits ran
    · rw [applied, ran]
      exact ⟨rfl, pure.becomes_putDict (o := o.changed id) quiet sound⟩
  | some key =>
    have isKey := areKeys key hkey
    obtain ⟨found, located, searched⟩ := pure.search isKey live sound
    obtain ⟨w₁, ended, quiet₁, dicts⟩ := searched w ⟨quiet, rfl⟩
    have live₁ : w₁.dict? r = some o := (World.dict?_of_dicts_eq dicts).trans live
    have ran : c.run h r w = c.finish h r (keys.code key, found) w₁ := by
      rw [DictCall.run_eq_search h r hkey, Run.bind_ok ended]
    rcases DictCall.finish_cases live₁ sound h hkey isKey located with
      ⟨a, w', finished, commits⟩ | ⟨applied, finished⟩
    · exact committed quiet₁ dicts commits (ran.trans finished)
    · rw [ran, finished, applied, raiseMissing_apply]
      obtain ⟨quiet', dicts'⟩ := pure.repr isKey w₁ quiet₁
      exact ⟨⟨w₁, quiet₁, rfl⟩, same quiet' (dicts'.trans dicts)⟩

theorem setAll {r : DictRef} {w : World} {o : DictObject} (quiet : calm w)
    (live : w.dict? r = some o) (sound : o.table.Sound keys) (entries : Association)
    (areKeys : ∀ e ∈ entries, keys.IsKey e.1) :
    ∃ w', r.setAll h entries w = (.ok (), w') ∧
      Becomes keys calm r (Association.update keys o.table.pairs entries) w w' := by
  induction entries generalizing w o with
  | nil =>
    have same := pure.becomes_putDict (r := r) quiet sound
    rw [World.putDict_same live] at same
    exact ⟨w, rfl, same⟩
  | cons e rest ih =>
    obtain ⟨key, value⟩ := e
    have keyed : ∀ k, (DictCall.set key value).key? = some k → keys.IsKey k := by
      rintro k ⟨⟩
      exact areKeys (key, value) List.mem_cons_self
    obtain ⟨ended, becomes⟩ := pure.call quiet live sound keyed
    obtain ⟨u, w₁, set, done⟩ := Run.bind_eq_ok (Prod.ext ended rfl)
    rw [show (DictCall.run h r (.set key value) w).2 = w₁ from (congrArg Prod.snd done).symm]
      at becomes
    obtain ⟨o₁, live₁, sound₁, pairs₁⟩ := becomes.live live
    obtain ⟨w', others, becomes'⟩ := ih becomes.1 live₁ sound₁ fun e mem =>
      areKeys e (List.mem_cons_of_mem _ mem)
    rw [pairs₁] at becomes'
    refine ⟨w', ?_, becomes.trans becomes'⟩
    rw [DictRef.setAll, Run.bind_ok set, others]

end PureKeys

/-- The dictionaries are sound and have the pairs of the lists. -/
structure Represents (keys : KeySpace) (w : World) (lists : List Association) : Prop where
  contents : w.contents = lists
  sound : ∀ o ∈ w.store.dicts, o.table.Sound keys

namespace Represents

variable {keys : KeySpace} {calm : World → Prop} {lists : List Association} {r : DictRef}
  {l : Association} {w w' : World} (rep : Represents keys w lists)

include rep

theorem live (bound : r.number < lists.length) :
    ∃ o, w.dict? r = some o ∧ o.table.Sound keys ∧ o.table.pairs = lists.getD r.number [] := by
  have contents := rep.contents
  subst contents
  have there : r.number < w.store.dicts.size := by simpa [World.contents] using bound
  refine ⟨w.store.dicts[r.number], ?_, rep.sound _ (Array.getElem_mem there), ?_⟩
  · rw [World.dict?, Array.getElem?_eq_getElem there]
  · simp [World.contents, there]

theorem becomes (b : Becomes keys calm r l w w') :
    Represents keys w' (lists.set r.number l) := by
  obtain ⟨-, o, put, sound, pairs⟩ := b
  constructor
  · rw [← rep.contents, World.contents, World.contents, put, Array.toList_setIfInBounds,
      List.map_set, pairs]
  · intro o' mem
    rw [put] at mem
    rcases Array.mem_or_eq_of_mem_setIfInBounds mem with old | rfl
    · exact rep.sound o' old
    · exact sound

theorem push {o : DictObject} (sound : o.table.Sound keys)
    (pushed : w'.store.dicts = w.store.dicts.push o) :
    Represents keys w' (lists ++ [o.table.pairs]) := by
  constructor
  · rw [← rep.contents, World.contents, World.contents, pushed]
    simp
  · intro o' mem
    rw [pushed] at mem
    rcases Array.mem_push.mp mem with old | rfl
    · exact rep.sound o' old
    · exact sound

end Represents

theorem DictStep.length_apply (keys : KeySpace) (lists : List Association) (s : DictStep) :
    (s.apply keys lists).2.length = s.countAfter lists.length := by
  cases s <;> simp [apply, countAfter]

section Program

variable {keys : KeySpace} {h : Hooks} {calm : World → Prop} (pure : PureKeys keys h calm)
  {lists : List Association} {w : World}

include pure

theorem step_represents {s : DictStep} (quiet : calm w) (rep : Represents keys w lists)
    (legal : s.Legal keys lists.length) :
    Agrees h calm (s.run h w).1 (s.apply keys lists).1 ∧ calm (s.run h w).2 ∧
      Represents keys (s.run h w).2 (s.apply keys lists).2 := by
  have size : w.store.dicts.size = lists.length := by
    rw [← rep.contents]
    simp [World.contents]
  cases s with
  | call r c =>
    obtain ⟨o, live, sound, pairs⟩ := rep.live legal.1
    obtain ⟨agrees, becomes⟩ := pure.call quiet live sound legal.2
    rw [pairs] at agrees becomes
    exact ⟨agrees, becomes.1, rep.becomes becomes⟩
  | update r source =>
    obtain ⟨o, live, sound, pairs⟩ := rep.live legal.1
    obtain ⟨o', live', sound', pairs'⟩ := rep.live legal.2
    obtain ⟨w', ran, becomes⟩ := pure.setAll quiet live sound o'.table.pairs sound'.distinct.isKey
    have read : source.pairs w = (.ok o'.table.pairs, w) := by
      rw [DictRef.pairs, Run.bind_ok (DictRef.table_apply live')]
      rfl
    have step : (DictStep.update r source).run h w = (.ok .done, w') := by
      have updated : r.update h (.dict source) w = (.ok (), w') := by
        rw [DictRef.update, Run.bind_ok read]
        exact ran
      rw [DictStep.run, Run.bind_ok updated]
      rfl
    rw [pairs, pairs'] at becomes
    rw [step]
    exact ⟨rfl, becomes.1, rep.becomes becomes⟩
  | copy r =>
    obtain ⟨o, live, sound, pairs⟩ := rep.live legal
    have step : (DictStep.copy r).run h w =
        (.ok (.made ⟨w.store.dicts.size⟩), { w with store := (w.store.addDict o.table).2 }) := by
      rw [DictStep.run, DictRef.copy, bind_assoc, Run.bind_ok (DictRef.table_apply live)]
      rfl
    rw [step, DictStep.apply, size, ← pairs]
    exact ⟨rfl, pure.store quiet _ _, rep.push (o := ⟨w.store.nextId, o.table, 0⟩) sound rfl⟩
  | new =>
    have step : DictStep.new.run h w =
        (.ok (.made ⟨w.store.dicts.size⟩), { w with store := (w.store.addDict .empty).2 }) := rfl
    rw [step, DictStep.apply, size]
    exact ⟨rfl, pure.store quiet _ _,
      rep.push (o := ⟨w.store.nextId, .empty, 0⟩) Table.sound_empty rfl⟩

theorem trace_represents (program : List DictStep) (quiet : calm w)
    (rep : Represents keys w lists) (legal : DictProgram.Legal keys lists.length program) :
    List.Forall₂
        (fun ran expected => Agrees h calm ran.1 expected.1 ∧ ran.2 = expected.2 ∧
          ∀ l ∈ expected.2, Association.Distinct keys l)
        (DictProgram.trace h program w) (DictProgram.listTrace keys program lists) := by
  induction program generalizing w lists with
  | nil => exact .nil
  | cons s rest ih =>
    obtain ⟨agrees, quiet', rep'⟩ := step_represents pure quiet rep legal.1
    have legal' := legal.2
    rw [← DictStep.length_apply keys] at legal'
    refine .cons ⟨agrees, rep'.contents, ?_⟩ (ih quiet' rep' legal')
    intro l mem
    rw [← rep'.contents, World.contents, List.mem_map] at mem
    obtain ⟨o, there, rfl⟩ := mem
    exact (rep'.sound o (Array.mem_toList_iff.mp there)).distinct

/-- Every result of a program that starts with empty dictionaries, and all contents after every step,
are those of insertion-ordered association lists. An update of a dictionary from itself never
changes it. -/
theorem trace_agrees (program : List DictStep) (quiet : calm w)
    (fresh : ∀ o ∈ w.store.dicts, o.table = .empty)
    (legal : DictProgram.Legal keys w.store.dicts.size program) :
    List.Forall₂
        (fun ran expected => Agrees h calm ran.1 expected.1 ∧ ran.2 = expected.2 ∧
          ∀ l ∈ expected.2, Association.update keys l l = l)
        (DictProgram.trace h program w)
        (DictProgram.listTrace keys program (List.replicate w.store.dicts.size [])) := by
  have rep : Represents keys w (List.replicate w.store.dicts.size []) := by
    constructor
    · rw [List.eq_replicate_iff]
      refine ⟨by simp [World.contents], ?_⟩
      intro l mem
      obtain ⟨o, there, rfl⟩ := List.mem_map.mp mem
      rw [fresh o (Array.mem_toList_iff.mp there)]
      rfl
    · intro o mem
      rw [fresh o mem]
      exact Table.sound_empty
  have all := trace_represents pure program quiet rep (by simpa using legal)
  refine all.imp fun ran expected agrees => ⟨agrees.1, agrees.2.1, ?_⟩
  intro l mem
  exact (agrees.2.2 l mem).update_self

end Program

theorem pureKeys_integers (h : Hooks) : PureKeys KeySpace.integers h fun _ => True where
  hash isKey _ w quiet := ⟨w, Protocol.hash_integer w isKey, quiet⟩
  equals ha hb _ w quiet := ⟨w, Protocol.equals_integer w ha hb, quiet⟩
  repr isKey w _ := by rw [Protocol.repr_integer w isKey]; exact ⟨trivial, rfl⟩
  store _ _ _ := trivial

def DictProgram.churn : List DictStep :=
  [.new, .call ⟨0⟩ (.set (.int 1) (.int 10)), .call ⟨0⟩ (.set (.int 2) (.int 20)),
    .call ⟨0⟩ (.set (.bool true) (.int 11)), .call ⟨0⟩ (.setDefault (.int 3) (.int 30)),
    .call ⟨0⟩ (.delete (.int 2)), .call ⟨0⟩ .popItem, .call ⟨0⟩ (.set (.int 2) (.int 21)), .copy ⟨0⟩,
    .call ⟨0⟩ (.pop (.int 9) none), .update ⟨0⟩ ⟨1⟩, .call ⟨1⟩ .clear, .call ⟨1⟩ .popItem,
    .call ⟨0⟩ .size]

theorem trace_agrees_churn :
    DictProgram.Legal KeySpace.integers 0 DictProgram.churn ∧
    List.Forall₂
        (fun ran expected => Agrees .silent (fun _ => True) ran.1 expected.1 ∧
          ran.2 = expected.2 ∧ ∀ l ∈ expected.2, Association.update KeySpace.integers l l = l)
        (DictProgram.trace .silent DictProgram.churn .blank)
        (DictProgram.listTrace KeySpace.integers DictProgram.churn []) := by
  have legal : DictProgram.Legal KeySpace.integers 0 DictProgram.churn := by
    simp [DictProgram.Legal, DictProgram.churn, DictStep.Legal, DictStep.countAfter, DictCall.key?,
      KeySpace.integers, Value.asInt?]
  exact ⟨legal, trace_agrees (pureKeys_integers .silent) (w := .blank) _ trivial
    (by simp [World.blank, Store.empty]) legal⟩

end DynamicObjects
