import DynamicObjects.Proofs.Protocol

/-!
The cache of prepared calls. A prepared call answers with a member only if it was prepared to read
one, so as long as no members are read, every call runs code or has nothing to run.
-/
namespace DynamicObjects

def NoMembers (w : World) : Prop :=
  ∀ k t v, (k, SlotEntry.cached t) ∈ w.dispatcher.entries → t.target ≠ .member v

theorem mem_setEntry {k : Operation × TypeKey} {x : SlotEntry}
    {entries : List ((Operation × TypeKey) × SlotEntry)} {e : (Operation × TypeKey) × SlotEntry}
    (mem : e ∈ Dispatcher.setEntry k x entries) : e = (k, x) ∨ e ∈ entries := by
  induction entries with
  | nil => simpa [Dispatcher.setEntry] using mem
  | cons first rest ih =>
    rw [Dispatcher.setEntry] at mem
    split at mem
    · rcases List.mem_cons.mp mem with rfl | mem
      · exact .inl rfl
      · exact .inr (List.mem_cons_of_mem _ mem)
    · rcases List.mem_cons.mp mem with rfl | mem
      · exact .inr List.mem_cons_self
      · exact (ih mem).imp_right (List.mem_cons_of_mem _)

theorem entries_note (d : Dispatcher) (line : String) : (d.note line).entries = d.entries := by
  unfold Dispatcher.note
  split <;> rfl

theorem entries_tell (d : Dispatcher) (tracer : Tracer) (event : TraceEvent) :
    (d.tell tracer event).entries = d.entries := by
  cases tracer with
  | silent => rfl
  | log => exact entries_note d _
  | recording number => rfl

theorem entries_tellSome (d : Dispatcher) (tracer : Option Tracer) (event : TraceEvent) :
    (d.tellSome tracer event).entries = d.entries := by
  cases tracer with
  | none => rfl
  | some tracer => exact entries_tell d tracer event

theorem build_cases (d : Dispatcher) (hasSlot : Kind → Operation → Bool) {op : Operation}
    (called : op.readsMember = false) (key : TypeKey) :
    (∀ v, (d.build hasSlot op key).1.target ≠ .member v) ∧
      (d.build hasSlot op key).2.entries = d.entries := by
  cases key with
  | builtin kind =>
    refine ⟨fun v => ?_, rfl⟩
    simp only [Dispatcher.build, Dispatcher.findTarget]
    split <;> simp
  | userClass number =>
    refine ⟨fun v => ?_, rfl⟩
    simp only [Dispatcher.build, Dispatcher.findTarget]
    split
    · simp
    · simp [Operation.readsMember] at called
    · simp

theorem resolve_noMembers {w : World} (clean : NoMembers w) (hasSlot : Kind → Operation → Bool)
    {op : Operation} (called : op.readsMember = false) (key : TypeKey) :
    (∀ v, (w.dispatcher.resolve hasSlot op key).1.target ≠ .member v) ∧
      NoMembers { w with dispatcher := (w.dispatcher.resolve hasSlot op key).2 } := by
  unfold Dispatcher.resolve NoMembers
  cases current : w.dispatcher.current? op key with
  | some thunk =>
    dsimp only
    rw [entries_tellSome, entries_note]
    refine ⟨fun v => ?_, clean⟩
    simp only [Dispatcher.current?, Dispatcher.entry?] at current
    split at current
    next cached found =>
      split at current
      · obtain ⟨front, back, all, -⟩ := List.lookup_eq_some_iff.mp found
        obtain rfl := Option.some.inj current
        exact clean (op, key) cached v (by simp [all])
      · cases current
    next => cases current
  | none =>
    dsimp only
    rw [entries_tellSome]
    obtain ⟨target, entries⟩ := build_cases { w.dispatcher with
      misses := w.dispatcher.misses + 1
      entries := Dispatcher.setEntry (op, key) (.resolving w.dispatcher.version)
        w.dispatcher.entries } hasSlot called key
    refine ⟨target, fun k t v mem => ?_⟩
    rcases mem_setEntry mem with new | old
    · obtain ⟨-, same⟩ := Prod.mk.inj new
      obtain rfl := SlotEntry.cached.inj same
      exact target v
    · rw [entries_note] at old
      rw [entries] at old
      rcases mem_setEntry old with new | old
      · cases (Prod.mk.inj new).2
      · exact clean k t v old

def KeepsClean (w w' : World) : Prop := NoMembers w → NoMembers w'

instance : IsPreorder World KeepsClean where
  refl _ := id
  trans _ _ _ first second := fun clean => second (first clean)

instance : Unconcerned KeepsClean where
  resolve _ hasSlot _ key called clean := (resolve_noMembers clean hasSlot called key).2
  tell w tracer event clean := by
    unfold NoMembers
    rw [entries_tell]
    exact clean
  levels _ _ _ := id

end DynamicObjects
