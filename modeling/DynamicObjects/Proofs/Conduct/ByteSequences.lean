import DynamicObjects.Proofs.Conduct.Protocol
import DynamicObjects.Proofs.Conduct.Failures

/-!
The slots of byte strings and byte arrays. The methods that both kinds have only read; the others of
byte arrays read first and then write.
-/
namespace DynamicObjects

open Conduct

variable {J : Conduct} {h : Hooks}

namespace ByteSequence

@[grind ←] theorem bytesLike?_obeys (v : Value) : J.Obeys (bytesLike? v) := obeys_readStore _

@[grind ←] theorem bytesNow_obeys (v : Value) : J.Obeys (bytesNow v) := by
  unfold bytesNow
  grind

@[grind ←] theorem make_obeys (q : ByteSequence) (data : Bytes) : J.Obeys (q.make data) := by
  unfold make
  grind

@[grind ←] theorem expectBytesLike_obeys (v : Value) : J.Obeys (expectBytesLike v) := by
  unfold expectBytesLike
  grind

@[grind ←] theorem needleOf_obeys (v : Value) : J.Obeys (needleOf v) := by
  unfold needleOf
  grind

@[grind ←] theorem searchArguments_obeys (data : Bytes) (name : String) (args : List Value) :
    J.Obeys (searchArguments data name args) := by
  unfold searchArguments
  grind

@[grind ←] theorem widthArguments_obeys (name : String) (args : List Value) :
    J.Obeys (widthArguments name args) := by
  unfold widthArguments
  refine obeys_bind (by grind) fun p => ?_
  dsimp only
  split
  · grind
  · refine obeys_bind (bytesLike?_obeys _) fun data => ?_
    split <;> grind

@[grind ←] theorem stripArguments_obeys (name : String) (args : List Value) :
    J.Obeys (stripArguments name args) := by
  unfold stripArguments
  grind

@[grind ←] theorem splitArguments_obeys (name : String) (args : List Value) :
    J.Obeys (splitArguments name args) := by
  unfold splitArguments
  grind

@[grind ←] theorem listOf_obeys (q : ByteSequence) (parts : List Bytes) :
    J.Obeys (q.listOf parts) :=
  obeys_bind (obeys_mapM q.make_obeys parts) fun _ => obeys_newListOf _

@[grind ←] theorem tupleOf_obeys (q : ByteSequence) (parts : Bytes × Bytes × Bytes) :
    J.Obeys (q.tupleOf parts) :=
  obeys_bind (obeys_mapM q.make_obeys _) fun _ => obeys_newTuple _

@[grind ←] theorem joinPart_obeys (index : Nat) (item : Value) : J.Obeys (joinPart index item) := by
  unfold joinPart
  grind

@[grind ←] theorem bytesFrom_obeys (hooks : h.Conducts J) (source : Value) :
    J.Obeys (bytesFrom h source) := by
  unfold bytesFrom
  refine obeys_bind (bytesLike?_obeys source) fun data => ?_
  split
  · exact obeys_pure _
  · split <;> grind

section Slots

variable {q : ByteSequence} {args : List Value}
  (own : J.Strict → (Protocol.receiver args).typeKey = .builtin q.kind)

include own

theorem slot_obeys {body : Bytes → List Value → Run Value}
    (obeys : ∀ data rest, J.Obeys (body data rest)) : J.Obeys (q.slot body args) :=
  obeys_bind (obeys_liftM fun strict => receive_clean (own strict)) fun p =>
    obeys_bind (bytesNow_obeys p.1) fun data => obeys data p.2

@[grind ←] theorem containsSlot_obeys : J.Obeys (q.containsSlot h args) := by
  refine slot_obeys own fun data rest => ?_
  refine obeys_bind (by grind) fun v => obeys_bind (bytesLike?_obeys v) fun needle => ?_
  split <;> grind

@[grind ←] theorem reprSlot_obeys : J.Obeys (q.reprSlot h args) := by
  refine slot_obeys own fun data rest => ?_
  grind

@[grind ←] theorem addSlot_obeys : J.Obeys (q.addSlot h args) := by
  refine slot_obeys own fun data rest => ?_
  grind

@[grind ←] theorem findMethod_obeys (name : String) (search : Bytes → Bytes → Nat → Nat → Option Nat) :
    J.Obeys (findMethod name search q h args) := by
  refine slot_obeys own fun data rest => ?_
  grind

@[grind ←] theorem indexMethod_obeys (name : String) (search : Bytes → Bytes → Nat → Nat → Option Nat) :
    J.Obeys (indexMethod name search q h args) := by
  refine slot_obeys own fun data rest => ?_
  grind

@[grind ←] theorem affixMethod_obeys (name : String) (test : Bytes → Bytes → Nat → Nat → Bool) :
    J.Obeys (affixMethod name test q h args) := by
  refine slot_obeys own fun data rest => ?_
  have several : ∀ items : List Value, J.Obeys (items.mapM expectBytesLike) :=
    obeys_mapM expectBytesLike_obeys
  refine obeys_bind (by grind) fun p => ?_
  dsimp only
  split
  · grind
  · refine obeys_bind (bytesLike?_obeys _) fun affix => ?_
    split <;> grind

@[grind ←] theorem replaceMethod_obeys : J.Obeys (q.replaceMethod h args) := by
  refine slot_obeys own fun data rest => ?_
  dsimp only
  split <;> grind

@[grind ←] theorem stripMethod_obeys (name : String) (cut : Bytes → Option Bytes → Bytes) :
    J.Obeys (stripMethod name cut q h args) := by
  refine slot_obeys own fun data rest => ?_
  grind

@[grind ←] theorem removeAffixMethod_obeys (name : String) (cut : Bytes → Bytes → Bytes) :
    J.Obeys (removeAffixMethod name cut q h args) := by
  refine slot_obeys own fun data rest => ?_
  grind

@[grind ←] theorem splitMethod_obeys (name : String)
    {cut : Bytes → Option Bytes → Int → Except Error (List Bytes)}
    (clean : ∀ data sep most, Clean (cut data sep most)) :
    J.Obeys (splitMethod name cut q h args) := by
  refine slot_obeys own fun data rest => ?_
  grind

@[grind ←] theorem partitionMethod_obeys (name : String)
    {cut : Bytes → Bytes → Except Error (Bytes × Bytes × Bytes)}
    (clean : ∀ data sep, Clean (cut data sep)) : J.Obeys (partitionMethod name cut q h args) := by
  refine slot_obeys own fun data rest => ?_
  grind

@[grind ←] theorem justifyMethod_obeys (name : String) (pad : Bytes → Int → UInt8 → Bytes) :
    J.Obeys (justifyMethod name pad q h args) := by
  refine slot_obeys own fun data rest => ?_
  grind

@[grind ←] theorem expandTabsMethod_obeys : J.Obeys (q.expandTabsMethod h args) := by
  refine slot_obeys own fun data rest => ?_
  grind

@[grind ←] theorem translateMethod_obeys : J.Obeys (q.translateMethod h args) := by
  refine slot_obeys own fun data rest => ?_
  refine obeys_bind (by grind) fun p => ?_
  dsimp only
  split <;> split <;> grind

theorem maketransMethod_obeys : J.Obeys (maketransMethod h args) := by
  have split : J.Strict → Clean (Arguments.split args) := by
    intro strict
    obtain ⟨v, rest, rfl, -⟩ := Protocol.receiver_eq (own strict) (by cases q <;> nofun)
    exact clean_ok _
  unfold maketransMethod
  grind

@[grind ←] theorem transformMethod_obeys (name : String) (f : Bytes → Bytes) :
    J.Obeys (transformMethod name f q h args) := by
  refine slot_obeys own fun data rest => ?_
  grind

@[grind ←] theorem testMethod_obeys (name : String) (test : Bytes → Bool) :
    J.Obeys (testMethod name test q h args) := by
  refine slot_obeys own fun data rest => ?_
  grind

@[grind ←] theorem countMethod_obeys : J.Obeys (q.countMethod h args) := by
  refine slot_obeys own fun data rest => ?_
  grind

@[grind ←] theorem zfillMethod_obeys : J.Obeys (q.zfillMethod h args) := by
  refine slot_obeys own fun data rest => ?_
  grind

@[grind ←] theorem fromHexMethod_obeys : J.Obeys (q.fromHexMethod h args) := by
  refine slot_obeys own fun data rest => ?_
  grind

@[grind ←] theorem decodeMethod_obeys : J.Obeys (q.decodeMethod h args) := by
  refine slot_obeys own fun data rest => ?_
  grind

@[grind ←] theorem hexMethod_obeys : J.Obeys (q.hexMethod h args) := by
  refine slot_obeys own fun data rest => ?_
  refine obeys_bind (by grind) fun sep => ?_
  dsimp only
  split
  · grind
  · grind
  · refine obeys_bind (bytesLike?_obeys _) fun raw => ?_
    split <;> grind

variable (hooks : h.Conducts J)

include hooks

@[grind ←] theorem splitLinesMethod_obeys : J.Obeys (q.splitLinesMethod h args) := by
  unfold splitLinesMethod
  refine obeys_bind (obeys_liftM fun strict => receive_clean (own strict)) fun p => ?_
  grind

@[grind ←] theorem joinMethod_obeys : J.Obeys (q.joinMethod h args) := by
  refine slot_obeys own fun data rest => ?_
  grind

theorem readingMethod?_obeys {name : String} {body : Slot}
    (found : q.readingMethod? name = some body) : J.Obeys (body h args) := by
  unfold readingMethod? at found
  split at found <;> cases found
  all_goals first | grind | exact maketransMethod_obeys own

theorem readingOperation?_obeys {op : Operation} {body : Slot}
    (found : q.readingOperation? op = some body) : J.Obeys (body h args) := by
  cases op with
  | invokeMember name => exact readingMethod?_obeys own hooks found
  | contains | repr =>
    cases found
    grind
  | _ => cases found

end Slots

theorem stringOperation?_obeys {args : List Value}
    (own : J.Strict → (Protocol.receiver args).typeKey = .builtin .bytes) (hooks : h.Conducts J)
    {op : Operation} {body : Slot} (found : stringOperation? op = some body) :
    J.Obeys (body h args) := by
  have own' : J.Strict → (Protocol.receiver args).typeKey = .builtin string.kind := own
  have getItem : J.Obeys (getItemSlot h args) := by
    refine slot_obeys own' fun data rest => ?_
    grind
  have len : J.Obeys (lenSlot h args) := by
    refine slot_obeys own' fun data rest => ?_
    grind
  have mul : J.Obeys (mulSlot h args) := by
    refine slot_obeys own' fun data rest => ?_
    grind
  have method : ∀ {name}, stringMethod? name = some body → J.Obeys (body h args) := by
    intro name found
    unfold stringMethod? at found
    split at found
    case h_4 => exact readingMethod?_obeys own' hooks found
    all_goals
      cases found
      assumption
  unfold stringOperation? at found
  split at found
  case h_6 => exact method found
  case h_7 => exact readingOperation?_obeys own' hooks found
  all_goals
    cases found
    grind

end ByteSequence

namespace ByteArrayRef

@[grind ←] theorem buffer_obeys (r : ByteArrayRef) : J.Obeys r.buffer := obeys_readStore _

@[grind ←] theorem size_obeys (r : ByteArrayRef) : J.Obeys r.size := by
  unfold size
  grind

@[grind ←] theorem bytes_obeys (r : ByteArrayRef) : J.Obeys r.bytes := by
  unfold bytes
  grind

@[grind ←] theorem place_obeys (r : ByteArrayRef) (index : Int) : J.Obeys (r.place index) := by
  unfold place
  grind

@[grind ←] theorem item?_obeys (r : ByteArrayRef) (index : Int) : J.Obeys (r.item? index) := by
  unfold item?
  grind

@[grind ←] theorem get_obeys (r : ByteArrayRef) (index : Int) : J.Obeys (r.get index) := by
  unfold get
  grind

@[grind ←] theorem getSlice_obeys (r : ByteArrayRef) (s : Slice) : J.Obeys (r.getSlice s) := by
  unfold getSlice
  grind

@[grind ←] theorem copy_obeys (r : ByteArrayRef) : J.Obeys r.copy := by
  unfold copy
  grind

@[grind ←] theorem repeated_obeys (r : ByteArrayRef) (count : Int) : J.Obeys (r.repeated count) := by
  unfold repeated
  grind

@[grind ←] theorem concat_obeys (r other : ByteArrayRef) : J.Obeys (r.concat other) := by
  unfold concat
  grind

@[grind ←] theorem update_commits (r : ByteArrayRef) (f : Buffer UInt8 → Buffer UInt8) :
    J.Commits (r.update f) :=
  commits_modifyStore fun s => s.grows_modifyByteArray r _

@[grind ←] theorem tryUpdate_commits {f : Buffer UInt8 → Except Error (Buffer UInt8)}
    (clean : ∀ b, Clean (f b)) (r : ByteArrayRef) : J.Commits (r.tryUpdate f) := by
  unfold tryUpdate
  grind

@[grind ←] theorem set_commits (r : ByteArrayRef) (index : Int) (byte : UInt8) :
    J.Commits (r.set index byte) := by
  unfold set
  grind

@[grind ←] theorem delete_commits (r : ByteArrayRef) (index : Int) : J.Commits (r.delete index) := by
  unfold delete
  grind

@[grind ←] theorem deleteSlice_commits (r : ByteArrayRef) (s : Slice) :
    J.Commits (r.deleteSlice s) := by
  unfold deleteSlice
  grind

@[grind ←] theorem append_commits (r : ByteArrayRef) (byte : UInt8) : J.Commits (r.append byte) :=
  update_commits r _

@[grind ←] theorem insert_commits (r : ByteArrayRef) (index : Int) (byte : UInt8) :
    J.Commits (r.insert index byte) := by
  unfold insert
  grind

@[grind ←] theorem pop_commits (r : ByteArrayRef) (index : Option Int) : J.Commits (r.pop index) := by
  unfold pop
  grind

@[grind ←] theorem remove_commits (r : ByteArrayRef) (byte : UInt8) : J.Commits (r.remove byte) := by
  unfold remove
  grind

@[grind ←] theorem reverse_commits (r : ByteArrayRef) : J.Commits r.reverse := update_commits r _

@[grind ←] theorem clear_commits (r : ByteArrayRef) : J.Commits r.clear := update_commits r _

@[grind ←] theorem repeatInPlace_commits (r : ByteArrayRef) (count : Int) :
    J.Commits (r.repeatInPlace count) :=
  tryUpdate_commits (fun b => b.repeatInPlace_clean count) r

section Asking

variable (hooks : h.Conducts J)

include hooks

@[grind ←] theorem setSlice_commits (r : ByteArrayRef) (s : Slice) (source : Value) :
    J.Commits (setSlice h r s source) := by
  unfold setSlice
  dsimp only
  split <;> grind

@[grind ←] theorem extend_commits (r : ByteArrayRef) (source : Value) :
    J.Commits (extend h r source) := by
  unfold extend
  dsimp only
  split <;> grind

end Asking

section Slots

variable {args : List Value} (own : J.Strict → (Protocol.receiver args).typeKey = .builtin .byteArray)
  (hooks : h.Conducts J)

include own

theorem slot_obeys {body : ByteArrayRef → List Value → Run Value}
    (obeys : ∀ r rest, J.Obeys (body r rest)) : J.Obeys (slot body args) :=
  obeys_bind (obeys_liftM fun strict => receive_clean (own strict)) fun p => obeys p.1 p.2

theorem slot_commits {body : ByteArrayRef → List Value → Run Value}
    (commits : ∀ r rest, J.Commits (body r rest)) : J.Commits (slot body args) :=
  commits_bind (obeys_liftM fun strict => receive_clean (own strict)) fun p => commits p.1 p.2

theorem delItemSlot_commits : J.Commits (delItemSlot h args) := by
  refine slot_commits own fun r rest => commits_bind (by grind) fun key => ?_
  dsimp only
  split
  next => exact commits_value (deleteSlice_commits r _)
  next =>
    split
    next => exact commits_value (delete_commits r _)
    next => exact (obeys_raise_bind fun _ => rfl).commits

include hooks

theorem setItemSlot_commits : J.Commits (setItemSlot h args) := by
  refine slot_commits own fun r rest => commits_bind (by grind) fun p => ?_
  dsimp only
  split
  next => exact commits_value (setSlice_commits hooks r _ _)
  next =>
    split
    next => exact commits_bind (by grind) fun byte => commits_value (set_commits r _ byte)
    next => exact (obeys_raise_bind fun _ => rfl).commits

theorem method?_commits {name : String} {body : Slot} (found : method? name = some body) :
    J.Commits (body h args) := by
  unfold method? at found
  split at found
  case h_11 =>
    cases found
    exact setItemSlot_commits own hooks
  case h_12 =>
    cases found
    exact delItemSlot_commits own
  case h_13 =>
    exact (ByteSequence.readingMethod?_obeys (q := .array) own hooks found).commits
  all_goals
    cases found
    refine slot_commits own fun r rest => ?_
    grind

theorem operation?_commits {op : Operation} {body : Slot} (found : operation? op = some body) :
    J.Commits (body h args) := by
  unfold operation? at found
  split at found
  case h_3 =>
    cases found
    exact setItemSlot_commits own hooks
  case h_4 =>
    cases found
    exact delItemSlot_commits own
  case h_5 =>
    cases found
    exact unhashableSlot_obeys.commits
  case h_11 => exact method?_commits own hooks found
  case h_12 => exact (ByteSequence.readingOperation?_obeys (q := .array) own hooks found).commits
  all_goals
    cases found
    refine slot_commits own fun r rest => ?_
    grind

theorem operation?_obeys {op : Operation} {body : Slot} (found : operation? op = some body)
    (writes : op.isQuestion = false → J.Writes) : J.Obeys (body h args) := by
  cases question : op.isQuestion with
  | false => exact (operation?_commits own hooks found).obeys (writes question)
  | true =>
    cases op with
    | len =>
      cases found
      refine slot_obeys own fun r rest => ?_
      grind
    | hash =>
      cases found
      exact unhashableSlot_obeys
    | repr =>
      cases found
      exact ByteSequence.reprSlot_obeys (q := .array) own
    | truth | compare => cases found
    | _ => cases question

theorem operator_obeys {op : Operation} {body : Slot} (found : operation? op = some body)
    (operator : op.isOperator = true) : J.Obeys (body h args) := by
  unfold operation? at found
  split at found
  case h_6 | h_7 | h_8 =>
    cases found
    refine slot_obeys own fun r rest => ?_
    grind
  case h_12 => exact ByteSequence.readingOperation?_obeys (q := .array) own hooks found
  all_goals cases operator

end Slots

end ByteArrayRef

end DynamicObjects
