import DynamicObjects.Proofs.Conduct.Basic

/-!
The failures of what is computed from arguments alone: none of them is internal. Only taking the
receiver off the arguments can fail in that way, and not where it is one of the right kind.
-/
namespace DynamicObjects

section Clean

variable {α β : Type}

@[grind ←] theorem clean_ok (a : α) : Clean (.ok a) := by
  intro e failed
  cases failed

@[grind ←] theorem clean_error {e : Error} (h : e.isInternal = false) :
    Clean (.error e : Except Error α) := by
  rintro e' ⟨⟩
  exact h

@[grind ←] theorem clean_bind {x : Except Error α} {f : α → Except Error β} (hx : Clean x)
    (hf : ∀ a, Clean (f a)) : Clean (x.bind f) := by
  cases x with
  | ok a => exact hf a
  | error e => exact clean_error (hx e rfl)

@[grind ←] theorem clean_map {x : Except Error α} {f : α → β} (hx : Clean x) : Clean (x.map f) := by
  cases x with
  | ok a => exact clean_ok _
  | error e => exact clean_error (hx e rfl)

end Clean

namespace Arguments

@[grind ←] theorem none_clean (name : String) (args : List Value) : Clean (none name args) := by
  unfold none
  grind

@[grind ←] theorem one_clean (name : String) (args : List Value) : Clean (one name args) := by
  unfold one
  grind

@[grind ←] theorem two_clean (name : String) (args : List Value) : Clean (two name args) := by
  unfold two
  grind

@[grind ←] theorem atMostOne_clean (name : String) (args : List Value) :
    Clean (atMostOne name args) := by
  unfold atMostOne
  grind

@[grind ←] theorem oneOrTwo_clean (name : String) (args : List Value) :
    Clean (oneOrTwo name args) := by
  unfold oneOrTwo
  grind

@[grind ←] theorem atMostTwo_clean (name : String) (args : List Value) :
    Clean (atMostTwo name args) := by
  unfold atMostTwo
  grind

@[grind ←] theorem oneToThree_clean (name : String) (args : List Value) :
    Clean (oneToThree name args) := by
  unfold oneToThree
  grind

end Arguments

@[grind ←] theorem Value.asIndex_clean (v : Value) : Clean v.asIndex := by
  unfold Value.asIndex
  grind

@[grind ←] theorem Arguments.optionalIndex_clean (v : Option Value) : Clean (optionalIndex v) := by
  unfold optionalIndex
  grind

@[grind ←] theorem ByteSequence.byteOf_clean (v : Value) : Clean (byteOf v) := by
  unfold byteOf
  refine clean_bind v.asIndex_clean fun n => ?_
  grind

@[grind ←] theorem ByteSequence.encodingName_clean (method : String) (v : Option Value) :
    Clean (encodingName method v) := by
  unfold encodingName
  grind

@[grind ←] theorem Slice.indices_clean (s : Slice) (len : Nat) : Clean (s.indices len) := by
  unfold Slice.indices
  grind

namespace Buffer

variable {α : Type}

@[grind ←] theorem assignSlice_clean (b : Buffer α) (p : Progression) (values : List α) :
    Clean (b.assignSlice p values) := by
  unfold assignSlice
  grind

variable [ItemSize α]

theorem repeatLength_clean (unit count : Nat) : Clean (repeatLength α unit count) := by
  unfold repeatLength
  grind

@[grind ←] theorem repeatInPlace_clean (b : Buffer α) (count : Int) :
    Clean (b.repeatInPlace count) := by
  unfold repeatInPlace
  split
  · exact clean_ok _
  · split
    next e failed => exact clean_error (repeatLength_clean _ _ e failed)
    next => split <;> exact clean_ok _

@[grind ←] theorem repeated_clean (b : Buffer α) (count : Int) : Clean (b.repeated count) := by
  unfold repeated
  split
  next e failed => exact clean_error (repeatLength_clean _ _ e failed)
  next =>
    dsimp only
    split
    · exact clean_ok _
    · exact repeatInPlace_clean _ _

end Buffer

@[grind ←] theorem Tuple.repeated_clean (items : List Value) (count : Int) :
    Clean (Tuple.repeated items count) := by
  unfold Tuple.repeated
  grind

@[grind ←] theorem Text.repeated_clean (text : String) (count : Int) :
    Clean (Text.repeated text count) := by
  unfold Text.repeated
  grind

@[grind ←] theorem ByteSequence.repeated_clean (data : Bytes) (count : Int) :
    Clean (ByteSequence.repeated data count) := by
  unfold ByteSequence.repeated
  grind

namespace Codec

theorem lookup_clean (encoding : String) : Clean (lookup encoding) := by
  unfold lookup
  grind

theorem decode_clean (codec : Codec) (data : Bytes) : Clean (codec.decode data) := by
  unfold decode decodeUtf8 decodeSingle
  grind

theorem encodeSingle_clean (codec : Codec) (position : Nat) (chars : List Char) :
    Clean (codec.encodeSingle position chars) := by
  induction chars generalizing position with
  | nil => exact clean_ok _
  | cons c rest ih =>
    unfold encodeSingle
    grind

theorem encode_clean (codec : Codec) (text : String) : Clean (codec.encode text) := by
  unfold encode
  grind [encodeSingle_clean]

end Codec

namespace Bytes

@[grind ←] theorem decode_clean (data : Bytes) (encoding : String) :
    Clean (data.decode encoding) :=
  clean_bind (Codec.lookup_clean encoding) fun codec => codec.decode_clean data

@[grind ←] theorem ofText_clean (text encoding : String) : Clean (ofText text encoding) :=
  clean_bind (Codec.lookup_clean encoding) fun codec => codec.encode_clean text

theorem ofHexChars_clean (position : Nat) (chars : List Char) : Clean (ofHexChars position chars) := by
  fun_induction ofHexChars position chars <;> grind

@[grind ←] theorem ofHex_clean (text : String) : Clean (ofHex text) := ofHexChars_clean 0 _

@[grind ←] theorem translate_clean (data : Bytes) (table : Option Bytes) (deleted : Bytes) :
    Clean (data.translate table deleted) := by
  unfold translate
  grind

@[grind ←] theorem maketrans_clean (source target : Bytes) : Clean (maketrans source target) := by
  unfold maketrans
  grind

@[grind ←] theorem split_clean (data : Bytes) (sep : Option Bytes) (most : Int) :
    Clean (split data sep most) := by
  unfold split
  grind

@[grind ←] theorem rsplit_clean (data : Bytes) (sep : Option Bytes) (most : Int) :
    Clean (rsplit data sep most) := by
  unfold rsplit
  grind

@[grind ←] theorem partition_clean (data sep : Bytes) : Clean (partition data sep) := by
  unfold partition
  grind

@[grind ←] theorem rpartition_clean (data sep : Bytes) : Clean (rpartition data sep) := by
  unfold rpartition
  grind

end Bytes

namespace Number

@[grind ←] theorem checked_clean (n : Option Int64) : Clean (checked n) := by
  unfold checked
  grind

@[grind ←] theorem floatArithmetic_clean (op : BinaryOp) (x y : Double) :
    Clean (floatArithmetic op x y) := by
  unfold floatArithmetic
  grind

theorem intArithmetic_clean (op : BinaryOp) (x y : Int64) : Clean (intArithmetic op x y) := by
  have power : Clean (intPower x y) := by
    unfold intPower
    grind
  unfold intArithmetic
  grind

@[grind ←] theorem arithmetic_clean (op : BinaryOp) (a b : Value) : Clean (arithmetic op a b) := by
  unfold arithmetic
  grind [intArithmetic_clean]

@[grind ←] theorem forward_clean (op : BinaryOp) (a b : Value) : Clean (forward op a b) := by
  unfold forward
  split
  case h_4 => exact arithmetic_clean op a b
  all_goals exact clean_ok _

end Number

theorem Protocol.receiver_eq {kind : Kind} {args : List Value}
    (own : (receiver args).typeKey = .builtin kind) (some_ : kind ≠ .noneType) :
    ∃ v rest, args = v :: rest ∧ v.kind = kind := by
  cases args with
  | nil => exact absurd (TypeKey.builtin.inj own).symm some_
  | cons v rest =>
    refine ⟨v, rest, rfl, ?_⟩
    cases v with
    | object => cases own
    | _ => exact TypeKey.builtin.inj own

section Receive

variable {args : List Value}

theorem ListRef.receive_clean (own : (Protocol.receiver args).typeKey = .builtin .list) :
    Clean (ListRef.receive args) := by
  obtain ⟨v, rest, rfl, kind⟩ := Protocol.receiver_eq own nofun
  cases v <;> first | exact clean_ok _ | cases kind

theorem DictRef.receive_clean (own : (Protocol.receiver args).typeKey = .builtin .dict) :
    Clean (DictRef.receive args) := by
  obtain ⟨v, rest, rfl, kind⟩ := Protocol.receiver_eq own nofun
  cases v <;> first | exact clean_ok _ | cases kind

theorem ByteArrayRef.receive_clean (own : (Protocol.receiver args).typeKey = .builtin .byteArray) :
    Clean (ByteArrayRef.receive args) := by
  obtain ⟨v, rest, rfl, kind⟩ := Protocol.receiver_eq own nofun
  cases v <;> first | exact clean_ok _ | cases kind

theorem ByteSequence.receive_clean {q : ByteSequence}
    (own : (Protocol.receiver args).typeKey = .builtin q.kind) : Clean (q.receive args) := by
  obtain ⟨v, rest, rfl, kind⟩ := Protocol.receiver_eq own (by cases q <;> nofun)
  have received : q.receive (v :: rest) = .ok (v, rest) := if_pos kind
  rw [received]
  exact clean_ok _

theorem Tuple.receive_clean (own : (Protocol.receiver args).typeKey = .builtin .tuple) :
    Clean (Tuple.receive args) := by
  obtain ⟨v, rest, rfl, kind⟩ := Protocol.receiver_eq own nofun
  cases v <;> first | exact clean_ok _ | cases kind

theorem Text.receive_clean (own : (Protocol.receiver args).typeKey = .builtin .str) :
    Clean (Text.receive args) := by
  obtain ⟨v, rest, rfl, kind⟩ := Protocol.receiver_eq own nofun
  cases v <;> first | exact clean_ok _ | cases kind

theorem SetTable.receive_clean (own : (Protocol.receiver args).typeKey = .builtin .frozenSet) :
    Clean (SetTable.receive args) := by
  obtain ⟨v, rest, rfl, kind⟩ := Protocol.receiver_eq own nofun
  cases v <;> first | exact clean_ok _ | cases kind

end Receive

end DynamicObjects
