import TagGateway.Foundation.ProtoWire

/-!
# Blocks sent to their owner

A block whose owner is another node goes there in one request if the request fits the
limit on messages, and as a stream otherwise. The size that is compared with the limit is
computed from the key, the lifetime and the data. The request also has a flag.
-/
namespace TagGateway.Cache

open Foundation

structure PutRequest where
  key : Bytes
  data : Bytes
  ttlSeconds : ℤ
  shedOverBudget : Bool := false
deriving DecidableEq

/-- The request on the wire; `flagField` is the number of the field of the flag. -/
def PutRequest.marshal (flagField : ℕ) (r : PutRequest) : Bytes :=
  bytesField 1 r.key ++ (int64Field 2 r.ttlSeconds ++ (bytesField 3 r.data ++
    boolField flagField r.shedOverBudget))

def protoVarintSizeLoop (size v : ℕ) : ℕ :=
  if v < 0x80 then size else protoVarintSizeLoop (size + 1) (v / 0x80)
termination_by v
decreasing_by omega

def protoVarintSize (v : ℕ) : ℕ := protoVarintSizeLoop 1 v

def unaryPutRequestSize (key data : Bytes) (ttlSeconds : ℤ) : ℕ :=
  (if key = [] then 0 else 1 + protoVarintSize key.length + key.length) +
  (if ttlSeconds = 0 then 0 else 1 + protoVarintSize (uint64Of ttlSeconds)) +
  (if data = [] then 0 else 1 + protoVarintSize data.length + data.length)

def canPutBlockUnaryForLimit (key data : Bytes) (ttlSeconds limit : ℤ) : Bool :=
  decide ((unaryPutRequestSize key data ttlSeconds : ℤ) ≤ limit)

structure PutResponse where
  success : Bool
  shed : Bool
  error : Bytes

inductive RemotePutError where
  | hopCount
  | route
  | rpc
  | shed
  | failed (text : Bytes)
deriving DecidableEq

/-- The other nodes: which keys are local, and what becomes of a request, which may fail
or be answered without a message. -/
structure RemoteBlockRouter where
  isLocal : Bytes → Bool
  hopAllowed : Bool
  route : Bytes → Bool
  putObject : PutRequest → Option (Option PutResponse)

/-- What a put to the owner comes to: the request that was sent, whether the put is
settled, and its error. -/
structure RemotePut where
  sent : Option PutRequest := none
  handled : Bool
  err : Option RemotePutError := none

def putRemoteBlockBytes (limit : ℤ) (router : RemoteBlockRouter) (key data : Bytes)
    (ttlSeconds : ℤ) : RemotePut :=
  if canPutBlockUnaryForLimit key data ttlSeconds limit = false ∨ router.isLocal key = true then
    { handled := false }
  else if router.hopAllowed = false then { handled := true, err := some .hopCount }
  else if router.route key = false then { handled := true, err := some .route }
  else
    let request : PutRequest := ⟨key, data, ttlSeconds, true⟩
    { sent := some request
      handled := true
      err := match router.putObject request with
        | none => some .rpc
        | some none => none
        | some (some resp) =>
          if resp.success then none
          else if resp.shed then some .shed else some (.failed resp.error) }

theorem protoVarintSizeLoop_eq (size v : ℕ) :
    protoVarintSizeLoop size v + 1 = size + (varint v).length := by
  induction size, v using protoVarintSizeLoop.induct with
  | case1 size v hsmall => rw [protoVarintSizeLoop, if_pos hsmall, length_varint_small hsmall]
  | case2 size v hlarge ih =>
    rw [protoVarintSizeLoop, if_neg hlarge, ih, length_varint_large hlarge]
    omega

theorem protoVarintSize_eq (v : ℕ) : protoVarintSize v = (varint v).length := by
  have hloop := protoVarintSizeLoop_eq 1 v
  unfold protoVarintSize
  omega

/-- The size that is compared with the limit is that of a request without the flag. -/
theorem unaryPutRequestSize_eq (flagField : ℕ) (key data : Bytes) (ttlSeconds : ℤ) :
    unaryPutRequestSize key data ttlSeconds =
      (PutRequest.marshal flagField ⟨key, data, ttlSeconds, false⟩).length := by
  have hbytes : ∀ (field : ℕ) (text : Bytes), field ≤ 15 → (bytesField field text).length =
      if text = [] then 0 else 1 + protoVarintSize text.length + text.length := by
    intro field text hfield
    unfold bytesField
    split_ifs
    · rfl
    · rw [List.length_append, List.length_append, length_wireTag hfield (by omega),
        protoVarintSize_eq, Nat.add_assoc]
  have hscalar : (int64Field 2 ttlSeconds).length =
      if ttlSeconds = 0 then 0 else 1 + protoVarintSize (uint64Of ttlSeconds) := by
    unfold int64Field
    split_ifs
    · rfl
    · rw [List.length_append, length_wireTag (by omega) (by omega), protoVarintSize_eq]
  have hflag : (boolField flagField false).length = 0 := rfl
  simp only [PutRequest.marshal, List.length_append, hbytes 1 _ (by omega), hbytes 3 _ (by omega),
    hscalar, hflag, unaryPutRequestSize]
  omega

theorem length_marshal_flag (flagField : ℕ) (key data : Bytes) (ttlSeconds : ℤ) :
    (PutRequest.marshal flagField ⟨key, data, ttlSeconds, true⟩).length =
      (PutRequest.marshal flagField ⟨key, data, ttlSeconds, false⟩).length +
        (boolField flagField true).length := by
  have hflag : (boolField flagField false).length = 0 := rfl
  simp only [PutRequest.marshal, List.length_append, hflag]
  omega

/-- A request is sent if the put is admitted and a way to the owner is found. -/
theorem putRemoteBlockBytes_sent {limit : ℤ} {router : RemoteBlockRouter} {key data : Bytes}
    {ttlSeconds : ℤ} {request : PutRequest} :
    (putRemoteBlockBytes limit router key data ttlSeconds).sent = some request ↔
      canPutBlockUnaryForLimit key data ttlSeconds limit = true ∧ router.isLocal key = false ∧
        router.hopAllowed = true ∧ router.route key = true ∧
        request = ⟨key, data, ttlSeconds, true⟩ := by
  unfold putRemoteBlockBytes
  split_ifs with hrefused hhop hroute
  · rcases hrefused with h | h <;> simp [h]
  · simp [hhop]
  · simp [hroute]
  · simp only [not_or, Bool.not_eq_false, Bool.not_eq_true] at hrefused hhop hroute
    simp only [hrefused, hhop, hroute, Option.some.injEq, true_and]
    exact eq_comm

/-- Every request that is sent fits the limit exactly if the request without the flag
exceeds it already, or leaves room for the flag. -/
theorem putRemoteBlockBytes_fits_iff (flagField : ℕ) (key data : Bytes) (ttlSeconds limit : ℤ) :
    (∀ router request, (putRemoteBlockBytes limit router key data ttlSeconds).sent = some request →
        ((request.marshal flagField).length : ℤ) ≤ limit) ↔
      limit < (PutRequest.marshal flagField ⟨key, data, ttlSeconds, false⟩).length ∨
        ((PutRequest.marshal flagField ⟨key, data, ttlSeconds, false⟩).length +
          (boolField flagField true).length : ℤ) ≤ limit := by
  have hsize := unaryPutRequestSize_eq flagField key data ttlSeconds
  have hlength := length_marshal_flag flagField key data ttlSeconds
  constructor
  · intro hfits
    by_cases hfree : canPutBlockUnaryForLimit key data ttlSeconds limit = true
    · have hsent := hfits ⟨fun _ => false, true, fun _ => true, fun _ => none⟩ _
        (putRemoteBlockBytes_sent.mpr ⟨hfree, rfl, rfl, rfl, rfl⟩)
      omega
    · rw [canPutBlockUnaryForLimit, decide_eq_true_eq] at hfree
      omega
  · intro hroom router request hsent
    obtain ⟨hfree, -, -, -, rfl⟩ := putRemoteBlockBytes_sent.mp hsent
    rw [canPutBlockUnaryForLimit, decide_eq_true_eq] at hfree
    omega

/-- A request that fills the limit without its flag is admitted and exceeds it. -/
theorem flag_exceeds_limit :
    canPutBlockUnaryForLimit (ascii "k") [] 0 3 = true ∧
    ∃ router : RemoteBlockRouter, ∃ request : PutRequest,
      (putRemoteBlockBytes 3 router (ascii "k") [] 0).sent = some request ∧
      ∀ flagField, 3 < (request.marshal flagField).length := by
  have hfree : canPutBlockUnaryForLimit (ascii "k") [] 0 3 = true := by
    simp [canPutBlockUnaryForLimit, unaryPutRequestSize_eq 4, PutRequest.marshal, bytesField,
      int64Field, boolField, wireTag, varint, ascii]
  refine ⟨hfree, ⟨fun _ => false, true, fun _ => true, fun _ => none⟩, ⟨ascii "k", [], 0, true⟩,
    putRemoteBlockBytes_sent.mpr ⟨hfree, rfl, rfl, rfl, rfl⟩, fun flagField => ?_⟩
  have htag := length_varint_pos (flagField * 8)
  simp [PutRequest.marshal, bytesField, int64Field, boolField, wireTag, length_varint_small, ascii]
  omega

end TagGateway.Cache
