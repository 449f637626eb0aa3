import MicroHermes.Common

set_option autoImplicit false

namespace MicroHermes

theorem u32ToLeBytes_u32FromLeBytes {bytes : List UInt8} (width : bytes.length = 4) :
    u32ToLeBytes (u32FromLeBytes bytes) = bytes := by
  have fits : LittleEndian.decode bytes < 2 ^ 32 := by
    simpa [width] using LittleEndian.decode_lt bytes
  have whole := LittleEndian.encode_decode bytes
  rw [width] at whole
  rw [u32ToLeBytes, u32FromLeBytes, UInt32.toNat_ofNat', Nat.mod_eq_of_lt fits, whole]

theorem i64ToLeBytes_i64FromLeBytes {bytes : List UInt8} (width : bytes.length = 8) :
    i64ToLeBytes (i64FromLeBytes bytes) = bytes := by
  have fits : LittleEndian.decode bytes < 2 ^ 64 := by
    simpa [width] using LittleEndian.decode_lt bytes
  have whole := LittleEndian.encode_decode bytes
  rw [width] at whole
  rw [i64ToLeBytes, i64FromLeBytes, Int64.toBitVec_ofBitVec, BitVec.toNat_ofNat,
    Nat.mod_eq_of_lt fits, whole]

theorem slice_split (buf : List UInt8) {start middle stop : Nat} (first : start ≤ middle)
    (second : middle ≤ stop) :
    slice buf start middle ++ slice buf middle stop = slice buf start stop := by
  have both := List.take_append_drop (middle - start) (slice buf start stop)
  simp only [slice, List.take_drop, List.drop_drop, List.take_take] at both ⊢
  rwa [show start + (middle - start) = middle by omega, Nat.min_eq_left second] at both

theorem slice_length {buf : List UInt8} {start stop : Nat} (inside : stop ≤ buf.length) :
    (slice buf start stop).length = stop - start := by
  simp [slice, inside]

theorem slice_all {buf : List UInt8} {size : Nat} (whole : buf.length = size) :
    slice buf 0 size = buf := by
  rw [slice, List.drop_zero]
  exact List.take_of_length_le whole.le

section Request

variable (seq serviceUs : UInt32) (sendNs : Int64) (buf : RequestHeader)

theorem encodeRequest_bytes :
    (encodeRequest seq serviceUs sendNs buf).1 =
      u32ToLeBytes requestMagic ++ (u32ToLeBytes seq ++ (u32ToLeBytes serviceUs ++
        (u32ToLeBytes 0 ++ i64ToLeBytes sendNs))) := by
  have start : buf.1.length = 24 := buf.2
  simp only [encodeRequest]
  rw [copyFromSlice_first, copyFromSlice_after (by simp), copyFromSlice_after (by simp),
    copyFromSlice_after (by simp), copyFromSlice_after (by simp)]
  simp [start, List.drop_eq_nil_of_le]

theorem decodeRequest_encodeRequest :
    decodeRequest (encodeRequest seq serviceUs sendNs buf) = some ⟨seq, serviceUs, sendNs⟩ := by
  have bytes := encodeRequest_bytes seq serviceUs sendNs buf
  have magic : slice (encodeRequest seq serviceUs sendNs buf).1 0 4 = u32ToLeBytes requestMagic := by
    rw [bytes, ← List.nil_append (u32ToLeBytes requestMagic ++ _)]
    exact slice_append rfl (by simp)
  have second : slice (encodeRequest seq serviceUs sendNs buf).1 4 8 = u32ToLeBytes seq := by
    rw [bytes]
    exact slice_append (by simp) (by simp)
  have third : slice (encodeRequest seq serviceUs sendNs buf).1 8 12 = u32ToLeBytes serviceUs := by
    rw [bytes, ← List.append_assoc]
    exact slice_append (by simp) (by simp)
  have last : slice (encodeRequest seq serviceUs sendNs buf).1 16 24 = i64ToLeBytes sendNs := by
    rw [bytes, ← List.append_assoc, ← List.append_assoc, ← List.append_assoc,
      ← List.append_nil (i64ToLeBytes sendNs)]
    exact slice_append (by simp) (by simp)
  simp only [decodeRequest, magic, second, third, last, u32FromLeBytes_u32ToLeBytes,
    i64FromLeBytes_i64ToLeBytes, ne_eq, not_true_eq_false, if_false]

theorem decodeRequest_eq_some {request : Request} :
    decodeRequest buf = some request ↔
      slice buf.1 0 4 = u32ToLeBytes requestMagic ∧
      request = ⟨u32FromLeBytes (slice buf.1 4 8), u32FromLeBytes (slice buf.1 8 12),
        i64FromLeBytes (slice buf.1 16 24)⟩ := by
  have magic : u32FromLeBytes (slice buf.1 0 4) = requestMagic ↔
      slice buf.1 0 4 = u32ToLeBytes requestMagic := by
    constructor
    · intro same
      have width : (slice buf.1 0 4).length = 4 := slice_length (by rw [buf.2]; decide)
      rw [← same, u32ToLeBytes_u32FromLeBytes width]
    · intro same
      rw [same, u32FromLeBytes_u32ToLeBytes]
  rw [← magic]
  simp only [decodeRequest]
  split
  · next wrong => simp [wrong]
  · next right =>
      simp only [not_not] at right
      simp [right, eq_comm]

theorem encodeRequest_decodeRequest {request : Request} (decoded : decodeRequest buf = some request)
    (prior : RequestHeader) :
    (encodeRequest request.seq request.serviceUs request.sendNs prior).1 =
      copyFromSlice buf.1 12 (u32ToLeBytes 0) := by
  obtain ⟨magic, rfl⟩ := (decodeRequest_eq_some buf).1 decoded
  have total : buf.1.length = 24 := buf.2
  have second : (slice buf.1 4 8).length = 4 := slice_length (by omega)
  have third : (slice buf.1 8 12).length = 4 := slice_length (by omega)
  have last : (slice buf.1 16 24).length = 8 := slice_length (by omega)
  have before : buf.1.take 12 = slice buf.1 0 4 ++ (slice buf.1 4 8 ++ slice buf.1 8 12) := by
    rw [slice_split _ (by decide) (by decide), slice_split _ (by decide) (by decide), slice,
      List.drop_zero]
  have after : buf.1.drop 16 = slice buf.1 16 24 := by
    rw [slice, List.take_of_length_le total.le]
  rw [encodeRequest_bytes, u32ToLeBytes_u32FromLeBytes second, u32ToLeBytes_u32FromLeBytes third,
    i64ToLeBytes_i64FromLeBytes last, ← magic, copyFromSlice, before, u32ToLeBytes_length, after]
  simp only [List.append_assoc]

theorem zeroed_eq_iff :
    copyFromSlice buf.1 12 (u32ToLeBytes 0) = buf.1 ↔ slice buf.1 12 16 = u32ToLeBytes 0 := by
  have total : buf.1.length = 24 := buf.2
  have parts : buf.1 = buf.1.take 12 ++ (slice buf.1 12 16 ++ buf.1.drop 16) := by
    have split := List.take_append_drop 12 buf.1
    have rest := List.take_append_drop 4 (buf.1.drop 12)
    rw [List.drop_drop] at rest
    rw [slice, List.drop_take, rest, split]
  constructor
  · intro same
    rw [copyFromSlice, u32ToLeBytes_length] at same
    nth_rewrite 3 [parts] at same
    rw [List.append_assoc, List.append_cancel_left_eq, List.append_left_inj] at same
    exact same.symm
  · intro zero
    rw [copyFromSlice, u32ToLeBytes_length, ← zero, List.append_assoc]
    exact parts.symm

end Request

section Response

theorem encodeResponse_decodeResponse (buf prior : ResponseBuf) :
    encodeResponse (decodeResponse buf).1 (decodeResponse buf).2.1 (decodeResponse buf).2.2 prior =
      buf := by
  have total : buf.1.length = 16 := buf.2
  have first : (slice buf.1 0 4).length = 4 := slice_length (by omega)
  have second : (slice buf.1 4 8).length = 4 := slice_length (by omega)
  have third : (slice buf.1 8 16).length = 8 := slice_length (by omega)
  apply Subtype.ext
  rw [encodeResponse_bytes, decodeResponse, u32ToLeBytes_u32FromLeBytes first,
    u32ToLeBytes_u32FromLeBytes second, i64ToLeBytes_i64FromLeBytes third,
    slice_split _ (by decide) (by decide), slice_split _ (by decide) (by decide), slice_all total]

end Response

theorem wire_round_trips :
    (∀ seq serviceUs sendNs buf,
      decodeRequest (encodeRequest seq serviceUs sendNs buf) = some ⟨seq, serviceUs, sendNs⟩) ∧
    (∀ buf, (decodeRequest buf).isSome ↔ buf.1.take 4 = u32ToLeBytes requestMagic) ∧
    (∀ buf prior request, decodeRequest buf = some request →
      (encodeRequest request.seq request.serviceUs request.sendNs prior).1 =
        buf.1.take 12 ++ List.replicate 4 0 ++ buf.1.drop 16 ∧
      (encodeRequest request.seq request.serviceUs request.sendNs prior = buf ↔
        (buf.1.drop 12).take 4 = List.replicate 4 0)) ∧
    (∀ seq workerId sendNs buf,
      decodeResponse (encodeResponse seq workerId sendNs buf) = (seq, workerId, sendNs)) ∧
    (∀ buf prior,
      encodeResponse (decodeResponse buf).1 (decodeResponse buf).2.1 (decodeResponse buf).2.2 prior =
        buf) ∧
    Function.Bijective decodeResponse := by
  have zeros : u32ToLeBytes 0 = List.replicate 4 0 := by decide
  refine ⟨decodeRequest_encodeRequest, fun buf => ?_, fun buf prior request decoded => ?_,
    decodeResponse_encodeResponse, encodeResponse_decodeResponse, ?_, ?_⟩
  · rw [Option.isSome_iff_exists]
    simp only [decodeRequest_eq_some, slice, List.drop_zero]
    constructor
    · rintro ⟨_, magic, _⟩
      exact magic
    · intro magic
      exact ⟨_, magic, rfl⟩
  · have bytes := encodeRequest_decodeRequest buf decoded prior
    refine ⟨?_, ?_⟩
    · rw [bytes, copyFromSlice, u32ToLeBytes_length, zeros]
    · rw [Subtype.ext_iff, bytes, zeroed_eq_iff, zeros, slice, List.drop_take]
  · intro buf other same
    rw [← encodeResponse_decodeResponse buf buf, same, encodeResponse_decodeResponse other buf]
  · rintro ⟨seq, workerId, sendNs⟩
    exact ⟨encodeResponse seq workerId sendNs zeroResponse, decodeResponse_encodeResponse ..⟩

end MicroHermes
