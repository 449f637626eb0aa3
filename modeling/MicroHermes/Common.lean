import MicroHermes.Lib.LittleEndian

set_option autoImplicit false

/-!
# Constants and the wire protocol

`hermes-common/src/lib.rs`.
-/

namespace MicroHermes

/-- Number of worker processes. The models below take the worker count as a parameter `W`. -/
def numWorkers : Nat := 4

instance : NeZero numWorkers := ⟨by decide⟩

-- The worker of the one-worker runs that the modules below evaluate.
abbrev soloWorker : Fin 1 := Fin.last 0

def bpffsDir : String := "/sys/fs/bpf/hermes"

def pinProgram : String := "hermes_select"

def pinMSocket : String := "m_socket"

def requestMagic : UInt32 := 0x4845524d

def requestHeaderLen : Nat := 24

def responseLen : Nat := 16

-- `[u8; REQUEST_HEADER_LEN]`
abbrev RequestHeader := { buf : List UInt8 // buf.length = requestHeaderLen }

-- `[u8; RESPONSE_LEN]`
abbrev ResponseBuf := { buf : List UInt8 // buf.length = responseLen }

def u32ToLeBytes (value : UInt32) : List UInt8 := LittleEndian.encode 4 value.toNat

def u32FromLeBytes (bytes : List UInt8) : UInt32 := UInt32.ofNat (LittleEndian.decode bytes)

def i64ToLeBytes (value : Int64) : List UInt8 := LittleEndian.encode 8 value.toBitVec.toNat

def i64FromLeBytes (bytes : List UInt8) : Int64 :=
  Int64.ofBitVec (BitVec.ofNat 64 (LittleEndian.decode bytes))

@[simp] theorem u32ToLeBytes_length (value : UInt32) : (u32ToLeBytes value).length = 4 := by
  simp [u32ToLeBytes]

@[simp] theorem i64ToLeBytes_length (value : Int64) : (i64ToLeBytes value).length = 8 := by
  simp [i64ToLeBytes]

-- `buf[start..stop]`
def slice (buf : List UInt8) (start stop : Nat) : List UInt8 := (buf.take stop).drop start

def copyFromSlice (buf : List UInt8) (start : Nat) (source : List UInt8) : List UInt8 :=
  -- `buf[start..][..source.len()].copy_from_slice(source)`
  buf.take start ++ source ++ buf.drop (start + source.length)

theorem u32FromLeBytes_u32ToLeBytes (value : UInt32) :
    u32FromLeBytes (u32ToLeBytes value) = value := by
  have fits : value.toNat < 256 ^ 4 := value.toNat_lt
  simp [u32FromLeBytes, u32ToLeBytes, LittleEndian.decode_encode_of_lt fits]

theorem i64FromLeBytes_i64ToLeBytes (value : Int64) :
    i64FromLeBytes (i64ToLeBytes value) = value := by
  have fits : value.toBitVec.toNat < 256 ^ 8 := value.toBitVec.isLt
  simp [i64FromLeBytes, i64ToLeBytes, LittleEndian.decode_encode_of_lt fits]

theorem slice_append {first middle last : List UInt8} {start stop : Nat}
    (before : first.length = start) (inside : start + middle.length = stop) :
    slice (first ++ (middle ++ last)) start stop = middle := by
  subst before inside
  simp [slice, List.take_append]

theorem copyFromSlice_after {written : List UInt8} {start : Nat} (before : written.length = start)
    (old source : List UInt8) :
    copyFromSlice (written ++ old) start source =
      (written ++ source) ++ old.drop source.length := by
  -- Writing right behind what has been written.
  subst before
  simp [copyFromSlice, List.drop_append]

theorem copyFromSlice_first (old source : List UInt8) :
    copyFromSlice old 0 source = source ++ old.drop source.length := by
  simp [copyFromSlice]

structure Request where
  seq : UInt32
  serviceUs : UInt32
  sendNs : Int64
  deriving DecidableEq, Repr

def encodeRequest (seq serviceUs : UInt32) (sendNs : Int64) (buf : RequestHeader) : RequestHeader :=
  let buf0 := copyFromSlice buf.1 0 (u32ToLeBytes requestMagic)
  let buf1 := copyFromSlice buf0 4 (u32ToLeBytes seq)
  let buf2 := copyFromSlice buf1 8 (u32ToLeBytes serviceUs)
  let buf3 := copyFromSlice buf2 12 (u32ToLeBytes 0)
  let buf4 := copyFromSlice buf3 16 (i64ToLeBytes sendNs)
  ⟨buf4, by
    have start : buf.1.length = 24 := buf.2
    simp only [buf4, buf3, buf2, buf1, buf0, requestHeaderLen, copyFromSlice, List.length_append,
      List.length_take, List.length_drop, u32ToLeBytes_length, i64ToLeBytes_length, start]
    rfl⟩

def decodeRequest (buf : RequestHeader) : Option Request :=
  -- `none` when the magic does not match.
  let magic := u32FromLeBytes (slice buf.1 0 4)
  if magic ≠ requestMagic then none
  else
    let seq := u32FromLeBytes (slice buf.1 4 8)
    let serviceUs := u32FromLeBytes (slice buf.1 8 12)
    let sendNs := i64FromLeBytes (slice buf.1 16 24)
    some { seq, serviceUs, sendNs }

def encodeResponse (seq workerId : UInt32) (sendNs : Int64) (buf : ResponseBuf) : ResponseBuf :=
  let buf0 := copyFromSlice buf.1 0 (u32ToLeBytes seq)
  let buf1 := copyFromSlice buf0 4 (u32ToLeBytes workerId)
  let buf2 := copyFromSlice buf1 8 (i64ToLeBytes sendNs)
  ⟨buf2, by
    have start : buf.1.length = 16 := buf.2
    simp only [buf2, buf1, buf0, responseLen, copyFromSlice, List.length_append,
      List.length_take, List.length_drop, u32ToLeBytes_length, i64ToLeBytes_length, start]
    rfl⟩

theorem encodeResponse_bytes (seq workerId : UInt32) (sendNs : Int64) (buf : ResponseBuf) :
    (encodeResponse seq workerId sendNs buf).1 =
      u32ToLeBytes seq ++ (u32ToLeBytes workerId ++ i64ToLeBytes sendNs) := by
  -- The three fields fill the buffer, whatever was in it.
  have total : buf.1.length = 16 := buf.2
  simp only [encodeResponse]
  rw [copyFromSlice_first, copyFromSlice_after (by simp), copyFromSlice_after (by simp)]
  simp [total, List.drop_eq_nil_of_le]

def decodeResponse (buf : ResponseBuf) : UInt32 × UInt32 × Int64 :=
  let seq := u32FromLeBytes (slice buf.1 0 4)
  let workerId := u32FromLeBytes (slice buf.1 4 8)
  let sendNs := i64FromLeBytes (slice buf.1 8 16)
  (seq, workerId, sendNs)

theorem decodeResponse_encodeResponse (seq workerId : UInt32) (sendNs : Int64) (buf : ResponseBuf) :
    decodeResponse (encodeResponse seq workerId sendNs buf) = (seq, workerId, sendNs) := by
  have bytes := encodeResponse_bytes seq workerId sendNs buf
  have first : slice (encodeResponse seq workerId sendNs buf).1 0 4 = u32ToLeBytes seq := by
    rw [bytes, ← List.nil_append (u32ToLeBytes seq ++ _)]
    exact slice_append rfl (by simp)
  have second : slice (encodeResponse seq workerId sendNs buf).1 4 8 = u32ToLeBytes workerId := by
    rw [bytes]
    exact slice_append (by simp) (by simp)
  have third : slice (encodeResponse seq workerId sendNs buf).1 8 16 = i64ToLeBytes sendNs := by
    rw [bytes, ← List.append_assoc, ← List.append_nil (i64ToLeBytes sendNs)]
    exact slice_append (by simp) (by simp)
  simp only [decodeResponse, first, second, third, u32FromLeBytes_u32ToLeBytes,
    i64FromLeBytes_i64ToLeBytes]

-- `[0u8; REQUEST_HEADER_LEN]`
def zeroHeader : RequestHeader := ⟨List.replicate requestHeaderLen 0, by simp⟩

-- `[0u8; RESPONSE_LEN]`
def zeroResponse : ResponseBuf := ⟨List.replicate responseLen 0, by simp⟩

example : decodeRequest (encodeRequest 7 100 (-5) zeroHeader) = some ⟨7, 100, -5⟩ := by decide

end MicroHermes
