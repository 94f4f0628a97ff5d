import FightingCard.Lib.Bytes

set_option relaxedAutoImplicit false
set_option autoImplicit false

/-!
# Frame buffers

The buffer every connection of the repository reads into and writes from
(`common/buffer.h`): a block of `kMaxBufferSize` bytes whose first bytes hold the size of the
body that follows, in the byte order of the host (little-endian).

The memory of a buffer is total, so an access past `kMaxBufferSize` reads or changes the bytes
behind the buffer. Whether an access stays inside is a property to prove, not a check of the
model.

## Main definitions

* `FightingCard.Buffer` — `Buffer<HeaderType, kMaxBufferSize>`, with `HeaderType` the unsigned
  type of `w` bytes.
* `FightingCard.Buffer.sizeValid` — the check made on a received header.
* `FightingCard.Buffer.Inside` — the frame a header announces lies inside the buffer.
* `FightingCard.ProtoMsg` — a protobuf message as the encoders see it.

## Main results

* `FightingCard.Buffer.getBodySize_setBodySize` — the size field holds what was stored in it.
* `FightingCard.Buffer.sizeValid_iff` — a 16-bit header is accepted exactly between `1` and
  `kMaxBufferSize`.
* `FightingCard.Buffer.inside_of_sizeValid_iff` — the headers that are accepted only if the
  frame fits.
-/

namespace FightingCard

open ByteMem

/-- A `std::string`: a sequence of bytes, of any length and with any content. -/
abbrev Bytes := List UInt8

/-- The value of an integer expression after its conversion to the 64-bit `size_t`. -/
def sizeT (x : ℤ) : ℕ := (x % 2 ^ 64).toNat

/-- A difference that is nonnegative and small is kept by the conversion to `size_t`. -/
lemma sizeT_natCast {n : ℕ} (h : n < 2 ^ 64) : sizeT n = n := by
  simp only [sizeT]
  omega

/-- A `google::protobuf::Message` as the encoders see it: `GetTypeName()`, and the bytes that
`SerializeToArray` produces, whose number is `ByteSize()`. -/
structure ProtoMsg where
  typeName : Bytes
  data : Bytes

namespace ProtoMsg

/-- `ByteSize()`. -/
def byteSize (msg : ProtoMsg) : ℕ := msg.data.length

/-- `SerializeToArray(address, size)`: stores the serialized bytes, or nothing when they do
not fit into `size` bytes. -/
def serializeToArray (msg : ProtoMsg) (m : Mem) (address size : ℕ) : Mem :=
  if msg.byteSize ≤ size then write m address msg.data else m

end ProtoMsg

/-- `Buffer<HeaderType, kMaxBufferSize>` for the unsigned `HeaderType` of `w` bytes: the bytes
from `buf_` on. -/
@[ext]
structure Buffer (w kMaxBufferSize : ℕ) where
  buf : Mem

namespace Buffer

variable {w kMaxBufferSize : ℕ} (b : Buffer w kMaxBufferSize)

/-- The constructor: `memset(buf_, 0, kMaxBufferSize)`. -/
def new : Buffer w kMaxBufferSize := ⟨fun _ => 0⟩

/-- `get_header_size()`. -/
def getHeaderSize (_ : Buffer w kMaxBufferSize) : ℕ := w

/-- `get_max_size()`. -/
def getMaxSize (_ : Buffer w kMaxBufferSize) : ℕ := kMaxBufferSize

/-- `get_body()`, as an offset from `get_buf()`. -/
def getBody (_ : Buffer w kMaxBufferSize) : ℕ := w

/-- `get_body_size()`: the header read as an integer. -/
def getBodySize : ℕ := leNat (read b.buf 0 w)

/-- `set_body_size(body_size)`, after the conversion of the argument to `HeaderType`. -/
def setBodySize (bodySize : ℕ) : Buffer w kMaxBufferSize := ⟨write b.buf 0 (leBytes w bodySize)⟩

/-- `size()`: the sum is converted back to `HeaderType`. -/
def size : ℕ := (b.getHeaderSize + b.getBodySize) % 256 ^ w

/-- `SizeValid()`. The body size passes through a `const uint16_t&`, for every `HeaderType`. -/
def sizeValid : Bool :=
  let bodySize := b.getBodySize % 2 ^ 16
  if bodySize > b.getMaxSize then false
  else if bodySize ≤ 0 then false
  else true

/-- The bytes of the body. -/
def body : Bytes := read b.buf b.getBody b.getBodySize

/-- The bytes that `DoWrite` passes to `async_write`: `size()` bytes from `get_buf()`. -/
def wire : Bytes := read b.buf 0 b.size

/-- `b` holds the bytes that `c` sends: it has received them, whatever it held before. -/
def Receives (c : Buffer w kMaxBufferSize) : Prop := read b.buf 0 c.size = c.wire

/-- What `DoReadHeader` leaves in the buffer once `async_read` has received the header. -/
def readHeader (header : Bytes) : Buffer w kMaxBufferSize := ⟨write b.buf 0 header⟩

/-- What `DoReadBody` leaves in the buffer once `async_read` has received the body. -/
def readBody (body : Bytes) : Buffer w kMaxBufferSize := ⟨write b.buf b.getBody body⟩

/-- The bytes of the buffer from an offset on, up to `n` of them. -/
def extent (offset n : ℕ) : Bytes := read b.buf offset (min n (kMaxBufferSize - offset))

variable {b}

/-- The size field holds what was stored in it, modulo the width of the header. -/
lemma getBodySize_setBodySize (n : ℕ) : (b.setBodySize n).getBodySize = n % 256 ^ w := by
  have h : read (write b.buf 0 (leBytes w n)) 0 (leBytes w n).length = leBytes w n :=
    read_write_self
  rw [length_leBytes] at h
  rw [getBodySize, setBodySize, h, leNat_leBytes]

/-- The body size fits into the header. -/
lemma getBodySize_lt : b.getBodySize < 256 ^ w := by
  simpa [getBodySize] using leNat_lt (read b.buf 0 w)

/-- A buffer that starts with a size has that body size. -/
lemma getBodySize_of_read {n : ℕ} (h : read b.buf 0 w = leBytes w n) (hn : n < 256 ^ w) :
    b.getBodySize = n := by
  rw [getBodySize, h, leNat_leBytes_of_lt hn]

/-- A body stored together with its size. -/
lemma body_store {m : Mem} {bs : Bytes} (h : bs.length < 256 ^ w) :
    (setBodySize (⟨write m w bs⟩ : Buffer w kMaxBufferSize) bs.length).getBodySize = bs.length ∧
      (setBodySize (⟨write m w bs⟩ : Buffer w kMaxBufferSize) bs.length).body = bs := by
  have hsize := getBodySize_setBodySize (b := (⟨write m w bs⟩ : Buffer w kMaxBufferSize)) bs.length
  rw [Nat.mod_eq_of_lt h] at hsize
  refine ⟨hsize, ?_⟩
  rw [body, hsize, setBodySize, getBody, read_write_of_disjoint (.inl (by simp)), read_write_self]

/-- A header is accepted by its low 16 bits. -/
lemma sizeValid_iff_mod : b.sizeValid = true ↔
    0 < b.getBodySize % 2 ^ 16 ∧ b.getBodySize % 2 ^ 16 ≤ kMaxBufferSize := by
  simp only [sizeValid, getMaxSize]
  split_ifs <;> simp <;> omega

/-- A 16-bit header is accepted exactly when it is positive and at most the buffer size. -/
lemma sizeValid_iff {b : Buffer 2 kMaxBufferSize} :
    b.sizeValid = true ↔ 0 < b.getBodySize ∧ b.getBodySize ≤ kMaxBufferSize := by
  have hlt : b.getBodySize < 65536 := getBodySize_lt
  have hmod : b.getBodySize % 2 ^ 16 = b.getBodySize := Nat.mod_eq_of_lt hlt
  rw [sizeValid_iff_mod, hmod]

/-! ## Frames larger than the buffer -/

variable (b) in
/-- The frame that the header of a buffer announces lies inside the buffer, so that `DoReadBody`
does not read past it, and `size()` is the size of this frame. -/
def Inside : Prop :=
  b.getHeaderSize + b.getBodySize ≤ kMaxBufferSize ∧
    b.size = b.getHeaderSize + b.getBodySize

instance : Decidable b.Inside := by
  unfold Inside
  infer_instance

/-- A frame that is not larger than the buffer lies inside it. -/
lemma inside_of_le (hmax : kMaxBufferSize < 256 ^ w) (h : w + b.getBodySize ≤ kMaxBufferSize) :
    b.Inside := by
  refine ⟨h, ?_⟩
  rw [size, getHeaderSize]
  exact Nat.mod_eq_of_lt (by omega)

/-- **Accepted headers.** `SizeValid` compares the low 16 bits of the body size with the size of
the whole buffer. So it keeps `DoReadBody` inside the buffer exactly for the headers whose low
16 bits it refuses and for those whose frame fits anyway.

**Proof sketch.** A header that is accepted has low 16 bits between `1` and `kMaxBufferSize`
(`sizeValid_iff_mod`); its frame lies inside the buffer exactly if it fits (`inside_of_le`). -/
theorem inside_of_sizeValid_iff (hmax : kMaxBufferSize < 256 ^ w) (b : Buffer w kMaxBufferSize) :
    (b.sizeValid = true → b.Inside) ↔
      b.getBodySize % 2 ^ 16 = 0 ∨ kMaxBufferSize < b.getBodySize % 2 ^ 16 ∨
        w + b.getBodySize ≤ kMaxBufferSize := by
  rw [sizeValid_iff_mod]
  constructor
  · intro h
    by_cases hacc : 0 < b.getBodySize % 2 ^ 16 ∧ b.getBodySize % 2 ^ 16 ≤ kMaxBufferSize
    · exact .inr (.inr (h hacc).1)
    · omega
  · rintro (hzero | hlarge | hfits) ⟨hpos, hle⟩
    · omega
    · omega
    · exact inside_of_le hmax hfits

/-- A 32-bit header whose low 16 bits are `1` announces a frame that does not fit. -/
theorem inside_of_sizeValid_wrapped :
    ¬ ((setBodySize .new 0xffff0001 : Buffer 4 (512 * 1024)).sizeValid = true →
      (setBodySize .new 0xffff0001 : Buffer 4 (512 * 1024)).Inside) := by
  rw [inside_of_sizeValid_iff (by decide)]
  decide +kernel

/-- A body of the size of the buffer is accepted with a 16-bit header, and with a 32-bit header
a body of four gigabytes. -/
theorem sizeValid_outside :
    (¬ ∀ b : Buffer 2 (16 * 1024), b.sizeValid = true → b.Inside) ∧
      ¬ ∀ b : Buffer 4 (512 * 1024), b.sizeValid = true → b.Inside := by
  constructor
  · intro h
    exact absurd (h (setBodySize .new 16384) (by decide +kernel)) (by decide +kernel)
  · intro h
    exact absurd (h (setBodySize .new 0xffff0001) (by decide +kernel)) (by decide +kernel)

/-- The header of a buffer is untouched by the arrival of its body. -/
lemma getBodySize_readBody (body : Bytes) : (b.readBody body).getBodySize = b.getBodySize := by
  rw [getBodySize, readBody, getBody, read_write_of_disjoint (.inr (by omega)), getBodySize]

/-- The header of a frame that is sent gives its body size to the receiving end. -/
lemma getBodySize_readHeader_wire {c : Buffer w kMaxBufferSize} (h : w ≤ c.size) :
    (b.readHeader (c.wire.take w)).getBodySize = c.getBodySize := by
  have htake : c.wire.take w = read c.buf 0 w := by
    rw [wire, ← Nat.add_sub_cancel' h, read_add, List.take_left' length_read]
  have hread : read (write b.buf 0 (read c.buf 0 w)) 0 (read c.buf 0 w).length =
    read c.buf 0 w := read_write_self
  rw [length_read] at hread
  rw [getBodySize, readHeader, htake, hread, getBodySize]

/-- A received header and body lie in the buffer as one block. -/
lemma readBody_readHeader {header body : Bytes} (h : header.length = w) :
    ((b.readHeader header).readBody body).buf = write b.buf 0 (header ++ body) := by
  rw [← write_write_append]
  simp [readBody, readHeader, getBody, h]

end Buffer

end FightingCard
