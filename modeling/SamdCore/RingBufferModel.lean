import SamdCore.CircularSegment

/-!
`core/RingBuffer.h`, function by function.

A pointer into `_buffer` is its offset from the start of the array, so `endPtr`
is `N`; `_buffer` and `_rx_buffer` are 4-byte aligned, so the two low bits of an
address are those of its offset. Arrays are memories that do not end: a copy
past the end of one is not hidden by the model. The saving of PRIMASK around
each call is the subject of the critical-section modules and left out here.
-/
namespace SamdCore
open CircularSegment

/-- The conversion to `int16_t`. -/
def int16 (x : Int) : Int := Int.bmod x 65536

/-- The conversion to `uint8_t`. -/
def uint8 (x : Int) : Nat := (x % 256).toNat

def bufferUsbRxAlign : Nat := 0x1
def bufferUsbTxAlign : Nat := 0x2

structure RingBuffer (N align : Nat) where
  buffer : Nat → UInt8
  rxBuffer : Nat → UInt8
  headPtr : Nat
  tailPtr : Nat

/-- One `memcpy` between `_buffer` and another array: the caller's, of the length
the caller gives, or `_rx_buffer`. -/
structure Memcpy where
  ringOffset : Nat
  otherOffset : Nat
  otherSize : Nat
  length : Nat
deriving DecidableEq

/-- What `prepareDirectWrite` returns a pointer to. -/
inductive WritePtr
  | buffer (offset : Nat)
  | rxBuffer
deriving DecidableEq

namespace RingBuffer
variable {N align : Nat}

def endPtr (_ : RingBuffer N align) : Nat := N

def clear (r : RingBuffer N align) : RingBuffer N align :=
  { r with headPtr := 0, tailPtr := 0 }

/-- The constructor; the arrays keep what the memory held before. -/
def construct (N align : Nat) (buffer rxBuffer : Nat → UInt8) : RingBuffer N align :=
  clear { buffer, rxBuffer, headPtr := 0, tailPtr := 0 }

def wrapHeadPtr (r : RingBuffer N align) : RingBuffer N align :=
  { r with headPtr := wrap r.endPtr r.headPtr }

def wrapTailPtr (r : RingBuffer N align) : RingBuffer N align :=
  { r with tailPtr := wrap r.endPtr r.tailPtr }

def usedSpace (r : RingBuffer N align) : Nat :=
  let ptrDiff := int16 ((r.headPtr : Int) - r.tailPtr)
  let ptrDiff := if ptrDiff < 0 then int16 ((N : Int) + ptrDiff) else ptrDiff
  -- `ptr_diff & 0xFF` is the residue modulo 256
  uint8 (ptrDiff % 256)

def availableSpace (r : RingBuffer N align) : Nat :=
  uint8 ((N : Int) - r.usedSpace - 1)

def isFull (r : RingBuffer N align) : Bool := r.availableSpace == 0

def isEmpty (r : RingBuffer N align) : Bool := r.headPtr == r.tailPtr

/-- `memcpy` from another array into `_buffer`. -/
def memcpyIn (r : RingBuffer N align) (other : Nat → UInt8) (c : Memcpy) :
    RingBuffer N align :=
  { r with buffer := blit r.buffer c.ringOffset (slice other c.otherOffset c.length) }

/-- `memcpy` from `_buffer` into another array. -/
def memcpyOut (r : RingBuffer N align) (other : Nat → UInt8) (c : Memcpy) : Nat → UInt8 :=
  blit other c.otherOffset (slice r.buffer c.ringOffset c.length)

/-- `store(const char* buffer, uint8_t len)`: the count it returns, and the copies it makes. -/
def storeBuffer (r : RingBuffer N align) (buffer : Nat → UInt8) (len : Nat) :
    RingBuffer N align × Nat × List Memcpy :=
  let maxLen := min len r.availableSpace
  let (r, bufferPtr, maxLen, copies) :=
    if r.headPtr + maxLen ≥ r.endPtr then
      let prewrapLen := uint8 ((r.endPtr : Int) - 1 - r.headPtr)
      let copy : Memcpy := ⟨r.headPtr, 0, len, prewrapLen⟩
      ({ r.memcpyIn buffer copy with headPtr := 0 }, prewrapLen,
        uint8 ((maxLen : Int) - prewrapLen), [copy])
    else (r, 0, maxLen, [])
  -- `total_transfered` and the shift of `bufferPtr` are the same count
  let copy : Memcpy := ⟨r.headPtr, bufferPtr, len, maxLen⟩
  ({ r.memcpyIn buffer copy with headPtr := r.headPtr + maxLen },
    uint8 ((bufferPtr : Int) + maxLen), copies ++ [copy])

/-- `store(const uint8_t c)` -/
def storeChar (r : RingBuffer N align) (c : UInt8) : RingBuffer N align × Nat :=
  if r.isFull then (r, 0)
  else
    (wrapHeadPtr { r with buffer := blit r.buffer r.headPtr [c], headPtr := r.headPtr + 1 }, 1)

def readChar (r : RingBuffer N align) : RingBuffer N align × UInt8 :=
  if r.isEmpty then (r, 0)
  else (wrapTailPtr { r with tailPtr := r.tailPtr + 1 }, r.buffer r.tailPtr)

/-- `read(uint8_t* buffer, uint8_t max_len)`: the caller's array after it, the
count it returns, and the copies it makes. -/
def read (r : RingBuffer N align) (buffer : Nat → UInt8) (maxLen : Nat) :
    RingBuffer N align × (Nat → UInt8) × Nat × List Memcpy :=
  let totalLen := min maxLen r.usedSpace
  let (r, buffer, shift, totalLen, copies) :=
    if r.tailPtr + totalLen ≥ r.endPtr then
      let prewrapLen := uint8 ((r.endPtr : Int) - 1 - r.tailPtr)
      let copy : Memcpy := ⟨r.tailPtr, 0, maxLen, prewrapLen⟩
      ({ r with tailPtr := 0 }, r.memcpyOut buffer copy, prewrapLen,
        uint8 ((totalLen : Int) - prewrapLen), [copy])
    else (r, buffer, 0, totalLen, [])
  let copy : Memcpy := ⟨r.tailPtr, shift, maxLen, totalLen⟩
  ({ r with tailPtr := r.tailPtr + totalLen }, r.memcpyOut buffer copy,
    uint8 ((shift : Int) + totalLen), copies ++ [copy])

/-- The condition under which a direct write goes through `_rx_buffer`. -/
def bounced (r : RingBuffer N align) : Prop :=
  align &&& bufferUsbRxAlign ≠ 0 ∧ r.headPtr % 4 ≠ 0

instance (r : RingBuffer N align) : Decidable r.bounced :=
  inferInstanceAs (Decidable (_ ∧ _))

def prepareDirectWrite (r : RingBuffer N align) : WritePtr × Nat :=
  let maxLen := uint8 (min ((r.endPtr : Int) - r.headPtr) r.availableSpace)
  if r.bounced then (.rxBuffer, min maxLen 8) else (.buffer r.headPtr, maxLen)

/-- The pointer returned is the tail; the length is written through `len`. -/
def prepareDirectRead (r : RingBuffer N align) : RingBuffer N align × Nat × Nat :=
  let maxLen := uint8 (min ((r.endPtr : Int) - r.tailPtr) r.usedSpace)
  if align &&& bufferUsbTxAlign ≠ 0 then
    if maxLen < 4 then
      (wrapHeadPtr { r with headPtr := r.headPtr + (4 - maxLen) }, r.tailPtr, maxLen)
    else (r, r.tailPtr, maxLen - maxLen % 4)
  else (r, r.tailPtr, maxLen)

def completeDirectWrite (r : RingBuffer N align) (len : Nat) :
    RingBuffer N align × List Memcpy :=
  let copy : Memcpy := ⟨r.headPtr, 0, 8, len⟩
  let (r, copies) := if r.bounced then (r.memcpyIn r.rxBuffer copy, [copy]) else (r, [])
  (wrapHeadPtr { r with headPtr := r.headPtr + len }, copies)

def completeDirectRead (r : RingBuffer N align) (len : Nat) : RingBuffer N align :=
  let len :=
    if align &&& bufferUsbTxAlign ≠ 0 ∧ len % 4 ≠ 0 then uint8 (((len - len % 4 : Nat) : Int) + 4)
    else len
  wrapTailPtr { r with tailPtr := r.tailPtr + len }

end RingBuffer
end SamdCore
