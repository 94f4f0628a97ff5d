import FightingCard.Common.Session
import FightingCard.Common.UserBuffer
import FightingCard.Lib.Machine

set_option relaxedAutoImplicit false
set_option autoImplicit false

/-!
# Message transfer

Two ends of one connection: one end is handed messages by `Write`, the other end runs its read
loop. Both ends are `FightingCard.Session`s, and between them is a reliable ordered byte stream
that takes and gives any number of bytes at a time. The receiving end has one `read_buf_`, into
which the bytes of every header and every body are stored as they arrive.

The scheduler picks who moves next: the caller of `Write`, either io thread, the network on
either side, or the completion of an operation.

## Main definitions

* `FightingCard.Link` — the two ends and what is between them.
* `FightingCard.Link.machine` — their steps; a run records the contents of `read_buf_` at every
  call of `OnReadBody`.
* `FightingCard.Link.Transfers` — the invariant: the bytes of the messages that are not delivered
  yet are those in `read_buf_`, on the stream, in flight and still held by the sender.

## Main results

* `FightingCard.Link.transfer` — every schedule delivers every message once, in order and intact.
-/

namespace FightingCard

open ByteMem

/-- A connection that carries messages one way: the frames still to be handed to `Write`, the
sending end, the bytes of the running `async_write` that are not on the stream yet, the stream,
the receiving end with its `read_buf_`, and the number of bytes that the running `async_read` has
received. -/
structure Link where
  pending : List UserBuffer
  sender : Session UserBuffer Unit := {}
  inFlight : Bytes := []
  stream : Bytes := []
  receiver : Session Unit UserBuffer
  readBuf : UserBuffer := .new
  got : ℕ := 0

namespace Link

open Session

/-- What can happen next: the next frame is handed to `Write`, the io thread of an end runs its
next handler, `n` bytes enter or leave the stream, the running `async_write` or `async_read`
completes. -/
inductive Event where
  | write
  | sender
  | transfer (n : ℕ)
  | writeDone
  | receive (n : ℕ)
  | readDone
  | receiver

/-- The frame whose `async_write` a list of signals starts. -/
def started {β φ : Type} : List (Signal β φ) → Option β
  | [] => none
  | .asyncWrite buf :: _ => some buf
  | _ :: xs => started xs

/-- The extent of `read_buf_` that the running `async_read` fills: where it starts and how many
bytes it has. -/
def wanted (x : Session Unit UserBuffer) (readBuf : UserBuffer) : Option (ℕ × ℕ) :=
  x.reading.head?.map fun
    | .header => (0, readBuf.getHeaderSize)
    | .body => (readBuf.getBody, readBuf.getBodySize)

/-- The hooks of the receiving end: `OnReadBody` accepts. -/
def hooks : Hooks UserBuffer := ⟨fun b => b.sizeValid, fun _ => true⟩

/-- One step, with the contents of `read_buf_` that `OnReadBody` is called with. -/
def step (L : Link) : Event → Option (Link × List UserBuffer)
  | .write =>
    match L.pending with
    | [] => none
    | buf :: pending => some ({ L with pending, sender := L.sender.write buf }, [])
  | .sender =>
    (L.sender.runHandler ⟨fun _ => true, fun _ => true⟩ false).map fun (sender, xs) =>
      ({ L with sender, inFlight := ((started xs).map Buffer.wire).getD L.inFlight }, [])
  | .transfer n =>
    if 0 < n ∧ n ≤ L.inFlight.length then
      some ({ L with inFlight := L.inFlight.drop n, stream := L.stream ++ L.inFlight.take n }, [])
    else none
  | .writeDone =>
    if L.inFlight = [] then (L.sender.completeWrite true).map fun sender => ({ L with sender }, [])
    else none
  | .receive n =>
    match wanted L.receiver L.readBuf with
    | none => none
    | some (offset, count) =>
      if 0 < n ∧ n ≤ L.stream.length ∧ L.got + n ≤ count then
        some ({ L with
          stream := L.stream.drop n
          readBuf := ⟨write L.readBuf.buf (offset + L.got) (L.stream.take n)⟩
          got := L.got + n }, [])
      else none
  | .readDone =>
    match wanted L.receiver L.readBuf with
    | none => none
    | some (_, count) =>
      if L.got = count then
        (L.receiver.completeRead (some L.readBuf)).map fun receiver =>
          ({ L with receiver, got := 0 }, [])
      else none
  | .receiver =>
    (L.receiver.runHandler hooks false).map fun (receiver, xs) => ({ L with receiver }, readOf xs)

/-- The frames of a list of messages. -/
def frames (msgs : List UserBuffer.Message) : List UserBuffer :=
  msgs.map fun msg => .ofMsg msg.toProtoMsg

/-- A fresh connection on which the given messages are to be sent. -/
def init (msgs : List UserBuffer.Message) : Link where
  pending := frames msgs
  receiver := asyncRead {} .header

/-- The connection as a machine. -/
def machine (msgs : List UserBuffer.Message) : Machine Link Event UserBuffer := ⟨init msgs, step⟩

/-! ## The sending end -/

/-- The bytes of a list of frames. -/
def wires (bufs : List UserBuffer) : Bytes := bufs.flatMap Buffer.wire

/-- The number of completed writes in a queue. -/
def acks (q : List (Handler UserBuffer Unit)) : ℕ :=
  q.countP fun
    | .written _ => true
    | _ => false

/-- The sending end without errors: only `Write` tasks and successful completions are queued, and
the front of `write_bufs_`, if there is one, has been handed to `async_write`, which is running
or has completed. -/
structure Sending (x : Session UserBuffer Unit) (inFlight : Bytes) : Prop where
  isOpen : x.isOpen = true
  queue : ∀ h ∈ x.queue, (∃ buf, h = .write buf) ∨ h = .written (.ok ())
  one : x.writing.length + acks x.queue = min 1 x.writeBufs.length
  idle : x.writing = [] → inFlight = []

/-- The bytes that the sending end has not put on the stream yet. -/
def unsent (x : Session UserBuffer Unit) (inFlight : Bytes) : Bytes :=
  inFlight ++ wires x.writeBufs.tail ++ wires (posted x.queue)

/-- The work left with frames: four units a byte and `k` a frame. -/
def frameWork (k : ℕ) (bufs : List UserBuffer) : ℕ :=
  (bufs.map fun buf => 4 * buf.wire.length + k).sum

/-- The work left at the sending end: a frame costs less the further it has come. -/
def sendWork (x : Session UserBuffer Unit) (inFlight : Bytes) : ℕ :=
  frameWork 3 (posted x.queue) + x.queue.length + frameWork 3 x.writeBufs.tail +
    4 * inFlight.length + 2 * x.writing.length

variable {x y : Session UserBuffer Unit} {inFlight : Bytes} {bufs bufs' : List UserBuffer}
  {buf : UserBuffer} {k : ℕ}

/-- No frames make no bytes. -/
@[simp] lemma wires_nil : wires [] = [] := rfl

/-- The bytes of a frame come before those of the rest. -/
@[simp] lemma wires_cons : wires (buf :: bufs) = buf.wire ++ wires bufs := rfl

/-- The bytes of a longer list of frames. -/
@[simp] lemma wires_append : wires (bufs ++ bufs') = wires bufs ++ wires bufs' := by
  simp [wires]

/-- No frames make no work. -/
@[simp] lemma frameWork_nil : frameWork k [] = 0 := rfl

/-- The work of a frame comes on top of that of the rest. -/
@[simp] lemma frameWork_cons :
    frameWork k (buf :: bufs) = 4 * buf.wire.length + k + frameWork k bufs := rfl

/-- The work of a longer list of frames. -/
@[simp] lemma frameWork_append :
    frameWork k (bufs ++ bufs') = frameWork k bufs + frameWork k bufs' := by
  simp [frameWork]

/-- **One handler of the sending end** keeps the bytes that are still to be put on the stream,
and there is less work left.

**Proof sketch.** A handler is a `Write` task or the completion of a write. A task puts its frame
behind those in `write_bufs_`, and if there are none, it starts to send it. A completion takes the
front frame away, which has been sent, and starts to send the next one. In each case the bytes of
the frames that are still to be sent are the same, in the same order. -/
lemma Sending.handle {h : Handler UserBuffer Unit} {rest : List (Handler UserBuffer Unit)}
    {hooks : Hooks Unit} {xs : List (Signal UserBuffer Unit)} {inFlight' : Bytes}
    (hx : Sending x inFlight) (hqueue : x.queue = h :: rest)
    (hrun : { x with queue := rest }.handle hooks false h = (y, xs))
    (hflight : inFlight' = ((started xs).map Buffer.wire).getD inFlight) :
    Sending y inFlight' ∧ unsent y inFlight' = unsent x inFlight ∧
      sendWork y inFlight' < sendWork x inFlight := by
  obtain ⟨isOpen, reading, writing, writeBufs, timerArmed, queue⟩ := x
  obtain ⟨hopen, hhandlers, hone, hidle⟩ := hx
  simp only at hqueue hopen hhandlers hone hidle
  subst hqueue hopen hflight
  have hrest : ∀ h ∈ rest, (∃ buf, h = .write buf) ∨ h = .written (.ok ()) := fun h hh =>
    hhandlers h (List.mem_cons_of_mem _ hh)
  rcases hhandlers h List.mem_cons_self with ⟨buf, rfl⟩ | rfl
  · cases writeBufs with
    | nil =>
      -- the frame is sent at once
      obtain rfl : writing = [] := by
        cases writing with
        | nil => rfl
        | cons => simp at hone
      obtain rfl := hidle rfl
      cases hrun
      refine ⟨⟨rfl, hrest, ?_, by simp⟩, ?_, ?_⟩
      · simpa [acks] using hone
      · simp [unsent, started, posted]
      · simp [sendWork, started, posted]
        omega
    | cons front bufs =>
      cases hrun
      refine ⟨⟨rfl, hrest, ?_, hidle⟩, ?_, ?_⟩
      · simpa [acks] using hone
      · simp [unsent, started, posted]
      · simp [sendWork, started, posted]
        omega
  · cases writeBufs with
    | nil =>
      -- a completed write has a frame at the front
      simp [acks] at hone
    | cons front bufs =>
      obtain rfl : writing = [] := by
        cases writing with
        | nil => rfl
        | cons =>
          simp [acks] at hone
          omega
      obtain rfl := hidle rfl
      cases bufs with
      | nil =>
        cases hrun
        refine ⟨⟨rfl, hrest, ?_, by simp [started]⟩, ?_, ?_⟩
        · simpa [acks] using hone
        · simp [unsent, started, posted]
        · simp [sendWork, started, posted]
      | cons next bufs =>
        cases hrun
        refine ⟨⟨rfl, hrest, ?_, by simp⟩, ?_, ?_⟩
        · simpa [acks] using hone
        · simp [unsent, started, posted]
        · simp [sendWork, started, posted]
          omega

/-- A frame handed to `Write`. -/
lemma Sending.write (hx : Sending x inFlight) (buf : UserBuffer) :
    Sending (x.write buf) inFlight ∧
      unsent (x.write buf) inFlight = unsent x inFlight ++ buf.wire ∧
      sendWork (x.write buf) inFlight = sendWork x inFlight + 4 * buf.wire.length + 4 := by
  refine ⟨⟨hx.isOpen, fun h hh => ?_, ?_, hx.idle⟩, ?_, ?_⟩
  · rcases List.mem_append.mp hh with hh | hh
    · exact hx.queue h hh
    · exact .inl ⟨buf, List.mem_singleton.mp hh⟩
  · simpa [Session.write, post, acks] using hx.one
  · simp [unsent, Session.write, post, posted]
  · simp [sendWork, Session.write, post, posted]
    omega

/-- The running `async_write` completes. -/
lemma Sending.completeWrite (hx : Sending x []) (h : x.completeWrite true = some y) :
    Sending y [] ∧ unsent y [] = unsent x [] ∧ sendWork y [] < sendWork x [] := by
  obtain ⟨isOpen, reading, writing, writeBufs, timerArmed, queue⟩ := x
  obtain ⟨hopen, hhandlers, hone, -⟩ := hx
  simp only at hopen hhandlers hone
  cases writing with
  | nil => cases h
  | cons front bufs =>
    cases h
    refine ⟨⟨hopen, fun h hh => ?_, ?_, fun _ => rfl⟩, ?_, ?_⟩
    · rcases List.mem_append.mp hh with hh | hh
      · exact hhandlers h hh
      · exact .inr (List.mem_singleton.mp hh)
    · simp only [post, acks, List.countP_append, List.length_cons] at hone ⊢
      simp
      omega
    · simp [unsent, post, posted]
    · simp [sendWork, post, posted]
      omega

/-! ## The receiving end -/

/-- The receiving end between two handlers, `n` bytes of the current frame being in `read_buf_`:
`got` bytes of the header or of the body have arrived, or all of them have and the handler is
queued. -/
inductive Receiving (b : UserBuffer) :
    (x : Session Unit UserBuffer) → (got n : ℕ) → Prop
  | header {got} (hgot : got ≤ 2) : Receiving b { reading := [.header] } got got
  | headerDone : Receiving b { queue := [.readHeader (.ok b)] } 0 2
  | body {got} (hgot : got ≤ b.getBodySize) : Receiving b { reading := [.body] } got (2 + got)
  | bodyDone : Receiving b { queue := [.readBody (.ok b)] } 0 (2 + b.getBodySize)

/-- The work left for the frame that is being received. -/
def receiveWork (x : Session Unit UserBuffer) (got : ℕ) : ℕ :=
  match x.reading, x.queue with
  | .header :: _, _ => 2 * got
  | .body :: _, _ => 2
  | [], .readHeader _ :: _ => 3
  | [], .readBody _ :: _ => 1
  | [], _ => 0

variable {b : UserBuffer} {msg : UserBuffer.Message} {msgs rest : List UserBuffer.Message}
  {tail : Bytes} {n : ℕ}

/-- The bytes on the wire for a message are its frame and four more. -/
lemma wire_ofMsg (msg : UserBuffer.Message) : ∃ sum : Bytes, sum.length = 4 ∧
    (UserBuffer.ofMsg msg.toProtoMsg).wire = msg.frame ++ sum :=
  ⟨_, by simp, UserBuffer.wire_encode msg⟩

/-- The length of the bytes of the frames. -/
lemma length_wires_cons : (wires (frames (msg :: rest))).length =
    2 + msg.bodySize + (wires (frames rest)).length := by
  obtain ⟨sum, hsum, hwire⟩ := wire_ofMsg msg
  have hlen := msg.length_frame
  simp only [frames, List.map_cons, wires_cons, hwire, List.length_append]
  omega

/-- A buffer with at least the header of the bytes to come has the body size of the first
message. -/
lemma exists_message (hn : 2 ≤ n) (h : read b.buf 0 n ++ tail = wires (frames rest)) :
    ∃ msg rest', rest = msg :: rest' ∧ b.getBodySize = msg.bodySize := by
  obtain ⟨k, rfl⟩ : ∃ k, n = 2 + k := ⟨n - 2, by omega⟩
  cases rest with
  | nil =>
    have hlen := congrArg List.length h
    simp [frames] at hlen
  | cons msg rest' =>
    obtain ⟨sum, -, hwire⟩ := wire_ofMsg msg
    have hle := msg.bodySize_le
    simp only [frames, List.map_cons, wires_cons, hwire, UserBuffer.Message.frame,
      List.append_assoc, read_add] at h
    exact ⟨msg, rest', rfl, Buffer.getBodySize_of_read (List.append_inj h (by simp)).1 (by omega)⟩

/-- A buffer with all the bytes of the first message to come is decoded to this message. -/
lemma received_of_wires
    (h : read b.buf 0 (2 + msg.bodySize) ++ tail = wires (frames (msg :: rest))) :
    UserBuffer.received b = some msg.expected ∧ tail = wires (frames rest) := by
  obtain ⟨sum, hsum, hwire⟩ := wire_ofMsg msg
  have hlen := msg.length_frame
  simp only [frames, List.map_cons, wires_cons, hwire] at h
  obtain ⟨hframe, htail⟩ := List.append_inj h (by simp; omega)
  rw [← hlen, read_add] at hframe
  exact ⟨UserBuffer.received_of_read msg (List.append_inj hframe (by simp)).1, htail⟩

variable {r r' : Session Unit UserBuffer} {got m offset count : ℕ}

/-- Bytes that arrive are appended to those of the current frame. -/
lemma Receiving.receive (hr : Receiving b r got m) (hwanted : wanted r b = some (offset, count))
    (bs : Bytes) (hle : got + bs.length ≤ count) :
    Receiving ⟨write b.buf (offset + got) bs⟩ r (got + bs.length) (m + bs.length) ∧
      read (write b.buf (offset + got) bs) 0 (m + bs.length) = read b.buf 0 m ++ bs ∧
      receiveWork r (got + bs.length) ≤ receiveWork r got + 2 * bs.length := by
  have hread : ∀ m, read (write b.buf m bs) 0 (m + bs.length) = read b.buf 0 m ++ bs := by
    intro m
    rw [← read_write_behind, Nat.zero_add]
  cases hr with
  | header hgot =>
    cases hwanted
    rw [Nat.zero_add]
    exact ⟨.header hle, hread got, by simp [receiveWork]; omega⟩
  | body hgot =>
    cases hwanted
    have hsize : Buffer.getBodySize (⟨write b.buf (2 + got) bs⟩ : UserBuffer) = b.getBodySize := by
      rw [Buffer.getBodySize, Buffer.getBodySize, read_write_of_disjoint (.inr (by omega))]
    rw [Nat.add_assoc, Buffer.getBody]
    exact ⟨.body (hsize ▸ hle), by rw [← Nat.add_assoc]; exact hread (2 + got), by
      simp [receiveWork]⟩
  | headerDone | bodyDone => cases hwanted

/-- The running `async_read` completes. -/
lemma Receiving.readDone (hr : Receiving b r got m) (hwanted : wanted r b = some (offset, got))
    (h : r.completeRead (some b) = some r') :
    Receiving b r' 0 m ∧ receiveWork r' 0 < receiveWork r got := by
  cases hr with
  | header =>
    cases hwanted
    cases h
    exact ⟨.headerDone, show 3 < 4 by decide⟩
  | body =>
    cases hwanted
    cases h
    exact ⟨.bodyDone, show 1 < 2 by decide⟩
  | headerDone | bodyDone => cases hwanted

/-- **One handler of the receiving end**: a header is accepted, and a body is that of the next
message.

**Proof sketch.** The handler is that of a header or of a body. The bytes that have been read start
with the frame of the next message (`exists_message`). So the size in the header is valid, and a
body that is complete is decoded to the message (`received_of_wires`), after which a new frame
begins. -/
lemma Receiving.handle {h : Handler Unit UserBuffer} {q : List (Handler Unit UserBuffer)}
    {xs : List (Signal Unit UserBuffer)} (hr : Receiving b r got m) (hqueue : r.queue = h :: q)
    (hrun : { r with queue := q }.handle hooks false h = (r', xs))
    (hbytes : read b.buf 0 m ++ tail = wires (frames rest)) :
    ∃ delivered rest' m', rest = delivered ++ rest' ∧
      (readOf xs).map UserBuffer.received = delivered.map (fun msg => some msg.expected) ∧
      Receiving b r' got m' ∧ read b.buf 0 m' ++ tail = wires (frames rest') ∧
      receiveWork r' got < receiveWork r got := by
  cases hr with
  | header | body => cases hqueue
  | headerDone =>
    cases hqueue
    obtain ⟨msg, rest', rfl, hsize⟩ := exists_message le_rfl hbytes
    have hvalid : hooks.onReadHeader b = true := by
      have hle := msg.bodySize_le
      refine Buffer.sizeValid_iff.mpr ?_
      rw [hsize]
      simp only [UserBuffer.Message.bodySize] at hle ⊢
      omega
    simp only [Session.handle, hvalid, if_true] at hrun
    cases hrun
    exact ⟨[], _, 2, rfl, rfl, .body (Nat.zero_le _), hbytes, show 2 < 3 by decide⟩
  | bodyDone =>
    cases hqueue
    obtain ⟨msg, rest', rfl, hsize⟩ := exists_message (by omega) hbytes
    rw [hsize] at hbytes
    obtain ⟨hmsg, htail⟩ := received_of_wires hbytes
    cases hrun
    exact ⟨[msg], rest', 0, rfl, by simp [readOf, hmsg], .header (Nat.zero_le _),
      by simpa using htail, show 0 < 1 by decide⟩

/-! ## The transfer -/

/-- The work left on a connection. -/
def work (L : Link) : ℕ :=
  frameWork 5 L.pending + sendWork L.sender L.inFlight + 3 * L.stream.length +
    receiveWork L.receiver L.got

/-- The messages delivered are a prefix of those to be sent, and the bytes of the others are those
of the current frame in `read_buf_`, those on the stream, those that the sending end holds and
those of the frames still to be handed to it, in this order. -/
structure Transfers (msgs : List UserBuffer.Message) (tr : List UserBuffer) (L : Link) : Prop where
  sending : Sending L.sender L.inFlight
  delivery : ∃ delivered rest n, msgs = delivered ++ rest ∧
    tr.map UserBuffer.received = delivered.map (fun msg => some msg.expected) ∧
    Receiving L.readBuf L.receiver L.got n ∧
    read L.readBuf.buf 0 n ++ (L.stream ++ (unsent L.sender L.inFlight ++ wires L.pending)) =
      wires (frames rest)

variable {L L' : Link} {tr out : List UserBuffer}

/-- A step on the sending side, where the bytes still to come stay the same. -/
lemma Transfers.of_sending {pending : List UserBuffer} {sender : Session UserBuffer Unit}
    {inFlight stream : Bytes} (hL : Transfers msgs tr L) (hs : Sending sender inFlight)
    (hbytes : stream ++ (unsent sender inFlight ++ wires pending) =
      L.stream ++ (unsent L.sender L.inFlight ++ wires L.pending)) :
    Transfers msgs (tr ++ []) { L with pending, sender, inFlight, stream } := by
  obtain ⟨-, delivered, rest, n, hmsgs, htr, hreceiving, hrest⟩ := hL
  rw [List.append_nil]
  exact ⟨hs, delivered, rest, n, hmsgs, htr, hreceiving, by rw [hbytes, hrest]⟩

/-- **One step** keeps the invariant, and there is less work left.

**Proof sketch.** By cases on what happens. A step of the sending end keeps the bytes that are still
to come (`Sending.write`, `Sending.handle`, `Sending.completeWrite`), and the network moves bytes
from one end of them to the other. The receiving end takes bytes from the stream into its buffer
(`Receiving.receive`), or has read a header or a body and hands it on (`Receiving.handle`), whose
message is moved from those that are still to come to those that were delivered. -/
lemma Transfers.step {e : Event} (hL : Transfers msgs tr L) (h : L.step e = some (L', out)) :
    Transfers msgs (tr ++ out) L' ∧ L'.work < L.work := by
  have hsending := hL.sending
  cases e with
  | write =>
    simp only [Link.step] at h
    split at h
    · cases h
    · rename_i buf pending hpending
      cases h
      obtain ⟨hs, hu, hw⟩ := hsending.write buf
      refine ⟨hL.of_sending hs (by simp [hu, hpending]), ?_⟩
      simp [work, hw, hpending]
      omega
  | sender =>
    simp only [Link.step, Option.map_eq_some_iff] at h
    obtain ⟨⟨y, xs⟩, hrun, heq⟩ := h
    cases heq
    obtain ⟨hd, q, hqueue, hhandle⟩ := runHandler_eq_some hrun
    obtain ⟨hs, hu, hw⟩ := hsending.handle hqueue hhandle rfl
    refine ⟨hL.of_sending hs (by rw [hu]), ?_⟩
    simp only [work]
    omega
  | transfer k =>
    simp only [Link.step] at h
    split at h
    · rename_i hk
      cases h
      have hs : Sending L.sender (L.inFlight.drop k) :=
        ⟨hsending.isOpen, hsending.queue, hsending.one, fun hw => by simp [hsending.idle hw]⟩
      refine ⟨hL.of_sending hs ?_, ?_⟩
      · simp only [unsent, List.append_assoc]
        rw [← List.append_assoc (List.take k L.inFlight), List.take_append_drop]
      · simp only [work, sendWork, List.length_drop, List.length_append, List.length_take]
        omega
    · cases h
  | writeDone =>
    simp only [Link.step] at h
    split at h
    · rename_i hidle
      obtain ⟨y, hy, heq⟩ := Option.map_eq_some_iff.mp h
      cases heq
      rw [hidle] at hsending
      obtain ⟨hs, hu, hw⟩ := hsending.completeWrite hy
      refine ⟨hL.of_sending (hidle ▸ hs) (by rw [hidle, hu]), ?_⟩
      simp only [work, hidle]
      omega
    · cases h
  | receive k =>
    obtain ⟨-, delivered, rest, n, hmsgs, htr, hreceiving, hbytes⟩ := hL
    simp only [Link.step] at h
    split at h
    · cases h
    · rename_i offset count hwanted
      split at h
      · rename_i hk
        cases h
        have hlen : (L.stream.take k).length = k := List.length_take_of_le hk.2.1
        obtain ⟨hr, hread, hw⟩ := hreceiving.receive hwanted (L.stream.take k) (by omega)
        rw [hlen] at hr hread hw
        refine ⟨⟨hsending, delivered, rest, n + k, hmsgs, by simpa using htr, hr, ?_⟩, ?_⟩
        · rw [hread, ← hbytes, List.append_assoc, ← List.append_assoc (List.take k L.stream),
            List.take_append_drop]
        · simp only [work, List.length_drop]
          omega
      · cases h
  | readDone =>
    obtain ⟨-, delivered, rest, n, hmsgs, htr, hreceiving, hbytes⟩ := hL
    simp only [Link.step] at h
    split at h
    · cases h
    · rename_i offset count hwanted
      split at h
      · rename_i hcount
        obtain ⟨y, hy, heq⟩ := Option.map_eq_some_iff.mp h
        cases heq
        obtain ⟨hr, hw⟩ := hreceiving.readDone (hcount ▸ hwanted) hy
        refine ⟨⟨hsending, delivered, rest, n, hmsgs, by simpa using htr, hr, hbytes⟩, ?_⟩
        simp only [work]
        omega
      · cases h
  | receiver =>
    obtain ⟨-, delivered, rest, n, hmsgs, htr, hreceiving, hbytes⟩ := hL
    simp only [Link.step, Option.map_eq_some_iff] at h
    obtain ⟨⟨y, xs⟩, hrun, heq⟩ := h
    cases heq
    obtain ⟨hd, q, hqueue, hhandle⟩ := runHandler_eq_some hrun
    obtain ⟨delivered', rest', m, rfl, hnew, hr, hbytes', hw⟩ :=
      hreceiving.handle hqueue hhandle hbytes
    refine ⟨⟨hsending, delivered ++ delivered', rest', m, by simp [hmsgs], ?_, hr, hbytes'⟩, ?_⟩
    · rw [List.map_append, List.map_append, htr, hnew]
    · simp only [work]
      omega

/-- The invariant holds in every run. -/
theorem transfers_of_run (h : (machine msgs).Reach tr L) : Transfers msgs tr L := by
  refine h.invariant (fun tr L => Transfers msgs tr L) ?_ fun _ _ _ _ _ _ ih _ hstep =>
    (ih.step hstep).1
  refine ⟨⟨rfl, by simp [machine, init], rfl, fun _ => rfl⟩, [], msgs, 0, rfl, rfl,
    .header (Nat.zero_le _), ?_⟩
  simp [machine, init, unsent, posted]

/-- A sending end with nothing to do has nothing left to send. -/
lemma Sending.unsent_eq_nil (hx : Sending x inFlight) (hqueue : x.queue = [])
    (hwriting : x.writing = []) : unsent x inFlight = [] := by
  have hone := hx.one
  have hbufs : x.writeBufs = [] := by
    cases hb : x.writeBufs with
    | nil => rfl
    | cons => simp [hqueue, hwriting, acks, hb] at hone
  simp [unsent, hx.idle hwriting, hbufs, hqueue, posted]

/-- Where nothing can happen any more, the sending side has nothing to do. -/
lemma idle_of_stuck (hstuck : ∀ e, L.step e = none) : L.pending = [] ∧ L.sender.queue = [] ∧
    L.inFlight = [] ∧ L.sender.writing = [] := by
  have hinFlight : L.inFlight = [] := by
    cases hi : L.inFlight with
    | nil => rfl
    | cons => simpa [Link.step, hi] using hstuck (.transfer 1)
  refine ⟨?_, ?_, hinFlight, ?_⟩
  · cases hp : L.pending with
    | nil => rfl
    | cons => simpa [Link.step, hp] using hstuck .write
  · cases hq : L.sender.queue with
    | nil => rfl
    | cons => simpa [Link.step, runHandler, hq] using hstuck .sender
  · cases hw : L.sender.writing with
    | nil => rfl
    | cons => simpa [Link.step, hinFlight, completeWrite, hw] using hstuck .writeDone

/-- Where nothing can happen any more, everything has been delivered.

**Proof sketch.** At rest the sending end has nothing left to send (`idle_of_stuck`), so that all
bytes that were not read are in the stream. If a message were left, the running read would have too
few bytes, and the stream would have some for it, or it would have enough, and could complete. -/
lemma Transfers.complete (hL : Transfers msgs tr L) (hstuck : ∀ e, L.step e = none) :
    tr.map UserBuffer.received = msgs.map fun msg => some msg.expected := by
  obtain ⟨hsending, delivered, rest, n, rfl, htr, hreceiving, hbytes⟩ := hL
  obtain ⟨hpending, hqueue, -, hwriting⟩ := idle_of_stuck hstuck
  rw [hpending, hsending.unsent_eq_nil hqueue hwriting] at hbytes
  -- the running read waits for bytes, and there are none
  have hstream : ∀ {offset count}, wanted L.receiver L.readBuf = some (offset, count) →
      L.got < count → L.stream = [] := fun hwanted hlt => by
    cases hs : L.stream with
    | nil => rfl
    | cons =>
      have hreceive := hstuck (.receive 1)
      simp [Link.step, hwanted, hs] at hreceive
      omega
  suffices hrest : rest = [] by
    rw [htr, hrest, List.append_nil]
  cases rest with
  | nil => rfl
  | cons msg rest =>
    have hlen := congrArg List.length hbytes
    rw [length_wires_cons] at hlen
    generalize hr : L.receiver = r at hreceiving
    generalize hg : L.got = g at hreceiving
    exfalso
    cases hreceiving with
    | header hgot =>
      rcases Nat.lt_or_ge n 2 with hlt | hge
      · rw [hstream (by rw [hr]; rfl) (by rw [hg]; exact hlt)] at hlen
        simp at hlen
        omega
      · obtain rfl : n = 2 := by omega
        have hdone := hstuck .readDone
        simp [Link.step, wanted, hr, hg, Buffer.getHeaderSize, completeRead] at hdone
    | body hgot =>
      obtain ⟨_, _, heq, hsize⟩ := exists_message (by omega) hbytes
      cases heq
      rcases Nat.lt_or_ge g L.readBuf.getBodySize with hlt | hge
      · rw [hstream (by rw [hr]; rfl) (by rw [hg]; exact hlt)] at hlen
        simp at hlen
        omega
      · obtain rfl : g = L.readBuf.getBodySize := by omega
        have hdone := hstuck .readDone
        simp [Link.step, wanted, hr, hg, completeRead] at hdone
    | headerDone | bodyDone =>
      have hnext := hstuck .receiver
      simp [Link.step, runHandler, hr] at hnext

/-- **End-to-end message transfer.** Every message is encoded and handed to `Write` on one end,
in the given order. In every run `OnReadBody` has been called on the other end for the messages
of a prefix of the list, once each and in order, and `Decode` returns the type name and the
payload of each. No run has more steps than `work (init msgs)`, and where a run cannot go on,
all messages have been delivered.

**Proof sketch.** The bytes that are still to come form the frames of the messages that are still
to be delivered (`Transfers`). Every step moves bytes on or completes an operation, which lowers
`work`. -/
theorem transfer (msgs : List UserBuffer.Message) :
    (∀ tr L, (machine msgs).Reach tr L → tr.map UserBuffer.received <+:
      msgs.map fun msg => some msg.expected) ∧
    (∀ tr L, (machine msgs).Reach tr L → (∀ e, L.step e = none) →
      tr.map UserBuffer.received = msgs.map fun msg => some msg.expected) ∧
    ∀ es r, (machine msgs).exec (fun _ _ _ => true) [] (init msgs) es = some r →
      es.length ≤ work (init msgs) := by
  refine ⟨fun tr L h => ?_, fun tr L h => (transfers_of_run h).complete, fun es r h => ?_⟩
  · obtain ⟨-, delivered, rest, n, rfl, htr, -, -⟩ := transfers_of_run h
    rw [htr, List.map_append]
    exact List.prefix_append _ _
  · have hlen := Machine.length_le_of_exec (M := machine msgs) (G := fun _ _ _ => True) work
      (fun _ _ _ _ => trivial)
      (fun tr L e L' out hrun _ hstep => ((transfers_of_run hrun).step hstep).2) .nil h
    exact (Nat.le_add_right _ _).trans hlen

end Link

end FightingCard
