import Mathlib.Algebra.Group.Nat.Defs
import OxCtrl.Lib.Buffer
import OxCtrl.Lib.Frames

/-!
# Capsules on a TCP connection

A connection carries capsules one after another; bytes 1 and 2 of a capsule hold its length.
`recv` returns pieces of the stream that begin and end anywhere.  The receiving thread keeps
the beginning of a broken capsule in a second buffer and joins it with the next pieces.
The server and the client have their own copies of the function.
-/

namespace OxCtrl.Fabrics

open OxCtrl.Lib

/-- `OXF_MAX_DGRAM`. -/
def oxfMaxDgram : Nat := 65507

/-- `size` of `struct oxf_capsule_sq`, behind the type byte. -/
def capsuleSize : List UInt8 → Nat
  | _ :: low :: high :: _ => low.toNat + 2 ^ 8 * high.toNat
  | _ => 0

/-- The calls of the receive function, oldest first, and the residue with its length. -/
structure Reassembly (κ : Type) where
  calls : List κ
  broken : List UInt8
  brkBytes : Nat
  deriving DecidableEq

section ProcessMsg

variable {κ : Type} (rcv : Nat → List UInt8 → κ) (buffer : List UInt8)

/-- The loop over the capsules in the buffer.  It does not end on a capsule of size zero. -/
def processLoop (msgBytes : Nat) : Nat → Nat → Reassembly κ → Option (Reassembly κ)
  | 0, offset, state => if offset < msgBytes then none else some state
  | rounds + 1, offset, state =>
      if offset < msgBytes then
        let msgSz := capsuleSize (buffer.drop offset)
        if msgBytes - offset < 3 ∨ msgBytes - offset < msgSz then do
          let broken ← memcpy state.broken 0 buffer offset (msgBytes - offset)
          processLoop msgBytes rounds ((offset + (msgBytes - offset)) % 2 ^ 16)
            { state with broken := broken, brkBytes := (msgBytes - offset) % 2 ^ 16 }
        else
          processLoop msgBytes rounds ((offset + msgSz) % 2 ^ 16)
            { state with calls := state.calls ++ [rcv msgSz (slice buffer offset msgSz)] }
      else some state

/-- The part of the function that completes a broken capsule whose header is known, with
`fix` bytes of the buffer used for the header. -/
def processBroken (msgBytes fix : Nat) (state : Reassembly κ) : Option (Reassembly κ) :=
  let msgSz := capsuleSize state.broken
  if state.brkBytes + msgBytes < msgSz then do
    let broken ← memcpy state.broken state.brkBytes buffer fix msgBytes
    some { state with broken := broken, brkBytes := (state.brkBytes + msgBytes) % 2 ^ 16 }
  else if msgSz < state.brkBytes then
    -- the length of the copy is negative, which is a huge `size_t`
    none
  else do
    let broken ← memcpy state.broken state.brkBytes buffer fix (msgSz - state.brkBytes)
    processLoop rcv buffer (msgBytes + fix) (msgBytes + fix)
      ((fix + (msgSz - state.brkBytes)) % 2 ^ 16)
      { calls := state.calls ++ [rcv msgSz (slice broken 0 msgSz)], broken := broken,
        brkBytes := 0 }

/-- The function that both sides run on a received piece. -/
def processMsg (msgBytes : Nat) (state : Reassembly κ) : Option (Reassembly κ) :=
  if state.brkBytes = 0 then processLoop rcv buffer msgBytes msgBytes 0 state
  else if state.brkBytes < 3 then
    if msgBytes + state.brkBytes < 3 then do
      let broken ← memcpy state.broken state.brkBytes buffer 0 msgBytes
      some { state with broken := broken, brkBytes := (state.brkBytes + msgBytes) % 2 ^ 16 }
    else do
      let fix := 3 - state.brkBytes
      let broken ← memcpy state.broken state.brkBytes buffer 0 fix
      if msgBytes - fix = 0 then some { state with broken := broken, brkBytes := 3 }
      else
        processBroken rcv buffer (msgBytes - fix) fix { state with broken := broken, brkBytes := 3 }
  else processBroken rcv buffer msgBytes 0 state

end ProcessMsg

/-- A call of `con->rcv_fn` of the server: size, data and the connection to reply to. -/
abbrev ServerCall := Nat × List UInt8 × Nat

/-- A call of `con->recv_fn` of the client: size and data. -/
abbrev ClientCall := Nat × List UInt8

/-- `oxf_tcp_server_process_msg`. -/
def oxfTcpServerProcessMsg (connId : Nat) (buffer : List UInt8) (msgBytes : Nat) :
    Reassembly ServerCall → Option (Reassembly ServerCall) :=
  processMsg (fun size data => (size, data, connId)) buffer msgBytes

/-- `oxf_tcp_client_process_msg`. -/
def oxfTcpClientProcessMsg (buffer : List UInt8) (msgBytes : Nat) :
    Reassembly ClientCall → Option (Reassembly ClientCall) :=
  processMsg (fun size data => (size, data)) buffer msgBytes

/-- A receiving thread: the socket buffer, which is reused, and the reassembly. -/
structure RecvTh (κ : Type) where
  buffer : List UInt8
  msg : Reassembly κ

/-- A round of `oxf_tcp_server_con_th` in which `recv` returns a piece. -/
def oxfTcpServerConTh (connId : Nat) (state : RecvTh ServerCall) (piece : List UInt8) :
    Option (RecvTh ServerCall) := do
  let received ← memcpy state.buffer 0 piece 0 piece.length
  let buffer := received.set piece.length 0
  let msg ← oxfTcpServerProcessMsg connId buffer piece.length state.msg
  some { buffer := buffer, msg := msg }

/-- A round of `oxf_tcp_client_recv` in which `recv` returns a piece. -/
def oxfTcpClientRecv (state : RecvTh ClientCall) (piece : List UInt8) :
    Option (RecvTh ClientCall) := do
  let buffer ← memcpy state.buffer 0 piece 0 piece.length
  let msg ← oxfTcpClientProcessMsg buffer piece.length state.msg
  some { buffer := buffer, msg := msg }

/-- A thread that starts, with arbitrary contents of its two buffers. -/
structure RecvTh.Starts {κ : Type} (state : RecvTh κ) : Prop where
  buffer : state.buffer.length = oxfMaxDgram + 1
  broken : state.msg.broken.length = oxfMaxDgram + 1
  calls : state.msg.calls = []
  brkBytes : state.msg.brkBytes = 0

/-! ## Reassembly -/

/-- A capsule whose size field is its length. -/
structure IsCapsule (capsule : List UInt8) : Prop where
  four_le : 4 ≤ capsule.length
  le_max : capsule.length ≤ oxfMaxDgram
  size : capsuleSize capsule = capsule.length

instance (capsule : List UInt8) : Decidable (IsCapsule capsule) :=
  decidable_of_iff
    (4 ≤ capsule.length ∧ capsule.length ≤ oxfMaxDgram ∧ capsuleSize capsule = capsule.length)
    ⟨fun h => ⟨h.1, h.2.1, h.2.2⟩, fun h => ⟨h.1, h.2, h.3⟩⟩

theorem capsuleSize_append {bytes : List UInt8} (header : 3 ≤ bytes.length) (rest : List UInt8) :
    capsuleSize (bytes ++ rest) = capsuleSize bytes := by
  match bytes, header with
  | _ :: _ :: _ :: _, _ => rfl

theorem capsuleSize_take {bytes : List UInt8} {n : Nat} (header : 3 ≤ n) :
    capsuleSize (bytes.take n) = capsuleSize bytes := by
  match n, header with
  | n + 3, _ =>
      match bytes with
      | [] => rfl
      | [_] => rfl
      | [_, _] => rfl
      | _ :: _ :: _ :: _ => rfl

/-- The first capsule of a stream is recognised as soon as its header has arrived. -/
theorem IsCapsule.size_eq {capsule received rest more : List UInt8} (isCapsule : IsCapsule capsule)
    (header : 3 ≤ received.length) (stream : received ++ rest = capsule ++ more) :
    capsuleSize received = capsule.length := by
  have enough : 3 ≤ capsule.length := Nat.le_of_succ_le isCapsule.four_le
  calc
    capsuleSize received = capsuleSize (received ++ rest) := (capsuleSize_append header rest).symm
    _ = capsuleSize (capsule ++ more) := congrArg capsuleSize stream
    _ = capsuleSize capsule := capsuleSize_append enough more
    _ = capsule.length := isCapsule.size

section Loop

variable {κ : Type} {rcv : Nat → List UInt8 → κ}

/-- What the function leaves behind: `received` is the part of the stream behind the capsules
delivered before, `calls` are the calls for these. -/
structure Reassembled (rcv : Nat → List UInt8 → κ) (capsules : List (List UInt8))
    (received : List UInt8) (calls : List κ) (after : Reassembly κ) : Prop where
  calls : after.calls =
    calls ++ (arrived capsules received.length).map fun capsule => rcv capsule.length capsule
  broken : after.broken.length = oxfMaxDgram + 1
  brkBytes : after.brkBytes = leftover capsules received.length
  residue : after.broken.take after.brkBytes =
    received.drop (arrived capsules received.length).flatten.length

namespace Reassembled

variable {capsule : List UInt8} {capsules : List (List UInt8)} {received : List UInt8}
  {calls : List κ} {after : Reassembly κ}

/-- An unfinished capsule is kept. -/
theorem short (lt : ∀ capsule ∈ capsules.head?, received.length < capsule.length)
    (sent : after.calls = calls) (broken : after.broken.length = oxfMaxDgram + 1)
    (brkBytes : after.brkBytes = received.length)
    (residue : after.broken.take after.brkBytes = received) :
    Reassembled rcv capsules received calls after := by
  have none : arrived capsules received.length = [] := by
    cases capsules with
    | nil => rfl
    | cons capsule capsules => exact arrived_cons_of_lt (lt capsule rfl)
  refine ⟨?_, broken, ?_, ?_⟩
  · rw [none, sent]
    exact (List.append_nil calls).symm
  · rw [brkBytes, leftover, none]
    rfl
  · rw [none, residue]
    rfl

/-- A finished capsule is delivered. -/
theorem cons
    (tail : Reassembled rcv capsules received (calls ++ [rcv capsule.length capsule]) after) :
    Reassembled rcv (capsule :: capsules) (capsule ++ received) calls after := by
  have le : capsule.length ≤ (capsule ++ received).length := by
    rw [List.length_append]
    exact Nat.le_add_right ..
  have rest : (capsule ++ received).length - capsule.length = received.length := by
    rw [List.length_append]
    exact Nat.add_sub_cancel_left ..
  refine ⟨?_, tail.broken, ?_, ?_⟩
  · rw [arrived_cons_of_le le, rest, tail.calls, List.append_assoc]
    rfl
  · rw [leftover_cons_of_le le, rest, tail.brkBytes]
  · rw [arrived_cons_of_le le, rest, tail.residue, List.flatten_cons, List.length_append,
      ← List.drop_drop, List.drop_left]

end Reassembled

variable {buffer : List UInt8} {msgBytes : Nat}

theorem processLoop_done {offset : Nat} (stop : msgBytes ≤ offset) (rounds : Nat)
    (state : Reassembly κ) :
    processLoop rcv buffer msgBytes rounds offset state = some state := by
  cases rounds <;> exact if_neg (Nat.not_lt.mpr stop)

/-- A capsule that lies at the beginning of what was received. -/
theorem split_received {capsule received rest more : List UInt8}
    (complete : capsule.length ≤ received.length) (stream : received ++ rest = capsule ++ more) :
    received = capsule ++ received.drop capsule.length ∧
      received.drop capsule.length ++ rest = more := by
  have front := congrArg (List.take capsule.length) stream
  have back := congrArg (List.drop capsule.length) stream
  rw [List.take_left, List.take_append_of_le_length complete] at front
  rw [List.drop_left, List.drop_append_of_le_length complete] at back
  refine ⟨?_, back⟩
  conv_lhs => rw [← List.take_append_drop capsule.length received, front]

/-- The size of the capsule at an offset, once its header is in the buffer. -/
theorem IsCapsule.size_drop {capsule received rest more : List UInt8} {offset : Nat}
    (isCapsule : IsCapsule capsule) (here : slice buffer offset received.length = received)
    (stream : received ++ rest = capsule ++ more) (header : 3 ≤ received.length) :
    capsuleSize (buffer.drop offset) = capsule.length := by
  rw [← capsuleSize_take header, ← slice, here]
  exact isCapsule.size_eq header stream

section Step

variable {capsule received rest more : List UInt8} {offset : Nat} (rounds : Nat)
  {state : Reassembly κ}

/-- A round of the loop on a capsule that is in the buffer. -/
theorem processLoop_deliver (isCapsule : IsCapsule capsule) (msg : msgBytes ≤ oxfMaxDgram)
    (length : offset + received.length = msgBytes)
    (here : slice buffer offset received.length = received)
    (stream : received ++ rest = capsule ++ more) (complete : capsule.length ≤ received.length) :
    processLoop rcv buffer msgBytes (rounds + 1) offset state =
      processLoop rcv buffer msgBytes rounds (offset + capsule.length)
        { state with calls := state.calls ++ [rcv capsule.length capsule] } := by
  have max : oxfMaxDgram < 2 ^ 16 := by decide
  have four := isCapsule.four_le
  have header := isCapsule.size_drop here stream (by omega)
  have next : (offset + capsule.length) % 2 ^ 16 = offset + capsule.length :=
    Nat.mod_eq_of_lt (by omega)
  have first : slice buffer offset capsule.length = capsule := by
    rw [← take_slice complete, here, (split_received complete stream).1, List.take_left]
  rw [processLoop, if_pos (by omega)]
  dsimp only
  rw [header, if_neg (by omega), next, first]

/-- A round of the loop on the beginning of a capsule. -/
theorem processLoop_keep (isCapsule : IsCapsule capsule) (size : buffer.length = oxfMaxDgram + 1)
    (msg : msgBytes ≤ oxfMaxDgram) (length : offset + received.length = msgBytes)
    (here : slice buffer offset received.length = received)
    (stream : received ++ rest = capsule ++ more) (lt : received.length < capsule.length)
    (some : 0 < received.length) (broken : state.broken.length = oxfMaxDgram + 1) :
    ∃ copied, processLoop rcv buffer msgBytes (rounds + 1) offset state =
        Option.some { state with broken := copied, brkBytes := received.length } ∧
      copied.length = oxfMaxDgram + 1 ∧ copied.take received.length = received := by
  have max : oxfMaxDgram < 2 ^ 16 := by decide
  have rest : msgBytes - offset = received.length := by omega
  have short : received.length < 3 ∨ received.length < capsuleSize (buffer.drop offset) := by
    by_cases three : 3 ≤ received.length
    · rw [isCapsule.size_drop here stream three]
      exact Or.inr lt
    · exact Or.inl (Nat.not_le.mp three)
  have stop : (offset + received.length) % 2 ^ 16 = msgBytes := by
    rw [length]
    exact Nat.mod_eq_of_lt (by omega)
  have kept : received.length % 2 ^ 16 = received.length := Nat.mod_eq_of_lt (by omega)
  obtain ⟨copied, copy, copiedLength, copiedTake⟩ :=
    memcpy_eq state.broken buffer 0 offset received.length (by omega) (by omega)
  refine ⟨copied, ?_, copiedLength.trans broken, ?_⟩
  · rw [processLoop, if_pos (by omega)]
    dsimp only
    rw [rest, if_pos short, copy, stop, kept]
    exact processLoop_done (Nat.le_refl _) _ _
  · rw [Nat.zero_add, here] at copiedTake
    exact copiedTake

end Step

/-- The loop delivers the capsules that lie in the buffer from `offset` on and keeps the rest. -/
theorem processLoop_spec (rcv : Nat → List UInt8 → κ) (size : buffer.length = oxfMaxDgram + 1)
    (msg : msgBytes ≤ oxfMaxDgram)
    {capsules : List (List UInt8)} (wf : ∀ capsule ∈ capsules, IsCapsule capsule)
    (state : Reassembly κ) {received rest : List UInt8} (offset rounds : Nat)
    (length : offset + received.length = msgBytes) (enough : received.length ≤ rounds)
    (here : slice buffer offset received.length = received)
    (stream : received ++ rest = capsules.flatten)
    (broken : state.broken.length = oxfMaxDgram + 1) (clean : state.brkBytes = 0) :
    ∃ after, processLoop rcv buffer msgBytes rounds offset state = some after ∧
      Reassembled rcv capsules received state.calls after := by
  have stopped (capsules : List (List UInt8)) (wf : ∀ capsule ∈ capsules, IsCapsule capsule)
      (offset rounds : Nat) (length : offset + 0 = msgBytes) (state : Reassembly κ)
      (broken : state.broken.length = oxfMaxDgram + 1) (clean : state.brkBytes = 0) :
      ∃ after, processLoop rcv buffer msgBytes rounds offset state = some after ∧
        Reassembled rcv capsules [] state.calls after := by
    refine ⟨state, processLoop_done (Nat.le_of_eq length.symm) rounds state,
      Reassembled.short ?_ rfl broken clean ?_⟩
    · intro capsule head
      have four := (wf capsule (List.mem_of_mem_head? head)).four_le
      exact Nat.lt_of_lt_of_le (by decide) four
    · rw [clean]
      rfl
  -- each round of the loop uses up a capsule of the stream
  induction capsules generalizing received offset rounds state with
  | nil =>
      rw [(List.append_eq_nil_iff.mp stream).1] at length ⊢
      exact stopped [] wf offset rounds length state broken clean
  | cons capsule capsules ih =>
      have isCapsule := wf capsule List.mem_cons_self
      by_cases empty : received = []
      · subst empty
        exact stopped _ wf offset rounds length state broken clean
      · have pos : 0 < received.length := List.length_pos_iff.mpr empty
        obtain ⟨rounds, rfl⟩ : ∃ more, rounds = more + 1 := ⟨rounds - 1, by omega⟩
        by_cases complete : capsule.length ≤ received.length
        · obtain ⟨split, rest⟩ := split_received complete stream
          have four := isCapsule.four_le
          have dropped := List.length_drop (i := capsule.length) (l := received)
          rw [processLoop_deliver rounds isCapsule msg length here stream complete]
          obtain ⟨after, run, reassembled⟩ :=
            ih (fun later mem => wf later (List.mem_cons_of_mem capsule mem))
              { state with calls := state.calls ++ [rcv capsule.length capsule] }
              (offset + capsule.length) rounds
              (by omega) (by omega) (by rw [dropped, ← drop_slice, here]) rest broken clean
          refine ⟨after, run, ?_⟩
          rw [split]
          exact reassembled.cons
        · have lt := Nat.not_le.mp complete
          obtain ⟨copied, run, copiedLength, copiedTake⟩ :=
            processLoop_keep rounds isCapsule size msg length here stream lt pos broken
          refine ⟨_, run, Reassembled.short ?_ rfl copiedLength rfl copiedTake⟩
          intro next head
          rw [List.head?_cons, Option.mem_some_iff] at head
          rw [← head]
          exact lt

end Loop

/-! ## A piece -/

section Piece

variable {κ : Type} {rcv : Nat → List UInt8 → κ} {buffer : List UInt8} {state : Reassembly κ}
  {capsules : List (List UInt8)} {tail piece rest : List UInt8} {msgBytes fix : Nat}

/-- The thread keeps the beginning `tail` of the next capsule. -/
structure Keeps (capsules : List (List UInt8)) (tail : List UInt8) (state : Reassembly κ) :
    Prop where
  broken : state.broken.length = oxfMaxDgram + 1
  brkBytes : state.brkBytes = tail.length
  residue : state.broken.take tail.length = tail
  short : ∀ capsule ∈ capsules.head?, tail.length < capsule.length

/-- A copy behind the residue makes it longer. -/
theorem Keeps.copy (keeps : Keeps capsules tail state) (piece : List UInt8) (fix : Nat)
    (size : buffer.length = oxfMaxDgram + 1)
    (here : slice buffer fix piece.length = piece) (from_le : fix + piece.length ≤ oxfMaxDgram)
    (to_le : tail.length + piece.length ≤ oxfMaxDgram) :
    ∃ copied, memcpy state.broken tail.length buffer fix piece.length = some copied ∧
      copied.length = oxfMaxDgram + 1 ∧
      copied.take (tail ++ piece).length = tail ++ piece := by
  have broken := keeps.broken
  obtain ⟨copied, copy, length, taken⟩ :=
    memcpy_eq state.broken buffer tail.length fix piece.length (by omega) (by omega)
  refine ⟨copied, copy, length.trans broken, ?_⟩
  rw [List.length_append, taken, keeps.residue, here]

/-- A piece that does not finish the capsule. -/
theorem Keeps.extend (rcv : Nat → List UInt8 → κ) (wf : ∀ capsule ∈ capsules, IsCapsule capsule)
    (keeps : Keeps capsules tail state) (size : buffer.length = oxfMaxDgram + 1)
    (here : slice buffer fix piece.length = piece) (from_le : fix + piece.length ≤ oxfMaxDgram)
    (some : capsules ≠ [])
    (short : ∀ capsule ∈ capsules.head?, tail.length + piece.length < capsule.length) :
    ∃ copied, memcpy state.broken tail.length buffer fix piece.length = Option.some copied ∧
      Reassembled rcv capsules (tail ++ piece) state.calls
        { state with broken := copied, brkBytes := tail.length + piece.length } := by
  obtain ⟨capsule, capsules, rfl⟩ := List.exists_cons_of_ne_nil some
  have le := (wf capsule List.mem_cons_self).le_max
  have lt := short capsule rfl
  obtain ⟨copied, copy, length, taken⟩ := keeps.copy piece fix size here from_le (by omega)
  refine ⟨copied, copy, Reassembled.short ?_ rfl length List.length_append.symm ?_⟩
  · rw [List.length_append]
    exact short
  · rw [List.length_append] at taken
    exact taken

/-- The first bytes of a piece complete the broken capsule. -/
theorem Keeps.finish {capsule more : List UInt8} (isCapsule : IsCapsule capsule)
    (keeps : Keeps (capsule :: capsules) tail state) (size : buffer.length = oxfMaxDgram + 1)
    (here : slice buffer fix piece.length = piece) (from_le : fix + piece.length ≤ oxfMaxDgram)
    (complete : capsule.length ≤ tail.length + piece.length)
    (stream : tail ++ piece ++ rest = capsule ++ more) :
    tail ++ piece = capsule ++ piece.drop (capsule.length - tail.length) ∧
      piece.drop (capsule.length - tail.length) ++ rest = more ∧
      ∃ copied, memcpy state.broken tail.length buffer fix (capsule.length - tail.length) =
          some copied ∧
        copied.length = oxfMaxDgram + 1 ∧ slice copied 0 capsule.length = capsule := by
  have le := isCapsule.le_max
  have lt := keeps.short capsule rfl
  obtain ⟨split, behind⟩ :=
    split_received (by rw [List.length_append]; exact complete) stream
  have needed : (piece.take (capsule.length - tail.length)).length =
      capsule.length - tail.length := by
    rw [List.length_take]
    omega
  have joined : tail ++ piece.take (capsule.length - tail.length) = capsule := by
    have front := congrArg (List.take capsule.length) split
    rw [List.take_left, List.take_append, List.take_of_length_le (Nat.le_of_lt lt)] at front
    exact front
  rw [List.drop_append, List.drop_of_length_le (Nat.le_of_lt lt), List.nil_append] at split behind
  obtain ⟨copied, copy, length, taken⟩ :=
    keeps.copy (piece.take (capsule.length - tail.length)) fix size
      (by rw [needed, ← take_slice (n := piece.length) (by omega), here]) (by omega) (by omega)
  rw [needed] at copy
  rw [joined] at taken
  exact ⟨split, behind, copied, copy, length, taken⟩

/-- A piece after the header of the broken capsule is known. -/
theorem processBroken_spec (wf : ∀ capsule ∈ capsules, IsCapsule capsule)
    (keeps : Keeps capsules tail state) (size : buffer.length = oxfMaxDgram + 1)
    (here : slice buffer fix piece.length = piece) (from_le : fix + piece.length ≤ oxfMaxDgram)
    (some : piece ≠ []) (header : 3 ≤ tail.length)
    (stream : tail ++ piece ++ rest = capsules.flatten) :
    ∃ after, processBroken rcv buffer piece.length fix state = Option.some after ∧
      Reassembled rcv capsules (tail ++ piece) state.calls after := by
  have max : oxfMaxDgram < 2 ^ 16 := by decide
  cases capsules with
  | nil =>
      have nil := (List.append_eq_nil_iff.mp (List.append_eq_nil_iff.mp stream).1).2
      exact absurd nil some
  | cons capsule capsules =>
      have isCapsule := wf capsule List.mem_cons_self
      have le := isCapsule.le_max
      have lt := keeps.short capsule rfl
      have msgSz : capsuleSize state.broken = capsule.length := by
        rw [← capsuleSize_take header, keeps.residue]
        exact isCapsule.size_eq header (by rw [← List.append_assoc]; exact stream)
      rw [processBroken, msgSz, keeps.brkBytes]
      by_cases short : tail.length + piece.length < capsule.length
      · have kept : (tail.length + piece.length) % 2 ^ 16 = tail.length + piece.length :=
          Nat.mod_eq_of_lt (by omega)
        have first : ∀ next ∈ (capsule :: capsules).head?,
            tail.length + piece.length < next.length := by
          intro next head
          rw [List.head?_cons, Option.mem_some_iff] at head
          rw [← head]
          exact short
        obtain ⟨copied, copy, reassembled⟩ :=
          keeps.extend rcv wf size here from_le (by simp) first
        refine ⟨_, ?_, reassembled⟩
        rw [if_pos short, copy, kept]
        rfl
      · obtain ⟨split, behind, copied, copy, length, whole⟩ :=
          keeps.finish isCapsule size here from_le (Nat.not_lt.mp short) stream
        have next : (fix + (capsule.length - tail.length)) % 2 ^ 16 =
            fix + (capsule.length - tail.length) := Nat.mod_eq_of_lt (by omega)
        have dropped := List.length_drop (i := capsule.length - tail.length) (l := piece)
        have msg : piece.length + fix ≤ oxfMaxDgram := by omega
        obtain ⟨after, run, reassembled⟩ :=
          processLoop_spec rcv size msg
            (fun later mem => wf later (List.mem_cons_of_mem capsule mem))
            { calls := state.calls ++ [rcv capsule.length capsule], broken := copied,
              brkBytes := 0 } (fix + (capsule.length - tail.length)) (piece.length + fix)
            (by omega) (by omega) (by rw [dropped, ← drop_slice, here]) behind length rfl
        refine ⟨after, ?_, ?_⟩
        · rw [if_neg short, if_neg (Nat.not_lt.mpr (Nat.le_of_lt lt)), copy,
            Option.bind_eq_bind, Option.bind_some, next, whole]
          exact run
        · rw [split]
          exact reassembled.cons

/-- The first bytes of a piece complete the header. -/
theorem Keeps.header (wf : ∀ capsule ∈ capsules, IsCapsule capsule)
    (keeps : Keeps capsules tail state) (size : buffer.length = oxfMaxDgram + 1)
    (here : slice buffer 0 piece.length = piece) (few : tail.length < 3)
    (enough : 3 ≤ tail.length + piece.length) :
    (tail ++ piece.take (3 - tail.length)).length = 3 ∧
      ∃ copied, memcpy state.broken tail.length buffer 0 (3 - tail.length) = some copied ∧
        Keeps capsules (tail ++ piece.take (3 - tail.length))
          { state with broken := copied, brkBytes := 3 } := by
  have max : 3 ≤ oxfMaxDgram := by decide
  have taken : (piece.take (3 - tail.length)).length = 3 - tail.length := by
    rw [List.length_take]
    omega
  have three : (tail ++ piece.take (3 - tail.length)).length = 3 := by
    rw [List.length_append, taken]
    omega
  obtain ⟨copied, copy, length, copiedTake⟩ :=
    keeps.copy (piece.take (3 - tail.length)) 0 size
      (by rw [taken, ← take_slice (n := piece.length) (by omega), here]) (by omega) (by omega)
  rw [taken] at copy
  refine ⟨three, copied, copy, length, three.symm, copiedTake, fun capsule head => ?_⟩
  rw [three]
  exact (wf capsule (List.mem_of_mem_head? head)).four_le

/-- A piece of the stream delivers the capsules that it finishes. -/
theorem processMsg_spec (rcv : Nat → List UInt8 → κ) (wf : ∀ capsule ∈ capsules, IsCapsule capsule)
    (keeps : Keeps capsules tail state) (size : buffer.length = oxfMaxDgram + 1)
    (here : slice buffer 0 piece.length = piece) (le : piece.length ≤ oxfMaxDgram)
    (some : piece ≠ []) (stream : tail ++ piece ++ rest = capsules.flatten) :
    ∃ after, processMsg rcv buffer piece.length state = Option.some after ∧
      Reassembled rcv capsules (tail ++ piece) state.calls after := by
  have max : oxfMaxDgram < 2 ^ 16 := by decide
  have four : ∀ capsule ∈ capsules.head?, 4 ≤ capsule.length := fun capsule head =>
    (wf capsule (List.mem_of_mem_head? head)).four_le
  rw [processMsg]
  by_cases clean : state.brkBytes = 0
  · have nil : tail = [] := List.eq_nil_of_length_eq_zero (keeps.brkBytes.symm.trans clean)
    subst nil
    rw [if_pos clean]
    exact processLoop_spec rcv size le wf state _ _ (Nat.zero_add _) (Nat.le_refl _) here stream
      keeps.broken clean
  rw [if_neg clean]
  by_cases header : state.brkBytes < 3
  · rw [if_pos header, keeps.brkBytes]
    rw [keeps.brkBytes] at header
    by_cases few : piece.length + tail.length < 3
    · -- not even the header is complete
      have kept : (tail.length + piece.length) % 2 ^ 16 = tail.length + piece.length :=
        Nat.mod_eq_of_lt (by omega)
      have nonempty : capsules ≠ [] := by
        rintro rfl
        exact some (List.append_eq_nil_iff.mp (List.append_eq_nil_iff.mp stream).1).2
      obtain ⟨copied, copy, reassembled⟩ :=
        keeps.extend rcv wf size here (by omega) nonempty (fun capsule head => by
          have := four capsule head
          omega)
      refine ⟨_, ?_, reassembled⟩
      rw [if_pos few, copy, kept]
      rfl
    · obtain ⟨three, copied, copy, headerKeeps⟩ := keeps.header wf size here header (by omega)
      have cut : tail ++ piece =
          tail ++ piece.take (3 - tail.length) ++ piece.drop (3 - tail.length) := by
        rw [List.append_assoc, List.take_append_drop]
      have dropped := List.length_drop (i := 3 - tail.length) (l := piece)
      have second := drop_slice buffer 0 piece.length (3 - tail.length)
      rw [here, Nat.zero_add, ← dropped] at second
      rw [if_neg few]
      dsimp only
      rw [copy, Option.bind_eq_bind, Option.bind_some]
      by_cases last : piece.length - (3 - tail.length) = 0
      · rw [if_pos last, cut, List.eq_nil_of_length_eq_zero (dropped.trans last), List.append_nil]
        exact ⟨_, rfl, Reassembled.short headerKeeps.short rfl headerKeeps.broken three.symm (by
          have residue := headerKeeps.residue
          rw [three] at residue
          exact residue)⟩
      · rw [if_neg last, cut, ← dropped]
        rw [cut] at stream
        exact processBroken_spec wf headerKeeps size second.symm (by omega)
          (by intro nil; rw [nil] at dropped; exact last dropped.symm)
          (Nat.le_of_eq three.symm) stream
  · rw [if_neg header]
    rw [keeps.brkBytes] at header
    exact processBroken_spec wf keeps size here (by omega) some (Nat.not_lt.mp header) stream

end Piece

/-! ## A connection -/

section Connection

variable {κ : Type} {rcv : Nat → List UInt8 → κ}

/-- What a thread has done with the part `received` of a stream of capsules: one call for each
capsule that is complete, in order, and the rest is kept. -/
structure Delivered (rcv : Nat → List UInt8 → κ) (capsules : List (List UInt8))
    (received : List UInt8) (state : RecvTh κ) : Prop where
  buffer : state.buffer.length = oxfMaxDgram + 1
  msg : Reassembled rcv capsules received [] state.msg

theorem RecvTh.Starts.delivered {state : RecvTh κ} (starts : state.Starts)
    {capsules : List (List UInt8)} (wf : ∀ capsule ∈ capsules, IsCapsule capsule) :
    Delivered rcv capsules [] state := by
  refine ⟨starts.buffer, Reassembled.short ?_ starts.calls starts.broken starts.brkBytes ?_⟩
  · intro capsule head
    exact Nat.lt_of_lt_of_le (by decide) (wf capsule (List.mem_of_mem_head? head)).four_le
  · rw [starts.brkBytes]
    rfl

/-- A round of a receiving thread whose `recv` put the piece at the start of the buffer. -/
theorem Delivered.step {capsules : List (List UInt8)}
    (wf : ∀ capsule ∈ capsules, IsCapsule capsule) {received piece rest buffer : List UInt8}
    {state : RecvTh κ} (delivered : Delivered rcv capsules received state)
    (size : buffer.length = oxfMaxDgram + 1) (here : slice buffer 0 piece.length = piece)
    (some : 1 ≤ piece.length) (le : piece.length ≤ oxfMaxDgram)
    (stream : received ++ piece ++ rest = capsules.flatten) :
    ∃ msg, processMsg rcv buffer piece.length state.msg = Option.some msg ∧
      Delivered rcv capsules (received ++ piece) { buffer := buffer, msg := msg } := by
  have whole : capsules.flatten = received ++ (piece ++ rest) := by
    rw [← stream, List.append_assoc]
  have behind := flatten_unfinished whole
  have residue : (received.drop (arrived capsules received.length).flatten.length).length =
      leftover capsules received.length := List.length_drop
  have keeps : Keeps (unfinished capsules received.length)
      (received.drop (arrived capsules received.length).flatten.length) state.msg := by
    refine ⟨delivered.msg.broken, ?_, ?_, ?_⟩
    · rw [delivered.msg.brkBytes, residue]
    · rw [residue, ← delivered.msg.brkBytes]
      exact delivered.msg.residue
    · intro capsule head
      rw [residue]
      exact leftover_lt head
  have later : ∀ capsule ∈ unfinished capsules received.length, IsCapsule capsule :=
    fun capsule mem => wf capsule (List.mem_of_mem_drop mem)
  obtain ⟨msg, run, after⟩ :=
    processMsg_spec rcv later keeps size here le
      (List.ne_nil_of_length_pos some) (by rw [List.append_assoc, ← behind])
  have lengths : (received.drop (arrived capsules received.length).flatten.length ++ piece).length =
      leftover capsules received.length + piece.length := by
    rw [List.length_append, residue]
  have calls := after.calls
  have brkBytes := after.brkBytes
  have kept := after.residue
  rw [lengths] at calls brkBytes kept
  refine ⟨msg, run, size, ?_, after.broken, ?_, ?_⟩
  · rw [calls, delivered.msg.calls, List.length_append,
      arrived_add capsules received.length piece.length, List.map_append, List.append_assoc]
  · rw [brkBytes, List.length_append, leftover_add capsules received.length piece.length]
  · rw [kept, List.length_append, arrived_add capsules received.length piece.length,
      List.flatten_append, List.length_append, ← List.drop_drop,
      List.drop_append_of_le_length (length_arrived_le ..)]

end Connection

/-- Bytes that `recv` copied to the start of a buffer. -/
theorem recv_eq {buffer piece : List UInt8} (size : buffer.length = oxfMaxDgram + 1)
    (le : piece.length ≤ oxfMaxDgram) :
    ∃ received, memcpy buffer 0 piece 0 piece.length = some received ∧
      received.length = oxfMaxDgram + 1 ∧ slice received 0 piece.length = piece := by
  obtain ⟨received, copy, length, taken⟩ :=
    memcpy_eq buffer piece 0 0 piece.length (by omega) (by omega)
  refine ⟨received, copy, length.trans size, ?_⟩
  rw [Nat.zero_add, slice_zero, List.take_length] at taken
  exact taken

theorem oxfTcpServerConTh_spec {capsules : List (List UInt8)}
    (wf : ∀ capsule ∈ capsules, IsCapsule capsule) {connId : Nat} {received piece rest : List UInt8}
    {state : RecvTh ServerCall}
    (delivered : Delivered (fun size data => (size, data, connId)) capsules received state)
    (some : 1 ≤ piece.length) (le : piece.length ≤ oxfMaxDgram)
    (stream : received ++ piece ++ rest = capsules.flatten) :
    ∃ after, oxfTcpServerConTh connId state piece = Option.some after ∧
      Delivered (fun size data => (size, data, connId)) capsules (received ++ piece) after := by
  obtain ⟨copied, copy, length, here⟩ := recv_eq delivered.buffer le
  have terminated : slice (copied.set piece.length 0) 0 piece.length = piece := by
    rw [slice_zero, List.take_set_of_le (Nat.le_refl _)]
    exact here
  obtain ⟨msg, run, after⟩ :=
    delivered.step wf ((List.length_set ..).trans length) terminated some le stream
  refine ⟨_, ?_, after⟩
  rw [oxfTcpServerConTh, copy]
  dsimp only [Option.bind_eq_bind, Option.bind_some]
  rw [oxfTcpServerProcessMsg, run]
  rfl

theorem oxfTcpClientRecv_spec {capsules : List (List UInt8)}
    (wf : ∀ capsule ∈ capsules, IsCapsule capsule) {received piece rest : List UInt8}
    {state : RecvTh ClientCall}
    (delivered : Delivered (fun size data => (size, data)) capsules received state)
    (some : 1 ≤ piece.length) (le : piece.length ≤ oxfMaxDgram)
    (stream : received ++ piece ++ rest = capsules.flatten) :
    ∃ after, oxfTcpClientRecv state piece = Option.some after ∧
      Delivered (fun size data => (size, data)) capsules (received ++ piece) after := by
  obtain ⟨copied, copy, length, here⟩ := recv_eq delivered.buffer le
  obtain ⟨msg, run, after⟩ := delivered.step wf length here some le stream
  refine ⟨_, ?_, after⟩
  rw [oxfTcpClientRecv, copy]
  dsimp only [Option.bind_eq_bind, Option.bind_some]
  rw [oxfTcpClientProcessMsg, run]
  rfl

/-- A thread over the pieces of a stream, from what one round does. -/
theorem delivered_foldlM {κ : Type} {rcv : Nat → List UInt8 → κ}
    {recv : RecvTh κ → List UInt8 → Option (RecvTh κ)} {capsules : List (List UInt8)}
    (round : ∀ {received piece rest : List UInt8} {state : RecvTh κ},
      Delivered rcv capsules received state → 1 ≤ piece.length → piece.length ≤ oxfMaxDgram →
      received ++ piece ++ rest = capsules.flatten →
      ∃ after, recv state piece = some after ∧ Delivered rcv capsules (received ++ piece) after)
    {pieces : List (List UInt8)}
    (cut : ∀ piece ∈ pieces, 1 ≤ piece.length ∧ piece.length ≤ oxfMaxDgram)
    {received rest : List UInt8} {state : RecvTh κ}
    (delivered : Delivered rcv capsules received state)
    (stream : received ++ pieces.flatten ++ rest = capsules.flatten) :
    ∃ after, pieces.foldlM recv state = some after ∧
      Delivered rcv capsules (received ++ pieces.flatten) after := by
  induction pieces generalizing received state with
  | nil =>
      rw [List.flatten_nil, List.append_nil]
      exact ⟨state, rfl, delivered⟩
  | cons piece pieces ih =>
      have bounds := cut piece List.mem_cons_self
      rw [List.flatten_cons, ← List.append_assoc] at stream ⊢
      have front : received ++ piece ++ (pieces.flatten ++ rest) = capsules.flatten := by
        rw [← stream]
        simp only [List.append_assoc]
      obtain ⟨next, step, nextDelivered⟩ := round delivered bounds.1 bounds.2 front
      obtain ⟨after, run, afterDelivered⟩ :=
        ih (fun later mem => cut later (List.mem_cons_of_mem piece mem)) nextDelivered stream
      refine ⟨after, ?_, afterDelivered⟩
      rw [List.foldlM_cons, step]
      exact run

/-- For every stream of capsules and every cut of its beginning into pieces, both receiving
threads call the receive function once for each complete capsule, in order and with its bytes,
and keep the unfinished rest. -/
theorem capsules_reassembled (capsules : List (List UInt8))
    (wf : ∀ capsule ∈ capsules, IsCapsule capsule) (pieces : List (List UInt8))
    (cut : ∀ piece ∈ pieces, 1 ≤ piece.length ∧ piece.length ≤ oxfMaxDgram) (rest : List UInt8)
    (stream : pieces.flatten ++ rest = capsules.flatten) (connId : Nat)
    (server : RecvTh ServerCall) (serverStarts : server.Starts)
    (client : RecvTh ClientCall) (clientStarts : client.Starts) :
    let done := arrived capsules pieces.flatten.length
    let tail := pieces.flatten.drop done.flatten.length
    (∃ after, pieces.foldlM (oxfTcpServerConTh connId) server = some after ∧
      after.msg.calls = done.map (fun capsule => (capsule.length, capsule, connId)) ∧
      after.msg.brkBytes = tail.length ∧ after.msg.broken.take after.msg.brkBytes = tail) ∧
    ∃ after, pieces.foldlM oxfTcpClientRecv client = some after ∧
      after.msg.calls = done.map (fun capsule => (capsule.length, capsule)) ∧
      after.msg.brkBytes = tail.length ∧ after.msg.broken.take after.msg.brkBytes = tail := by
  intro done tail
  have length : tail.length = leftover capsules pieces.flatten.length := List.length_drop
  constructor
  · obtain ⟨after, run, delivered⟩ :=
      delivered_foldlM (oxfTcpServerConTh_spec wf) cut (serverStarts.delivered wf) stream
    refine ⟨after, run, delivered.msg.calls, ?_, delivered.msg.residue⟩
    rw [length]
    exact delivered.msg.brkBytes
  · obtain ⟨after, run, delivered⟩ :=
      delivered_foldlM (oxfTcpClientRecv_spec wf) cut (clientStarts.delivered wf) stream
    refine ⟨after, run, delivered.msg.calls, ?_, delivered.msg.residue⟩
    rw [length]
    exact delivered.msg.brkBytes

/-- A thread whose buffers hold zeroes. -/
def RecvTh.zeroed (κ : Type) : RecvTh κ where
  buffer := List.replicate (oxfMaxDgram + 1) 0
  msg := { calls := [], broken := List.replicate (oxfMaxDgram + 1) 0, brkBytes := 0 }

theorem RecvTh.starts_zeroed (κ : Type) : (RecvTh.zeroed κ).Starts :=
  ⟨List.length_replicate, List.length_replicate, rfl, rfl⟩

/-- Two capsules in four pieces: the cuts lie in the header of the first one and of the second
one, and the last piece is the beginning of a third. -/
theorem capsules_reassembled_cut :
    ∃ after, [[0x3c], [5, 0, 1], [2, 0x3c, 4], [0, 9, 0x3c, 6]].foldlM (oxfTcpServerConTh 3)
        (RecvTh.zeroed ServerCall) = some after ∧
      after.msg.calls = [(5, [0x3c, 5, 0, 1, 2], 3), (4, [0x3c, 4, 0, 9], 3)] ∧
      after.msg.brkBytes = 2 ∧ after.msg.broken.take after.msg.brkBytes = [0x3c, 6] :=
  (capsules_reassembled [[0x3c, 5, 0, 1, 2], [0x3c, 4, 0, 9], [0x3c, 6, 0, 7, 7, 7]] (by decide)
    [[0x3c], [5, 0, 1], [2, 0x3c, 4], [0, 9, 0x3c, 6]] (by decide) [0, 7, 7, 7] rfl 3
    (RecvTh.zeroed ServerCall) (RecvTh.starts_zeroed _) (RecvTh.zeroed ClientCall)
    (RecvTh.starts_zeroed _)).1

end OxCtrl.Fabrics
