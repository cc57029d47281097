import OxCtrl.Lib.System
import OxCtrl.Fabrics.Framing

/-!
# Sending capsules

`oxf_host_process_sq` gives the capsules of a queue to `send`, one after another, and tries
again when `oxf_tcp_client_send` reports a failure.  A short `send` leaves the beginning of
the capsule on the connection, and the next attempt starts with the first byte again.
-/

namespace OxCtrl.Fabrics

open OxCtrl.Lib

/-- `OXF_RETRY`. -/
def oxfRetry : Nat := 50000

/-- What `send` does: it takes all bytes but the last `missing` ones, or fails. -/
inductive SendResult where
  | sent (missing : Nat)
  | error
  deriving DecidableEq, Repr

/-- The bytes that a call of `send` puts on the connection. -/
def SendResult.bytes (buf : List UInt8) : SendResult → List UInt8
  | .sent missing => buf.take (buf.length - missing)
  | .error => []

/-- `oxf_tcp_client_send` returns success.  An error is `2 ^ 32 - 1` as `uint32_t`. -/
def oxfTcpClientSend (size : Nat) (buf : List UInt8) (result : SendResult) : Bool :=
  match result with
  | .sent _ => (result.bytes buf).length = size
  | .error => 2 ^ 32 - 1 = size

/-- The sending side of a queue: the capsules submitted and not yet finished, the attempts left
for the first of them, and the bytes on the connection.  The other fields only keep what
happened: the capsules submitted, reported as sent and aborted, and whether a `send` has
stopped inside a capsule. -/
structure SendSide where
  queue : List (List UInt8) := []
  retry : Nat := oxfRetry
  wire : List UInt8 := []
  submitted : List (List UInt8) := []
  sent : List (List UInt8) := []
  aborted : List (List UInt8) := []
  cut : Bool := false
  deriving DecidableEq

/-- The user submits a capsule, or the submission thread calls `send` once. -/
inductive SendOp where
  | submit (capsule : List UInt8)
  | send (result : SendResult)
  deriving DecidableEq

/-- A round of the loop of `oxf_host_process_sq`. -/
def oxfHostProcessSq (state : SendSide) (capsule : List UInt8) (rest : List (List UInt8))
    (result : SendResult) : SendSide :=
  let bytes := result.bytes capsule
  let wire := state.wire ++ bytes
  if oxfTcpClientSend capsule.length capsule result then
    { state with queue := rest, retry := oxfRetry, wire := wire, sent := state.sent ++ [capsule] }
  else
    let cut := state.cut || decide (0 < bytes.length)
    if state.retry - 1 = 0 then
      { state with
        queue := rest, retry := oxfRetry, wire := wire, cut := cut
        aborted := state.aborted ++ [capsule] }
    else { state with retry := state.retry - 1, wire := wire, cut := cut }

/-- A step of the sending side. -/
def sendStep (state : SendSide) : SendOp → SendSide
  | .submit capsule =>
      { state with queue := state.queue ++ [capsule], submitted := state.submitted ++ [capsule] }
  | .send result =>
      match state.queue with
      | [] => state
      | capsule :: rest => oxfHostProcessSq state capsule rest result

/-- Runs of the sending side. -/
def sendSystem : System SendSide SendOp Unit where
  step state op := (sendStep state op, ())

/-- The receiver gets these capsules from the bytes, however they are cut. -/
def Decodes (wire : List UInt8) (capsules : List (List UInt8)) : Prop :=
  ∀ (connId : Nat) (server : RecvTh ServerCall), server.Starts →
    ∀ pieces : List (List UInt8),
      (∀ piece ∈ pieces, 1 ≤ piece.length ∧ piece.length ≤ oxfMaxDgram) →
      pieces.flatten = wire →
      ∃ after, pieces.foldlM (oxfTcpServerConTh connId) server = some after ∧
        after.msg.calls = capsules.map fun capsule => (capsule.length, capsule, connId)

/-- Bytes are sent only while no earlier `send` has stopped inside a capsule. -/
def Unbroken (state : SendSide) : SendOp → Prop
  | .submit _ => True
  | .send result =>
      ∀ capsule ∈ state.queue.head?, 0 < (result.bytes capsule).length → state.cut = false

instance (state : SendSide) (op : SendOp) : Decidable (Unbroken state op) := by
  cases op <;> unfold Unbroken <;> infer_instance

/-! ## Framing -/

/-- The submitted capsules can be sent. -/
def SendOp.WellFormed : SendOp → Prop
  | .submit capsule => IsCapsule capsule
  | .send _ => True

/-- The connection carries the capsules reported as sent and, when a `send` has stopped inside
a capsule, its beginning behind them. -/
structure Framed (state : SendSide) : Prop where
  queue : ∀ capsule ∈ state.queue, IsCapsule capsule
  sent : ∀ capsule ∈ state.sent, IsCapsule capsule
  order : ∃ finished, state.submitted = finished ++ state.queue ∧ state.sent.Sublist finished
  wire : ∃ part, state.wire = state.sent.flatten ++ part ∧
    (part = [] ∨ state.cut = true ∧
      ∃ capsule, IsCapsule capsule ∧ part <+: capsule ∧ part.length < capsule.length)

theorem framed_init : Framed {} where
  queue := by simp
  sent := by simp
  order := ⟨[], rfl, List.Sublist.refl _⟩
  wire := ⟨[], rfl, Or.inl rfl⟩

theorem Framed.submit {state : SendSide} (framed : Framed state) {capsule : List UInt8}
    (isCapsule : IsCapsule capsule) : Framed (sendStep state (.submit capsule)) where
  queue := by
    intro other mem
    rcases List.mem_append.mp mem with mem | mem
    · exact framed.queue other mem
    · rw [List.mem_singleton.mp mem]
      exact isCapsule
  sent := framed.sent
  order := by
    obtain ⟨finished, all, sub⟩ := framed.order
    refine ⟨finished, ?_, sub⟩
    change state.submitted ++ [capsule] = finished ++ (state.queue ++ [capsule])
    rw [all, List.append_assoc]
  wire := framed.wire

/-- A `send` that reports success has sent the whole capsule. -/
theorem bytes_of_success {capsule : List UInt8} (isCapsule : IsCapsule capsule)
    {result : SendResult} (success : oxfTcpClientSend capsule.length capsule result = true) :
    result.bytes capsule = capsule := by
  have le := isCapsule.le_max
  cases result with
  | sent missing =>
      have whole : (capsule.take (capsule.length - missing)).length = capsule.length :=
        of_decide_eq_true success
      rw [List.length_take] at whole
      exact List.take_of_length_le (by omega)
  | error =>
      have all : 2 ^ 32 - 1 = capsule.length := of_decide_eq_true success
      rw [← all] at le
      exact absurd le (by decide)

/-- A `send` that reports a failure has sent less than the capsule. -/
theorem bytes_of_failure {capsule : List UInt8} (isCapsule : IsCapsule capsule)
    {result : SendResult} (failure : oxfTcpClientSend capsule.length capsule result ≠ true) :
    result.bytes capsule <+: capsule ∧ (result.bytes capsule).length < capsule.length := by
  cases result with
  | sent missing =>
      have short : (capsule.take (capsule.length - missing)).length ≠ capsule.length :=
        fun whole => failure (decide_eq_true whole)
      exact ⟨List.take_prefix .., Nat.lt_of_le_of_ne (List.length_take_le' ..) short⟩
  | error =>
      exact ⟨List.nil_prefix, Nat.lt_of_lt_of_le (Nat.zero_lt_succ 3) isCapsule.four_le⟩

section Send

variable {state : SendSide} {capsule : List UInt8} {rest : List (List UInt8)} {result : SendResult}

/-- Behind the capsules on the connection there is nothing when bytes are sent. -/
theorem Framed.clean (framed : Framed state)
    (unbroken : 0 < (result.bytes capsule).length → state.cut = false)
    (some : 0 < (result.bytes capsule).length) : state.wire = state.sent.flatten := by
  obtain ⟨part, wire, rfl | ⟨cut, _⟩⟩ := framed.wire
  · rw [wire, List.append_nil]
  · rw [unbroken some] at cut
    exact absurd cut Bool.false_ne_true

/-- The bytes of a failed attempt. -/
theorem Framed.failed (framed : Framed state) (isCapsule : IsCapsule capsule)
    (unbroken : 0 < (result.bytes capsule).length → state.cut = false)
    (failure : oxfTcpClientSend capsule.length capsule result ≠ true) :
    ∃ part, state.wire ++ result.bytes capsule = state.sent.flatten ++ part ∧
      (part = [] ∨ (state.cut || decide (0 < (result.bytes capsule).length)) = true ∧
        ∃ capsule, IsCapsule capsule ∧ part <+: capsule ∧ part.length < capsule.length) := by
  by_cases some : 0 < (result.bytes capsule).length
  · have short := bytes_of_failure isCapsule failure
    refine ⟨result.bytes capsule, ?_, Or.inr ⟨?_, capsule, isCapsule, short⟩⟩
    · rw [framed.clean unbroken some]
    · rw [decide_eq_true some, Bool.or_true]
  · have nothing : result.bytes capsule = [] :=
      List.eq_nil_of_length_eq_zero (Nat.eq_zero_of_not_pos some)
    obtain ⟨part, wire, tail⟩ := framed.wire
    refine ⟨part, ?_, ?_⟩
    · rw [nothing, List.append_nil, wire]
    · rw [decide_eq_false some, Bool.or_false]
      exact tail

theorem Framed.processSq (framed : Framed state) (queue : state.queue = capsule :: rest)
    (unbroken : 0 < (result.bytes capsule).length → state.cut = false) :
    Framed (oxfHostProcessSq state capsule rest result) := by
  have isCapsule : IsCapsule capsule :=
    framed.queue capsule (by rw [queue]; exact List.mem_cons_self)
  have later : ∀ other ∈ rest, IsCapsule other := fun other mem =>
    framed.queue other (by rw [queue]; exact List.mem_cons_of_mem _ mem)
  obtain ⟨finished, all, sub⟩ := framed.order
  rw [queue] at all
  have next : state.submitted = finished ++ [capsule] ++ rest := by
    rw [all, List.append_assoc]
    rfl
  rw [oxfHostProcessSq]
  by_cases success : oxfTcpClientSend capsule.length capsule result = true
  · have whole := bytes_of_success isCapsule success
    have some : 0 < (result.bytes capsule).length := by
      rw [whole]
      exact Nat.lt_of_lt_of_le (by decide) isCapsule.four_le
    rw [if_pos success]
    refine ⟨later, ?_, ⟨finished ++ [capsule], next, sub.append (List.Sublist.refl _)⟩, [], ?_,
      Or.inl rfl⟩
    · intro other mem
      rcases List.mem_append.mp mem with mem | mem
      · exact framed.sent other mem
      · rw [List.mem_singleton.mp mem]
        exact isCapsule
    · change state.wire ++ result.bytes capsule = (state.sent ++ [capsule]).flatten ++ []
      rw [framed.clean unbroken some, whole, List.flatten_append, List.append_nil,
        List.flatten_singleton]
  · have wire := framed.failed isCapsule unbroken success
    rw [if_neg success]
    by_cases last : state.retry - 1 = 0
    · rw [if_pos last]
      exact ⟨later, framed.sent,
        ⟨finished ++ [capsule], next, sub.trans (List.sublist_append_left ..)⟩, wire⟩
    · rw [if_neg last]
      exact ⟨framed.queue, framed.sent, framed.order, wire⟩

end Send

theorem framed_step (state : SendSide) (op : SendOp)
    (allowed : Unbroken state op ∧ op.WellFormed) (framed : Framed state) :
    Framed (sendStep state op) := by
  cases op with
  | submit capsule => exact framed.submit allowed.2
  | send result =>
      rw [sendStep]
      cases queue : state.queue with
      | nil => exact framed
      | cons capsule rest =>
          exact framed.processSq queue (allowed.1 capsule (by rw [queue]; rfl))

/-- Whole capsules and an unfinished rest are received as the whole capsules. -/
theorem decodes_of_unfinished {sent : List (List UInt8)} (more : List (List UInt8))
    {part : List UInt8} (rest : List UInt8)
    (wf : ∀ capsule ∈ sent ++ more, IsCapsule capsule) (stream : part ++ rest = more.flatten)
    (short : arrived more part.length = []) : Decodes (sent.flatten ++ part) sent := by
  intro connId server starts pieces cut wire
  have whole : [] ++ pieces.flatten ++ rest = (sent ++ more).flatten := by
    rw [List.nil_append, wire, List.append_assoc, stream, List.flatten_append]
  obtain ⟨after, run, delivered⟩ :=
    delivered_foldlM (oxfTcpServerConTh_spec wf) cut (starts.delivered wf) whole
  refine ⟨after, run, ?_⟩
  rw [delivered.msg.calls, List.nil_append, List.nil_append, wire, List.length_append,
    arrived_append, short, List.append_nil]

/-- The receiver gets exactly the capsules that were sent. -/
theorem Framed.decodes {state : SendSide} (framed : Framed state) :
    Decodes state.wire state.sent := by
  obtain ⟨part, wire, tail⟩ := framed.wire
  rw [wire]
  rcases tail with rfl | ⟨_, capsule, isCapsule, ⟨rest, whole⟩, short⟩
  · exact decodes_of_unfinished [] []
      (by rw [List.append_nil]; exact framed.sent) rfl rfl
  · refine decodes_of_unfinished [capsule] rest (fun other mem => ?_) ?_
      (arrived_cons_of_lt short)
    · rcases List.mem_append.mp mem with mem | mem
      · exact framed.sent other mem
      · rw [List.mem_singleton.mp mem]
        exact isCapsule
    · rw [whole, List.flatten_singleton]

/-- As long as no bytes are sent behind a `send` that stopped inside a capsule, the receiver
gets exactly the capsules reported as sent: each once, whole and in the order of their
submission. -/
theorem sends_decodable (ops : List SendOp) (wf : ∀ op ∈ ops, op.WellFormed)
    (unbroken : sendSystem.Allowed Unbroken {} ops) :
    let state := sendSystem.run {} ops
    Decodes state.wire state.sent ∧ state.sent.Sublist state.submitted := by
  intro state
  have framed : Framed state :=
    sendSystem.run_invariant _ Framed framed_step framed_init
      (unbroken.and (sendSystem.allowed_of_forall_mem wf {}))
  obtain ⟨finished, all, sub⟩ := framed.order
  refine ⟨framed.decodes, ?_⟩
  rw [all]
  exact sub.trans (List.sublist_append_left ..)

/-- A capsule of `NVME_CMD_READ_NULL` without an SGL: header and 64 bytes of command. -/
def nullCapsule (cid : UInt8) : List UInt8 :=
  [0x3c, 67, 0] ++
    ([0xfe, 0x40, cid, 0, 1] ++ (List.replicate 34 0 ++ (0x10 :: List.replicate 24 0)))

theorem isCapsule_nullCapsule (cid : UInt8) : IsCapsule (nullCapsule cid) where
  four_le := by simp [nullCapsule]
  le_max := by simp [nullCapsule, oxfMaxDgram]
  size := by simp [nullCapsule, capsuleSize]

/-- An error, a retry, and a last capsule of which only ten bytes are sent. -/
def retriedSends : List SendOp :=
  [.submit (nullCapsule 7), .send .error, .submit (nullCapsule 8), .send (.sent 0),
    .send (.sent 57), .send .error]

theorem sends_decodable_retried :
    let state := sendSystem.run {} retriedSends
    state.wire = nullCapsule 7 ++ (nullCapsule 8).take 10 ∧
      Decodes state.wire [nullCapsule 7] := by
  have wf : ∀ op ∈ retriedSends, op.WellFormed := by
    simp [retriedSends, SendOp.WellFormed, isCapsule_nullCapsule]
  exact ⟨by decide, (sends_decodable retriedSends wf (by decide)).1⟩

/-- The last byte of a capsule is missing, and the second attempt sends all of it. -/
def shortSends : List SendOp :=
  [.submit (nullCapsule 7), .send (.sent 1), .send (.sent 0)]

/-- What the receiver takes for the first capsule. -/
def joinedCapsule : List UInt8 :=
  (nullCapsule 7).take 66 ++ [0x3c]

/-- The other bytes of the capsule are the beginning of a capsule of 65024 bytes. -/
def shiftedCapsule : List UInt8 :=
  (nullCapsule 7).drop 1 ++ List.replicate 64958 0

theorem decodes_shortSends : Decodes (sendSystem.run {} shortSends).wire [joinedCapsule] := by
  have wire : (sendSystem.run {} shortSends).wire =
      [joinedCapsule].flatten ++ (nullCapsule 7).drop 1 := by decide
  have length : shiftedCapsule.length = 65024 := by
    rw [shiftedCapsule, List.length_append, List.length_replicate]
    rfl
  have joined : IsCapsule joinedCapsule := by decide
  have shifted : IsCapsule shiftedCapsule := by
    refine ⟨?_, ?_, ?_⟩
    · rw [length]
      decide
    · rw [length]
      decide
    · rw [length, shiftedCapsule, capsuleSize_append (by decide)]
      rfl
  rw [wire]
  refine decodes_of_unfinished [shiftedCapsule] (List.replicate 64958 0) ?_ ?_
    (arrived_cons_of_lt ?_)
  · intro capsule mem
    rcases List.mem_append.mp mem with mem | mem
    · rw [List.mem_singleton.mp mem]
      exact joined
    · rw [List.mem_singleton.mp mem]
      exact shifted
  · rw [List.flatten_singleton, shiftedCapsule]
  · rw [length]
    decide

/-- The receiver does not get the submitted capsule. -/
theorem short_send_shifts :
    let state := sendSystem.run {} shortSends
    state.submitted = [nullCapsule 7] ∧
      ¬ ∃ capsules, Decodes state.wire capsules ∧ capsules.Sublist state.submitted := by
  refine ⟨by decide, ?_⟩
  rintro ⟨capsules, decodes, sub⟩
  have cut : ∀ piece ∈ [(sendSystem.run {} shortSends).wire],
      1 ≤ piece.length ∧ piece.length ≤ oxfMaxDgram := by decide
  obtain ⟨after, run, calls⟩ :=
    decodes 0 (RecvTh.zeroed _) (RecvTh.starts_zeroed _) _ cut List.flatten_singleton
  obtain ⟨same, sameRun, sameCalls⟩ :=
    decodes_shortSends 0 (RecvTh.zeroed _) (RecvTh.starts_zeroed _) _ cut List.flatten_singleton
  rw [run] at sameRun
  rw [← Option.some.inj sameRun, calls] at sameCalls
  have one : capsules = [joinedCapsule] :=
    List.map_injective_iff.mpr (fun first second eq => (Prod.mk.inj (Prod.mk.inj eq).2).1) sameCalls
  have mem : joinedCapsule ∈ [nullCapsule 7] := by
    refine sub.subset ?_
    rw [one]
    exact List.mem_cons_self
  exact absurd (List.mem_singleton.mp mem) (by decide)

end OxCtrl.Fabrics
