import Mathlib.Data.List.Induction
import Mathlib.Logic.Relation
import OxCtrl.Fabrics.Framing

/-!
# Framing of arbitrary bytes

A peer may send anything.  The capsules of its stream begin where the sizes in the headers say,
whatever the pieces are; which sizes do harm depends on the pieces.  A size of zero keeps the loop
at its place, a header in two pieces with a size below its own length makes the length of a copy
negative, and a size above the buffer lets the residue grow beyond it.
-/

namespace OxCtrl.Fabrics

open OxCtrl.Lib

/-! ## The stream -/

/-- The size in the header at a position. -/
def sizeAt (stream : List UInt8) (pos : Nat) : Nat :=
  capsuleSize (stream.drop pos)

/-- The capsule behind one whose header has arrived. -/
def NextCapsule (stream : List UInt8) (pos next : Nat) : Prop :=
  pos + 3 ≤ stream.length ∧ 0 < sizeAt stream pos ∧ next = pos + sizeAt stream pos

/-- A position at which a capsule begins. -/
def CapsuleAt (stream : List UInt8) (pos : Nat) : Prop :=
  Relation.ReflTransGen (NextCapsule stream) 0 pos

/-- A piece ends inside the header at a position. -/
def HeaderCut (pieces : List (List UInt8)) (pos : Nat) : Prop :=
  ∃ front, front <+: pieces ∧ pos < front.flatten.length ∧ front.flatten.length < pos + 3

/-- The sizes that the threads can take, for a stream and the headers that are cut.  A header in one
piece has a size; a header in two pieces has its own length, at least, unless nothing follows it;
and not more is received of a capsule than the buffer holds. -/
def Harmless (cut : Nat → Prop) (stream : List UInt8) : Prop :=
  ∀ pos, CapsuleAt stream pos → pos + 3 ≤ stream.length →
    (¬ cut pos → 1 ≤ sizeAt stream pos) ∧
      (cut pos → pos + 3 < stream.length → 3 ≤ sizeAt stream pos) ∧
      (oxfMaxDgram + 1 < sizeAt stream pos → stream.length - pos ≤ oxfMaxDgram + 1)

section Stream

variable {stream received piece : List UInt8} {cut : Nat → Prop} {pos next : Nat}

theorem sizeAt_append (header : pos + 3 ≤ received.length) (piece : List UInt8) :
    sizeAt (received ++ piece) pos = sizeAt received pos := by
  rw [sizeAt, sizeAt, List.drop_append_of_le_length (Nat.le_of_add_right_le header)]
  refine capsuleSize_append ?_ piece
  rw [List.length_drop]
  omega

theorem NextCapsule.append (step : NextCapsule received pos next) (piece : List UInt8) :
    NextCapsule (received ++ piece) pos next := by
  obtain ⟨header, some, eq⟩ := step
  have size := sizeAt_append header piece
  refine ⟨?_, ?_, ?_⟩
  · rw [List.length_append]
    exact Nat.le_add_right_of_le header
  · rw [size]
    exact some
  · rw [size]
    exact eq

theorem CapsuleAt.append (capsule : CapsuleAt received pos) (piece : List UInt8) :
    CapsuleAt (received ++ piece) pos :=
  Relation.ReflTransGen.mono (fun _ _ step => NextCapsule.append step piece) _ _ capsule

/-- Behind a capsule the next one begins at its end. -/
theorem eq_or_next_le (behind : Relation.ReflTransGen (NextCapsule stream) pos next) :
    next = pos ∨ pos + 3 ≤ stream.length ∧ 0 < sizeAt stream pos ∧
      pos + sizeAt stream pos ≤ next := by
  induction behind with
  | refl => exact Or.inl rfl
  | tail _ step ih =>
      obtain ⟨arrived, some, eq⟩ := step
      rcases ih with rfl | ⟨header, size, le⟩
      · exact Or.inr ⟨arrived, some, Nat.le_of_eq eq.symm⟩
      · exact Or.inr ⟨header, size, by omega⟩

/-- Of two capsules of one stream, one is behind the other. -/
theorem CapsuleAt.total (first : CapsuleAt stream pos) (second : CapsuleAt stream next) :
    next ≤ pos ∨ pos + 3 ≤ stream.length ∧ 0 < sizeAt stream pos ∧
      pos + sizeAt stream pos ≤ next := by
  have unique : Relator.RightUnique (NextCapsule stream) := by
    rintro from' one two ⟨_, _, rfl⟩ ⟨_, _, rfl⟩
    rfl
  rcases Relation.ReflTransGen.total_of_right_unique unique first second with behind | before
  · rcases eq_or_next_le behind with rfl | more
    · exact Or.inl (Nat.le_refl _)
    · exact Or.inr more
  · rcases eq_or_next_le before with rfl | ⟨_, _, le⟩
    · exact Or.inl (Nat.le_refl _)
    · exact Or.inl (by omega)

/-- All capsules in front of a position have been delivered. -/
structure Settled (cut : Nat → Prop) (stream : List UInt8) (pos : Nat) : Prop where
  capsule : CapsuleAt stream pos
  before : ∀ other, CapsuleAt stream other → other < pos →
    1 ≤ sizeAt stream other ∧ sizeAt stream other ≤ oxfMaxDgram + 1 ∧
      (cut other → 3 ≤ sizeAt stream other)

theorem settled_zero (cut : Nat → Prop) (stream : List UInt8) : Settled cut stream 0 where
  capsule := Relation.ReflTransGen.refl
  before := fun _ _ lt => absurd lt (Nat.not_lt_zero _)

namespace Settled

/-- The header of a delivered capsule has arrived. -/
theorem header (settled : Settled cut stream pos) {other : Nat} (capsule : CapsuleAt stream other)
    (lt : other < pos) : other + 3 ≤ stream.length := by
  rcases capsule.total settled.capsule with le | ⟨header, _⟩
  · exact absurd lt (Nat.not_lt.mpr le)
  · exact header

/-- More bytes do not change what has been delivered. -/
theorem append (settled : Settled cut received pos) (piece : List UInt8) :
    Settled cut (received ++ piece) pos := by
  have same : ∀ other, CapsuleAt (received ++ piece) other → other < pos →
      CapsuleAt received other := by
    intro other capsule
    induction capsule with
    | refl => exact fun _ => Relation.ReflTransGen.refl
    | tail _ step ih =>
        intro lt
        obtain ⟨_, some, rfl⟩ := step
        have earlier := ih (by omega)
        have header := settled.header earlier (by omega)
        rw [sizeAt_append header] at some ⊢
        exact Relation.ReflTransGen.tail earlier ⟨header, some, rfl⟩
  refine ⟨settled.capsule.append piece, fun other capsule lt => ?_⟩
  have earlier := same other capsule lt
  rw [sizeAt_append (settled.header earlier lt)]
  exact settled.before other earlier lt

/-- One more capsule is delivered. -/
theorem deliver (settled : Settled cut stream pos) (header : pos + 3 ≤ stream.length)
    (some : 1 ≤ sizeAt stream pos) (le : sizeAt stream pos ≤ oxfMaxDgram + 1)
    (whole : cut pos → 3 ≤ sizeAt stream pos) : Settled cut stream (pos + sizeAt stream pos) where
  capsule := Relation.ReflTransGen.tail settled.capsule ⟨header, some, rfl⟩
  before := by
    intro other capsule lt
    rcases settled.capsule.total capsule with le' | ⟨_, _, behind⟩
    · rcases Nat.lt_or_eq_of_le le' with before | rfl
      · exact settled.before other capsule before
      · exact ⟨some, le, whole⟩
    · exact absurd lt (Nat.not_lt.mpr behind)

/-- When no header arrives behind the open capsule, its own header decides. -/
theorem harmless_iff (settled : Settled cut stream pos)
    (last : pos + 3 ≤ stream.length → 0 < sizeAt stream pos →
      stream.length < pos + sizeAt stream pos + 3) :
    Harmless cut stream ↔ (pos + 3 ≤ stream.length →
      (¬ cut pos → 1 ≤ sizeAt stream pos) ∧
        (cut pos → pos + 3 < stream.length → 3 ≤ sizeAt stream pos) ∧
        (oxfMaxDgram + 1 < sizeAt stream pos → stream.length - pos ≤ oxfMaxDgram + 1)) := by
  constructor
  · exact fun harmless => harmless pos settled.capsule
  · intro own other capsule header
    rcases settled.capsule.total capsule with le | ⟨ownHeader, some, behind⟩
    · rcases Nat.lt_or_eq_of_le le with lt | rfl
      · obtain ⟨one, most, three⟩ := settled.before other capsule lt
        exact ⟨fun _ => one, fun cut _ => three cut, fun more => absurd most (Nat.not_le.mpr more)⟩
      · exact own header
    · have short := last ownHeader some
      omega

end Settled

/-- A stream of which more arrives is harmless only if it has been so far. -/
theorem Harmless.of_append (harmless : Harmless cut (received ++ piece)) :
    Harmless cut received := by
  intro pos capsule header
  have length : (received ++ piece).length = received.length + piece.length := List.length_append
  obtain ⟨one, three, most⟩ := harmless pos (capsule.append piece) (by omega)
  rw [sizeAt_append header] at one three most
  exact ⟨one, fun cut more => three cut (by omega), fun more => by have := most more; omega⟩

end Stream

/-! ## The receiving function -/

/-- The thread keeps the beginning of the capsule at a position: less than a header, less than the
capsule, or a header in two pieces. -/
structure Pending {κ : Type} (cut : Nat → Prop) (stream : List UInt8) (pos : Nat)
    (state : Reassembly κ) : Prop where
  settled : Settled cut stream pos
  broken : state.broken.length = oxfMaxDgram + 1
  le : pos ≤ stream.length
  brkBytes : state.brkBytes = stream.length - pos
  residue : state.broken.take state.brkBytes = stream.drop pos
  short : state.brkBytes < 3 ∨ state.brkBytes < sizeAt stream pos ∨ state.brkBytes = 3 ∧ cut pos

/-- The function returns if and only if the stream so far is harmless. -/
def Outcome {κ : Type} (cut : Nat → Prop) (stream : List UInt8) (result : Option (Reassembly κ)) :
    Prop :=
  (result = none ∧ ¬ Harmless cut stream) ∨
    ∃ after pos, result = some after ∧ Harmless cut stream ∧ Pending cut stream pos after

section Function

variable {κ : Type} {rcv : Nat → List UInt8 → κ} {buffer received piece : List UInt8}
  {cut : Nat → Prop} {state : Reassembly κ} {offset pos : Nat}

/-- The loop does not leave a capsule of size zero. -/
theorem processLoop_zero {msgBytes : Nat} (lt : offset < msgBytes) (max : msgBytes ≤ oxfMaxDgram)
    (header : 3 ≤ msgBytes - offset) (zero : capsuleSize (buffer.drop offset) = 0) (rounds : Nat)
    (state : Reassembly κ) : processLoop rcv buffer msgBytes rounds offset state = none := by
  have small : oxfMaxDgram < 2 ^ 16 := by decide
  induction rounds generalizing state with
  | zero => exact if_pos lt
  | succ rounds ih =>
      have same : (offset + 0) % 2 ^ 16 = offset := Nat.mod_eq_of_lt (by omega)
      rw [processLoop, if_pos lt]
      dsimp only
      rw [zero, if_neg (by omega), same]
      exact ih _

/-- What the bytes of a piece in the buffer are in the stream. -/
structure Arrival (buffer received piece : List UInt8) : Prop where
  size : buffer.length = oxfMaxDgram + 1
  here : slice buffer 0 piece.length = piece
  le : piece.length ≤ oxfMaxDgram

namespace Arrival

variable (arrival : Arrival buffer received piece)
include arrival

theorem slice_eq (offset : Nat) :
    slice buffer offset (piece.length - offset) = (received ++ piece).drop
      (received.length + offset) := by
  have rest := drop_slice buffer 0 piece.length offset
  rw [arrival.here, Nat.zero_add] at rest
  rw [← rest, List.drop_append]
  simp

theorem capsuleSize_eq (header : offset + 3 ≤ piece.length) :
    capsuleSize (buffer.drop offset) = sizeAt (received ++ piece) (received.length + offset) := by
  have enough : 3 ≤ piece.length - offset := by omega
  rw [← capsuleSize_take enough, ← slice, arrival.slice_eq, sizeAt]

/-- The rest of a piece becomes the residue. -/
theorem keep (broken : state.broken.length = oxfMaxDgram + 1) (le : offset ≤ piece.length) :
    ∃ copied, memcpy state.broken 0 buffer offset (piece.length - offset) = some copied ∧
      copied.length = oxfMaxDgram + 1 ∧
      copied.take (piece.length - offset) =
        (received ++ piece).drop (received.length + offset) := by
  have size := arrival.size
  have max := arrival.le
  obtain ⟨copied, copy, length, taken⟩ :=
    memcpy_eq state.broken buffer 0 offset (piece.length - offset) (by omega) (by omega)
  refine ⟨copied, copy, length.trans broken, ?_⟩
  rw [Nat.zero_add] at taken
  rw [taken, List.take_zero, List.nil_append, arrival.slice_eq]

/-- The loop from a capsule in the piece on. -/
theorem processLoop (uncut : ∀ pos, received.length ≤ pos → ¬ cut pos)
    (broken : state.broken.length = oxfMaxDgram + 1) (clean : state.brkBytes = 0)
    (le : offset ≤ piece.length) (rounds : Nat) (enough : piece.length - offset ≤ rounds)
    (settled : Settled cut (received ++ piece) (received.length + offset)) :
    Outcome cut (received ++ piece)
      (processLoop rcv buffer piece.length rounds offset state) := by
  have small : oxfMaxDgram < 2 ^ 16 := by decide
  have max := arrival.le
  have length : (received ++ piece).length = received.length + piece.length := List.length_append
  -- a capsule that does not end in this piece is harmless
  have kept : ∀ {offset : Nat}, piece.length - offset < 3 ∨
      piece.length - offset < sizeAt (received ++ piece) (received.length + offset) →
      Settled cut (received ++ piece) (received.length + offset) →
      Harmless cut (received ++ piece) := by
    intro offset short settled
    rw [settled.harmless_iff (by omega)]
    intro header
    have long : piece.length - offset <
        sizeAt (received ++ piece) (received.length + offset) := short.resolve_left (by omega)
    exact ⟨fun _ => by omega, fun found => absurd found (uncut _ (Nat.le_add_right _ _)),
      fun _ => by omega⟩
  induction rounds generalizing offset state with
  | zero =>
      have done : piece.length ≤ offset := by omega
      refine Or.inr ⟨state, _, processLoop_done done 0 state, kept (Or.inl (by omega)) settled,
        settled, broken, by omega, by omega, ?_, Or.inl (by omega)⟩
      rw [clean, List.take_zero, List.drop_of_length_le (by omega)]
  | succ rounds ih =>
      by_cases done : piece.length ≤ offset
      · refine Or.inr ⟨state, _, processLoop_done done _ state, kept (Or.inl (by omega)) settled,
          settled, broken, by omega, by omega, ?_, Or.inl (by omega)⟩
        rw [clean, List.take_zero, List.drop_of_length_le (by omega)]
      · have lt := Nat.not_le.mp done
        have sizes : 3 ≤ piece.length - offset → capsuleSize (buffer.drop offset) =
            sizeAt (received ++ piece) (received.length + offset) :=
          fun header => arrival.capsuleSize_eq (by omega)
        rw [Fabrics.processLoop, if_pos lt]
        dsimp only
        by_cases short : piece.length - offset < 3 ∨
            piece.length - offset < capsuleSize (buffer.drop offset)
        · -- the rest of the piece becomes the residue
          obtain ⟨copied, copy, copiedLength, copiedTake⟩ := arrival.keep broken le
          have stop : (offset + (piece.length - offset)) % 2 ^ 16 = piece.length := by
            rw [Nat.add_sub_cancel' le]
            exact Nat.mod_eq_of_lt (by omega)
          have residue : (piece.length - offset) % 2 ^ 16 = piece.length - offset :=
            Nat.mod_eq_of_lt (by omega)
          have open' : piece.length - offset < 3 ∨
              piece.length - offset < sizeAt (received ++ piece) (received.length + offset) := by
            by_cases header : piece.length - offset < 3
            · exact Or.inl header
            · rw [← sizes (Nat.not_lt.mp header)]
              exact Or.inr (short.resolve_left header)
          rw [if_pos short, copy, stop, residue, Option.bind_eq_bind, Option.bind_some,
            processLoop_done (Nat.le_refl _)]
          refine Or.inr ⟨_, received.length + offset, rfl, kept open' settled, settled,
            copiedLength, by omega, by simp only; omega, copiedTake, ?_⟩
          exact open'.imp id Or.inl
        · obtain ⟨header, whole⟩ := not_or.mp short
          have header := Nat.not_lt.mp header
          have size := sizes header
          rw [if_neg short]
          rcases Nat.eq_zero_or_pos (capsuleSize (buffer.drop offset)) with zero | some
          · have same : (offset + 0) % 2 ^ 16 = offset := Nat.mod_eq_of_lt (by omega)
            rw [zero, same]
            refine Or.inl ⟨processLoop_zero lt max header zero _ _, fun harmless => ?_⟩
            have one := (harmless _ settled.capsule (by omega)).1 (uncut _ (Nat.le_add_right _ _))
            rw [← size, zero] at one
            exact absurd one (by decide)
          · have next : (offset + capsuleSize (buffer.drop offset)) % 2 ^ 16 =
                offset + capsuleSize (buffer.drop offset) := Nat.mod_eq_of_lt (by omega)
            have later := settled.deliver (by omega) (by omega) (by omega)
              fun found => absurd found (uncut _ (Nat.le_add_right _ _))
            rw [← size, Nat.add_assoc] at later
            rw [next]
            exact ih broken clean (by omega) (by omega) later

omit arrival in
/-- The header in a residue is the one in the stream. -/
theorem capsuleSize_residue {stream : List UInt8} {bytes : List UInt8} {n : Nat} (header : 3 ≤ n)
    (residue : bytes.take n = (stream.drop pos).take n) :
    capsuleSize bytes = sizeAt stream pos := by
  rw [← capsuleSize_take header, residue, capsuleSize_take header, sizeAt]

/-- A part of a piece behind the residue. -/
theorem copy (fix n : Nat) (broken : state.broken.length = oxfMaxDgram + 1)
    (le : pos ≤ received.length + fix)
    (brkBytes : state.brkBytes = received.length + fix - pos)
    (residue : state.broken.take state.brkBytes =
      ((received ++ piece).drop pos).take state.brkBytes)
    (within : fix + n ≤ piece.length) (fits : state.brkBytes + n ≤ oxfMaxDgram + 1) :
    ∃ copied, memcpy state.broken state.brkBytes buffer fix n = some copied ∧
      copied.length = oxfMaxDgram + 1 ∧
      copied.take (state.brkBytes + n) = ((received ++ piece).drop pos).take
        (state.brkBytes + n) := by
  have size := arrival.size
  have max := arrival.le
  obtain ⟨copied, copy, length, taken⟩ :=
    memcpy_eq state.broken buffer state.brkBytes fix n (by omega) (by omega)
  refine ⟨copied, copy, length.trans broken, ?_⟩
  have part : slice buffer fix n = ((received ++ piece).drop (pos + state.brkBytes)).take n := by
    have position : pos + state.brkBytes = received.length + fix := by omega
    rw [position, ← arrival.slice_eq, take_slice (by omega)]
  rw [taken, residue, part, List.take_add, List.drop_drop]

/-- The capsule whose header is in the residue. -/
theorem processBroken (fix : Nat) (uncut : ∀ pos, received.length ≤ pos → ¬ cut pos)
    (broken : state.broken.length = oxfMaxDgram + 1) (le : pos ≤ received.length + fix)
    (brkBytes : state.brkBytes = received.length + fix - pos)
    (residue : state.broken.take state.brkBytes =
      ((received ++ piece).drop pos).take state.brkBytes)
    (more : fix < piece.length) (header : 3 ≤ state.brkBytes)
    (short : state.brkBytes < sizeAt (received ++ piece) pos ∨ state.brkBytes = 3 ∧ cut pos)
    (settled : Settled cut (received ++ piece) pos) :
    Outcome cut (received ++ piece) (processBroken rcv buffer (piece.length - fix) fix state) := by
  have small : oxfMaxDgram < 2 ^ 16 - 1 := by decide
  have max := arrival.le
  have length : (received ++ piece).length = received.length + piece.length := List.length_append
  have size : capsuleSize state.broken = sizeAt (received ++ piece) pos :=
    capsuleSize_residue header residue
  rw [Fabrics.processBroken, size]
  by_cases unfinished : state.brkBytes + (piece.length - fix) < sizeAt (received ++ piece) pos
  · rw [if_pos unfinished]
    by_cases fits : state.brkBytes + (piece.length - fix) ≤ oxfMaxDgram + 1
    · obtain ⟨copied, copied_eq, copiedLength, copiedTake⟩ :=
        arrival.copy fix _ broken le brkBytes residue (by omega) fits
      have kept : (state.brkBytes + (piece.length - fix)) % 2 ^ 16 =
          state.brkBytes + (piece.length - fix) := Nat.mod_eq_of_lt (by omega)
      rw [copied_eq, kept, Option.bind_eq_bind, Option.bind_some]
      refine Or.inr ⟨_, pos, rfl, ?_, settled, copiedLength, by omega, by simp only; omega, ?_,
        Or.inr (Or.inl unfinished)⟩
      · rw [settled.harmless_iff (by omega)]
        exact fun _ => ⟨fun _ => by omega, fun _ _ => by omega, fun _ => by omega⟩
      · rw [copiedTake]
        exact List.take_of_length_le (by rw [List.length_drop]; omega)
    · -- the residue outgrows the buffer
      have none : memcpy state.broken state.brkBytes buffer fix (piece.length - fix) = none :=
        if_neg (by omega)
      rw [none, Option.bind_eq_bind, Option.bind_none]
      refine Or.inl ⟨rfl, fun harmless => ?_⟩
      have most := (harmless pos settled.capsule (by omega)).2.2 (by omega)
      omega
  · rw [if_neg unfinished]
    by_cases negative : sizeAt (received ++ piece) pos < state.brkBytes
    · rw [if_pos negative]
      obtain ⟨three, found⟩ := short.resolve_left (by omega)
      refine Or.inl ⟨rfl, fun harmless => ?_⟩
      have least := (harmless pos settled.capsule (by omega)).2.1 found (by omega)
      omega
    · rw [if_neg negative]
      by_cases fits : sizeAt (received ++ piece) pos ≤ oxfMaxDgram + 1
      · obtain ⟨copied, copied_eq, copiedLength, _⟩ :=
          arrival.copy fix (sizeAt (received ++ piece) pos - state.brkBytes) broken le brkBytes
            residue (by omega) (by omega)
        have next : (fix + (sizeAt (received ++ piece) pos - state.brkBytes)) % 2 ^ 16 =
            fix + (sizeAt (received ++ piece) pos - state.brkBytes) := Nat.mod_eq_of_lt (by omega)
        have whole : piece.length - fix + fix = piece.length := by omega
        have later := settled.deliver (by omega) (by omega) fits fun _ => by omega
        have position : pos + sizeAt (received ++ piece) pos =
            received.length + (fix + (sizeAt (received ++ piece) pos - state.brkBytes)) := by omega
        rw [position] at later
        rw [copied_eq, next, whole, Option.bind_eq_bind, Option.bind_some]
        exact arrival.processLoop uncut copiedLength rfl (by omega) _ (by omega) later
      · have none : memcpy state.broken state.brkBytes buffer fix
            (sizeAt (received ++ piece) pos - state.brkBytes) = none := if_neg (by omega)
        rw [none, Option.bind_eq_bind, Option.bind_none]
        refine Or.inl ⟨rfl, fun harmless => ?_⟩
        have most := (harmless pos settled.capsule (by omega)).2.2 (by omega)
        omega

/-- A piece behind what the thread keeps. -/
theorem processMsg (rcv : Nat → List UInt8 → κ) (pending : Pending cut received pos state)
    (some : 1 ≤ piece.length) (uncut : ∀ pos, received.length ≤ pos → ¬ cut pos)
    (ends : ∀ pos, pos < received.length → received.length < pos + 3 → cut pos) :
    Outcome cut (received ++ piece) (processMsg rcv buffer piece.length state) := by
  have small : oxfMaxDgram < 2 ^ 16 - 1 := by decide
  have big : 3 ≤ oxfMaxDgram := by decide
  have max := arrival.le
  have length : (received ++ piece).length = received.length + piece.length := List.length_append
  have settled := pending.settled.append piece
  have le := pending.le
  have brkBytes := pending.brkBytes
  have residue : state.broken.take state.brkBytes =
      ((received ++ piece).drop pos).take state.brkBytes := by
    rw [pending.residue, List.drop_append_of_le_length le, brkBytes, ← List.length_drop,
      List.take_left]
  rw [Fabrics.processMsg]
  by_cases clean : state.brkBytes = 0
  · rw [if_pos clean]
    have position : pos = received.length + 0 := by omega
    rw [position] at settled
    exact arrival.processLoop uncut pending.broken clean (Nat.zero_le _) _ (Nat.le_refl _) settled
  rw [if_neg clean]
  by_cases header : state.brkBytes < 3
  · rw [if_pos header]
    by_cases few : piece.length + state.brkBytes < 3
    · obtain ⟨copied, copied_eq, copiedLength, copiedTake⟩ :=
        arrival.copy 0 piece.length pending.broken le brkBytes residue (by omega) (by omega)
      have kept : (state.brkBytes + piece.length) % 2 ^ 16 = state.brkBytes + piece.length :=
        Nat.mod_eq_of_lt (by omega)
      rw [if_pos few, copied_eq, kept, Option.bind_eq_bind, Option.bind_some]
      refine Or.inr ⟨_, pos, rfl, ?_, settled, copiedLength, by omega, by simp only; omega, ?_,
        Or.inl (by simp only; omega)⟩
      · rw [settled.harmless_iff (by omega)]
        omega
      · rw [copiedTake]
        exact List.take_of_length_le (by rw [List.length_drop]; omega)
    · obtain ⟨copied, copied_eq, copiedLength, copiedTake⟩ :=
        arrival.copy 0 (3 - state.brkBytes) pending.broken le brkBytes residue (by omega) (by omega)
      have three : state.brkBytes + (3 - state.brkBytes) = 3 := by omega
      have found : cut pos := ends pos (by omega) (by omega)
      rw [three] at copiedTake
      rw [if_neg few]
      dsimp only
      rw [copied_eq, Option.bind_eq_bind, Option.bind_some]
      by_cases last : piece.length - (3 - state.brkBytes) = 0
      · rw [if_pos last]
        refine Or.inr ⟨_, pos, rfl, ?_, settled, copiedLength, by omega, by simp only; omega, ?_,
          Or.inr (Or.inr ⟨rfl, found⟩)⟩
        · rw [settled.harmless_iff (by omega)]
          exact fun _ => ⟨fun none => absurd found none, fun _ => by omega, fun _ => by omega⟩
        · rw [copiedTake]
          exact List.take_of_length_le (by rw [List.length_drop]; omega)
      · rw [if_neg last]
        exact arrival.processBroken _ uncut copiedLength (by omega) (by simp only; omega) copiedTake
          (by omega) (Nat.le_refl _) (Or.inr ⟨rfl, found⟩) settled
  · rw [if_neg header]
    have short : state.brkBytes < sizeAt (received ++ piece) pos ∨
      state.brkBytes = 3 ∧ cut pos := by
      rw [sizeAt_append (by omega)]
      exact pending.short.resolve_left header
    exact arrival.processBroken 0 uncut pending.broken le brkBytes residue some
      (Nat.not_lt.mp header) short settled

end Arrival

end Function

/-! ## A connection -/

section Cuts

variable {pieces : List (List UInt8)} {piece stream : List UInt8} {pos : Nat}
  {cut cut' : Nat → Prop}

theorem not_headerCut (le : pieces.flatten.length ≤ pos) : ¬ HeaderCut pieces pos := by
  rintro ⟨front, ⟨rest, rfl⟩, lt, _⟩
  rw [List.flatten_append, List.length_append] at le
  omega

theorem headerCut_end (lt : pos < pieces.flatten.length) (short : pieces.flatten.length < pos + 3) :
    HeaderCut pieces pos :=
  ⟨pieces, List.prefix_refl _, lt, short⟩

/-- The end of a piece cuts no header that has arrived. -/
theorem headerCut_append (header : pos + 3 ≤ (pieces.flatten ++ piece).length) :
    HeaderCut (pieces ++ [piece]) pos ↔ HeaderCut pieces pos := by
  constructor
  · rintro ⟨front, pre, lt, short⟩
    rcases List.prefix_concat_iff.mp pre with rfl | pre
    · rw [List.flatten_concat] at short
      omega
    · exact ⟨front, pre, lt, short⟩
  · rintro ⟨front, pre, lt, short⟩
    exact ⟨front, pre.trans (List.prefix_append _ _), lt, short⟩

theorem harmless_congr (same : ∀ pos, pos + 3 ≤ stream.length → (cut pos ↔ cut' pos)) :
    Harmless cut stream ↔ Harmless cut' stream :=
  forall_congr' fun pos => forall_congr' fun _ => forall_congr' fun header => by
    rw [same pos header]

theorem Pending.congr {κ : Type} {state : Reassembly κ} (pending : Pending cut stream pos state)
    (same : ∀ pos, pos + 3 ≤ stream.length → (cut pos ↔ cut' pos)) :
    Pending cut' stream pos state where
  settled :=
    { capsule := pending.settled.capsule
      before := by
        intro other capsule lt
        rw [← same other (pending.settled.header capsule lt)]
        exact pending.settled.before other capsule lt }
  broken := pending.broken
  le := pending.le
  brkBytes := pending.brkBytes
  residue := pending.residue
  short := by
    have brkBytes := pending.brkBytes
    have le := pending.le
    refine pending.short.imp id (Or.imp id fun both => ⟨both.1, ?_⟩)
    exact (same pos (by omega)).mp both.2

end Cuts

section Threads

variable {κ : Type} {rcv : Nat → List UInt8 → κ} {recv : RecvTh κ → List UInt8 → Option (RecvTh κ)}

/-- What the rounds of the threads have in common: the piece is in the buffer. -/
def Rounds (rcv : Nat → List UInt8 → κ) (recv : RecvTh κ → List UInt8 → Option (RecvTh κ)) : Prop :=
  ∀ (state : RecvTh κ) (received piece : List UInt8), state.buffer.length = oxfMaxDgram + 1 →
    piece.length ≤ oxfMaxDgram → ∃ buffer, Arrival buffer received piece ∧
      recv state piece = (processMsg rcv buffer piece.length state.msg).map fun msg => ⟨buffer, msg⟩

theorem rounds_server (connId : Nat) :
    Rounds (fun size data => (size, data, connId)) (oxfTcpServerConTh connId) := by
  intro state received piece size le
  obtain ⟨copied, copy, length, here⟩ := recv_eq size le
  refine ⟨copied.set piece.length 0, ⟨(List.length_set ..).trans length, ?_, le⟩, ?_⟩
  · rw [slice_zero, List.take_set_of_le (Nat.le_refl _)]
    exact here
  · rw [oxfTcpServerConTh, copy, Option.map_eq_bind]
    rfl

theorem rounds_client : Rounds (fun size data => (size, data)) oxfTcpClientRecv := by
  intro state received piece size le
  obtain ⟨copied, copy, length, here⟩ := recv_eq size le
  refine ⟨copied, ⟨length, here, le⟩, ?_⟩
  rw [oxfTcpClientRecv, copy, Option.map_eq_bind]
  rfl

/-- A thread returns from every piece if and only if the stream is harmless. -/
theorem run_iff_harmless (rounds : Rounds rcv recv) {state : RecvTh κ} (starts : state.Starts)
    {pieces : List (List UInt8)}
    (bounds : ∀ piece ∈ pieces, 1 ≤ piece.length ∧ piece.length ≤ oxfMaxDgram) :
    (pieces.foldlM recv state = none ∧ ¬ Harmless (HeaderCut pieces) pieces.flatten) ∨
      ∃ after pos, pieces.foldlM recv state = some after ∧
        Harmless (HeaderCut pieces) pieces.flatten ∧ after.buffer.length = oxfMaxDgram + 1 ∧
        Pending (HeaderCut pieces) pieces.flatten pos after.msg := by
  induction pieces using List.reverseRecOn with
  | nil =>
      refine Or.inr ⟨state, 0, rfl, ?_, starts.buffer, settled_zero _ _, starts.broken,
        Nat.zero_le _, starts.brkBytes, ?_, Or.inl ?_⟩
      · intro pos _ header
        exact absurd header (by simp)
      · rw [starts.brkBytes]
        rfl
      · rw [starts.brkBytes]
        decide
  | append_singleton pieces piece ih =>
      have same : ∀ pos, pos + 3 ≤ (pieces.flatten ++ piece).length →
          (HeaderCut pieces pos ↔ HeaderCut (pieces ++ [piece]) pos) :=
        fun pos header => (headerCut_append header).symm
      have last := bounds piece (List.mem_append_right _ (List.mem_singleton_self _))
      have joined : (pieces ++ [piece]).flatten = pieces.flatten ++ piece := List.flatten_concat
      rw [List.foldlM_append, joined, ← harmless_congr same]
      rcases ih fun other mem => bounds other (List.mem_append_left _ mem) with
        ⟨stopped, harm⟩ | ⟨middle, pos, run, _, size, pending⟩
      · refine Or.inl ⟨?_, fun harmless => harm harmless.of_append⟩
        rw [stopped]
        rfl
      · obtain ⟨buffer, arrival, round⟩ := rounds middle pieces.flatten piece size last.2
        have outcome := arrival.processMsg rcv pending last.1 (fun _ => not_headerCut)
          fun _ => headerCut_end
        have single : List.foldlM recv middle [piece] = recv middle piece := by
          simp
        rw [run, Option.bind_eq_bind, Option.bind_some, single, round]
        rcases outcome with ⟨none, harm⟩ | ⟨after, pos, some, harmless, kept⟩
        · rw [none]
          exact Or.inl ⟨rfl, harm⟩
        · rw [some]
          exact Or.inr ⟨_, pos, rfl, harmless, arrival.size, kept.congr same⟩

theorem isSome_iff_harmless (rounds : Rounds rcv recv) {state : RecvTh κ} (starts : state.Starts)
    {pieces : List (List UInt8)}
    (bounds : ∀ piece ∈ pieces, 1 ≤ piece.length ∧ piece.length ≤ oxfMaxDgram) :
    (pieces.foldlM recv state).isSome = true ↔ Harmless (HeaderCut pieces) pieces.flatten := by
  rcases run_iff_harmless rounds starts bounds with ⟨none, harm⟩ | ⟨after, pos, some, harmless, _⟩
  · rw [none]
    exact iff_of_false Bool.false_ne_true harm
  · rw [some]
    exact iff_of_true rfl harmless

end Threads

/-- For every sequence of pieces of arbitrary bytes, both threads return from every piece, with all
copies inside the buffers, if and only if the sizes in the stream do no harm. -/
theorem framing_bounded_iff (pieces : List (List UInt8))
    (bounds : ∀ piece ∈ pieces, 1 ≤ piece.length ∧ piece.length ≤ oxfMaxDgram) (connId : Nat)
    (server : RecvTh ServerCall) (serverStarts : server.Starts)
    (client : RecvTh ClientCall) (clientStarts : client.Starts) :
    ((pieces.foldlM (oxfTcpServerConTh connId) server).isSome = true ↔
        Harmless (HeaderCut pieces) pieces.flatten) ∧
      ((pieces.foldlM oxfTcpClientRecv client).isSome = true ↔
        Harmless (HeaderCut pieces) pieces.flatten) :=
  ⟨isSome_iff_harmless (rounds_server connId) serverStarts bounds,
    isSome_iff_harmless rounds_client clientStarts bounds⟩

/-- A whole capsule, and one that a piece ends in: its header is cut. -/
def cutPieces : List (List UInt8) :=
  [[0x3c, 4, 0, 9, 0x3c], [4, 0, 8]]

theorem capsuleAt_cutPieces {pos : Nat} (capsule : CapsuleAt cutPieces.flatten pos) :
    pos = 0 ∨ pos = 4 ∨ pos = 8 := by
  induction capsule with
  | refl => exact Or.inl rfl
  | tail _ step ih =>
      obtain ⟨header, -, rfl⟩ := step
      rcases ih with rfl | rfl | rfl
      · exact Or.inr (Or.inl (by decide))
      · exact Or.inr (Or.inr (by decide))
      · exact absurd header (by decide)

/-- Both threads take the two capsules. -/
theorem framing_bounded_header :
    (cutPieces.foldlM (oxfTcpServerConTh 3) (RecvTh.zeroed ServerCall)).isSome = true ∧
      (cutPieces.foldlM oxfTcpClientRecv (RecvTh.zeroed ClientCall)).isSome = true := by
  have harmless : Harmless (HeaderCut cutPieces) cutPieces.flatten := by
    intro pos capsule header
    have size : sizeAt cutPieces.flatten pos = 4 := by
      rcases capsuleAt_cutPieces capsule with rfl | rfl | rfl
      · decide
      · decide
      · exact absurd header (by decide)
    rw [size]
    exact ⟨fun _ => by decide, fun _ _ => by decide, fun large => absurd large (by decide)⟩
  obtain ⟨server, client⟩ := framing_bounded_iff cutPieces (by decide) 3 (RecvTh.zeroed ServerCall)
    (RecvTh.starts_zeroed _) (RecvTh.zeroed ClientCall) (RecvTh.starts_zeroed _)
  exact ⟨server.mpr harmless, client.mpr harmless⟩

/-- A header with size zero holds both threads. -/
theorem framing_zero_size :
    [[0x3c, 0, 0]].foldlM (oxfTcpServerConTh 3) (RecvTh.zeroed ServerCall) = none ∧
      [[0x3c, 0, 0]].foldlM oxfTcpClientRecv (RecvTh.zeroed ClientCall) = none := by
  have bounds : ∀ piece ∈ [[0x3c, 0, 0]], 1 ≤ piece.length ∧
      (piece : List UInt8).length ≤ oxfMaxDgram := by decide
  have harm : ¬ Harmless (HeaderCut [[0x3c, 0, 0]]) [[0x3c, 0, 0]].flatten := by
    intro harmless
    have uncut : ¬ HeaderCut [[0x3c, 0, 0]] 0 := by
      rw [← List.nil_append [[0x3c, 0, 0]], headerCut_append (by decide)]
      exact not_headerCut (Nat.zero_le _)
    exact absurd ((harmless 0 Relation.ReflTransGen.refl (by decide)).1 uncut) (by decide)
  rw [← Option.not_isSome_iff_eq_none, ← Option.not_isSome_iff_eq_none,
    isSome_iff_harmless (rounds_server 3) (RecvTh.starts_zeroed _) bounds,
    isSome_iff_harmless rounds_client (RecvTh.starts_zeroed _) bounds]
  exact ⟨harm, harm⟩

end OxCtrl.Fabrics
