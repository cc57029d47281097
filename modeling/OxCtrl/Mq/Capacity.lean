import OxCtrl.Mq.Invariant

/-!
# Capacity of the multi-queue

Each queue begins with `q_size` entries on both sides.  While the timeout thread takes no entry
that a completion is about to remove, a state without a task has all of them in the lists.
-/

namespace OxCtrl.Mq

open OxCtrl.Lib

/-- The entries in all lists. -/
def MqState.listed (mq : MqState) : List Nat :=
  mq.queues.flatMap fun queue =>
    queue.sqFree.entries ++ queue.sqUsed.entries ++ queue.sqWait.entries ++
      queue.cqFree.entries ++ queue.cqUsed.entries

/-- Every queue has its entries, no entry is listed twice, and the counters are right. -/
structure Conserved (conf : Config) (mq : MqState) : Prop where
  queues : mq.queues.length = conf.nQueues
  sq : ∀ queue ∈ mq.queues, queue.sqFree.entries.length + queue.sqUsed.entries.length +
    queue.sqWait.entries.length = conf.qSize
  cq : ∀ queue ∈ mq.queues,
    queue.cqFree.entries.length + queue.cqUsed.entries.length = conf.qSize
  once : mq.listed.Nodup
  counted : ∀ queue ∈ mq.queues, queue.Counted

/-! ## The first state -/

section Init

variable (conf : Config)

/-- The places after `ox_mq_init` of these many queues. -/
def initPlaces (n : Nat) : Multiset (Place × Nat) :=
  (((List.range n).map (oxMqInitQueue conf)).map Queue.places).sum

theorem initPlaces_succ (n : Nat) :
    initPlaces conf (n + 1) = initPlaces conf n + (oxMqInitQueue conf n).places := by
  rw [initPlaces, initPlaces, List.range_succ, List.map_append, List.map_append, List.sum_append,
    List.map_singleton, List.map_singleton, List.sum_singleton]

theorem places_init (qid : Nat) :
    (oxMqInitQueue conf qid).places =
      inPlace (.sq qid .free) (List.range' (qid * (2 * conf.qSize)) conf.qSize) +
        inPlace (.cq qid .free) (List.range' (qid * (2 * conf.qSize) + conf.qSize) conf.qSize) := by
  simp only [Queue.places, oxMqInitQueue, inPlace_nil, add_zero]

theorem initPlaces_entries (n : Nat) :
    (initPlaces conf n).map Prod.snd = ↑(List.range (n * (2 * conf.qSize))) := by
  induction n with
  | zero =>
      rw [Nat.zero_mul]
      rfl
  | succ n ih =>
      have block : List.range (n * (2 * conf.qSize)) ++
          List.range' (n * (2 * conf.qSize)) (2 * conf.qSize) =
            List.range ((n + 1) * (2 * conf.qSize)) := by
        rw [Nat.succ_mul n (2 * conf.qSize), List.range_add, List.range'_eq_map_range]
      rw [initPlaces_succ, Multiset.map_add, ih, places_init, Multiset.map_add, inPlace_entries,
        inPlace_entries, Multiset.coe_add, Multiset.coe_add, List.range'_append_1, ← Nat.two_mul,
        block]

theorem initPlaces_free {n req : Nat} {place : Place} (mem : (place, req) ∈ initPlaces conf n) :
    ∃ qid, place = .sq qid .free ∨ place = .cq qid .free := by
  induction n with
  | zero => exact absurd mem (Multiset.notMem_zero _)
  | succ n ih =>
      rw [initPlaces_succ, places_init, Multiset.mem_add, Multiset.mem_add] at mem
      rcases mem with old | sq | cq
      · exact ih old
      · exact ⟨n, Or.inl (mem_inPlace.mp sq).1⟩
      · exact ⟨n, Or.inr (mem_inPlace.mp cq).1⟩

theorem initPlaces_side (n qid : Nat) (cq : Bool) :
    (initPlaces conf n).countP (fun item => item.1.side = some (qid, cq)) =
      if qid < n then conf.qSize else 0 := by
  induction n with
  | zero => rfl
  | succ n ih =>
      rw [initPlaces_succ, Multiset.countP_add, ih, places_init, Multiset.countP_add,
        countP_inPlace, countP_inPlace, List.length_range', List.length_range']
      by_cases eq : qid = n
      · subst eq
        cases cq <;> simp [Place.side]
      · have lt : qid < n + 1 ↔ qid < n :=
          Nat.lt_succ_iff_lt_or_eq.trans (or_iff_left eq)
        simp [Place.side, Ne.symm eq, lt]

theorem Inv.init : Inv conf (oxMqInit conf) := by
  have placed : (oxMqInit conf).placed = initPlaces conf conf.nQueues := add_zero _
  refine ⟨⟨?_, ?_, ?_⟩, ⟨?_, ?_, ?_⟩, Multiset.nodup_zero,
    fun _ _ mem => absurd mem (Multiset.notMem_zero _), Multiset.nodup_zero,
    fun _ _ mem => absurd mem (Multiset.notMem_zero _), fun _ mem => absurd mem List.not_mem_nil⟩
  · rw [oxMqInit, List.length_map, List.length_range]
  · intro index queue get
    rw [oxMqInit, List.getElem?_map, Option.map_eq_some_iff] at get
    obtain ⟨qid, getQid, rfl⟩ := get
    obtain ⟨_, eq⟩ := List.getElem?_eq_some_iff.mp getQid
    rw [← eq, List.getElem_range]
    rfl
  · intro queue mem
    obtain ⟨qid, _, rfl⟩ := List.mem_map.mp mem
    have filled : ∀ first, (⟨List.range' first conf.qSize, conf.qSize⟩ : Tailq Nat).Counted := by
      intro first
      rw [Tailq.Counted, List.length_range']
    exact ⟨filled _, rfl, rfl, filled _, rfl⟩
  · rw [placed, initPlaces_entries]
    exact Multiset.coe_nodup.mpr List.nodup_range
  · intro place req mem
    rw [placed] at mem
    have entry := Multiset.mem_map_of_mem Prod.snd mem
    rw [initPlaces_entries] at entry
    refine ⟨?_, Or.inl (List.mem_range.mp entry)⟩
    have unset : ¬ Entry.TimedOut {} := by simp [Entry.TimedOut]
    obtain ⟨qid, rfl | rfl⟩ := initPlaces_free conf mem
    · exact unset
    · exact unset
  · intro qid lt cq
    rw [placed, initPlaces_side, if_pos lt]

end Init

/-! ## States without a task -/

section Idle

variable {conf : Config} {mq : MqState}

theorem places_side (queue : Queue) (qid : Nat) (cq : Bool) :
    queue.places.countP (fun item => item.1.side = some (qid, cq)) =
      if queue.qid = qid then
        if cq then queue.cqFree.entries.length + queue.cqUsed.entries.length
        else queue.sqFree.entries.length + queue.sqUsed.entries.length + queue.sqWait.entries.length
      else 0 := by
  rw [Queue.places]
  simp only [Multiset.countP_add, countP_inPlace]
  by_cases eq : queue.qid = qid
  · cases cq <;> simp [Place.side, eq]
  · simp [Place.side, eq]

theorem sum_side_zero {queues : List Queue} {qid : Nat} (notMem : qid ∉ queues.map Queue.qid)
    (cq : Bool) :
    ((queues.map Queue.places).sum).countP (fun item => item.1.side = some (qid, cq)) = 0 := by
  induction queues with
  | nil => rfl
  | cons first rest ih =>
      rw [List.map_cons, List.mem_cons, not_or] at notMem
      rw [List.map_cons, List.sum_cons, Multiset.countP_add, ih notMem.2, places_side,
        if_neg (Ne.symm notMem.1)]

theorem sum_side {queues : List Queue} (nodup : (queues.map Queue.qid).Nodup) {queue : Queue}
    (mem : queue ∈ queues) (cq : Bool) :
    ((queues.map Queue.places).sum).countP (fun item => item.1.side = some (queue.qid, cq)) =
      queue.places.countP fun item => item.1.side = some (queue.qid, cq) := by
  induction queues with
  | nil => exact absurd mem List.not_mem_nil
  | cons first rest ih =>
      rw [List.map_cons, List.nodup_cons] at nodup
      rw [List.map_cons, List.sum_cons, Multiset.countP_add]
      rcases List.mem_cons.mp mem with rfl | memRest
      · rw [sum_side_zero nodup.1, Nat.add_zero]
      · have ne : first.qid ≠ queue.qid := fun eq =>
          nodup.1 (eq ▸ List.mem_map_of_mem memRest)
        rw [ih nodup.2 memRest, places_side first, if_neg ne, Nat.zero_add]

theorem listed_eq (queues : List Queue) :
    ((queues.map Queue.places).sum).map Prod.snd = ↑(queues.flatMap fun queue =>
      queue.sqFree.entries ++ queue.sqUsed.entries ++ queue.sqWait.entries ++
        queue.cqFree.entries ++ queue.cqUsed.entries) := by
  induction queues with
  | nil => rfl
  | cons first rest ih =>
      rw [List.map_cons, List.sum_cons, Multiset.map_add, ih, List.flatMap_cons,
        ← Multiset.coe_add, Queue.places]
      simp only [Multiset.map_add, inPlace_entries, Multiset.coe_add]

theorem QueuesOk.qids_eq {queues : List Queue} (ok : QueuesOk conf queues) :
    queues.map Queue.qid = List.range queues.length := by
  refine List.ext_getElem (by rw [List.length_map, List.length_range]) fun index lt _ => ?_
  rw [List.getElem_map, List.getElem_range]
  exact ok.qids index _ (List.getElem?_eq_getElem _)

theorem Inv.conserved (inv : Inv conf mq) (idle : mq.tasks = []) : Conserved conf mq := by
  have placed : mq.placed = (mq.queues.map Queue.places).sum := by
    rw [MqState.placed, idle]
    exact add_zero _
  have nodup : (mq.queues.map Queue.qid).Nodup := by
    rw [inv.queues.qids_eq]
    exact List.nodup_range
  have count : ∀ queue ∈ mq.queues, ∀ cq,
      queue.places.countP (fun item => item.1.side = some (queue.qid, cq)) = conf.qSize := by
    intro queue mem cq
    obtain ⟨index, get⟩ := List.getElem?_of_mem mem
    rw [← sum_side nodup mem, ← placed]
    refine inv.placed.sides _ ?_ cq
    rw [inv.queues.qids index queue get, ← inv.queues.length]
    exact (List.getElem?_eq_some_iff.mp get).1
  refine ⟨inv.queues.length, ?_, ?_, ?_, inv.queues.counted⟩
  · intro queue mem
    have side := count queue mem false
    rw [places_side, if_pos rfl] at side
    exact side
  · intro queue mem
    have side := count queue mem true
    rw [places_side, if_pos rfl] at side
    exact side
  · have all := inv.placed.nodup
    rw [placed, listed_eq] at all
    exact all

end Idle

/-! ## Runs -/

/-- In an orderly run, a state without a task has every entry in its lists. -/
theorem capacity_conserved (conf : Config) (ops : List Op)
    (orderly : (mqSystem conf).Allowed Orderly (oxMqInit conf) ops)
    (idle : ((mqSystem conf).run (oxMqInit conf) ops).tasks = []) :
    Conserved conf ((mqSystem conf).run (oxMqInit conf) ops) := by
  refine Inv.conserved ?_ idle
  exact (mqSystem conf).run_invariant Orderly (Inv conf) (fun _ op ok inv => inv.step op ok)
    (Inv.init conf) orderly

/-- One queue of two entries, with `OX_MQ_TO_COMPLETE`. -/
def smallConf : Config :=
  ⟨1, 2, true⟩

/-- A submission times out, the timeout thread completes it, and the user's completion is late. -/
def timeoutRun : List Op :=
  let go := Op.next 0 false 0
  [.submit 0 false, go, go, .sqThread 0, go, go, go, .toThread 0, .next 0 true 4, go, go, go, go,
    go, go, go, go, go, .complete 0, .cqThread 0, go, go]

theorem capacity_conserved_timeout :
    Conserved smallConf ((mqSystem smallConf).run (oxMqInit smallConf) timeoutRun) :=
  capacity_conserved smallConf timeoutRun (by decide +kernel) (by decide +kernel)

/-- A completion has found `OX_MQ_WAITING` when the timeout thread takes the entry. -/
def lateRun : List Op :=
  let go index := Op.next index false 0
  [.submit 0 false, go 0, go 0, .sqThread 0, go 0, go 0, go 0, .complete 0, go 0, go 0, .toThread 0,
    .next 1 true 4, go 1, go 1, go 0, go 0, go 0, go 0, go 0, go 0, go 0, .cqThread 0, go 0, go 0]

/-- The entry is free again beside the new one, and `sq_wait` counts less than nothing. -/
theorem capacity_exceeded :
    ((mqSystem smallConf).run (oxMqInit smallConf) lateRun).tasks = [] ∧
      ¬ Conserved smallConf ((mqSystem smallConf).run (oxMqInit smallConf) lateRun) := by
  have queues : ((mqSystem smallConf).run (oxMqInit smallConf) lateRun).queues =
      [⟨0, ⟨[1, 4, 0], 3⟩, ⟨[], 0⟩, ⟨[], -1⟩, ⟨[3, 2], 2⟩, ⟨[], 0⟩⟩] := by decide +kernel
  refine ⟨by decide +kernel, fun conserved => ?_⟩
  have sq := conserved.sq _ (queues ▸ List.mem_singleton_self _)
  exact absurd sq (by decide)

end OxCtrl.Mq
