import Mathlib.Data.List.Nodup
import Mathlib.Logic.Function.Basic

/-!
# Tail queues in memory

The tail queues of `sys/queue.h`.  A head holds its first element and the place where the address of
the next one is stored, and an element holds its successor and the place where its own address is
stored.  A removal leaves the links of the removed element as they are, so that a loop that stands
on the element can go on from there.
-/

namespace OxCtrl.Lib.LinkedQueue

universe u v w

/-- A place where the address of an element is stored: the head of a queue, or an element. -/
inductive Place (Q : Type u) (P : Type v) where
  | first (queue : Q)
  | next (element : P)
  deriving DecidableEq, Repr

/-- The heads of the queues and the links of the elements. -/
structure Links (Q : Type u) (P : Type v) where
  first : Q → Option P
  last : Q → Place Q P
  next : P → Option P
  prev : P → Place Q P

variable {Q : Type u} {P : Type v}

namespace Links

/-- `TAILQ_INIT` of all heads. -/
def init (next : P → Option P) (prev : P → Place Q P) : Links Q P where
  first _ := none
  last := .first
  next := next
  prev := prev

/-- The address at a place. -/
def load (links : Links Q P) : Place Q P → Option P
  | .first queue => links.first queue
  | .next element => links.next element

variable [DecidableEq Q] [DecidableEq P]

/-- Store an address at a place. -/
def store (links : Links Q P) (place : Place Q P) (value : Option P) : Links Q P :=
  match place with
  | .first queue => { links with first := Function.update links.first queue value }
  | .next element => { links with next := Function.update links.next element value }

/-- `TAILQ_INSERT_TAIL` -/
def insertTail (links : Links Q P) (queue : Q) (element : P) : Links Q P :=
  let linked : Links Q P :=
    { links with
      next := Function.update links.next element none
      prev := Function.update links.prev element (links.last queue) }
  let stored := linked.store (links.last queue) (some element)
  { stored with last := Function.update stored.last queue (.next element) }

/-- `TAILQ_REMOVE` -/
def remove (links : Links Q P) (queue : Q) (element : P) : Links Q P :=
  let joined : Links Q P :=
    match links.next element with
    | some other => { links with prev := Function.update links.prev other (links.prev element) }
    | none => { links with last := Function.update links.last queue (links.prev element) }
  joined.store (links.prev element) (links.next element)

@[simp]
theorem store_last (links : Links Q P) (place : Place Q P) (value : Option P) :
    (links.store place value).last = links.last := by
  cases place <;> rfl

@[simp]
theorem store_prev (links : Links Q P) (place : Place Q P) (value : Option P) :
    (links.store place value).prev = links.prev := by
  cases place <;> rfl

theorem load_store (links : Links Q P) (place other : Place Q P) (value : Option P) :
    (links.store place value).load other = if other = place then value else links.load other := by
  cases place <;> cases other <;> simp [store, load, Function.update_apply]

theorem load_insertTail (links : Links Q P) (queue : Q) (element : P) (place : Place Q P) :
    (links.insertTail queue element).load place =
      if place = links.last queue then some element
      else if place = .next element then none else links.load place := by
  have same : (links.insertTail queue element).load place =
      ((({ links with
          next := Function.update links.next element none
          prev := Function.update links.prev element (links.last queue) } : Links Q P).store
        (links.last queue) (some element)).load place) := by
    cases place <;> rfl
  rw [same, load_store]
  cases place <;> simp [load, Function.update_apply]

theorem prev_insertTail (links : Links Q P) (queue : Q) (element other : P) :
    (links.insertTail queue element).prev other =
      if other = element then links.last queue else links.prev other := by
  simp only [insertTail, store_prev, Function.update_apply]

theorem last_insertTail (links : Links Q P) (queue other : Q) (element : P) :
    (links.insertTail queue element).last other =
      if other = queue then .next element else links.last other := by
  simp only [insertTail, store_last, Function.update_apply]

theorem load_remove (links : Links Q P) (queue : Q) (element : P) (place : Place Q P) :
    (links.remove queue element).load place =
      if place = links.prev element then links.next element else links.load place := by
  rw [remove, load_store]
  cases links.next element <;> rfl

theorem prev_remove (links : Links Q P) (queue : Q) (element other : P) :
    (links.remove queue element).prev other =
      if links.next element = some other then links.prev element else links.prev other := by
  rw [remove, store_prev]
  cases next : links.next element with
  | none => rfl
  | some following =>
      simp only [Function.update_apply, Option.some.injEq, eq_comm]

theorem last_remove (links : Links Q P) (queue other : Q) (element : P) :
    (links.remove queue element).last other =
      if links.next element = none ∧ other = queue then links.prev element
      else links.last other := by
  rw [remove, store_last]
  cases links.next element with
  | none => simp only [Function.update_apply, true_and]
  | some following => simp

end Links

/-! ## Chains -/

/-- The links lead from a place over the elements to another place. -/
def Segment (links : Links Q P) : Place Q P → List P → Place Q P → Prop
  | place, [], stop => place = stop
  | place, element :: rest, stop =>
      links.load place = some element ∧ links.prev element = place ∧
        Segment links (.next element) rest stop

/-- The places that are read on the way over the elements. -/
def reads : Place Q P → List P → List (Place Q P)
  | _, [] => []
  | place, element :: rest => place :: reads (.next element) rest

/-- The places of a queue with these elements. -/
def places (place : Place Q P) (list : List P) : List (Place Q P) :=
  place :: list.map .next

@[simp]
theorem next_mem_places {queue : Q} {list : List P} {element : P} :
    .next element ∈ places (.first queue) list ↔ element ∈ list := by
  simp [places]

theorem places_append (place : Place Q P) (front back : List P) (element : P) :
    places place (front ++ element :: back) =
      places place front ++ places (.next element) back := by
  rw [places, List.map_append, List.map_cons]
  rfl

theorem segment_append {links : Links Q P} {place stop : Place Q P} {front back : List P} :
    Segment links place (front ++ back) stop ↔
      ∃ mid, Segment links place front mid ∧ Segment links mid back stop := by
  induction front generalizing place with
  | nil => exact ⟨fun segment => ⟨place, rfl, segment⟩, fun ⟨_, eq, segment⟩ => eq ▸ segment⟩
  | cons element front ih =>
      constructor
      · rintro ⟨load, prev, segment⟩
        obtain ⟨mid, first, second⟩ := ih.mp segment
        exact ⟨mid, ⟨load, prev, first⟩, second⟩
      · rintro ⟨mid, ⟨load, prev, first⟩, second⟩
        exact ⟨load, prev, ih.mpr ⟨mid, first, second⟩⟩

/-- The place at the end is the only one that is not read. -/
theorem Segment.places_eq {links : Links Q P} {place stop : Place Q P} {list : List P}
    (segment : Segment links place list stop) : places place list = reads place list ++ [stop] := by
  induction list generalizing place with
  | nil =>
      obtain rfl : place = stop := segment
      rfl
  | cons element rest ih => exact congrArg (List.cons place) (ih segment.2.2)

theorem Segment.congr {links changed : Links Q P} {place stop : Place Q P} {list : List P}
    (segment : Segment links place list stop)
    (load : ∀ read ∈ reads place list, changed.load read = links.load read)
    (prev : ∀ element ∈ list, changed.prev element = links.prev element) :
    Segment changed place list stop := by
  induction list generalizing place with
  | nil => exact segment
  | cons element rest ih =>
      obtain ⟨isElement, isPlace, segment⟩ := segment
      refine ⟨?_, ?_, ih segment ?_ ?_⟩
      · rw [load place List.mem_cons_self, isElement]
      · rw [prev element List.mem_cons_self, isPlace]
      · exact fun read mem => load read (List.mem_cons_of_mem _ mem)
      · exact fun other mem => prev other (List.mem_cons_of_mem _ mem)

theorem places_nodup (queue : Q) {list : List P} (nodup : list.Nodup) :
    (places (.first queue) list).Nodup := by
  refine List.nodup_cons.mpr ⟨?_, nodup.map fun first second eq => Place.next.inj eq⟩
  intro mem
  obtain ⟨_, _, eq⟩ := List.mem_map.mp mem
  cases eq

/-- A queue whose elements are these, in this order. -/
structure Represents (links : Links Q P) (queue : Q) (list : List P) : Prop where
  segment : Segment links (.first queue) list (links.last queue)
  closed : links.load (links.last queue) = none
  nodup : list.Nodup

theorem represents_init (next : P → Option P) (prev : P → Place Q P) (queue : Q) :
    Represents (Links.init next prev) queue [] :=
  ⟨rfl, rfl, List.nodup_nil⟩

/-- Only the head and the links of the elements matter. -/
theorem Represents.congr {links changed : Links Q P} {queue : Q} {list : List P}
    (represents : Represents links queue list)
    (load : ∀ place ∈ places (.first queue) list, changed.load place = links.load place)
    (last : changed.last queue = links.last queue)
    (prev : ∀ element ∈ list, changed.prev element = links.prev element) :
    Represents changed queue list := by
  obtain ⟨segment, closed, nodup⟩ := represents
  rw [segment.places_eq] at load
  refine ⟨?_, ?_, nodup⟩
  · rw [last]
    exact segment.congr (fun read mem => load read (List.mem_append_left _ mem)) prev
  · rw [last, load _ List.mem_concat_self, closed]

theorem Represents.last_mem {links : Links Q P} {queue : Q} {list : List P}
    (represents : Represents links queue list) :
    links.last queue ∈ places (.first queue) list := by
  rw [represents.segment.places_eq]
  exact List.mem_concat_self

theorem Represents.first_eq {links : Links Q P} {queue : Q} {list : List P}
    (represents : Represents links queue list) : links.first queue = list.head? := by
  obtain ⟨segment, closed, _⟩ := represents
  cases list with
  | nil =>
      have eq : Place.first queue = links.last queue := segment
      rw [← eq] at closed
      exact closed
  | cons element rest => exact segment.1

/-- The successor of an element. -/
theorem Represents.next_eq {links : Links Q P} {queue : Q} {front back : List P} {element : P}
    (represents : Represents links queue (front ++ element :: back)) :
    links.next element = back.head? := by
  obtain ⟨segment, closed, _⟩ := represents
  obtain ⟨mid, _, _, _, segment⟩ := segment_append.mp segment
  cases back with
  | nil =>
      have eq : Place.next element = links.last queue := segment
      rw [← eq] at closed
      exact closed
  | cons other back => exact segment.1

/-- The place before an element, and the parts of its queue on both sides. -/
theorem Represents.split {links : Links Q P} {queue : Q} {front back : List P} {element : P}
    (represents : Represents links queue (front ++ element :: back)) :
    Segment links (.first queue) front (links.prev element) ∧
      Segment links (.next element) back (links.last queue) := by
  obtain ⟨mid, first, _, prev, second⟩ := segment_append.mp represents.segment
  rw [prev]
  exact ⟨first, second⟩

/-- The place before an element is the head or an element in front of it. -/
theorem Represents.prev_mem {links : Links Q P} {queue : Q} {front back : List P} {element : P}
    (represents : Represents links queue (front ++ element :: back)) :
    links.prev element ∈ places (.first queue) front := by
  rw [represents.split.1.places_eq]
  exact List.mem_concat_self

theorem notMem_places {queue other : Q} {list rest : List P} (ne : other ≠ queue)
    (apart : list.Disjoint rest) {place : Place Q P} (mem : place ∈ places (.first queue) list) :
    place ∉ places (.first other) rest := by
  intro memOther
  rcases List.mem_cons.mp mem with rfl | mem
  · rcases List.mem_cons.mp memOther with eq | memOther
    · cases eq
      exact ne rfl
    · obtain ⟨_, _, eq⟩ := List.mem_map.mp memOther
      cases eq
  · obtain ⟨element, memList, rfl⟩ := List.mem_map.mp mem
    exact apart memList (next_mem_places.mp memOther)

/-! ## Loops over a queue -/

/-- `TAILQ_FOREACH`, for at most `rounds` elements: the successor is read behind the body. -/
def foreach {σ : Type w} (next : σ → P → Option P) (body : σ → P → σ) :
    Nat → Option P → σ → Option σ
  | _, none, state => some state
  | 0, some _, _ => none
  | rounds + 1, some element, state =>
      foreach next body rounds (next (body state element) element) (body state element)

/-- A loop goes over the elements that the list had in front of it, when every body leaves the way
from its element to the rest. -/
theorem foreach_rule {σ : Type w} (next : σ → P → Option P) (body : σ → P → σ)
    (Inv : List P → σ → Prop)
    (step : ∀ element rest state, Inv (element :: rest) state →
      Inv rest (body state element) ∧ next (body state element) element = rest.head?)
    {list : List P} {state : σ} (initial : Inv list state) {rounds : Nat}
    (enough : list.length ≤ rounds) :
    ∃ after, foreach next body rounds list.head? state = some after ∧ Inv [] after := by
  induction list generalizing state rounds with
  | nil => exact ⟨state, by cases rounds <;> rfl, initial⟩
  | cons element rest ih =>
      obtain ⟨inv, goesOn⟩ := step element rest state initial
      cases rounds with
      | zero => cases enough
      | succ rounds =>
          obtain ⟨after, eq, done⟩ := ih inv (Nat.le_of_succ_le_succ enough)
          refine ⟨after, ?_, done⟩
          rw [List.head?_cons, foreach, goesOn, eq]

/-! ## Insertion and removal -/

variable [DecidableEq Q] [DecidableEq P]

theorem Represents.insertTail {links : Links Q P} {queue : Q} {list : List P} {element : P}
    (represents : Represents links queue list) (fresh : element ∉ list) :
    Represents (links.insertTail queue element) queue (list ++ [element]) := by
  obtain ⟨segment, closed, nodup⟩ := represents
  have nodupPlaces := places_nodup queue nodup
  have notPlace : Place.next element ∉ places (.first queue) list :=
    fun mem => fresh (next_mem_places.mp mem)
  rw [segment.places_eq] at nodupPlaces notPlace
  have lastNe : links.last queue ≠ .next element := by
    rintro eq
    rw [eq] at notPlace
    exact notPlace List.mem_concat_self
  refine ⟨?_, ?_, ?_⟩
  · rw [Links.last_insertTail, if_pos rfl]
    refine segment_append.mpr ⟨links.last queue, segment.congr ?_ ?_, ?_, ?_, rfl⟩
    · intro read mem
      rw [Links.load_insertTail, if_neg, if_neg]
      · rintro rfl
        exact notPlace (List.mem_append_left _ mem)
      · rintro rfl
        exact (List.nodup_append.mp nodupPlaces).2.2 _ mem _ (List.mem_singleton.mpr rfl) rfl
    · intro other mem
      rw [Links.prev_insertTail, if_neg]
      rintro rfl
      exact fresh mem
    · rw [Links.load_insertTail, if_pos rfl]
    · rw [Links.prev_insertTail, if_pos rfl]
  · rw [Links.last_insertTail, if_pos rfl, Links.load_insertTail, if_neg lastNe.symm, if_pos rfl]
  · exact List.nodup_append.mpr ⟨nodup, List.nodup_singleton _, fun other mem _ memElement eq =>
      fresh (List.mem_singleton.mp memElement ▸ eq ▸ mem)⟩

theorem Represents.remove {links : Links Q P} {queue : Q} {front back : List P} {element : P}
    (represents : Represents links queue (front ++ element :: back)) :
    Represents (links.remove queue element) queue (front ++ back) := by
  obtain ⟨before, behind⟩ := represents.split
  have next := represents.next_eq
  have closed := represents.closed
  have nodupPlaces := places_nodup queue represents.nodup
  rw [places_append] at nodupPlaces
  obtain ⟨nodupBefore, _, apart⟩ := List.nodup_append.mp nodupPlaces
  have readBefore : ∀ read ∈ reads (.first queue) front, read ≠ links.prev element := by
    rw [before.places_eq] at nodupBefore
    intro read mem
    exact (List.nodup_append.mp nodupBefore).2.2 read mem _ (List.mem_singleton.mpr rfl)
  have placeBehind : ∀ place ∈ places (.next element) back, place ≠ links.prev element :=
    fun place mem => (apart _ represents.prev_mem place mem).symm
  have nodup : (front ++ back).Nodup :=
    represents.nodup.sublist (List.Sublist.append_left (List.sublist_cons_self ..) _)
  cases back with
  | nil =>
      have last : (links.remove queue element).last queue = links.prev element := by
        rw [Links.last_remove, if_pos ⟨next, rfl⟩]
      rw [List.append_nil] at nodup ⊢
      refine ⟨?_, ?_, nodup⟩
      · rw [last]
        refine before.congr (fun read mem => ?_) fun other mem => ?_
        · rw [Links.load_remove, if_neg (readBefore read mem)]
        · rw [Links.prev_remove, next, if_neg (by simp)]
      · rw [last, Links.load_remove, if_pos rfl, next]
        rfl
  | cons following back =>
      obtain ⟨_, _, rest⟩ := behind
      obtain ⟨_, nodupBack, apartElements⟩ := List.nodup_append.mp nodup
      have notFollowing : ∀ other, other ∈ front ∨ other ∈ back →
          ¬ links.next element = some other := by
        rintro other mem eq
        rw [next, List.head?_cons, Option.some.injEq] at eq
        subst eq
        rcases mem with memFront | memBack
        · exact apartElements _ memFront _ List.mem_cons_self rfl
        · exact (List.nodup_cons.mp nodupBack).1 memBack
      have last : (links.remove queue element).last queue = links.last queue := by
        rw [Links.last_remove, next, if_neg (by simp)]
      refine ⟨?_, ?_, nodup⟩
      · rw [last]
        refine segment_append.mpr ⟨links.prev element, ?_, ?_, ?_, ?_⟩
        · refine before.congr (fun read mem => ?_) fun other mem => ?_
          · rw [Links.load_remove, if_neg (readBefore read mem)]
          · rw [Links.prev_remove, if_neg (notFollowing other (Or.inl mem))]
        · rw [Links.load_remove, if_pos rfl, next, List.head?_cons]
        · exact (Links.prev_remove ..).trans (if_pos next)
        · refine rest.congr (fun read mem => ?_) fun other mem => ?_
          · rw [Links.load_remove, if_neg (placeBehind read (List.mem_cons_of_mem _ ?_))]
            have inPlaces : read ∈ places (.next following) back := by
              rw [rest.places_eq]
              exact List.mem_append_left _ mem
            exact inPlaces
          · rw [Links.prev_remove, if_neg (notFollowing other (Or.inr mem))]
      · rw [last, Links.load_remove, if_neg (placeBehind _ (List.mem_cons_of_mem _ ?_))]
        · exact closed
        · have inPlaces : links.last queue ∈ places (.next following) back := by
            rw [rest.places_eq]
            exact List.mem_concat_self
          exact inPlaces

/-! ## What stays as it is -/

/-- An insertion leaves the other queues. -/
theorem Represents.insertTail_other {links : Links Q P} {queue other : Q} {list rest : List P}
    {element : P} (represents : Represents links other rest)
    (changed : Represents links queue list) (ne : other ≠ queue) (apart : list.Disjoint rest)
    (fresh : element ∉ rest) : Represents (links.insertTail queue element) other rest := by
  refine represents.congr (fun place mem => ?_) ?_ fun inRest mem => ?_
  · rw [Links.load_insertTail, if_neg, if_neg]
    · rintro rfl
      exact fresh (next_mem_places.mp mem)
    · rintro rfl
      exact notMem_places ne apart changed.last_mem mem
  · rw [Links.last_insertTail, if_neg ne]
  · rw [Links.prev_insertTail, if_neg]
    rintro rfl
    exact fresh mem

/-- A removal leaves the other queues. -/
theorem Represents.remove_other {links : Links Q P} {queue other : Q} {front back rest : List P}
    {element : P} (represents : Represents links other rest)
    (changed : Represents links queue (front ++ element :: back)) (ne : other ≠ queue)
    (apart : (front ++ element :: back).Disjoint rest) :
    Represents (links.remove queue element) other rest := by
  have prevMem : links.prev element ∈ places (.first queue) (front ++ element :: back) := by
    rw [places_append]
    exact List.mem_append_left _ changed.prev_mem
  refine represents.congr (fun place mem => ?_) ?_ fun inRest mem => ?_
  · rw [Links.load_remove, if_neg]
    rintro rfl
    exact notMem_places ne apart prevMem mem
  · rw [Links.last_remove, if_neg fun last => ne last.2]
  · rw [Links.prev_remove, if_neg]
    rw [changed.next_eq]
    intro eq
    have memBack : inRest ∈ back := List.mem_of_mem_head? eq
    exact apart (List.mem_append_right _ (List.mem_cons_of_mem _ memBack)) mem

/-- The removed element still has its successor. -/
theorem Represents.next_remove {links : Links Q P} {queue : Q} {front back : List P} {element : P}
    (represents : Represents links queue (front ++ element :: back)) :
    (links.remove queue element).next element = links.next element := by
  have load := Links.load_remove links queue element (.next element)
  rw [if_neg] at load
  · exact load
  · intro eq
    have nodupPlaces := places_nodup queue represents.nodup
    rw [places_append] at nodupPlaces
    have mem := represents.prev_mem
    rw [← eq] at mem
    exact (List.nodup_append.mp nodupPlaces).2.2 _ mem _ List.mem_cons_self rfl

/-- An insertion leaves the successors of other elements. -/
theorem Represents.next_insertTail {links : Links Q P} {queue : Q} {list : List P}
    {element other : P} (represents : Represents links queue list) (ne : other ≠ element)
    (notMem : other ∉ list) : (links.insertTail queue element).next other = links.next other := by
  have load := Links.load_insertTail links queue element (.next other)
  rw [if_neg, if_neg] at load
  · exact load
  · intro eq
    cases eq
    exact ne rfl
  · intro eq
    have lastMem := represents.last_mem
    rw [← eq] at lastMem
    exact notMem (next_mem_places.mp lastMem)

end OxCtrl.Lib.LinkedQueue
