import InsDb.Library.Run
import Mathlib.Logic.Function.Basic
import Mathlib.Order.Nat

/-!
# The completion FIFO

Producers test outside the lock whether the ring is full, the consumer whether it is empty.  Between
its test and its lock a producer may be overtaken by another one that takes the last slot.
-/

namespace InsDb.Driver.Fifo

open InsDb.Library List Function

def nvmeCqDepth : Nat := 1 <<< 17

def nvmeCqMask : Nat := nvmeCqDepth - 1

structure Ring where
  head : Nat := 0
  tail : Nat := 0
  ele : Nat → Nat := fun _ => 0

namespace Ring

variable (ring : Ring)

/-- What `kv_fifo_enqueue` does under the lock. -/
def store (addr : Nat) : Ring :=
  { ring with
    ele := update ring.ele ring.tail addr
    tail := (ring.tail + 1) &&& nvmeCqMask }

/-- What `kv_fifo_dequeue` does under the lock, apart from reading `ele[head]`. -/
def advance : Ring :=
  { ring with head := (ring.head + 1) &&& nvmeCqMask }

/-- The elements from the head to the tail. -/
def waiting : List Nat :=
  (range ((ring.tail + nvmeCqDepth - ring.head) % nvmeCqDepth)).map fun i =>
    ring.ele ((ring.head + i) % nvmeCqDepth)

def Full : Prop := ring.head = (ring.tail + 1) &&& nvmeCqMask

end Ring

inductive Producer where
  | outside
  | sawHead (addr head : Nat)
  | locking (addr : Nat)

inductive Consumer where
  | outside
  | sawHead (head : Nat)
  | locking

/-- The ring, where each thread is, and what was enqueued with success and dequeued so far. -/
structure KvFifo extends Ring where
  producer : Nat → Producer := fun _ => .outside
  consumer : Consumer := .outside
  enqueued : List Nat := []
  dequeued : List Nat := []

inductive Step where
  | enqueue (thread addr : Nat)
  | testFull (thread : Nat)
  | store (thread : Nat)
  | dequeue
  | testEmpty
  | take

/-- The two reads of each test are steps of their own, and so is what happens under the lock. -/
def step (s : KvFifo) : Step → Option KvFifo
  | .enqueue thread addr =>
    match s.producer thread with
    | .outside => some { s with producer := update s.producer thread (.sawHead addr s.head) }
    | _ => none
  | .testFull thread =>
    match s.producer thread with
    | .sawHead addr head => some { s with
        producer := update s.producer thread
          (if head = (s.tail + 1) &&& nvmeCqMask then .outside else .locking addr) }
    | _ => none
  | .store thread =>
    match s.producer thread with
    | .locking addr => some { s with
        toRing := s.toRing.store addr
        producer := update s.producer thread .outside
        enqueued := s.enqueued ++ [addr] }
    | _ => none
  | .dequeue =>
    match s.consumer with
    | .outside => some { s with consumer := .sawHead s.head }
    | _ => none
  | .testEmpty =>
    match s.consumer with
    | .sawHead head => some { s with consumer := if head = s.tail then .outside else .locking }
    | _ => none
  | .take =>
    match s.consumer with
    | .locking => some { s with
        toRing := s.toRing.advance
        consumer := .outside
        dequeued := s.dequeued ++ [s.ele s.head] }
    | _ => none

/-- What was enqueued was dequeued, once and in order, or is still in the ring. -/
def Intact (s : KvFifo) : Prop := s.enqueued = s.dequeued ++ s.waiting

/-- A producer that has the lock finds a free slot. -/
def StoresFree (s : KvFifo) : Step → Prop
  | .store _ => ¬ s.Full
  | _ => True

theorem and_nvmeCqMask (i : Nat) : i &&& nvmeCqMask = i % nvmeCqDepth :=
  Nat.and_two_pow_sub_one_eq_mod i 17

section Arithmetic

variable {low high depth : Nat}

theorem distance_mod (le : low ≤ high) (near : high < low + depth) :
    (high % depth + depth - low % depth) % depth = high - low := by
  obtain ⟨more, rfl⟩ := Nat.exists_eq_add_of_le le
  have start : low % depth < depth := Nat.mod_lt _ (by omega)
  have small : more % depth = more := Nat.mod_eq_of_lt (by omega)
  rw [← Nat.mod_add_mod, Nat.add_sub_cancel_left]
  by_cases inside : low % depth + more < depth
  · rw [Nat.mod_eq_of_lt inside, Nat.add_assoc, Nat.add_sub_cancel_left, Nat.add_mod_right, small]
  have back : low % depth + more - depth + depth - low % depth = more := by omega
  have wraps : (low % depth + more) % depth = low % depth + more - depth := by
    rw [Nat.mod_eq_sub_mod (Nat.not_lt.mp inside), Nat.mod_eq_of_lt (by omega)]
  rw [wraps, back, small]

theorem mod_ne (lt : low < high) (near : high < low + depth) : low % depth ≠ high % depth := by
  intro same
  have distance := distance_mod lt.le near
  rw [same, Nat.add_sub_cancel_left, Nat.mod_self] at distance
  omega

end Arithmetic

/-- The ring as a window of the elements that were enqueued. -/
structure Window (ring : Ring) (enqueued dequeued : List Nat) : Prop where
  head : ring.head = dequeued.length % nvmeCqDepth
  tail : ring.tail = enqueued.length % nvmeCqDepth
  before : dequeued.length ≤ enqueued.length
  fits : enqueued.length < dequeued.length + nvmeCqDepth
  taken : dequeued = enqueued.take dequeued.length
  holds : ∀ i addr, dequeued.length ≤ i → enqueued[i]? = some addr →
    ring.ele (i % nvmeCqDepth) = addr

namespace Window

variable {ring : Ring} {enqueued dequeued : List Nat}

theorem intact (window : Window ring enqueued dequeued) :
    enqueued = dequeued ++ ring.waiting := by
  have size := distance_mod window.before window.fits
  rw [← window.head, ← window.tail] at size
  have left : ring.waiting = enqueued.drop dequeued.length := by
    rw [Ring.waiting, size]
    apply ext_getElem?
    intro i
    rw [getElem?_map, getElem?_drop]
    by_cases inside : i < enqueued.length - dequeued.length
    · have found := List.getElem?_eq_getElem (show dequeued.length + i < enqueued.length by omega)
      rw [getElem?_range inside, found, Option.map_some, window.head, Nat.mod_add_mod,
        window.holds _ _ (Nat.le_add_right _ i) found]
    · rw [getElem?_eq_none (by simpa using inside), getElem?_eq_none (by omega), Option.map_none]
  rw [left]
  exact (take_append_drop ..).symm.trans (congrArg (· ++ _) window.taken.symm)

theorem full_iff (window : Window ring enqueued dequeued) :
    ring.Full ↔ enqueued.length + 1 = dequeued.length + nvmeCqDepth := by
  rw [Ring.Full, and_nvmeCqMask, window.head, window.tail, Nat.mod_add_mod]
  have pre := window.before
  have fits := window.fits
  constructor
  · intro same
    by_contra free
    exact mod_ne (by omega) (by omega) same
  · intro last
    rw [last, Nat.add_mod_right]

theorem store (window : Window ring enqueued dequeued) (free : ¬ ring.Full) (addr : Nat) :
    Window (ring.store addr) (enqueued ++ [addr]) dequeued := by
  have fits := window.fits
  rw [window.full_iff] at free
  constructor
  · exact window.head
  · rw [Ring.store, and_nvmeCqMask, window.tail, Nat.mod_add_mod, length_append, length_singleton]
  · rw [length_append]
    exact window.before.trans (Nat.le_add_right ..)
  · rw [length_append, length_singleton]
    omega
  · rw [take_append_of_le_length window.before]
    exact window.taken
  · intro i other above found
    change update ring.ele ring.tail addr (i % nvmeCqDepth) = other
    rw [window.tail]
    by_cases old : i < enqueued.length
    · rw [getElem?_append_left old] at found
      rw [update_of_ne (mod_ne old (by omega))]
      exact window.holds i other above found
    · rw [getElem?_append_right (Nat.not_lt.mp old), getElem?_singleton] at found
      split_ifs at found with last
      cases found
      rw [show i = enqueued.length by omega, update_self]

theorem take (window : Window ring enqueued dequeued) (filled : dequeued.length < enqueued.length) :
    Window ring.advance enqueued (dequeued ++ [ring.ele ring.head]) := by
  have fits := window.fits
  have oldest := List.getElem?_eq_getElem filled
  constructor
  · rw [Ring.advance, and_nvmeCqMask, window.head, Nat.mod_add_mod, length_append, length_singleton]
  · exact window.tail
  · rwa [length_append]
  · rw [length_append]
    omega
  · rw [length_append, length_singleton, take_add_one, oldest, ← window.taken, window.head,
      window.holds _ _ (Nat.le_refl _) oldest]
    rfl
  · intro i addr above
    rw [length_append] at above
    exact window.holds i addr (by omega)

end Window

structure Valid (s : KvFifo) : Prop where
  window : Window s.toRing s.enqueued s.dequeued
  saw : ∀ head, s.consumer = .sawHead head → head = s.head
  filled : s.consumer = .locking → s.dequeued.length < s.enqueued.length

namespace Valid

variable {s next : KvFifo} {action : Step}

theorem step (valid : Valid s) (taken : step s action = some next) (free : StoresFree s action) :
    Valid next := by
  obtain ⟨window, saw, filled⟩ := valid
  cases action <;> simp only [Fifo.step] at taken <;> split at taken <;> cases taken
  · exact ⟨window, saw, filled⟩
  · exact ⟨window, saw, filled⟩
  · refine ⟨window.store free _, saw, fun locking => ?_⟩
    rw [length_append]
    exact (filled locking).trans_le (Nat.le_add_right ..)
  · exact ⟨window, fun _ same => (Consumer.sawHead.inj same).symm, nofun⟩
  · rename_i head isSaw
    refine ⟨window, fun _ same => ?_, fun locking => ?_⟩
    · split_ifs at same
    split_ifs at locking with nonempty
    refine lt_of_le_of_ne window.before fun same => nonempty ?_
    rw [saw head isSaw, window.head, window.tail, same]
  · rename_i locking
    exact ⟨window.take (filled locking), nofun, nofun⟩

/-- An element that goes into a full ring makes it look empty. -/
theorem storesFree (valid : Valid s) (taken : Fifo.step s action = some next)
    (intact : Intact next) : StoresFree s action := by
  cases action with
  | store =>
    simp only [Fifo.step] at taken
    split at taken <;> cases taken
    intro full
    have lengths := congrArg length intact
    rw [Ring.Full] at full
    simp only [Ring.waiting, Ring.store, ← full, length_append, length_map, length_range,
      length_singleton, Nat.add_sub_cancel_left, Nat.mod_self] at lengths
    have pre := valid.window.before
    omega
  | _ => trivial

end Valid

theorem valid_empty : Valid {} :=
  ⟨⟨rfl, rfl, Nat.le_refl 0, by decide, rfl, nofun⟩, nofun, nofun⟩

/-- The FIFO hands out what it accepts, once and in order, exactly if no producer that has passed
its test finds the ring full once it has the lock. -/
theorem fifo_intact_iff (steps : List Step) :
    Run.AllHold step Intact steps {} ↔ Run.AllMeet step StoresFree steps {} :=
  Run.allHold_iff_allMeet Valid (fun _ valid => valid.window.intact)
    (fun _ _ _ valid => valid.step) (fun _ _ _ valid => valid.storesFree) valid_empty

/-- The producer whose step it is. -/
def Step.producer? : Step → Option Nat
  | .enqueue thread _ | .testFull thread | .store thread => some thread
  | .dequeue | .testEmpty | .take => none

/-- What the only producer has read stays true until it stores: the consumer only makes room. -/
def ReadsStay (s : KvFifo) : Producer → Prop
  | .outside => True
  | .sawHead _ head => ∃ taken ≤ s.dequeued.length, head = taken % nvmeCqDepth ∧
      s.enqueued.length < taken + nvmeCqDepth
  | .locking _ => ¬ s.Full

structure OneProducer (thread : Nat) (s : KvFifo) : Prop where
  valid : Valid s
  reads : ReadsStay s (s.producer thread)

namespace OneProducer

variable {thread : Nat} {s next : KvFifo} {action : Step}

theorem storesFree (one : OneProducer thread s) (alone : ∀ other ∈ action.producer?, other = thread)
    (taken : Fifo.step s action = some next) : StoresFree s action := by
  cases action with
  | store other =>
    obtain rfl : other = thread := alone other rfl
    simp only [Fifo.step] at taken
    split at taken <;> cases taken
    next isLocking =>
      have free := one.reads
      rw [isLocking] at free
      exact free
  | _ => trivial

theorem of_consumer (one : OneProducer thread s) (valid : Valid next)
    (producer : next.producer = s.producer) (enqueued : next.enqueued = s.enqueued)
    (dequeued : s.dequeued.length ≤ next.dequeued.length) : OneProducer thread next := by
  refine ⟨valid, ?_⟩
  have reads := one.reads
  rw [producer]
  generalize s.producer thread = phase at reads ⊢
  cases phase with
  | outside => trivial
  | sawHead =>
    obtain ⟨taken, le, isHead, room⟩ := reads
    exact ⟨taken, le.trans dequeued, isHead, enqueued ▸ room⟩
  | locking =>
    intro full
    have fits := one.valid.window.fits
    rw [ReadsStay, one.valid.window.full_iff] at reads
    rw [valid.window.full_iff, enqueued] at full
    omega

theorem step (one : OneProducer thread s) (alone : ∀ other ∈ action.producer?, other = thread)
    (taken : Fifo.step s action = some next) : OneProducer thread next := by
  have valid := one.valid.step taken (one.storesFree alone taken)
  have reads := one.reads
  cases action with
  | enqueue other addr =>
    obtain rfl : other = thread := alone other rfl
    simp only [Fifo.step] at taken
    split at taken <;> cases taken
    refine ⟨valid, ?_⟩
    simp only [update_self]
    exact ⟨_, Nat.le_refl _, one.valid.window.head, one.valid.window.fits⟩
  | testFull other =>
    obtain rfl : other = thread := alone other rfl
    simp only [Fifo.step] at taken
    split at taken <;> cases taken
    next isSaw =>
      refine ⟨valid, ?_⟩
      rw [isSaw] at reads
      obtain ⟨before, le, isHead, room⟩ := reads
      simp only [update_self]
      split_ifs with looksFull
      · trivial
      intro full
      -- A ring that is full now was full when the head was read, so the head is the same.
      have isFull := one.valid.window.full_iff.mp full
      obtain rfl : before = s.dequeued.length := by omega
      rw [← one.valid.window.head] at isHead
      exact looksFull (isHead.trans full)
  | store other =>
    obtain rfl : other = thread := alone other rfl
    simp only [Fifo.step] at taken
    split at taken <;> cases taken
    refine ⟨valid, ?_⟩
    simp only [update_self]
    trivial
  | dequeue =>
    simp only [Fifo.step] at taken
    split at taken <;> cases taken
    exact one.of_consumer valid rfl rfl (Nat.le_refl _)
  | testEmpty =>
    simp only [Fifo.step] at taken
    split at taken <;> cases taken
    exact one.of_consumer valid rfl rfl (Nat.le_refl _)
  | take =>
    simp only [Fifo.step] at taken
    split at taken <;> cases taken
    exact one.of_consumer valid rfl rfl (by simp)

end OneProducer

/-- With one producer nobody takes the free slot between its test and its store. -/
theorem storesFree_of_one_producer {steps : List Step} (thread : Nat)
    (one : ∀ action ∈ steps, ∀ other ∈ action.producer?, other = thread) :
    Run.AllMeet step StoresFree steps {} := by
  refine Run.allMeet_of_invariant (OneProducer thread) ?_ ⟨valid_empty, trivial⟩ one
  intro s action next one alone taken
  exact ⟨one.storesFree alone taken, one.step alone taken⟩

/-- One producer enqueues `count` times. -/
def fill (count : Nat) : List Step :=
  (replicate count [.enqueue 0 1, .testFull 0, .store 0]).flatten

def filled (count : Nat) : KvFifo :=
  { tail := count, ele := fun i => if i < count then 1 else 0, enqueued := replicate count 1 }

theorem exec_fill {count : Nat} (room : count < nvmeCqDepth) :
    Run.exec step (fill count) {} = some (filled count) := by
  induction count with
  | zero => simp [fill, filled, Run.exec]
  | succ count ih =>
    have next : (count + 1) &&& nvmeCqMask = count + 1 := by
      rw [and_nvmeCqMask, Nat.mod_eq_of_lt room]
    have slots : update (fun i => if i < count then 1 else 0) count 1 =
        fun i => if i < count + 1 then 1 else 0 := by
      funext i
      grind [update_apply]
    rw [fill, replicate_succ', flatten_append, ← fill, Run.exec_append,
      ih (Nat.lt_of_succ_lt room), Option.bind_some]
    simp [Run.exec, step, filled, next, Ring.store, slots, replicate_succ']

/-- Two producers pass the test while one slot is free, and both store. -/
theorem two_producers_overfill : ¬ Run.AllHold step Intact
    (fill (nvmeCqDepth - 2) ++ [.enqueue 0 2, .enqueue 1 3, .testFull 0, .testFull 1, .store 0,
      .store 1]) {} := by
  intro all
  obtain ⟨count, depth⟩ : ∃ count, nvmeCqDepth = count + 2 := Nat.exists_eq_add_of_le' (by decide)
  rw [depth, Nat.add_sub_cancel] at all
  have first : (count + 1) &&& nvmeCqMask = count + 1 := by
    rw [and_nvmeCqMask, Nat.mod_eq_of_lt (by omega)]
  have second : (count + 2) &&& nvmeCqMask = 0 := by
    rw [and_nvmeCqMask, depth, Nat.mod_self]
  obtain ⟨last, runs, enqueued, dequeued, looksEmpty⟩ : ∃ last, Run.exec step
      [.enqueue 0 2, .enqueue 1 3, .testFull 0, .testFull 1, .store 0, .store 1]
        (filled count) = some last ∧
      last.enqueued = replicate count 1 ++ [2] ++ [3] ∧ last.dequeued = [] ∧
      last.tail = last.head := by
    simp [Run.exec, step, filled, Ring.store, first, second]
  have intact : Intact last := by
    apply all.final
    rw [Run.exec_append, exec_fill (by omega), Option.bind_some, runs]
  have lengths := congrArg length intact
  rw [enqueued, dequeued, Ring.waiting, looksEmpty] at lengths
  simp at lengths

end InsDb.Driver.Fifo
