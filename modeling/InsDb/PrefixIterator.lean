import InsDb.IteratorOrder

/-!
# The prefix iterator

`IteratorImpl` of kvdb wraps an iterator of insdb.  With `prefix_same_as_start` it is to stay among
the keys that have the prefix of the key it started from.  Besides the insdb iterator it has a flag
`valid_`, which a key with another prefix clears, and the prefix saved by the last seek.  No call
sets the flag again.
-/

namespace InsDb

open InsDb.Library

variable {Place K V : Type}

structure InsdbIterator (Place K : Type) where
  key : Place → K
  seekToFirst : Option Place
  seekToLast : Option Place
  seek : K → Option Place
  seekForPrev : K → Option Place
  next : Place → Option Place
  prev : Place → Option Place

structure PrefixOptions (K : Type) where
  prefixExtractor : Option (K → List UInt8)
  prefixSameAsStart : Bool

def PrefixOptions.prefixOf (options : PrefixOptions K) (key : K) : Option (List UInt8) :=
  if options.prefixSameAsStart then
    options.prefixExtractor.map fun transform => transform key
  else
    none

theorem PrefixOptions.prefixOf_cases (options : PrefixOptions K) :
    (∀ key, options.prefixOf key = none) ∨
      ∃ transform : K → List UInt8, ∀ key, options.prefixOf key = some (transform key) := by
  by_cases compares : options.prefixSameAsStart = true
  · cases extractor : options.prefixExtractor with
    | none => exact .inl fun key => by simp [prefixOf, extractor]
    | some transform => exact .inr ⟨transform, fun key => by simp [prefixOf, compares, extractor]⟩
  · exact .inl fun key => by simp [prefixOf, compares]

structure IteratorImpl (Place : Type) where
  -- Where the insdb iterator is; none if it is not valid.
  current : Option Place := none
  valid : Bool := true
  prefixStartKey : List UInt8 := []
deriving DecidableEq, Repr

inductive SeekCall (K : Type) where
  | seekToFirst
  | seekToLast
  | seek (target : K)
  | seekForPrev (target : K)
deriving DecidableEq, Repr

inductive IteratorCall (K : Type) where
  | seeking (call : SeekCall K)
  | next
  | prev
deriving DecidableEq, Repr

namespace IteratorImpl

section Calls

variable (options : PrefixOptions K) (inner : InsdbIterator Place K)

def keyPrefix (current : Option Place) : Option (List UInt8) :=
  current.bind fun position => options.prefixOf (inner.key position)

variable (s : IteratorImpl Place)

/-- The prefix that `Seek` and `SeekForPrev` save. -/
def savedPrefix (target : K) (found : Option Place) :
    List UInt8 :=
  (found.bind fun _ => options.prefixOf target).getD s.prefixStartKey

def seekToFirst (s : IteratorImpl Place) : IteratorImpl Place :=
  { s with
    current := inner.seekToFirst
    prefixStartKey := (keyPrefix options inner inner.seekToFirst).getD s.prefixStartKey }

def seekToLast (s : IteratorImpl Place) : IteratorImpl Place :=
  match keyPrefix options inner inner.seekToLast with
  | none => { s with current := inner.seekToLast }
  | some start =>
    if start ≠ s.prefixStartKey then
      { s with current := inner.seekToLast, valid := false }
    else
      { s with current := inner.seekToLast, prefixStartKey := start }

/-- `Seek` compares prefixes only while its own `Valid` holds. -/
def seek (s : IteratorImpl Place) (target : K) : IteratorImpl Place :=
  let found := inner.seek target
  let saved := savedPrefix options s target found
  match if s.valid then keyPrefix options inner found else none with
  | none => { s with current := found, prefixStartKey := saved }
  | some start =>
    if start ≠ saved then
      { current := found, valid := false, prefixStartKey := [] }
    else
      { s with current := found, prefixStartKey := saved }

/-- `SeekForPrev` compares them whenever the insdb iterator is valid. -/
def seekForPrev (s : IteratorImpl Place) (target : K) : IteratorImpl Place :=
  let found := inner.seekForPrev target
  let saved := savedPrefix options s target found
  match keyPrefix options inner found with
  | none => { s with current := found, prefixStartKey := saved }
  | some start =>
    if start ≠ saved then
      { current := found, valid := false, prefixStartKey := [] }
    else
      { s with current := found, prefixStartKey := saved }

/-- The common end of `Next` and `Prev`. -/
def moveTo (moved : Option Place) : IteratorImpl Place :=
  match keyPrefix options inner moved with
  | none => { s with current := moved }
  | some start =>
    if start ≠ s.prefixStartKey then
      { s with current := moved, valid := false }
    else
      { s with current := moved }

def next (s : IteratorImpl Place) : IteratorImpl Place :=
  moveTo options inner s (s.current.bind inner.next)

def prev (s : IteratorImpl Place) : IteratorImpl Place :=
  moveTo options inner s (s.current.bind inner.prev)

def seekWith : SeekCall K → IteratorImpl Place
  | .seekToFirst => seekToFirst options inner s
  | .seekToLast => seekToLast options inner s
  | .seek target => seek options inner s target
  | .seekForPrev target => seekForPrev options inner s target

def call : IteratorCall K → IteratorImpl Place
  | .seeking seekCall => seekWith options inner s seekCall
  | .next => next options inner s
  | .prev => prev options inner s

def after (calls : List (IteratorCall K)) : IteratorImpl Place :=
  calls.foldl (call options inner) {}

/-- What a client sees: the key if `Valid` holds. -/
def shownKey : Option K :=
  if s.valid then s.current.map inner.key else none

end Calls

section Shown

variable {options : PrefixOptions K} {inner : InsdbIterator Place K}

variable (s : IteratorImpl Place)

theorem shownKey_seekToFirst : shownKey inner (seekToFirst options inner s) =
      if s.valid then inner.seekToFirst.map inner.key else none := by
  rfl

theorem shownKey_seekToLast : shownKey inner (seekToLast options inner s) =
      if s.valid ∧ (keyPrefix options inner inner.seekToLast = none ∨
          keyPrefix options inner inner.seekToLast = some s.prefixStartKey) then
        inner.seekToLast.map inner.key
      else
        none := by
  unfold seekToLast
  cases keyPrefix options inner inner.seekToLast with
  | none => simp [shownKey]
  | some start =>
    by_cases same : start = s.prefixStartKey
    · simp [shownKey, same]
    · simp [shownKey, same]

theorem shownKey_seek (target : K) : shownKey inner (seek options inner s target) =
      if s.valid ∧ keyPrefix options inner (inner.seek target) = options.prefixOf target then
        (inner.seek target).map inner.key
      else
        none := by
  unfold seek
  cases found : inner.seek target with
  | none => cases s.valid <;> simp [shownKey, keyPrefix]
  | some pos =>
    rcases options.prefixOf_cases with never | ⟨transform, always⟩
    · cases s.valid <;> simp [shownKey, keyPrefix, never]
    cases s.valid with
    | false => simp [shownKey]
    | true =>
      by_cases same : transform (inner.key pos) = transform target
      · simp [shownKey, keyPrefix, savedPrefix, always, same]
      · simp [shownKey, keyPrefix, savedPrefix, always, same]

theorem shownKey_seekForPrev (target : K) :
    shownKey inner (seekForPrev options inner s target) = if s.valid ∧
          keyPrefix options inner (inner.seekForPrev target) = options.prefixOf target then
        (inner.seekForPrev target).map inner.key
      else
        none := by
  unfold seekForPrev
  cases found : inner.seekForPrev target with
  | none => cases s.valid <;> simp [shownKey, keyPrefix]
  | some pos =>
    rcases options.prefixOf_cases with never | ⟨transform, always⟩
    · simp [shownKey, keyPrefix, never]
    by_cases same : transform (inner.key pos) = transform target
    · simp [shownKey, keyPrefix, savedPrefix, always, same]
    · simp [shownKey, keyPrefix, savedPrefix, always, same]

end Shown

section History

variable (options : PrefixOptions K) (inner : InsdbIterator Place K)

/-- The last key passes the comparison of `SeekToLast` with a saved prefix. -/
def LastPasses (saved : List UInt8) : Prop :=
  keyPrefix options inner inner.seekToLast = none ∨
    keyPrefix options inner inner.seekToLast = some saved

/-- The state left by earlier calls does not show in the result of a seek: `valid_` is still
set, or nothing would be shown anyway; and for `SeekToLast` the saved prefix decides as the
empty prefix of a new iterator would. -/
def Undisturbed (s : IteratorImpl Place) : SeekCall K → Prop
  | .seekToFirst => s.valid = true ∨ inner.seekToFirst = none
  | .seekToLast => inner.seekToLast = none ∨
      (s.valid = true ∧ LastPasses options inner s.prefixStartKey ↔
        LastPasses options inner [])
  | .seek target => s.valid = true ∨ inner.seek target = none ∨
      keyPrefix options inner (inner.seek target) ≠ options.prefixOf target
  | .seekForPrev target => s.valid = true ∨ inner.seekForPrev target = none ∨
      keyPrefix options inner (inner.seekForPrev target) ≠ options.prefixOf target

variable {options inner}

theorem ite_map_eq_ite_map_iff {found : Option Place} {guard other : Prop} [Decidable guard]
    [Decidable other] :
    ((if guard then found.map inner.key else none) =
        if other then found.map inner.key else none) ↔ found = none ∨ (guard ↔ other) := by
  cases found with
  | none => simp
  | some => by_cases holds : guard <;> by_cases otherHolds : other <;> simp [holds, otherHolds]

theorem shownKey_seekWith_iff (s : IteratorImpl Place) (seekCall : SeekCall K) :
    shownKey inner (seekWith options inner s seekCall) =
        shownKey inner (seekWith options inner {} seekCall) ↔
      Undisturbed options inner s seekCall := by
  cases seekCall with
  | seekToFirst =>
    simp only [seekWith, shownKey_seekToFirst, ite_map_eq_ite_map_iff, Undisturbed]
    tauto
  | seekToLast =>
    simp only [seekWith, shownKey_seekToLast, ite_map_eq_ite_map_iff, Undisturbed, LastPasses]
    tauto
  | seek =>
    simp only [seekWith, shownKey_seek, ite_map_eq_ite_map_iff, Undisturbed]
    tauto
  | seekForPrev =>
    simp only [seekWith, shownKey_seekForPrev, ite_map_eq_ite_map_iff, Undisturbed]
    tauto

theorem after_append (calls : List (IteratorCall K)) (last : IteratorCall K) :
    after options inner (calls ++ [last]) =
      call options inner (after options inner calls) last := by
  simp [after]

/-- After any calls, a seek shows what it shows on a new iterator exactly if the flag and the
prefix that the calls left do not disturb it. -/
theorem seek_ignores_history_iff (history : List (IteratorCall K)) (seekCall : SeekCall K) :
    shownKey inner (after options inner (history ++ [.seeking seekCall])) =
        shownKey inner (after options inner [.seeking seekCall]) ↔
      Undisturbed options inner (after options inner history) seekCall := by
  rw [after_append]
  exact shownKey_seekWith_iff (after options inner history) seekCall

end History

end IteratorImpl

section Snapshot

open InsDb.Library.Cursor

variable (ts : List (IterTable K V))

def located (position : Option Position) : Option (Position × K) :=
  position.bind fun position =>
    (keyAt (segments ts) position).map fun key => (position, key)

theorem map_located (pos : Option Position) :
    (located ts pos).map Prod.snd = pos.bind (keyAt (segments ts)) := by
  cases pos with
  | none => rfl
  | some => simp [located, Function.comp_def]

variable [LinearOrder K]

/-- The snapshot iterator that kvdb opens: without a key range, so that `SeekToFirst` begins
with the first table and `SeekToLast` with the last. -/
def snapshotIterator : InsdbIterator (Position × K) K where
  key := Prod.snd
  seekToFirst := located ts (seekWrapper ts none false (forwardFrom ts 0))
  seekToLast := located ts (seekWrapper ts none true (backwardBelow ts ts.length))
  seek target := located ts (seek ts target)
  seekForPrev target := located ts (seekForPrev ts target)
  next position := located ts (next ts position.1)
  prev position := located ts (prev ts position.1)

variable {ts}

theorem keyPrefix_located (options : PrefixOptions K) (pos : Option Position) :
    IteratorImpl.keyPrefix options (snapshotIterator ts) (located ts pos) =
      (pos.bind (keyAt (segments ts))).bind options.prefixOf := by
  rw [← map_located]
  cases located ts pos <;> rfl

theorem shownKey_seek_snapshot {options : PrefixOptions K} {target : K}
    (stops : StopsRight ts target) {s : IteratorImpl (Position × K)}
    (valid : s.valid = true) (key : K) :
    IteratorImpl.shownKey (snapshotIterator ts)
        (IteratorImpl.seek options (snapshotIterator ts) s target) = some key ↔
      IsLeast { other | other ∈ visible ts ∧ target ≤ other } key ∧
        options.prefixOf key = options.prefixOf target := by
  have found : (snapshotIterator ts).seek target = located ts (seek ts target) := rfl
  have shown : (located ts (seek ts target)).map (snapshotIterator ts).key =
      (seek ts target).bind (keyAt (segments ts)) :=
    map_located ts (seek ts target)
  rw [IteratorImpl.shownKey_seek, found, shown, keyPrefix_located, ← stops.seek key]
  cases (seek ts target).bind (keyAt (segments ts)) with
  | none => simp
  | some =>
    simp only [valid, Option.bind_some, true_and, Option.ite_none_right_eq_some, Option.some.injEq]
    constructor
    · rintro ⟨same, rfl⟩
      exact ⟨rfl, same⟩
    rintro ⟨rfl, same⟩
    exact ⟨same, rfl⟩

end Snapshot

def tensPrefix : PrefixOptions Nat where
  prefixExtractor := some fun key => [UInt8.ofNat (key / 10)]
  prefixSameAsStart := true

/-- Seeking 3 finds key 15, which has another prefix, so nothing is shown.  A following seek of
15 itself shows nothing either, while a new iterator shows it. -/
theorem seek_shows_nothing_after_missing_prefix : let inner := snapshotIterator twoTables
    IteratorImpl.shownKey inner
        (IteratorImpl.after tensPrefix inner [.seeking (.seek 3), .seeking (.seek 15)]) = none ∧
      IteratorImpl.shownKey inner
        (IteratorImpl.after tensPrefix inner [.seeking (.seek 15)]) = some 15 := by
  decide +kernel

end InsDb
