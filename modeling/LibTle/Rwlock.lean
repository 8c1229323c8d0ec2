import LibTle.Basic

/-!
# The reader/writer spinlock `libtle_rwlock_t`

`rwlock.h` packs the whole lock into one `atomic_uint`: bit 0 is the active writer,
bit 1 a pending writer, bits 2..31 the number of active readers. This module models
the portable C11 loops of `libtle_rwlock_read_lock` and `libtle_rwlock_write_lock`,
one atomic access per step, and the two unlock operations.

`RwState N` is a word shared by `N` threads, each at a position `RwPc` of its lock
operations; `RwState.next` is one atomic step of one thread. The invariant `RwInv`
holds for every number of threads:

* the reader field `word / 4` is the number of threads between their reader
  `fetch_add` and the matching `fetch_sub`, modulo `2^30`;
* bit 0 is the number of writers in their write section (so at most one);
* bit 1 is set only while some thread is inside `libtle_rwlock_write_lock`.

With at most `2^30` threads the reader field cannot wrap, and `RwExcl` (no reader in
its section while a writer is in its section) is inductive too.
-/

namespace LibTle

/-! ## The lock word operations -/

/-- `libtle_rwlock_init` and `LIBTLE_RWLOCK_INIT`: no readers and no writers. -/
def rwlockInit : Nat := 0

/-- `libtle_rwlock_is_locked`: the word itself, taken as a truth value. -/
def rwlockIsLocked (w : Nat) : Bool := w != 0

/-- `libtle_rwlock_read_unlock`: `fetch_sub(&lock, 4u)`. -/
def rwlockReadUnlock (w : Nat) : Nat := wrapSub w 4

/-- `libtle_rwlock_write_unlock`: `fetch_and(&lock, ~3u)`, clearing the active and the
pending writer bits at once. -/
def rwlockWriteUnlock (w : Nat) : Nat := w &&& 0xfffffffc

/-- Where a thread is in its use of one rwlock. -/
inductive RwPc
  /-- outside every lock operation and section -/
  | idle
  /-- `read_lock`: about to load the word -/
  | readLoad
  /-- `read_lock`: bits 0 and 1 were clear, about to `fetch_add(&lock, 4u)` -/
  | readAdd
  /-- `read_lock`: the increment saw an active writer, about to undo it -/
  | readUndo
  /-- in a read section -/
  | reading
  /-- `write_lock`: about to load the word -/
  | writeLoad
  /-- `write_lock`: about to compare-and-swap the snapshot `s` to `1u` -/
  | writeCas (s : Nat)
  /-- `write_lock`: about to `fetch_or(&lock, 2u)` -/
  | writeOr
  /-- in a write section -/
  | writing
  deriving DecidableEq, Repr

namespace RwPc

/-- Counted in the reader field: between the reader `fetch_add` and its `fetch_sub`. -/
def isReader : RwPc → Bool
  | readUndo | reading => true
  | _ => false

def isWriter : RwPc → Bool
  | writing => true
  | _ => false

/-- Inside `libtle_rwlock_write_lock`. -/
def inWriteLock : RwPc → Bool
  | writeLoad | writeCas _ | writeOr => true
  | _ => false

end RwPc

/-- One atomic step of the portable loops of `libtle_rwlock_read_lock` and
`libtle_rwlock_write_lock` on the word `w`; positions outside the loops do not move. -/
def rwlockLockStep (w : Nat) : RwPc → Nat × RwPc
  -- libtle_rwlock_read_lock
  | .readLoad => (w, if w &&& 3 = 0 then .readAdd else .readLoad)
  | .readAdd => (wrapAdd w 4, if w &&& 1 = 0 then .reading else .readUndo)
  | .readUndo => (wrapSub w 4, .readLoad)
  -- libtle_rwlock_write_lock
  | .writeLoad =>
    (w, if w &&& 0xfffffffd = 0 then .writeCas w
        else if w &&& 2 = 0 then .writeOr else .writeLoad)
  | .writeCas s => if w = s then (1, .writing) else (w, .writeLoad)
  | .writeOr => (w ||| 2, .writeLoad)
  | p => (w, p)

/-- One step of a thread that runs any sequence of read and write sections: an idle
thread calls `read_lock` when `rd` holds and `write_lock` otherwise; a thread in a
section unlocks. -/
def rwlockThreadStep (w : Nat) (rd : Bool) : RwPc → Nat × RwPc
  | .idle => (w, if rd then .readLoad else .writeLoad)
  | .reading => (rwlockReadUnlock w, .idle)
  | .writing => (rwlockWriteUnlock w, .idle)
  | p => rwlockLockStep w p

/-- Whether that step writes the word: `fetch_add`, `fetch_sub`, `fetch_or`, `fetch_and`,
and a compare-and-swap that succeeds. -/
def rwlockStores (w : Nat) : RwPc → Bool
  | .readAdd | .readUndo | .writeOr | .reading | .writing => true
  | .writeCas s => w == s
  | _ => false

/-- A step that stores nothing leaves the word as it is. -/
theorem rwlockThreadStep_fst_of_not_stores {w : Nat} {rd : Bool} {p : RwPc}
    (h : rwlockStores w p = false) : (rwlockThreadStep w rd p).1 = w := by
  cases p <;> simp_all [rwlockStores, rwlockThreadStep, rwlockLockStep]

/-! ## The rwlock shared by `N` threads -/

/-- One lock word and the positions of `N` threads. -/
structure RwState (N : Nat) where
  word : Nat
  pc : Fin N → RwPc

namespace RwState

variable {N : Nat}

/-- The lock after `libtle_rwlock_init`, with every thread idle. -/
def init (N : Nat) : RwState N := ⟨rwlockInit, fun _ => .idle⟩

/-- Thread `t` takes one step. -/
def next (s : RwState N) (t : Fin N) (rd : Bool) : RwState N :=
  let r := rwlockThreadStep s.word rd (s.pc t)
  ⟨r.1, Function.update s.pc t r.2⟩

/-- Threads counted in the reader field. -/
def readers (s : RwState N) : Nat := count RwPc.isReader s.pc

/-- Threads in their write section. -/
def writers (s : RwState N) : Nat := count RwPc.isWriter s.pc

end RwState

/-- The states reachable from `RwState.init` under every interleaving. -/
inductive RwReachable {N : Nat} : RwState N → Prop
  | init : RwReachable (RwState.init N)
  | step {s : RwState N} (t : Fin N) (rd : Bool) : RwReachable s → RwReachable (s.next t rd)

/-- The threads of a schedule take their steps in turn. -/
def RwState.execute {N : Nat} (s : RwState N) (l : List (Fin N × Bool)) : RwState N :=
  l.foldl (fun s a => s.next a.1 a.2) s

theorem RwReachable.execute {N : Nat} {s : RwState N} (hs : RwReachable s)
    (l : List (Fin N × Bool)) : RwReachable (s.execute l) := by
  induction l generalizing s with
  | nil => exact hs
  | cons a l ih => exact ih (hs.step a.1 a.2)

/-! ## The invariant, for any number of threads -/

/-- What every reachable rwlock state satisfies, whatever the number of threads. -/
structure RwInv {N : Nat} (s : RwState N) : Prop where
  word_lt : s.word < 2 ^ 32
  readers_eq : s.word / 4 = s.readers % 2 ^ 30
  writers_eq : s.word % 2 = s.writers
  pending : s.word / 2 % 2 = 1 → ∃ t, (s.pc t).inWriteLock = true
  snapshot : ∀ t v, s.pc t = .writeCas v → v = 0 ∨ v = 2

namespace RwInv

variable {N : Nat} {s : RwState N}

theorem init : RwInv (RwState.init N) where
  word_lt := Nat.two_pow_pos 32
  readers_eq := by simp [RwState.init, RwState.readers, count, rwlockInit, RwPc.isReader]
  writers_eq := by simp [RwState.init, RwState.writers, count, rwlockInit, RwPc.isWriter]
  pending := by simp [RwState.init, rwlockInit]
  snapshot := by simp [RwState.init]

/-- At most one thread is in its write section. -/
theorem writer_unique (h : RwInv s) {t u : Fin N} (ht : s.pc t = .writing)
    (hu : s.pc u = .writing) : t = u :=
  eq_of_count_le_one (p := RwPc.isWriter) (f := s.pc)
    (by have := h.writers_eq; unfold RwState.writers at this; omega)
    (by simp [ht, RwPc.isWriter]) (by simp [hu, RwPc.isWriter])

/-- The invariant survives one thread moving to `p'` and the word becoming `w'`, given
how the move changes the reader field, bit 0 and bit 1. -/
theorem move (h : RwInv s) (t : Fin N) {w' : Nat} {p' : RwPc} (hlt : w' < 2 ^ 32)
    (hr : w' / 4 = (s.word / 4 + p'.isReader.toNat + 2 ^ 30 - (s.pc t).isReader.toNat) % 2 ^ 30)
    (hw : w' % 2 + (s.pc t).isWriter.toNat = s.word % 2 + p'.isWriter.toNat)
    (hp : w' / 2 % 2 = 1 →
      p'.inWriteLock = true ∨ (s.word / 2 % 2 = 1 ∧ (s.pc t).inWriteLock = false))
    (hs : ∀ v, p' = .writeCas v → v = 0 ∨ v = 2) :
    RwInv ⟨w', Function.update s.pc t p'⟩ where
  word_lt := hlt
  readers_eq := by
    have hc := count_update RwPc.isReader s.pc t p'
    have h4 := h.readers_eq
    unfold RwState.readers at h4 ⊢
    dsimp only
    have := Bool.toNat_le (s.pc t).isReader
    have := Bool.toNat_le p'.isReader
    have := h.word_lt
    omega
  writers_eq := by
    have hc := count_update RwPc.isWriter s.pc t p'
    have h2 := h.writers_eq
    unfold RwState.writers at h2 ⊢
    dsimp only
    omega
  pending hb := by
    rcases hp hb with hin | ⟨hold, hnot⟩
    · exact ⟨t, by simpa using hin⟩
    · obtain ⟨u, hu⟩ := h.pending hold
      have hut : u ≠ t := by rintro rfl; simp [hu] at hnot
      exact ⟨u, by simpa [Function.update_noteq hut] using hu⟩
  snapshot u v hu := by
    by_cases hut : u = t
    · subst hut; exact hs v (by simpa using hu)
    · exact h.snapshot u v (by simpa [Function.update_noteq hut] using hu)

/-- Every step of every thread preserves the invariant. -/
theorem next (h : RwInv s) (t : Fin N) (rd : Bool) : RwInv (s.next t rd) := by
  have hlt := h.word_lt
  have hw1 : (s.pc t).isWriter = true → s.word % 2 = 1 := fun hwt => by
    have := count_pos_iff.2 ⟨t, hwt⟩
    have := h.writers_eq
    unfold RwState.writers at this
    omega
  unfold RwState.next
  cases hp : s.pc t with
  | idle | readLoad | writeLoad =>
    simp only [rwlockThreadStep, rwlockLockStep]
    split_ifs with h1 <;> apply h.move t hlt <;>
      simp [hp, RwPc.isReader, RwPc.isWriter, RwPc.inWriteLock] <;>
      first | omega | exact (and_not_pending_eq_zero hlt).1 h1
  | readAdd | readUndo | reading | writeOr | writing =>
    simp only [hp, RwPc.isWriter, true_implies, Bool.false_eq_true, false_implies] at hw1
    simp only [rwlockThreadStep, rwlockLockStep, rwlockReadUnlock, rwlockWriteUnlock]
    (try split_ifs) <;> apply h.move t <;>
      simp [hp, RwPc.isReader, RwPc.isWriter, RwPc.inWriteLock, wrapAdd, wrapSub, or_two,
        and_not_three hlt] <;> omega
  | writeCas v =>
    have hv := h.snapshot t v hp
    simp only [rwlockThreadStep, rwlockLockStep]
    split_ifs with h1 <;> apply h.move t <;>
      simp [hp, RwPc.isReader, RwPc.isWriter, RwPc.inWriteLock] <;> omega

/-- A writer keeps bit 0 set. -/
theorem word_ne_zero_of_writing (h : RwInv s) {t : Fin N} (ht : s.pc t = .writing) :
    s.word ≠ 0 := by
  have hw := h.writers_eq
  have := (count_pos_iff (p := RwPc.isWriter) (f := s.pc)).2 ⟨t, by simp [ht, RwPc.isWriter]⟩
  unfold RwState.writers at hw
  omega

/-- A reader keeps the reader field non-zero, while some thread is not counted in it and
there are at most `2^30` threads. -/
theorem word_ne_zero_of_reading (h : RwInv s) (hN : N ≤ 2 ^ 30) {t u : Fin N}
    (ht : s.pc t = .reading) (hu : (s.pc u).isReader = false) : s.word ≠ 0 := by
  have hr := h.readers_eq
  have := (count_pos_iff (p := RwPc.isReader) (f := s.pc)).2 ⟨t, by simp [ht, RwPc.isReader]⟩
  have := count_lt (p := RwPc.isReader) (f := s.pc) u hu
  unfold RwState.readers at hr
  rw [Nat.mod_eq_of_lt (by omega)] at hr
  omega

end RwInv

/-- `write_lock` moves among its own positions and ends in the write section. -/
theorem rwlockThreadStep_in_write_lock {w : Nat} {p : RwPc}
    (h : p = .idle ∨ p.inWriteLock = true) :
    (rwlockThreadStep w false p).2 = .writing ∨
      (rwlockThreadStep w false p).2.inWriteLock = true := by
  rcases h with rfl | h
  · simp [rwlockThreadStep, RwPc.inWriteLock]
  · cases p <;> simp_all [RwPc.inWriteLock, rwlockThreadStep, rwlockLockStep] <;> split_ifs <;>
      simp

/-- `read_lock` moves among its own positions and ends in the read section. -/
theorem rwlockThreadStep_in_read_lock {w : Nat} {p : RwPc}
    (h : p = .idle ∨ p = .readLoad ∨ p = .readAdd ∨ p = .readUndo) :
    (rwlockThreadStep w true p).2 = .reading ∨ (rwlockThreadStep w true p).2 = .readLoad ∨
      (rwlockThreadStep w true p).2 = .readAdd ∨ (rwlockThreadStep w true p).2 = .readUndo := by
  rcases h with rfl | rfl | rfl | rfl <;> simp only [rwlockThreadStep, rwlockLockStep] <;>
    (try split_ifs) <;> simp

theorem RwReachable.inv {N : Nat} {s : RwState N} (h : RwReachable s) : RwInv s := by
  induction h with
  | init => exact RwInv.init
  | step t rd _ ih => exact ih.next t rd

/-! ## What one step can do -/

/-- A thread enters its write section only by a compare-and-swap from the word it
finds. -/
theorem rwlockThreadStep_eq_writing {w : Nat} {rd : Bool} {p : RwPc}
    (h : (rwlockThreadStep w rd p).2 = .writing) : p = .writeCas w := by
  cases p <;> simp only [rwlockThreadStep, rwlockLockStep] at h <;> (try split_ifs at h) <;>
    simp_all

/-- A thread enters its read section only by a `fetch_add` that saw bit 0 clear. -/
theorem rwlockThreadStep_eq_reading {w : Nat} {rd : Bool} {p : RwPc}
    (h : (rwlockThreadStep w rd p).2 = .reading) : p = .readAdd ∧ w % 2 = 0 := by
  cases p <;> simp only [rwlockThreadStep, rwlockLockStep] at h <;> (try split_ifs at h) <;>
    simp_all

/-! ## Reader/writer exclusion, for at most `2^30` threads -/

/-- No thread is in a read section while a thread is in a write section. -/
def RwExcl {N : Nat} (s : RwState N) : Prop := ∀ t u, s.pc t = .writing → s.pc u ≠ .reading

theorem RwExcl.next {N : Nat} (hN : N ≤ 2 ^ 30) {s : RwState N} (hi : RwInv s) (he : RwExcl s)
    (t : Fin N) (rd : Bool) : RwExcl (s.next t rd) := by
  intro a b ha hb
  simp only [RwState.next] at ha hb
  by_cases hat : a = t
  · -- `t` has just won the compare-and-swap: the word was `0` or `2`, so no reader
    subst hat
    rw [Function.update_same] at ha
    have hcas := rwlockThreadStep_eq_writing ha
    have hv := hi.snapshot a _ hcas
    have hlt := count_lt (p := RwPc.isReader) (f := s.pc) a (by simp [hcas, RwPc.isReader])
    have h4 := hi.readers_eq
    unfold RwState.readers at h4
    have hzero : count RwPc.isReader s.pc = 0 := by omega
    have hba : b ≠ a := by
      rintro rfl
      rw [Function.update_same, ha] at hb
      cases hb
    rw [Function.update_noteq hba] at hb
    have := count_eq_zero_iff.1 hzero b
    simp [hb, RwPc.isReader] at this
  · rw [Function.update_noteq hat] at ha
    by_cases hbt : b = t
    · -- `t` has just entered its read section: bit 0 was clear, so no writer
      subst hbt
      rw [Function.update_same] at hb
      have hrd := rwlockThreadStep_eq_reading hb
      have hpos := (count_pos_iff (p := RwPc.isWriter) (f := s.pc)).2
        ⟨a, by simp [ha, RwPc.isWriter]⟩
      have h2 := hi.writers_eq
      unfold RwState.writers at h2
      omega
    · rw [Function.update_noteq hbt] at hb
      exact he a b ha hb

theorem RwReachable.excl {N : Nat} (hN : N ≤ 2 ^ 30) {s : RwState N} (hs : RwReachable s) :
    RwExcl s := by
  induction hs with
  | init => intro t u ht; simp [RwState.init] at ht
  | step t rd hs ih => exact RwExcl.next hN hs.inv ih t rd

/-- With at most `2^30` threads, at most one thread is in a write section, and no thread
is in a read section while one is. -/
theorem rwlock_mutual_exclusion {N : Nat} (hN : N ≤ 2 ^ 30) {s : RwState N}
    (hs : RwReachable s) :
    (∀ t u, s.pc t = .writing → s.pc u = .writing → t = u) ∧
    (∀ t u, s.pc t = .writing → s.pc u ≠ .reading) :=
  ⟨fun _ _ => hs.inv.writer_unique, hs.excl hN⟩

/-- Thread 1's `read_lock` loads `0`; thread 0 takes the write lock; thread 1's `fetch_add`
sees bit 0 and is about to undo itself; thread 2's `write_lock` sets the pending bit. -/
def writerWithWaiters : RwState 3 :=
  (RwState.init 3).execute
    [(1, true), (1, true), (0, false), (0, false), (0, false), (1, true), (2, false), (2, false),
      (2, false)]

theorem rwlock_mutual_exclusion_contended :
    (3 ≤ 2 ^ 30 ∧ RwReachable writerWithWaiters ∧ writerWithWaiters.word = 7 ∧
      writerWithWaiters.pc 0 = .writing ∧ writerWithWaiters.pc 1 = .readUndo ∧
      writerWithWaiters.pc 2 = .writeLoad) ∧
    (∀ t u, writerWithWaiters.pc t = .writing → writerWithWaiters.pc u = .writing → t = u) ∧
    (∀ t u, writerWithWaiters.pc t = .writing → writerWithWaiters.pc u ≠ .reading) :=
  ⟨⟨by decide, RwReachable.init.execute _, by decide, by decide, by decide, by decide⟩,
    rwlock_mutual_exclusion (by decide) (RwReachable.init.execute _)⟩

/-! ## The exact word, for fewer than `2^30` threads -/

/-- With fewer than `2^30` threads the word is exactly `4 * readers + 2 * p + w`: `w` is
set exactly when a thread is in its write section, `p` only while a thread is inside
`libtle_rwlock_write_lock`. Hence no `fetch_sub` of a reader borrows, no reader
`fetch_add` wraps, and the word is `0` when every thread is idle. -/
theorem rwlock_word_repr {N : Nat} (hN : N < 2 ^ 30) {s : RwState N} (hs : RwReachable s) :
    ∃ p w, p ≤ 1 ∧ w ≤ 1 ∧ s.word = 4 * s.readers + 2 * p + w ∧
      (w = 1 ↔ ∃ t, s.pc t = .writing) ∧
      (p = 1 → ∃ t, (s.pc t).inWriteLock = true) ∧
      (∀ t, (s.pc t).isReader = true → 1 ≤ s.word / 4) ∧
      (∀ t, s.pc t = .readAdd → s.word + 4 < 2 ^ 32) ∧
      ((∀ t, s.pc t = .idle) → s.word = 0) := by
  have h := hs.inv
  have hle : s.readers ≤ N := count_le _ _
  have hr : s.word / 4 = s.readers := by rw [h.readers_eq]; omega
  have hw := h.writers_eq
  have hwr : s.writers ≤ 1 := by omega
  refine ⟨s.word / 2 % 2, s.word % 2, by omega, by omega, by omega, ?_, h.pending, ?_, ?_, ?_⟩
  · rw [hw, RwState.writers]
    constructor
    · intro h1
      obtain ⟨t, ht⟩ := count_pos_iff.1 (show 0 < count RwPc.isWriter s.pc by omega)
      exact ⟨t, by cases hp : s.pc t <;> simp_all [RwPc.isWriter]⟩
    · rintro ⟨t, ht⟩
      have := (count_pos_iff (p := RwPc.isWriter) (f := s.pc)).2
        ⟨t, by simp [ht, RwPc.isWriter]⟩
      unfold RwState.writers at hwr
      omega
  · intro t ht
    have := (count_pos_iff (p := RwPc.isReader) (f := s.pc)).2 ⟨t, ht⟩
    unfold RwState.readers at hr
    omega
  · intro t ht
    have := count_lt (p := RwPc.isReader) (f := s.pc) t (by simp [ht, RwPc.isReader])
    unfold RwState.readers at hr
    have := h.word_lt
    omega
  · intro hidle
    have h0 : s.readers = 0 := count_eq_zero_iff.2 fun t => by simp [hidle t, RwPc.isReader]
    have h1 : s.writers = 0 := count_eq_zero_iff.2 fun t => by simp [hidle t, RwPc.isWriter]
    have h2 : s.word / 2 % 2 = 0 := by
      by_contra hp
      obtain ⟨t, ht⟩ := h.pending (by omega)
      simp [hidle t, RwPc.inWriteLock] at ht
    omega

/-- Threads 0 and 1 in their read sections, and thread 2 in `write_lock` after setting the
pending bit: the word is `4 * 2 + 2`. -/
def readersAndPending : RwState 3 :=
  (RwState.init 3).execute
    [(0, true), (0, true), (0, true), (1, true), (1, true), (1, true), (2, false), (2, false),
      (2, false)]

theorem rwlock_word_repr_pending :
    (3 < 2 ^ 30 ∧ RwReachable readersAndPending ∧ readersAndPending.word = 10 ∧
      readersAndPending.pc 0 = .reading ∧ readersAndPending.pc 1 = .reading ∧
      readersAndPending.pc 2 = .writeLoad) ∧
    ∃ p w, p ≤ 1 ∧ w ≤ 1 ∧ readersAndPending.word = 4 * readersAndPending.readers + 2 * p + w ∧
      (w = 1 ↔ ∃ t, readersAndPending.pc t = .writing) ∧
      (p = 1 → ∃ t, (readersAndPending.pc t).inWriteLock = true) ∧
      (∀ t, (readersAndPending.pc t).isReader = true → 1 ≤ readersAndPending.word / 4) ∧
      (∀ t, readersAndPending.pc t = .readAdd → readersAndPending.word + 4 < 2 ^ 32) ∧
      ((∀ t, readersAndPending.pc t = .idle) → readersAndPending.word = 0) :=
  ⟨⟨by decide, RwReachable.init.execute _, by decide, by decide, by decide, by decide⟩,
    rwlock_word_repr (by decide) (RwReachable.init.execute _)⟩

/-! ## Beyond `2^30` threads the reader field wraps -/

/-- Threads `0, …, k - 1` in their read sections, the others idle. -/
def readersIn (N k : Nat) : RwState N :=
  ⟨4 * k % 2 ^ 32, fun t => if t.val < k then .reading else .idle⟩

/-- The threads enter their read sections one after the other. -/
theorem readersIn_reachable {N : Nat} : ∀ k, k ≤ N → RwReachable (readersIn N k)
  | 0, _ => by
    have : readersIn N 0 = RwState.init N := by simp [readersIn, RwState.init, rwlockInit]
    exact this ▸ .init
  | k + 1, hk => by
    let t : Fin N := ⟨k, by omega⟩
    have h3 := (((readersIn_reachable k (by omega)).step t true).step t true).step t true
    have hw : 4 * k % 2 ^ 32 % 4 = 0 := by omega
    have hw2 : 4 * k % 2 ^ 32 % 2 = 0 := by omega
    convert h3 using 1
    simp only [readersIn, RwState.next, rwlockThreadStep, rwlockLockStep, Function.update_same,
      and_three, Nat.and_one_is_mod, wrapAdd, lt_self_iff_false, if_false, hw, hw2, if_true,
      Function.update_idem, RwState.mk.injEq]
    refine ⟨by omega, funext fun u => ?_⟩
    by_cases hu : u = t
    · subst hu; simp [t]
    · have : u.val ≠ k := fun h => hu (Fin.ext h)
      simp only [Function.update_noteq hu]
      split_ifs <;> first | rfl | omega

/-- Once `m` readers have brought the word back to `0`, thread `m` wins the
compare-and-swap of `write_lock` while they are all in their read sections. -/
theorem writer_after_readersIn {N m : Nat} (hm : m < N) (h0 : 4 * m % 2 ^ 32 = 0) :
    ∃ s : RwState N, RwReachable s ∧ s.pc ⟨m, hm⟩ = .writing ∧
      ∀ u : Fin N, u.val < m → s.pc u = .reading := by
  let w : Fin N := ⟨m, hm⟩
  have h := (((readersIn_reachable m hm.le).step w false).step w false).step w false
  refine ⟨_, h, ?_, fun u hu => ?_⟩
  · have h0' : 4 * m % 4294967296 = 0 := h0
    simp [readersIn, RwState.next, rwlockThreadStep, rwlockLockStep, w, h0']
  · have huw : u ≠ w := fun h => by subst h; simp [w] at hu
    simp [readersIn, RwState.next, Function.update_noteq huw, hu]

/-- With `2^30 + 1` threads, `2^30` readers bring the word back to `0`; a writer then wins
its compare-and-swap while they are all in their read sections. -/
theorem rwlock_exclusion_fails_at_two_pow_thirty_succ :
    ∃ s : RwState (2 ^ 30 + 1), RwReachable s ∧
      s.pc ⟨2 ^ 30, by omega⟩ = .writing ∧ s.pc ⟨0, by omega⟩ = .reading := by
  obtain ⟨s, hs, hw, hr⟩ := writer_after_readersIn (N := 2 ^ 30 + 1) (m := 2 ^ 30) (by omega)
    (by omega)
  exact ⟨s, hs, hw, hr _ (by show 0 < 2 ^ 30; omega)⟩

end LibTle
