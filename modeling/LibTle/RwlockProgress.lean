import LibTle.Rwlock
import Mathlib.Logic.Relation

/-!
# A waiting thread of the rwlock can always get in

`RwInv` says what the word of a reachable state holds. This module shows that no reachable
state leaves a thread in a lock loop under every schedule, whatever the number of threads:

* the threads in a section unlock and the readers between their `fetch_add` and its undo
  undo it (`RwState.clean`); the word is then `0`, or `2` while some writer is inside
  `write_lock` (`RwInv.pending`);
* a thread inside `write_lock` then wins its compare-and-swap within three of its own steps
  (`RwState.writer_enters`);
* a thread inside `read_lock` gets in once at most one writer has run through its section and
  cleared the pending bit (`rwlock_waiters_get_in`).
-/

namespace LibTle

namespace RwPc

/-- Inside `libtle_rwlock_read_lock`. -/
def inReadLock : RwPc → Bool
  | readLoad | readAdd | readUndo => true
  | _ => false

/-- Counted in the word: in a section, or between a reader's `fetch_add` and its undo. -/
def counted (p : RwPc) : Bool := p.isReader || p.isWriter

theorem counted_of_inWriteLock {p : RwPc} (h : p.inWriteLock = true) : p.counted = false := by
  cases p <;> simp_all [inWriteLock, counted, isReader, isWriter]

/-- A reader inside `read_lock` is about to undo its increment, or is not counted. -/
theorem inReadLock_cases {p : RwPc} (h : p.inReadLock = true) :
    p = .readUndo ∨ p.counted = false ∧ (p = .readLoad ∨ p = .readAdd) := by
  cases p <;> simp_all [inReadLock, counted, isReader, isWriter]

end RwPc

namespace RwState

variable {N : Nat}

@[simp] theorem next_word (s : RwState N) (t : Fin N) (rd : Bool) :
    (s.next t rd).word = (rwlockThreadStep s.word rd (s.pc t)).1 := rfl

@[simp] theorem next_pc_self (s : RwState N) (t : Fin N) (rd : Bool) :
    (s.next t rd).pc t = (rwlockThreadStep s.word rd (s.pc t)).2 := by
  simp [next]

theorem next_pc_ne (s : RwState N) {t u : Fin N} (h : u ≠ t) (rd : Bool) :
    (s.next t rd).pc u = s.pc u := by
  simp [next, h]

/-- `s'` is reached from `s` by steps of any threads. -/
def Run (s s' : RwState N) : Prop :=
  Relation.ReflTransGen (fun a b => ∃ t rd, b = a.next t rd) s s'

theorem Run.single (s : RwState N) (t : Fin N) (rd : Bool) : Run s (s.next t rd) :=
  Relation.ReflTransGen.single ⟨t, rd, rfl⟩

theorem Run.trans {s s' s'' : RwState N} (h : Run s s') (h' : Run s' s'') : Run s s'' :=
  Relation.ReflTransGen.trans h h'

/-- The counted threads leave the word one by one: a thread in a section unlocks, a reader
undoes its increment. No other thread moves. -/
theorem clean : ∀ (n : Nat) (s : RwState N), count RwPc.counted s.pc = n →
    ∃ s', Run s s' ∧ (∀ u, (s'.pc u).counted = false) ∧
      (∀ u, (s.pc u).counted = false → s'.pc u = s.pc u) ∧
      (∀ u, s.pc u = .readUndo → s'.pc u = .readLoad)
  | 0, s, h => ⟨s, .refl, count_eq_zero_iff.1 h, fun _ _ => rfl, fun u hu => by
      have := count_eq_zero_iff.1 h u
      simp [hu, RwPc.counted, RwPc.isReader] at this⟩
  | n + 1, s, h => by
    obtain ⟨u, hu⟩ := count_pos_iff.1 (show 0 < count RwPc.counted s.pc by omega)
    have hstep : ((s.next u true).pc u).counted = false ∧
        (s.pc u = .readUndo → (s.next u true).pc u = .readLoad) := by
      cases hp : s.pc u <;> simp_all [RwPc.counted, RwPc.isReader, RwPc.isWriter,
        rwlockThreadStep, rwlockLockStep]
    have hc := count_update RwPc.counted s.pc u ((s.next u true).pc u)
    have hupd : Function.update s.pc u ((s.next u true).pc u) = (s.next u true).pc := by
      simp [next]
    rw [hupd, hstep.1, hu] at hc
    obtain ⟨s', hr, hc', hkeep, hundo⟩ := clean n (s.next u true) (by simp at hc; omega)
    refine ⟨s', (Run.single s u true).trans hr, hc', fun v hv => ?_, fun v hv => ?_⟩
    · have hvu : v ≠ u := by rintro rfl; simp [hu] at hv
      rw [hkeep v (by rwa [next_pc_ne s hvu]), next_pc_ne s hvu]
    · by_cases hvu : v = u
      · subst hvu
        rw [hkeep v hstep.1, hstep.2 hv]
      · exact hundo v (by rwa [next_pc_ne s hvu])

/-- On the word `0` or `2`, a thread at the load of `write_lock` takes the lock in two steps:
its snapshot has no reader and no writer, and its compare-and-swap finds it unchanged. -/
theorem writer_enters_of_load {s : RwState N} {t : Fin N} (hw : s.word = 0 ∨ s.word = 2)
    (ht : s.pc t = .writeLoad) :
    ∃ s', Run s s' ∧ s'.pc t = .writing ∧ s'.word = 1 ∧ ∀ u, u ≠ t → s'.pc u = s.pc u := by
  have h1 : (s.next t false).pc t = .writeCas s.word ∧ (s.next t false).word = s.word := by
    have : s.word &&& 0xfffffffd = 0 := by rcases hw with hw | hw <;> rw [hw] <;> decide
    simp [ht, this, rwlockThreadStep, rwlockLockStep]
  refine ⟨(s.next t false).next t false, (Run.single _ _ _).trans (Run.single _ _ _), ?_, ?_,
    fun u hu => by rw [next_pc_ne _ hu, next_pc_ne _ hu]⟩
  · rw [next_pc_self, h1.1, h1.2]; simp [rwlockThreadStep, rwlockLockStep]
  · rw [next_word, h1.1, h1.2]; simp [rwlockThreadStep, rwlockLockStep]

/-- On the word `0` or `2`, a thread inside `write_lock` takes the lock within three of its own
steps, and no other thread moves. -/
theorem writer_enters {s : RwState N} {t : Fin N} (hw : s.word = 0 ∨ s.word = 2)
    (ht : (s.pc t).inWriteLock = true) :
    ∃ s', Run s s' ∧ s'.pc t = .writing ∧ s'.word = 1 ∧ ∀ u, u ≠ t → s'.pc u = s.pc u := by
  -- one step that ends at the load, followed by the load's two steps
  have via_load : (s.next t false).pc t = .writeLoad →
      ((s.next t false).word = 0 ∨ (s.next t false).word = 2) →
      ∃ s', Run s s' ∧ s'.pc t = .writing ∧ s'.word = 1 ∧ ∀ u, u ≠ t → s'.pc u = s.pc u :=
    fun hp hw' => by
      obtain ⟨s', hr, h1, h2, h3⟩ := writer_enters_of_load hw' hp
      exact ⟨s', (Run.single s t false).trans hr, h1, h2,
        fun u hu => by rw [h3 u hu, next_pc_ne s hu]⟩
  cases hp : s.pc t with
  | writeLoad => exact writer_enters_of_load hw hp
  | writeCas v =>
    by_cases hv : s.word = v
    · refine ⟨s.next t false, Run.single s t false, ?_, ?_, fun u hu => next_pc_ne s hu _⟩ <;>
        simp [hp, hv, rwlockThreadStep, rwlockLockStep]
    · exact via_load (by simp [hp, hv, rwlockThreadStep, rwlockLockStep])
        (by simpa [hp, hv, rwlockThreadStep, rwlockLockStep] using hw)
  | writeOr =>
    exact via_load (by simp [hp, rwlockThreadStep, rwlockLockStep])
      (by rcases hw with hw | hw <;> simp [hp, hw, rwlockThreadStep, rwlockLockStep])
  | _ => simp [hp, RwPc.inWriteLock] at ht

/-- On the word `0`, a thread at the load or at the `fetch_add` of `read_lock` enters its read
section within two of its own steps. -/
theorem reader_enters {s : RwState N} {t : Fin N} (hw : s.word = 0)
    (ht : s.pc t = .readLoad ∨ s.pc t = .readAdd) : ∃ s', Run s s' ∧ s'.pc t = .reading := by
  rcases ht with ht | ht
  · refine ⟨(s.next t true).next t true, (Run.single _ _ _).trans (Run.single _ _ _), ?_⟩
    simp [ht, hw, rwlockThreadStep, rwlockLockStep]
  · exact ⟨s.next t true, Run.single s t true, by simp [ht, hw, rwlockThreadStep, rwlockLockStep]⟩

end RwState

theorem RwReachable.run {N : Nat} {s s' : RwState N} (hs : RwReachable s) (h : RwState.Run s s') :
    RwReachable s' := by
  induction h with
  | refl => exact hs
  | tail _ hab ih => obtain ⟨t, rd, rfl⟩ := hab; exact ih.step t rd

/-- With no counted thread, the word of a reachable state is `0` or the pending bit alone. -/
theorem RwInv.word_of_clean {N : Nat} {s : RwState N} (h : RwInv s)
    (hc : ∀ u, (s.pc u).counted = false) : s.word = 0 ∨ s.word = 2 := by
  have hr : s.readers = 0 := count_eq_zero_iff.2 fun u => by
    have := hc u; simp only [RwPc.counted, Bool.or_eq_false_iff] at this; exact this.1
  have hw : s.writers = 0 := count_eq_zero_iff.2 fun u => by
    have := hc u; simp only [RwPc.counted, Bool.or_eq_false_iff] at this; exact this.2
  have h4 := h.readers_eq
  have h2 := h.writers_eq
  have := h.word_lt
  rw [hr] at h4
  omega

/-- From every reachable state of the rwlock, whatever the number of threads, a thread inside
`libtle_rwlock_write_lock` can be brought into its write section, and a thread inside
`libtle_rwlock_read_lock` into its read section, by some interleaving: no reachable state
is a deadlock for a waiting thread. -/
theorem rwlock_waiters_get_in {N : Nat} {s : RwState N} (hs : RwReachable s) (t : Fin N) :
    ((s.pc t).inWriteLock = true → ∃ s', RwState.Run s s' ∧ s'.pc t = .writing) ∧
      ((s.pc t).inReadLock = true → ∃ s', RwState.Run s s' ∧ s'.pc t = .reading) := by
  obtain ⟨s₁, hr₁, hc₁, hkeep, hundo⟩ := RwState.clean _ s rfl
  have hi₁ := (hs.run hr₁).inv
  have hw₁ := hi₁.word_of_clean hc₁
  refine ⟨fun ht => ?_, fun ht => ?_⟩
  · have hp : s₁.pc t = s.pc t := hkeep t (RwPc.counted_of_inWriteLock ht)
    obtain ⟨s₂, hr₂, hwr, -⟩ := RwState.writer_enters hw₁ (hp ▸ ht)
    exact ⟨s₂, hr₁.trans hr₂, hwr⟩
  · have hp : s₁.pc t = .readLoad ∨ s₁.pc t = .readAdd := by
      rcases RwPc.inReadLock_cases ht with h | ⟨hc, h⟩
      · exact .inl (hundo t h)
      · rwa [hkeep t hc]
    rcases hp with hp | hp
    · rcases hw₁ with hw₁ | hw₁
      · obtain ⟨s₂, hr₂, h⟩ := RwState.reader_enters hw₁ (.inl hp)
        exact ⟨s₂, hr₁.trans hr₂, h⟩
      · -- the pending bit: run one writer through its section first
        obtain ⟨u, hu⟩ := hi₁.pending (by omega)
        have hut : u ≠ t := by rintro rfl; simp [hp, RwPc.inWriteLock] at hu
        obtain ⟨s₂, hr₂, hwr, hw₂, hk₂⟩ := RwState.writer_enters (.inr hw₁) hu
        have h₃ : (s₂.next u true).word = 0 ∧ (s₂.next u true).pc t = .readLoad := by
          rw [RwState.next_pc_ne _ hut.symm, hk₂ t hut.symm, hp]
          simp [hwr, hw₂, rwlockThreadStep, rwlockWriteUnlock]
        obtain ⟨s₄, hr₄, h⟩ := RwState.reader_enters h₃.1 (.inl h₃.2)
        exact ⟨s₄, hr₁.trans (hr₂.trans ((RwState.Run.single _ u true).trans hr₄)), h⟩
    · obtain ⟨s₂, hr₂, h⟩ : ∃ s', RwState.Run s₁ s' ∧ s'.pc t = .reading := by
        refine ⟨s₁.next t true, RwState.Run.single _ t true, ?_⟩
        rcases hw₁ with hw₁ | hw₁ <;> simp [hp, hw₁, rwlockThreadStep, rwlockLockStep]
      exact ⟨s₂, hr₁.trans hr₂, h⟩

/-- Thread `0` holds the write lock and thread `1` waits at the load of `read_lock`. -/
def readerBehindWriter : RwState 2 :=
  ((((RwState.init 2).next 0 false).next 0 false).next 0 false).next 1 true

theorem readerBehindWriter_reachable : RwReachable readerBehindWriter :=
  (((RwReachable.init.step 0 false).step 0 false).step 0 false).step 1 true

theorem rwlock_waiters_get_in_reader :
    (RwReachable readerBehindWriter ∧ readerBehindWriter.pc 1 = .readLoad) ∧
      ((readerBehindWriter.pc 1).inWriteLock = true →
        ∃ s', RwState.Run readerBehindWriter s' ∧ s'.pc 1 = .writing) ∧
      ((readerBehindWriter.pc 1).inReadLock = true →
        ∃ s', RwState.Run readerBehindWriter s' ∧ s'.pc 1 = .reading) :=
  ⟨⟨readerBehindWriter_reachable, by decide⟩,
    rwlock_waiters_get_in readerBehindWriter_reachable 1⟩

end LibTle
