import LibTle.Basic

/-!
# The test-and-set spinlock `libtle_spinlock_t`

`spinlock.h` keeps one `atomic_int` with two encodings. On x86-64 the word is `1` when
the lock is free and `≤ 0` when it is busy: `libtle_spinlock_lock` decrements it with
`lock decl` and, when the result is negative, spins until the word is positive before
decrementing again. On AArch64 (and in the portable code) the word is `0` when free and
`1` when busy.

The second half of the module runs the x86-64 lock with `N` threads. Waiters drive the
word below zero, and the unlock store of `1` resets it. The ghost flag `dec` of a
thread records that it decremented the word since the last unlock store; the
invariant `X86Inv` says the word is `1` minus the number of flagged threads, that a
flagged thread waits or holds the lock, and that the holder is the one flagged thread
whose decrement found the word at `1`.
-/

namespace LibTle

/-- The two architectures `mutex.h` builds for. -/
inductive Arch
  | x86_64
  | aarch64
  deriving DecidableEq, Repr

/-! ## The lock word operations -/

/-- `libtle_spinlock_init` and `LIBTLE_SPINLOCK_INIT`. -/
def spinlockInit : Arch → Int
  | .x86_64 => 1
  | .aarch64 => 0

/-- `libtle_spinlock_unlock`: a release store. -/
def spinlockUnlock : Arch → Int
  | .x86_64 => 1
  | .aarch64 => 0

/-- `libtle_spinlock_lock_uncontended`: a release store of the busy value. -/
def spinlockLockUncontended : Arch → Int
  | .x86_64 => 0
  | .aarch64 => 1

/-- `libtle_spinlock_is_locked`. -/
def spinlockIsLocked : Arch → Int → Bool
  | .x86_64, w => decide (w ≤ 0)
  | .aarch64, w => w != 0

/-- A 32-bit `int` result, wrapped into `[-2^31, 2^31)`. -/
def wrapInt32 (x : Int) : Int := (x + 2 ^ 31) % 2 ^ 32 - 2 ^ 31

theorem wrapInt32_of_mem {x : Int} (h1 : -2 ^ 31 ≤ x) (h2 : x < 2 ^ 31) : wrapInt32 x = x := by
  unfold wrapInt32
  rw [Int.emod_eq_of_lt (by omega) (by omega)]
  omega

/-! ## The x86-64 lock shared by `N` threads -/

/-- Where a thread is in its use of the x86-64 spinlock. -/
inductive X86Pc
  /-- outside `libtle_spinlock_lock` and the section -/
  | idle
  /-- `1: lock ; decl %0` -/
  | decl
  /-- `3: pause ; cmpl $0, %0 ; jle 3b` -/
  | spin
  /-- holding the lock, in the section -/
  | held
  deriving DecidableEq, Repr

/-- A thread: its position and the ghost flag "decremented since the last unlock". -/
structure X86Thread where
  pc : X86Pc
  dec : Bool
  deriving DecidableEq, Repr

/-- One step of a thread on the word `w`: the new word and the thread's new state. An
unlock store clears every thread's flag, which `X86State.next` applies. -/
def x86SpinlockStep (w : Int) (th : X86Thread) : Int × X86Thread :=
  match th.pc with
  | .idle => (w, { th with pc := .decl })
  | .decl =>
    -- `lock decl` then `jns 2f`: the lock is taken when the result is not negative
    let w' := wrapInt32 (w - 1)
    (w', { pc := if 0 ≤ w' then .held else .spin, dec := true })
  | .spin => (w, { th with pc := if w ≤ 0 then .spin else .decl })
  | .held => (spinlockUnlock .x86_64, { pc := .idle, dec := false })

/-- The word and `N` threads. -/
structure X86State (N : Nat) where
  word : Int
  th : Fin N → X86Thread

namespace X86State

variable {N : Nat}

def init (N : Nat) : X86State N := ⟨spinlockInit .x86_64, fun _ => ⟨.idle, false⟩⟩

/-- Thread `t` takes one step; the unlock store starts a new round for every thread. -/
def next (s : X86State N) (t : Fin N) : X86State N :=
  let r := x86SpinlockStep s.word (s.th t)
  let th := Function.update s.th t r.2
  ⟨r.1, if (s.th t).pc = .held then fun u => { th u with dec := false } else th⟩

/-- Threads that decremented the word since the last unlock store. -/
def decs (s : X86State N) : Nat := count X86Thread.dec s.th

/-- A flagged thread is counted. -/
theorem decs_pos {s : X86State N} {t : Fin N} (ht : (s.th t).dec = true) : 0 < s.decs :=
  count_pos_iff.2 ⟨t, ht⟩

end X86State

inductive X86Reachable {N : Nat} : X86State N → Prop
  | init : X86Reachable (X86State.init N)
  | step {s : X86State N} (t : Fin N) : X86Reachable s → X86Reachable (s.next t)

/-- The threads of a schedule take their steps in turn. -/
def X86State.execute {N : Nat} (s : X86State N) (l : List (Fin N)) : X86State N :=
  l.foldl X86State.next s

theorem X86Reachable.execute {N : Nat} {s : X86State N} (hs : X86Reachable s) (l : List (Fin N)) :
    X86Reachable (s.execute l) := by
  induction l generalizing s with
  | nil => exact hs
  | cons t l ih => exact ih (hs.step t)

/-- The invariant of the x86-64 spinlock. -/
structure X86Inv {N : Nat} (s : X86State N) : Prop where
  word_eq : s.word = 1 - s.decs
  dec_pc : ∀ t, (s.th t).dec = true → (s.th t).pc = .spin ∨ (s.th t).pc = .held
  held_dec : ∀ t, (s.th t).pc = .held → (s.th t).dec = true
  holder : 0 < s.decs → ∃ t, (s.th t).pc = .held
  held_unique : ∀ t u, (s.th t).pc = .held → (s.th u).pc = .held → t = u

namespace X86Inv

variable {N : Nat} {s : X86State N}

theorem init : X86Inv (X86State.init N) where
  word_eq := by simp [X86State.init, X86State.decs, count, spinlockInit]
  dec_pc := by simp [X86State.init]
  held_dec := by simp [X86State.init]
  holder := by simp [X86State.init, X86State.decs, count]
  held_unique := by simp [X86State.init]

/-- A step of thread `t` that is not the unlock store keeps the invariant, given how it
moves the word with `t`'s flag, where `t` may wait, and when `t` may take the lock. -/
theorem move (h : X86Inv s) (t : Fin N) (hnh : (s.th t).pc ≠ .held) {w' : Int}
    {th' : X86Thread} (hw : w' + th'.dec.toNat = s.word + (s.th t).dec.toNat)
    (hpc : th'.dec = true → th'.pc = .spin ∨ th'.pc = .held)
    (hheld : th'.pc = .held → th'.dec = true ∧ s.decs = 0)
    (hnew : s.decs = 0 → th'.dec = true → th'.pc = .held) :
    X86Inv ⟨w', Function.update s.th t th'⟩ := by
  have hc := count_update X86Thread.dec s.th t th'
  have hupd : ∀ u, u ≠ t → Function.update s.th t th' u = s.th u :=
    fun u hu => Function.update_noteq hu _ _
  -- a new holder found no flag, so no other thread held the lock
  have key : th'.pc = .held → ∀ v, (s.th v).pc ≠ .held := fun hh v hv =>
    absurd (X86State.decs_pos (h.held_dec v hv)) (by rw [(hheld hh).2]; omega)
  unfold X86State.decs at hc hheld hnew
  refine ⟨?_, fun u hu => ?_, fun u hu => ?_, fun hpos => ?_, fun u v hu hv => ?_⟩ <;>
    dsimp only [X86State.decs] at *
  · have := h.word_eq; unfold X86State.decs at this; omega
  · by_cases hut : u = t
    · subst hut; simp only [Function.update_same] at hu ⊢; exact hpc hu
    · rw [hupd u hut] at hu ⊢; exact h.dec_pc u hu
  · by_cases hut : u = t
    · subst hut; simp only [Function.update_same] at hu ⊢; exact (hheld hu).1
    · rw [hupd u hut] at hu ⊢; exact h.held_dec u hu
  · by_cases hd : count X86Thread.dec s.th = 0
    · have hdt : th'.dec = true := by
        cases hth : th'.dec
        · rw [hth] at hc; simp only [Bool.toNat_false] at hc; omega
        · rfl
      exact ⟨t, by simpa using hnew hd hdt⟩
    · obtain ⟨u, hu⟩ := h.holder (by unfold X86State.decs; omega)
      have hut : u ≠ t := by rintro rfl; exact hnh hu
      exact ⟨u, by rw [hupd u hut]; exact hu⟩
  · by_cases hut : u = t <;> by_cases hvt : v = t
    · rw [hut, hvt]
    · subst hut; rw [hupd v hvt] at hv
      exact absurd hv (key (by simpa using hu) v)
    · subst hvt; rw [hupd u hut] at hu
      exact absurd hu (key (by simpa using hv) u)
    · rw [hupd u hut] at hu; rw [hupd v hvt] at hv
      exact h.held_unique u v hu hv

/-- The unlock store of the holder keeps the invariant. -/
theorem unlock (h : X86Inv s) {t : Fin N} (ht : (s.th t).pc = .held) :
    X86Inv ⟨spinlockUnlock .x86_64,
      fun u => { Function.update s.th t ⟨.idle, false⟩ u with dec := false }⟩ := by
  have hz : ∀ u,
      ({ Function.update s.th t ⟨.idle, false⟩ u with dec := false } : X86Thread).pc = .held →
        False := fun u hu => by
    by_cases hut : u = t
    · subst hut; simp at hu
    · simp only [Function.update_noteq hut] at hu
      exact hut (h.held_unique u t hu ht)
  refine ⟨?_, fun u hu => ?_, fun u hu => (hz u hu).elim, fun hpos => ?_,
    fun u v hu _ => (hz u hu).elim⟩
  · simp [X86State.decs, count, spinlockUnlock]
  · simp at hu
  · simp [X86State.decs, count] at hpos

theorem next (hN : N < 2 ^ 31) (h : X86Inv s) (t : Fin N) : X86Inv (s.next t) := by
  have hd : (s.th t).pc = .decl ∨ (s.th t).pc = .idle → (s.th t).dec = false := fun hp => by
    cases hd : (s.th t).dec
    · rfl
    · rcases h.dec_pc t hd with h1 | h1 <;> rcases hp with h2 | h2 <;> simp_all
  have hw := h.word_eq
  have hle : s.decs ≤ N := count_le _ _
  unfold X86State.decs at hw hle
  cases hp : (s.th t).pc with
  | held =>
    have := h.unlock hp
    simpa [X86State.next, x86SpinlockStep, hp] using this
  | idle =>
    have := hd (Or.inr hp)
    simp only [X86State.next, x86SpinlockStep, hp, reduceCtorEq, if_false]
    exact h.move t (by simp [hp]) (by simp [this]) (by simp [this]) (by simp) (by simp [this])
  | decl =>
    have h0 := hd (Or.inl hp)
    have hlt := count_lt (p := X86Thread.dec) (f := s.th) t h0
    have hwrap : wrapInt32 (s.word - 1) = s.word - 1 := wrapInt32_of_mem (by omega) (by omega)
    simp only [X86State.next, x86SpinlockStep, hp, reduceCtorEq, if_false, hwrap]
    apply h.move t (by simp [hp]) <;> simp [h0, X86State.decs] <;> omega
  | spin =>
    -- the thread reloads the word; a flagged thread is counted, so it sees the word `≤ 0`
    have hpos : (s.th t).dec = true → 0 < count X86Thread.dec s.th := X86State.decs_pos
    simp only [X86State.next, x86SpinlockStep, hp, reduceCtorEq, if_false]
    refine h.move t (by simp [hp]) rfl (fun hdt => ?_) (by split_ifs <;> nofun)
      (fun h0 hdt => ((hpos hdt).ne' h0).elim)
    split_ifs with hwz
    · exact .inl rfl
    · exact absurd (hpos hdt) (by omega)

end X86Inv

theorem X86Reachable.inv {N : Nat} (hN : N < 2 ^ 31) {s : X86State N} (h : X86Reachable s) :
    X86Inv s := by
  induction h with
  | init => exact X86Inv.init
  | step t _ ih => exact ih.next hN t

/-- With fewer than `2^31` threads the x86-64 word is `1` minus the number of threads that
decremented it since the last unlock store, so it stays in `[1 - N, 1]`; a thread about
to decrement has not decremented since that store, and its decrement does not wrap; the
word is `≤ 0`, which is what `libtle_spinlock_is_locked` tests, exactly when a thread
holds the lock, and at most one does. -/
theorem x86_spinlock_invariant {N : Nat} (hN : N < 2 ^ 31) {s : X86State N}
    (hs : X86Reachable s) :
    s.word = 1 - s.decs ∧ 1 - (N : Int) ≤ s.word ∧ s.word ≤ 1 ∧
    (∀ t, (s.th t).pc = .decl → (s.th t).dec = false ∧ -2 ^ 31 ≤ s.word - 1) ∧
    (∀ t u, (s.th t).pc = .held → (s.th u).pc = .held → t = u) ∧
    (spinlockIsLocked .x86_64 s.word = true ↔ ∃ t, (s.th t).pc = .held) := by
  have h := hs.inv hN
  have hle : s.decs ≤ N := count_le _ _
  have hw := h.word_eq
  refine ⟨hw, by omega, by omega, fun t ht => ?_, h.held_unique, ?_⟩
  · have hd : (s.th t).dec = false := by
      cases hd : (s.th t).dec
      · rfl
      · rcases h.dec_pc t hd with h1 | h1 <;> simp_all
    exact ⟨hd, by have := count_lt (p := X86Thread.dec) (f := s.th) t hd
                  unfold X86State.decs at hw; omega⟩
  · simp only [spinlockIsLocked, decide_eq_true_eq]
    constructor
    · intro hle0; exact h.holder (by omega)
    · rintro ⟨t, ht⟩
      have := X86State.decs_pos (h.held_dec t ht)
      omega

/-- Thread 0 holds the lock; thread 1's `lock decl` made the word `-1` and it spins; thread 2
is about to decrement. -/
def x86HolderAndWaiters : X86State 3 := (X86State.init 3).execute [0, 0, 1, 1, 2]

theorem x86_spinlock_invariant_contended :
    (3 < 2 ^ 31 ∧ X86Reachable x86HolderAndWaiters ∧ x86HolderAndWaiters.word = -1 ∧
      (x86HolderAndWaiters.th 0).pc = .held ∧ (x86HolderAndWaiters.th 1).pc = .spin ∧
      (x86HolderAndWaiters.th 2).pc = .decl) ∧
    x86HolderAndWaiters.word = 1 - x86HolderAndWaiters.decs ∧
    1 - ((3 : Nat) : Int) ≤ x86HolderAndWaiters.word ∧ x86HolderAndWaiters.word ≤ 1 ∧
    (∀ t, (x86HolderAndWaiters.th t).pc = .decl →
      (x86HolderAndWaiters.th t).dec = false ∧ -2 ^ 31 ≤ x86HolderAndWaiters.word - 1) ∧
    (∀ t u, (x86HolderAndWaiters.th t).pc = .held → (x86HolderAndWaiters.th u).pc = .held →
      t = u) ∧
    (spinlockIsLocked .x86_64 x86HolderAndWaiters.word = true ↔
      ∃ t, (x86HolderAndWaiters.th t).pc = .held) :=
  ⟨⟨by decide, X86Reachable.init.execute _, by decide, by decide, by decide, by decide⟩,
    x86_spinlock_invariant (by decide) (X86Reachable.init.execute _)⟩

end LibTle
