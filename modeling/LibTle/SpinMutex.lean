import LibTle.Htm
import LibTle.Rwlock
import LibTle.Spinlock

/-!
# `libtle_spin_mutex_t` and `libtle_spin_shared_mutex_t`

The two mutexes without elision, AArch64 build, in the debug build and with `NDEBUG` (`nd`),
where the handle status is neither stored nor checked. `N` threads run `K` writer sections
`lock(); c := c + 1; unlock()` each through their own handles, and, on the shared mutex, any
number of reader sections `lock_shared(); r := c; unlock_shared()`.

* `spinMutexLock` and `spinMutexUnlock` on the spinlock `state`, which the AArch64
  `libtle_spinlock_lock` sets to `1` only over `0`.
* `spinSharedMutexLock` and `spinSharedMutexUnlock` on the rwlock `state` (its portable
  loops); each thread carries its position in the rwlock code, and the runs of the mutex
  are runs of the rwlock system (`SpinSharedMutex.Reachable.rwlock`).
-/

namespace LibTle

/-- `libtle_mutex_profile_update_unlock`: `locks_acquired`, a `uint64_t`, goes up by one. -/
def mutexProfileUpdateUnlock (locksAcquired : Nat) : Nat := wrapAdd64 locksAcquired 1

namespace SpinMutex

/-! ## `libtle_spin_mutex_t` -/

/-- Where a thread is in the test program and in the two functions. -/
inductive Pc
  /-- between two sections -/
  | idle
  /-- `assert(st->status <= LIBTLE_MUTEX_STATUS_UNLOCKED)` -/
  | lockEntry
  /-- `libtle_spinlock_lock(&mtx->state)` -/
  | acquire
  /-- `st->status = LIBTLE_MUTEX_STATUS_LOCKED_UNIQUE` -/
  | setUnique
  /-- the section's load of `c` -/
  | csRead
  /-- the section's store `c = v + 1` -/
  | csWrite
  /-- `assert(st->status == LOCKED_UNIQUE)` and `libtle_spinlock_unlock(&mtx->state)` -/
  | unlockEntry
  /-- `st->status = UNLOCKED` and the profile update -/
  | released
  /-- a failed assertion -/
  | error
  deriving DecidableEq, Repr

/-- A thread: its position, handle status, register, profile and sections still to run. -/
structure Thread where
  pc : Pc
  status : MutexStatus
  v : Nat
  prof : Option Nat
  todo : Nat
  deriving DecidableEq, Repr

/-- One step of `libtle_spin_mutex_lock` on the word `st`, with the new word, in the debug
build (`nd = false`) or with `NDEBUG`, where the assertion and the status store are compiled
out. -/
def spinMutexLock (nd : Bool) (st : Int) (th : Thread) : Option (Thread × Int) :=
  match th.pc with
  | .lockEntry =>
    some (if nd || th.status.canLock then { th with pc := .acquire }
      else { th with pc := .error }, st)
  | .acquire =>
    if st = 0 then some ({ th with pc := if nd then .csRead else .setUnique }, 1) else none
  | .setUnique => some ({ th with pc := .csRead, status := .lockedUnique }, st)
  | _ => none

/-- One step of `libtle_spin_mutex_unlock` on the word `st`, with the new word, in the debug
build or with `NDEBUG`. -/
def spinMutexUnlock (nd : Bool) (st : Int) (th : Thread) : Option (Thread × Int) :=
  match th.pc with
  | .unlockEntry =>
    some (if nd || th.status = .lockedUnique then
        ({ th with pc := .released }, spinlockUnlock .aarch64)
      else ({ th with pc := .error }, st))
  | .released =>
    some ({ th with pc := .idle, status := if nd then th.status else .unlocked,
                    prof := th.prof.map mutexProfileUpdateUnlock }, st)
  | _ => none

/-- One step of a thread on the word `st` and the counter `c`. -/
def step (nd : Bool) (st : Int) (c : Nat) (th : Thread) : Option (Thread × Int × Nat) :=
  match th.pc with
  | .idle =>
    if th.todo = 0 then none else some ({ th with pc := .lockEntry, todo := th.todo - 1 }, st, c)
  | .csRead => some ({ th with pc := .csWrite, v := c }, st, c)
  | .csWrite => some ({ th with pc := .unlockEntry }, st, th.v + 1)
  | .unlockEntry | .released => (spinMutexUnlock nd st th).map fun r => (r.1, r.2, c)
  | _ => (spinMutexLock nd st th).map fun r => (r.1, r.2, c)

/-- The word, the counter and `N` threads. -/
structure State (N : Nat) where
  state : Int
  c : Nat
  th : Fin N → Thread

variable {N : Nat}

/-- `libtle_spin_mutex_init`, `c = 0`, every handle `UNKNOWN` with `K` sections to run. -/
def init (N K : Nat) (p : Option Nat) : State N :=
  ⟨spinlockInit .aarch64, 0, fun _ => ⟨.idle, .unknown, 0, p, K⟩⟩

/-- Thread `t` takes a step. -/
def next (nd : Bool) (s : State N) (t : Fin N) : Option (State N) :=
  (step nd s.state s.c (s.th t)).map fun r => ⟨r.2.1, r.2.2, Function.update s.th t r.1⟩

/-- The states reachable from `init N K p` in build `nd`. -/
inductive Reachable (nd : Bool) (K : Nat) (p : Option Nat) : State N → Prop
  | init : Reachable nd K p (init N K p)
  | step {s s' : State N} (t : Fin N) : Reachable nd K p s → next nd s t = some s' →
    Reachable nd K p s'

/-- Runs a schedule of threads; `none` when one of them cannot move. -/
def execute (nd : Bool) : List (Fin N) → State N → Option (State N)
  | [], s => some s
  | t :: l, s => (next nd s t).bind (execute nd l)

theorem Reachable.execute {nd : Bool} {K : Nat} {p : Option Nat} {s s' : State N} :
    ∀ {l : List (Fin N)}, Reachable nd K p s → SpinMutex.execute nd l s = some s' →
      Reachable nd K p s'
  | [], hs, h => by cases h; exact hs
  | t :: l, hs, h => by
    simp only [SpinMutex.execute, Option.bind_eq_some] at h
    obtain ⟨s₁, h₁, h₂⟩ := h
    exact Reachable.execute (hs.step t h₁) h₂

/-- Two threads, one section each, with profiles: thread 0 takes the lock; thread 1 waits at
`libtle_spinlock_lock` until thread 0 has unlocked, then runs its section. -/
def race : List (Fin 2) := [0, 0, 0, 1, 1, 0, 0, 0, 0, 0, 1, 1, 1, 1, 1, 1]

/-- The state after the first `n` entries of `race`. -/
def raceState (n : Nat) : State 2 :=
  (SpinMutex.execute false (race.take n) (init 2 1 (some 0))).getD (init 2 1 (some 0))

theorem Reachable.raceState {n : Nat}
    (h : (SpinMutex.execute false (race.take n) (SpinMutex.init 2 1 (some 0))).isSome) :
    Reachable false 1 (some 0) (raceState n) := by
  obtain ⟨s, hs⟩ := Option.isSome_iff_exists.1 h
  rw [SpinMutex.raceState, hs]
  exact Reachable.init.execute hs

/-- The thread holds `state`: it stored `1` there and has not stored `0` back. -/
def Thread.holds (th : Thread) : Bool :=
  match th.pc with
  | .setUnique | .csRead | .csWrite | .unlockEntry => true
  | _ => false

/-- `1` while the thread's section has started and its increment is not in `c`. -/
def Thread.pending (th : Thread) : Nat :=
  match th.pc with
  | .lockEntry | .acquire | .setUnique | .csRead | .csWrite | .error => 1
  | _ => 0

def Thread.left (th : Thread) : Nat := th.todo + th.pending

/-- The handle status at each position; with `NDEBUG` no status is stored and none is
checked. -/
def Thread.Ok (nd : Bool) (th : Thread) : Prop :=
  match th.pc with
  | .idle | .lockEntry | .acquire => nd = true ∨ th.status.canLock = true
  | .setUnique => nd = false ∧ th.status.canLock = true
  | .csRead | .csWrite | .unlockEntry | .released => nd = true ∨ th.status = .lockedUnique
  | .error => False

/-- `state` counts its holders, at most one; `c` plus the increments still to come is
`total`; the section's register holds `c` when it stores. -/
structure Inv (nd : Bool) (total : Nat) (s : State N) : Prop where
  ok : ∀ t, (s.th t).Ok nd
  word : s.state = count Thread.holds s.th
  word_le : s.state ≤ 1
  sum : s.c + ∑ t, (s.th t).left = total
  holder_v : ∀ t, (s.th t).pc = .csWrite → (s.th t).v = s.c

section Invariant

variable {nd : Bool} {total : Nat} {s : State N} {t : Fin N} {th : Thread} {st : Int} {c : Nat}

/-- A step of thread `t` to `th`, word `st` and counter `c` keeps the invariant if it does
so at `t` and changes `c` only when no other thread is about to store it. -/
theorem Inv.move (h : Inv nd total s) (hok : th.Ok nd)
    (hword : st + ((s.th t).holds.toNat : Int) = s.state + th.holds.toNat) (hle : st ≤ 1)
    (hsum : c + th.left = s.c + (s.th t).left) (hv : th.pc = .csWrite → th.v = c)
    (hown : c ≠ s.c → ∀ u, u ≠ t → (s.th u).pc ≠ .csWrite) :
    Inv nd total ⟨st, c, Function.update s.th t th⟩ where
  ok u := by
    rcases eq_or_ne u t with rfl | hu
    · simpa using hok
    · simpa [hu] using h.ok u
  word := by
    have := count_update Thread.holds s.th t th
    have := h.word
    simp only at *
    omega
  word_le := hle
  sum := by
    have hs := sum_add_of_eq_off (f := fun u => (s.th u).left)
      (g := fun u => (Function.update s.th t th u).left) t fun u hu => by simp [hu]
    simp only [Function.update_same] at hs
    have := h.sum
    show c + ∑ u, (Function.update s.th t th u).left = total
    omega
  holder_v u hpc := by
    rcases eq_or_ne u t with rfl | hu
    · simp only [Function.update_same] at hpc ⊢; exact hv hpc
    · simp only [Function.update_noteq hu] at hpc ⊢
      have hc : c = s.c := by_contra fun hne => hown hne u hu hpc
      rw [hc]; exact h.holder_v u hpc

theorem Inv.not_holds (h : Inv nd total s) (ht : (s.th t).holds = true) {u : Fin N} (hu : u ≠ t) :
    (s.th u).holds = false := by
  have hw := h.word
  have hle := h.word_le
  cases hh : (s.th u).holds
  · rfl
  · exact absurd (eq_of_count_le_one (by omega) hh ht) hu

theorem Inv.next (h : Inv nd total s) {s' : State N} (hs : next nd s t = some s') :
    Inv nd total s' := by
  simp only [SpinMutex.next, Option.map_eq_some'] at hs
  obtain ⟨⟨th, st, c⟩, hr, rfl⟩ := hs
  have hok := h.ok t
  cases hpc : (s.th t).pc <;>
    simp only [step, spinMutexLock, spinMutexUnlock, hpc, Option.map_some', Option.map_none',
      reduceCtorEq] at hr <;>
    simp only [Thread.Ok, hpc] at hok
  case idle =>
    split at hr <;> simp only [Option.some.injEq, Prod.mk.injEq, reduceCtorEq] at hr
    obtain ⟨rfl, rfl, rfl⟩ := hr
    refine h.move ?_ ?_ h.word_le ?_ ?_ ?_ <;>
      simp_all [Thread.Ok, Thread.holds, Thread.left, Thread.pending]
    omega
  case lockEntry | setUnique | csRead | released =>
    simp only [Option.some.injEq, Prod.mk.injEq] at hr
    obtain ⟨rfl, rfl, rfl⟩ := hr
    refine h.move ?_ ?_ h.word_le ?_ ?_ ?_ <;> cases nd <;>
      simp_all [Thread.Ok, Thread.holds, Thread.left, Thread.pending, MutexStatus.canLock_iff]
  case acquire =>
    split at hr <;>
      simp only [Option.map_some', Option.map_none', Option.some.injEq, Prod.mk.injEq,
        reduceCtorEq] at hr
    obtain ⟨rfl, rfl, rfl⟩ := hr
    refine h.move ?_ ?_ le_rfl ?_ ?_ ?_ <;> cases nd <;>
      simp_all [Thread.Ok, Thread.holds, Thread.left, Thread.pending]
  case csWrite =>
    simp only [Option.some.injEq, Prod.mk.injEq] at hr
    obtain ⟨rfl, rfl, rfl⟩ := hr
    have hown : ∀ u, u ≠ t → (s.th u).pc ≠ .csWrite := fun u hu hup => by
      simpa [Thread.holds, hup] using h.not_holds (by simp [Thread.holds, hpc]) hu
    refine h.move ?_ ?_ h.word_le ?_ ?_ (fun _ => hown) <;>
      simp_all [Thread.Ok, Thread.holds, Thread.left, Thread.pending, h.holder_v t hpc]
    omega
  case unlockEntry =>
    -- the assertion holds in the debug build and is compiled out with `NDEBUG`
    have hc : (nd || decide ((s.th t).status = .lockedUnique)) = true := by
      rcases hok with h1 | h1 <;> simp [h1]
    simp only [hc, if_true, Option.some.injEq, Prod.mk.injEq] at hr
    obtain ⟨rfl, rfl, rfl⟩ := hr
    have hw := h.word
    have hle := h.word_le
    have := (count_pos_iff (p := Thread.holds) (f := s.th)).2 ⟨t, by simp [Thread.holds, hpc]⟩
    refine h.move ?_ ?_ (by simp [spinlockUnlock]) ?_ ?_ ?_ <;>
      simp_all [Thread.Ok, Thread.holds, Thread.left, Thread.pending, spinlockUnlock]
    omega

theorem Inv.init (nd : Bool) (N K : Nat) (p : Option Nat) : Inv nd (N * K) (init N K p) where
  ok _ := by simp [SpinMutex.init, Thread.Ok, MutexStatus.canLock_iff]
  word := by simp [SpinMutex.init, count, Thread.holds, spinlockInit]
  word_le := by simp [SpinMutex.init, spinlockInit]
  sum := by simp [SpinMutex.init, Thread.left, Thread.pending, mul_comm]
  holder_v := by simp [SpinMutex.init]

theorem Reachable.inv {K : Nat} {p : Option Nat} (hs : Reachable nd K p s) :
    Inv nd (N * K) s := by
  induction hs with
  | init => exact Inv.init nd N K p
  | step _ _ hn ih => exact ih.next hn

/-- Once every thread has run its `K` sections and is idle, `c = N * K`. -/
theorem Reachable.c_eq_of_done {K : Nat} {p : Option Nat} (hs : Reachable nd K p s)
    (hdone : ∀ t, (s.th t).pc = .idle ∧ (s.th t).todo = 0) : s.c = N * K := by
  have h := hs.inv.sum
  simp [Thread.left, Thread.pending, hdone] at h
  exact h

end Invariant

end SpinMutex

namespace SpinSharedMutex

/-! ## `libtle_spin_shared_mutex_t` -/

/-- Where a thread is in the test program and in the four functions; `sh` tells the
reader side (`lock_shared`, `unlock_shared`) from the writer side. -/
inductive Pc
  /-- between two sections -/
  | idle
  /-- `assert(st->status <= LIBTLE_MUTEX_STATUS_UNLOCKED)` -/
  | lockEntry (sh : Bool)
  /-- `libtle_rwlock_write_lock(&mtx->state)` -/
  | writeLock
  /-- `st->status = LIBTLE_MUTEX_STATUS_LOCKED_UNIQUE` -/
  | setUnique
  /-- `libtle_rwlock_read_lock(&mtx->state)` -/
  | readLock
  /-- `st->status = LIBTLE_MUTEX_STATUS_LOCKED_SHARED` -/
  | setShared
  /-- the writer section's load of `c` -/
  | csRead
  /-- the writer section's store `c = v + 1` -/
  | csWrite
  /-- the reader section's load of `c` -/
  | csLoad
  /-- `assert(st->status == LIBTLE_MUTEX_STATUS_LOCKED_UNIQUE)` -/
  | unlockEntry
  /-- `libtle_rwlock_write_unlock(&mtx->state)` -/
  | writeUnlock
  /-- `assert(st->status == LIBTLE_MUTEX_STATUS_LOCKED_SHARED)` -/
  | unlockSharedEntry
  /-- `libtle_rwlock_read_unlock(&mtx->state)` -/
  | readUnlock
  /-- `st->status = UNLOCKED` and the profile update -/
  | released (sh : Bool)
  /-- a failed assertion -/
  | error
  deriving DecidableEq, Repr

/-- A thread: its position, handle status, position in the rwlock code, register, profile
and sections still to run, with the counter `lo` at the start of its open reader section
and the records `(lo, r, hi)` of its closed ones. -/
structure Thread where
  pc : Pc
  status : MutexStatus
  rw : RwPc
  v : Nat
  prof : Option Nat
  todo : Nat
  lo : Nat
  reads : List (Nat × Nat × Nat)
  deriving DecidableEq, Repr

/-- Who moves next: a thread runs its program, or an idle one starts a reader section. -/
inductive Act
  | run
  | read
  deriving DecidableEq, Repr

/-- One step of the rwlock code, reading `rd`, on the word `st`, with the new word. -/
def rwlockStep (st : Nat) (rd : Bool) (th : Thread) : Thread × Nat :=
  let r := rwlockThreadStep st rd th.rw
  ({ th with rw := r.2 }, r.1)

@[simp] theorem rwlockStep_fst (st : Nat) (rd : Bool) (th : Thread) :
    (rwlockStep st rd th).1 = { th with rw := (rwlockThreadStep st rd th.rw).2 } := rfl

/-- One step of `libtle_spin_shared_mutex_lock` (`sh = false`) or
`libtle_spin_shared_mutex_lock_shared` on the word `st`, with the new word, in the debug
build (`nd = false`) or with `NDEBUG`, where the assertion and the status store are compiled
out. -/
def spinSharedMutexLock (nd : Bool) (st : Nat) (th : Thread) : Option (Thread × Nat) :=
  match th.pc with
  | .lockEntry sh =>
    some (if nd || th.status.canLock then { th with pc := if sh then .readLock else .writeLock }
      else { th with pc := .error }, st)
  | .writeLock =>
    let r := rwlockStep st false th
    some (if r.1.rw = .writing then { r.1 with pc := if nd then .csRead else .setUnique }
      else r.1, r.2)
  | .setUnique => some ({ th with pc := .csRead, status := .lockedUnique }, st)
  | .readLock =>
    let r := rwlockStep st true th
    some (if r.1.rw = .reading then { r.1 with pc := if nd then .csLoad else .setShared }
      else r.1, r.2)
  | .setShared => some ({ th with pc := .csLoad, status := .lockedShared }, st)
  | _ => none

/-- One step of `libtle_spin_shared_mutex_unlock` or `libtle_spin_shared_mutex_unlock_shared`
on the word `st`, with the new word, in the debug build or with `NDEBUG`; at its end a reader
section is recorded with the counter `c`. -/
def spinSharedMutexUnlock (nd : Bool) (st c : Nat) (th : Thread) : Option (Thread × Nat) :=
  match th.pc with
  | .unlockEntry =>
    some (if nd || th.status = .lockedUnique then { th with pc := .writeUnlock }
      else { th with pc := .error }, st)
  | .writeUnlock =>
    let r := rwlockStep st false th
    some ({ r.1 with pc := .released false }, r.2)
  | .unlockSharedEntry =>
    some (if nd || th.status = .lockedShared then { th with pc := .readUnlock }
      else { th with pc := .error }, st)
  | .readUnlock =>
    let r := rwlockStep st true th
    some ({ r.1 with pc := .released true }, r.2)
  | .released sh =>
    some ({ th with pc := .idle, status := if nd then th.status else .unlocked,
                    prof := th.prof.map mutexProfileUpdateUnlock,
                    reads := if sh then (th.lo, th.v, c) :: th.reads else th.reads }, st)
  | _ => none

/-- One step of a thread on the word `st` and the counter `c`. -/
def step (nd : Bool) (st c : Nat) (th : Thread) : Act → Option (Thread × Nat × Nat)
  | .read => if th.pc = .idle then some ({ th with pc := .lockEntry true, lo := c }, st, c)
    else none
  | .run =>
    match th.pc with
    | .idle =>
      if th.todo = 0 then none
      else some ({ th with pc := .lockEntry false, todo := th.todo - 1 }, st, c)
    | .csRead => some ({ th with pc := .csWrite, v := c }, st, c)
    | .csWrite => some ({ th with pc := .unlockEntry }, st, th.v + 1)
    | .csLoad => some ({ th with pc := .unlockSharedEntry, v := c }, st, c)
    | .unlockEntry | .writeUnlock | .unlockSharedEntry | .readUnlock | .released _ =>
      (spinSharedMutexUnlock nd st c th).map fun r => (r.1, r.2, c)
    | _ => (spinSharedMutexLock nd st th).map fun r => (r.1, r.2, c)

/-- The rwlock word, the counter and `N` threads. -/
structure State (N : Nat) where
  state : Nat
  c : Nat
  th : Fin N → Thread

variable {N : Nat}

/-- `libtle_spin_shared_mutex_init`, `c = 0`, every handle `UNKNOWN` with `K` writer
sections to run. -/
def init (N K : Nat) (p : Option Nat) : State N :=
  ⟨rwlockInit, 0, fun _ => ⟨.idle, .unknown, .idle, 0, p, K, 0, []⟩⟩

/-- Thread `t` takes a step. -/
def next (nd : Bool) (s : State N) (t : Fin N) (a : Act) : Option (State N) :=
  (step nd s.state s.c (s.th t) a).map fun r => ⟨r.2.1, r.2.2, Function.update s.th t r.1⟩

/-- The states reachable from `init N K p` in build `nd`. -/
inductive Reachable (nd : Bool) (K : Nat) (p : Option Nat) : State N → Prop
  | init : Reachable nd K p (init N K p)
  | step {s s' : State N} (t : Fin N) (a : Act) : Reachable nd K p s → next nd s t a = some s' →
    Reachable nd K p s'

/-! ## The rwlock underneath -/

/-- The rwlock word and every thread's position in the rwlock code. -/
def State.rwlock (s : State N) : RwState N := ⟨s.state, fun t => (s.th t).rw⟩

/-- A thread's step either leaves the rwlock alone or is a step of the rwlock code. -/
theorem step_rwlock {nd : Bool} {st c : Nat} {th th' : Thread} {a : Act} {st' c' : Nat}
    (h : step nd st c th a = some (th', st', c')) :
    (th'.rw = th.rw ∧ st' = st) ∨
    ∃ rd, th'.rw = (rwlockThreadStep st rd th.rw).2 ∧
      st' = (rwlockThreadStep st rd th.rw).1 := by
  cases a
  case read =>
    simp only [step] at h
    split at h <;> simp only [Option.some.injEq, Prod.mk.injEq, reduceCtorEq] at h
    obtain ⟨rfl, rfl, -⟩ := h
    exact .inl ⟨rfl, rfl⟩
  cases hpc : th.pc <;>
    simp only [step, spinSharedMutexLock, spinSharedMutexUnlock, hpc, reduceCtorEq,
      Option.map_some', Option.map_none', Option.some.injEq, Prod.mk.injEq] at h
  all_goals first | (obtain ⟨rfl, rfl, -⟩ := h; exact .inl ⟨rfl, rfl⟩) | skip
  case idle =>
    split at h <;> simp only [Option.some.injEq, Prod.mk.injEq, reduceCtorEq] at h
    obtain ⟨rfl, rfl, -⟩ := h; exact .inl ⟨rfl, rfl⟩
  case lockEntry | unlockEntry | unlockSharedEntry =>
    split at h <;> obtain ⟨rfl, rfl, -⟩ := h <;> exact .inl ⟨rfl, rfl⟩
  case writeLock | readLock =>
    obtain ⟨rfl, rfl, -⟩ := h
    exact .inr ⟨_, by split <;> rfl, rfl⟩
  case writeUnlock | readUnlock =>
    obtain ⟨rfl, rfl, -⟩ := h
    exact .inr ⟨_, rfl, rfl⟩

/-- Only the lock's entry assertion brings a thread to `write_lock` or `read_lock`, and it
leaves the thread's rwlock position alone. -/
theorem step_to_lock {nd : Bool} {st c : Nat} {th th' : Thread} {a : Act} {st' c' : Nat}
    (h : step nd st c th a = some (th', st', c')) (hl : th'.pc = .writeLock ∨ th'.pc = .readLock) :
    (∃ sh, th.pc = .lockEntry sh) ∧ th'.rw = th.rw ∨ th.pc = .writeLock ∨ th.pc = .readLock := by
  by_cases hlk : th.pc = .writeLock ∨ th.pc = .readLock
  · exact .inr hlk
  -- elsewhere, only the entry assertion moves to a lock, keeping the rwlock position
  refine .inl ?_
  cases a <;> cases hpc : th.pc <;>
    simp only [step, spinSharedMutexLock, spinSharedMutexUnlock, hpc, Option.map_some',
      Option.map_none', Option.some.injEq, Prod.mk.injEq] at h hlk <;>
    (try split at h) <;> (try simp only [Option.some.injEq, Prod.mk.injEq] at h) <;>
    (try obtain ⟨rfl, -, -⟩ := h) <;> simp_all

theorem State.rwlock_update (s : State N) (t : Fin N) (th : Thread) (st c : Nat) :
    (⟨st, c, Function.update s.th t th⟩ : State N).rwlock =
      ⟨st, Function.update s.rwlock.pc t th.rw⟩ := by
  simp only [State.rwlock, RwState.mk.injEq, true_and]
  funext u
  rcases eq_or_ne u t with rfl | hu <;> simp [*]

/-- The shared mutex refines the rwlock: its word and the threads' positions in the
rwlock code are a run of the rwlock system. -/
theorem Reachable.rwlock {nd : Bool} {K : Nat} {p : Option Nat} {s : State N}
    (hs : Reachable nd K p s) :
    RwReachable s.rwlock := by
  induction hs with
  | init => exact RwReachable.init
  | step t a _ hn ih =>
    simp only [SpinSharedMutex.next, Option.map_eq_some'] at hn
    obtain ⟨⟨th, st, c⟩, hr, rfl⟩ := hn
    rw [State.rwlock_update]
    rcases step_rwlock hr with ⟨h1, rfl⟩ | ⟨rd, h1, rfl⟩
    · convert ih using 2
      rw [h1]
      exact Function.update_eq_self t _
    · rw [h1]
      exact RwReachable.step t rd ih

/-! ## Ghost state -/

/-- `1` while the thread's writer section has started and its increment is not in `c`. -/
def Thread.pending (th : Thread) : Nat :=
  match th.pc with
  | .lockEntry sh => (!sh).toNat
  | .writeLock | .setUnique | .csRead | .csWrite => 1
  | _ => 0

/-- The increments the thread has still to make. -/
def Thread.left (th : Thread) : Nat := th.todo + th.pending

/-- The thread is in a reader section, from `lock_shared` to the end of `unlock_shared`. -/
def Thread.inReader (th : Thread) : Bool :=
  match th.pc with
  | .lockEntry sh | .released sh => sh
  | .readLock | .setShared | .csLoad | .unlockSharedEntry | .readUnlock => true
  | _ => false

/-- The thread's reader section has loaded `c` into `v`. -/
def Thread.loaded (th : Thread) : Bool :=
  match th.pc with
  | .released sh => sh
  | .unlockSharedEntry | .readUnlock => true
  | _ => false

/-- The thread's reader sections when the counter is `c`. -/
abbrev Thread.ReadsOk (th : Thread) (c : Nat) : Prop :=
  LibTle.ReadsOk th.reads th.lo th.v th.inReader th.loaded c

/-- What each position says of the thread's rwlock position and status; with `NDEBUG` no
status is stored and none is checked. -/
def Thread.Ok (nd : Bool) (th : Thread) : Prop :=
  match th.pc with
  | .idle | .lockEntry _ => th.rw = .idle ∧ (nd = true ∨ th.status.canLock = true)
  | .writeLock =>
    (th.rw = .idle ∨ th.rw.inWriteLock = true) ∧ (nd = true ∨ th.status.canLock = true)
  | .setUnique => th.rw = .writing ∧ nd = false ∧ th.status.canLock = true
  | .readLock =>
    (th.rw = .idle ∨ th.rw = .readLoad ∨ th.rw = .readAdd ∨ th.rw = .readUndo) ∧
    (nd = true ∨ th.status.canLock = true)
  | .setShared => th.rw = .reading ∧ nd = false ∧ th.status.canLock = true
  | .csRead | .csWrite | .unlockEntry | .writeUnlock =>
    th.rw = .writing ∧ (nd = true ∨ th.status = .lockedUnique)
  | .csLoad | .unlockSharedEntry | .readUnlock =>
    th.rw = .reading ∧ (nd = true ∨ th.status = .lockedShared)
  | .released sh =>
    th.rw = .idle ∧ (nd = true ∨ th.status = if sh then .lockedShared else .lockedUnique)
  | .error => False

/-- `c` plus the increments still to come is `total`; the writer section's register holds
`c` when it stores; every thread's reader sections read `c` in range. -/
structure Inv (nd : Bool) (total : Nat) (s : State N) : Prop where
  ok : ∀ t, (s.th t).Ok nd
  sum : s.c + ∑ t, (s.th t).left = total
  holder_v : ∀ t, (s.th t).pc = .csWrite → (s.th t).v = s.c
  reads : ∀ t, (s.th t).ReadsOk s.c

section Invariant

variable {nd : Bool} {total : Nat} {s : State N} {t : Fin N} {th : Thread} {st c : Nat}

/-- A step of thread `t` to `th`, word `st` and counter `c` keeps the invariant if it does
so at `t`, `c` does not go down, and `c` changes only when no other thread is about to
store it. -/
theorem Inv.move (h : Inv nd total s) (hok : th.Ok nd) (hsum : c + th.left = s.c + (s.th t).left)
    (hv : th.pc = .csWrite → th.v = c) (hmono : s.c ≤ c)
    (hown : c ≠ s.c → ∀ u, u ≠ t → (s.th u).pc ≠ .csWrite) (hreads : th.ReadsOk c) :
    Inv nd total ⟨st, c, Function.update s.th t th⟩ where
  ok u := by
    rcases eq_or_ne u t with rfl | hu
    · simpa using hok
    · simpa [hu] using h.ok u
  sum := by
    have hs := sum_add_of_eq_off (f := fun u => (s.th u).left)
      (g := fun u => (Function.update s.th t th u).left) t fun u hu => by simp [hu]
    simp only [Function.update_same] at hs
    have := h.sum
    show c + ∑ u, (Function.update s.th t th u).left = total
    omega
  holder_v u hpc := by
    rcases eq_or_ne u t with rfl | hu
    · simp only [Function.update_same] at hpc ⊢; exact hv hpc
    · simp only [Function.update_noteq hu] at hpc ⊢
      have hc : c = s.c := by_contra fun hne => hown hne u hu hpc
      rw [hc]; exact h.holder_v u hpc
  reads u := by
    rcases eq_or_ne u t with rfl | hu
    · simpa using hreads
    · simpa [hu] using LibTle.ReadsOk.mono (h.reads u) hmono

/-- A step that leaves the records of a thread alone keeps them in range, if the open
section it enters was open before and a load it shows is in range. -/
theorem Thread.ReadsOk.of_open {th th' : Thread} {c c' : Nat} (h : th.ReadsOk c)
    (hreads : th'.reads = th.reads) (hlo : th'.lo = th.lo)
    (hin : th'.inReader = true → th.inReader = true)
    (hl : th'.loaded = true → th'.lo ≤ th'.v ∧ th'.v ≤ c) (hc : c ≤ c') :
    th'.ReadsOk c' := by
  rw [Thread.ReadsOk, hreads, hlo]
  exact (LibTle.ReadsOk.of_open h hin fun h' => hlo ▸ hl h').mono hc

/-- A step that leaves `c` alone keeps the invariant if the thread keeps its count of
increments and its reader records. -/
theorem Inv.move_local (h : Inv nd total s) (hok : th.Ok nd) (hleft : th.left = (s.th t).left)
    (hv : th.pc = .csWrite → th.v = s.c) (hreads : th.ReadsOk s.c) :
    Inv nd total ⟨st, s.c, Function.update s.th t th⟩ :=
  h.move hok (by rw [hleft]) hv le_rfl (fun hne => (hne rfl).elim) hreads

/-- The writers of `c` are the holders of the write lock. -/
theorem Inv.writing_of_csWrite (h : Inv nd total s) (hpc : (s.th t).pc = .csWrite) :
    (s.th t).rw = .writing := by
  have := h.ok t
  simp only [Thread.Ok, hpc] at this
  exact this.1

/-- One step keeps the invariant. Each case gives the thread's new facts; `Inv.move` and
`Inv.move_local` deal with the other threads. -/
theorem Inv.next (h : Inv nd total s) (hrw : RwInv s.rwlock) {a : Act} {s' : State N}
    (hs : next nd s t a = some s') : Inv nd total s' := by
  simp only [SpinSharedMutex.next, Option.map_eq_some'] at hs
  obtain ⟨⟨th, st, c⟩, hr, rfl⟩ := hs
  have hok := h.ok t
  have hrd := h.reads t
  cases a
  case read =>
    -- a reader section starts at the current value of `c`
    simp only [step] at hr
    split at hr <;> simp only [Option.some.injEq, Prod.mk.injEq, reduceCtorEq] at hr
    obtain ⟨rfl, rfl, rfl⟩ := hr
    rename_i hpc
    simp only [Thread.Ok, hpc] at hok
    exact h.move_local hok (by simp [Thread.left, Thread.pending, hpc]) nofun
      (LibTle.ReadsOk.start hrd _)
  cases hpc : (s.th t).pc <;>
    simp only [step, spinSharedMutexLock, spinSharedMutexUnlock, hpc, Option.map_some',
      Option.map_none', reduceCtorEq, Option.some.injEq, Prod.mk.injEq] at hr <;>
    simp only [Thread.Ok, hpc] at hok
  case idle =>
    -- a writer section starts: one increment moves from `todo` to `pending`
    split at hr <;> simp only [Option.some.injEq, Prod.mk.injEq, reduceCtorEq] at hr
    obtain ⟨rfl, rfl, rfl⟩ := hr
    exact h.move_local hok (by simp [Thread.left, Thread.pending, hpc]; omega) nofun
      (hrd.of_open rfl rfl nofun nofun le_rfl)
  case lockEntry sh =>
    obtain ⟨rfl, rfl, rfl⟩ := hr
    -- the assertion holds in the debug build and is compiled out with `NDEBUG`
    have hc : (nd || (s.th t).status.canLock) = true := by
      rcases hok.2 with h1 | h1 <;> simp [h1]
    rw [if_pos hc]
    cases sh
    · exact h.move_local ⟨.inl hok.1, hok.2⟩ (by simp [Thread.left, Thread.pending, hpc]) nofun
        (hrd.of_open rfl rfl nofun nofun le_rfl)
    · exact h.move_local ⟨.inl hok.1, hok.2⟩ (by simp [Thread.left, Thread.pending, hpc]) nofun
        (hrd.of_open rfl rfl (by simp [Thread.inReader, hpc]) nofun le_rfl)
  case writeLock =>
    -- `write_lock` moves on inside its own loop, and leaves it holding the lock
    obtain ⟨rfl, rfl, rfl⟩ := hr
    have hnew := rwlockThreadStep_in_write_lock (w := s.state) hok.1
    split_ifs with hq hnd
    · -- with `NDEBUG` straight into the section
      exact h.move_local ⟨hq, .inl hnd⟩ (by simp [Thread.left, Thread.pending, hpc]) nofun
        (hrd.of_open rfl rfl nofun nofun le_rfl)
    · exact h.move_local ⟨hq, by simpa using hnd, hok.2.resolve_left hnd⟩
        (by simp [Thread.left, Thread.pending, hpc]) nofun (hrd.of_open rfl rfl nofun nofun le_rfl)
    · exact h.move_local (by simp [Thread.Ok, hpc, hok.2, hnew.resolve_left hq])
        (by simp [Thread.left, Thread.pending, hpc]) (by simp [hpc])
        (hrd.of_open rfl rfl (by simp [Thread.inReader, hpc]) (by simp [Thread.loaded, hpc])
          le_rfl)
  case readLock =>
    -- `read_lock` moves on inside its own loop, and leaves it holding the lock shared
    obtain ⟨rfl, rfl, rfl⟩ := hr
    have hnew := rwlockThreadStep_in_read_lock (w := s.state) hok.1
    split_ifs with hq hnd
    · exact h.move_local ⟨hq, .inl hnd⟩ (by simp [Thread.left, Thread.pending, hpc]) nofun
        (hrd.of_open rfl rfl (fun _ => by simp [Thread.inReader, hpc]) nofun le_rfl)
    · exact h.move_local ⟨hq, by simpa using hnd, hok.2.resolve_left hnd⟩
        (by simp [Thread.left, Thread.pending, hpc]) nofun
        (hrd.of_open rfl rfl (fun _ => by simp [Thread.inReader, hpc]) nofun le_rfl)
    · exact h.move_local (by simp [Thread.Ok, hpc, hok.2, hnew.resolve_left hq])
        (by simp [Thread.left, Thread.pending, hpc]) (by simp [hpc])
        (hrd.of_open rfl rfl (by simp [Thread.inReader, hpc]) (by simp [Thread.loaded, hpc])
          le_rfl)
  case setUnique =>
    obtain ⟨rfl, rfl, rfl⟩ := hr
    exact h.move_local ⟨hok.1, .inr rfl⟩ (by simp [Thread.left, Thread.pending, hpc]) nofun
      (hrd.of_open rfl rfl nofun nofun le_rfl)
  case setShared =>
    obtain ⟨rfl, rfl, rfl⟩ := hr
    exact h.move_local ⟨hok.1, .inr rfl⟩ (by simp [Thread.left, Thread.pending, hpc]) nofun
      (hrd.of_open rfl rfl (fun _ => by simp [Thread.inReader, hpc]) nofun le_rfl)
  case csRead =>
    -- the writer section loads `c`
    obtain ⟨rfl, rfl, rfl⟩ := hr
    exact h.move_local hok (by simp [Thread.left, Thread.pending, hpc]) (fun _ => rfl)
      (hrd.of_open rfl rfl nofun nofun le_rfl)
  case csWrite =>
    -- the writer section's store; no other thread can be about to store `c`
    obtain ⟨rfl, rfl, rfl⟩ := hr
    have hown : ∀ u, u ≠ t → (s.th u).pc ≠ .csWrite := fun u hu hup =>
      hu (hrw.writer_unique (h.writing_of_csWrite hup) (h.writing_of_csWrite hpc))
    have hv := h.holder_v t hpc
    exact h.move hok (by simp [Thread.left, Thread.pending, hpc, hv]; omega) nofun
      (by dsimp only; omega) (fun _ => hown)
      (hrd.of_open rfl rfl nofun nofun (by dsimp only; omega))
  case csLoad =>
    -- the reader section loads `c`, which is in its range
    obtain ⟨rfl, rfl, rfl⟩ := hr
    have hlo := (hrd.opened (by simp [Thread.inReader, hpc])).2
    exact h.move_local hok (by simp [Thread.left, Thread.pending, hpc]) nofun
      (hrd.of_open rfl rfl (fun _ => by simp [Thread.inReader, hpc]) (fun _ => ⟨hlo, le_rfl⟩)
        le_rfl)
  case unlockEntry =>
    obtain ⟨rfl, rfl, rfl⟩ := hr
    rw [if_pos (by rcases hok.2 with h1 | h1 <;> simp [h1])]
    exact h.move_local hok (by simp [Thread.left, Thread.pending, hpc]) nofun
      (hrd.of_open rfl rfl nofun nofun le_rfl)
  case writeUnlock =>
    obtain ⟨rfl, rfl, rfl⟩ := hr
    exact h.move_local ⟨by simp [rwlockThreadStep, hok.1], hok.2⟩
      (by simp [Thread.left, Thread.pending, hpc]) nofun (hrd.of_open rfl rfl nofun nofun le_rfl)
  case unlockSharedEntry =>
    obtain ⟨rfl, rfl, rfl⟩ := hr
    rw [if_pos (by rcases hok.2 with h1 | h1 <;> simp [h1])]
    exact h.move_local hok (by simp [Thread.left, Thread.pending, hpc]) nofun
      (hrd.of_open rfl rfl (fun _ => by simp [Thread.inReader, hpc])
        (fun _ => hrd.loaded (by simp [Thread.loaded, hpc])) le_rfl)
  case readUnlock =>
    obtain ⟨rfl, rfl, rfl⟩ := hr
    exact h.move_local ⟨by simp [rwlockThreadStep, hok.1], hok.2⟩
      (by simp [Thread.left, Thread.pending, hpc]) nofun
      (hrd.of_open rfl rfl (fun _ => by simp [Thread.inReader, hpc])
        (fun _ => hrd.loaded (by simp [Thread.loaded, hpc])) le_rfl)
  case released sh =>
    -- the section ends; a reader section records what it read
    obtain ⟨rfl, rfl, rfl⟩ := hr
    have hidle : nd = true ∨ (if nd then (s.th t).status else .unlocked).canLock = true := by
      cases nd <;> simp [MutexStatus.canLock]
    cases sh
    · exact h.move_local ⟨hok.1, hidle⟩ (by simp [Thread.left, Thread.pending, hpc]) nofun
        (hrd.of_open rfl rfl nofun nofun le_rfl)
    · have hrd' : LibTle.ReadsOk (s.th t).reads (s.th t).lo (s.th t).v true true s.c := by
        simpa [Thread.ReadsOk, Thread.inReader, Thread.loaded, hpc] using hrd
      exact h.move_local ⟨hok.1, hidle⟩ (by simp [Thread.left, Thread.pending, hpc]) nofun
        (hrd'.record _ _)

theorem Inv.init (nd : Bool) (N K : Nat) (p : Option Nat) : Inv nd (N * K) (init N K p) where
  ok _ := by simp [SpinSharedMutex.init, Thread.Ok, MutexStatus.canLock_iff]
  sum := by simp [SpinSharedMutex.init, Thread.left, Thread.pending, mul_comm]
  holder_v := by simp [SpinSharedMutex.init]
  reads _ := ⟨ReadLog.nil 0, by simp [SpinSharedMutex.init, Thread.inReader],
    by simp [SpinSharedMutex.init, Thread.loaded]⟩

theorem Reachable.inv {K : Nat} {p : Option Nat} (hs : Reachable nd K p s) :
    Inv nd (N * K) s := by
  induction hs with
  | init => exact Inv.init nd N K p
  | step _ _ hs' hn ih => exact ih.next hs'.rwlock.inv hn

/-- `c` goes up by `0` or `1` at each step. -/
theorem Inv.c_step (h : Inv nd total s) {a : Act} {s' : State N}
    (hs : SpinSharedMutex.next nd s t a = some s') : s.c ≤ s'.c ∧ s'.c ≤ s.c + 1 := by
  simp only [SpinSharedMutex.next, Option.map_eq_some'] at hs
  obtain ⟨⟨th, st, c⟩, hr, rfl⟩ := hs
  cases a
  case read =>
    simp only [step] at hr
    split at hr <;> simp only [Option.some.injEq, Prod.mk.injEq, reduceCtorEq] at hr
    simp [← hr.2.2]
  cases hpc : (s.th t).pc <;>
    simp only [step, spinSharedMutexLock, spinSharedMutexUnlock, hpc, Option.map_some',
      Option.map_none', reduceCtorEq, Option.some.injEq, Prod.mk.injEq] at hr
  case idle =>
    split at hr <;> simp only [Option.some.injEq, Prod.mk.injEq, reduceCtorEq] at hr
    simp [← hr.2.2]
  case csWrite => simp [← hr.2.2, h.holder_v t hpc]
  all_goals simp [← hr.2.2]

end Invariant

/-- Once every thread has run its `K` writer sections and is idle, `c = N * K`. -/
theorem Reachable.c_eq_of_done {nd : Bool} {K : Nat} {p : Option Nat} {s : State N}
    (hs : Reachable nd K p s)
    (hdone : ∀ t, (s.th t).pc = .idle ∧ (s.th t).todo = 0) : s.c = N * K := by
  have h := hs.inv.sum
  simp [Thread.left, Thread.pending, hdone] at h
  exact h

/-- Every thread's closed reader sections read `c` in range. -/
theorem Reachable.readLog {nd : Bool} {K : Nat} {p : Option Nat} {s : State N}
    (hs : Reachable nd K p s)
    (t : Fin N) : ReadLog (s.th t).reads s.c :=
  LibTle.ReadsOk.log (hs.inv.reads t)

end SpinSharedMutex
end LibTle
