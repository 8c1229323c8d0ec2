import LibTle.Htm
import LibTle.Rwlock
import LibTle.Spinlock

/-!
# `libtle_htm_spin_shared_mutex_t` under transactional memory

`N` threads run `K` writer sections `lock(); c := c + 1; unlock()` each and any number of
reader sections `lock_shared(); r := c; unlock_shared()`, every thread through its own
handle on one HTM shared mutex: an rwlock `state` and a spinlock `wflag`. The HTM extension
`isa` (RTM on x86-64, TME on AArch64) fixes the abort statuses and the retry test. `state`
is taken through the portable loops of `rwlock.h`, which neither build compiles: this is the
design the code implements, and `HtmSpinSharedMutexA64` runs the AArch64 `asm` blocks in
their place. `wflag` is kept in the AArch64 encoding (`0` free); the x86-64 stores are the
same two stores with the values exchanged.

* `htmSpinSharedMutexLock` covers both `lock` and `lock_shared`, which differ only in the
  word they wait on and check (`state` or `wflag`), their retry limit and their fallback
  (`write_lock` then `lock_uncontended(&wflag)`, or `read_lock`); `htmSpinSharedMutexUnlock`
  covers `unlock` and `unlock_shared`.
* Each thread carries its position in the rwlock code (`Thread.rw`), so that the rwlock
  word and those positions are a run of the rwlock system of `Rwlock`
  (`Reachable.rwlock`): the rwlock's own invariant is used, not proved again.
* A reader section records `(lo, r, hi)`: `c` when it started, the value it read, and `c`
  when it ended.
* `nd` is the `NDEBUG` build, where the entry assertion of `lock` and `lock_shared` and the
  `assert(0)` of the unlocks are compiled out; the handle status is kept in both builds.
-/

namespace LibTle
namespace HtmSpinSharedMutex

/-! ## Threads -/

/-- Where a thread is in the test program and in the four functions; `sh` marks
`lock_shared` and `unlock_shared`. -/
inductive Pc
  /-- between two sections -/
  | idle
  /-- `assert(st->status <= LIBTLE_MUTEX_STATUS_UNLOCKED)` -/
  | lockEntry (sh : Bool)
  /-- `libtle_rwlock_unlock_wait(&mtx->state)`, or `libtle_spinlock_unlock_wait(&mtx->wflag)` -/
  | unlockWait (sh : Bool)
  /-- `xstatus = _xbegin()` -/
  | xbegin (sh : Bool)
  /-- in the transaction: `is_locked(&mtx->state)`, or `is_locked(&mtx->wflag)` -/
  | check (sh : Bool)
  /-- `++num_retries`, the profile update and the loop condition -/
  | aborted (sh : Bool)
  /-- `libtle_rwlock_write_lock(&mtx->state)` -/
  | writeLock
  /-- `libtle_spinlock_lock_uncontended(&mtx->wflag)` -/
  | lockWflag
  /-- `st->status = LIBTLE_MUTEX_STATUS_LOCKED_UNIQUE` -/
  | setUnique
  /-- `libtle_rwlock_read_lock(&mtx->state)` -/
  | readLock
  /-- `st->status = LIBTLE_MUTEX_STATUS_LOCKED_SHARED` -/
  | setShared
  /-- the writer section's load of `c` -/
  | csRead
  /-- the writer section's store `c = v + 1` -/
  | csWrite
  /-- the reader section's load `r = c` -/
  | csLoad
  /-- `switch (st->status)` on entry to `unlock` -/
  | unlockEntry
  /-- `switch (st->status)` on entry to `unlock_shared` -/
  | unlockSharedEntry
  /-- `libtle_rwlock_write_unlock(&mtx->state)`, after `wflag` is released -/
  | writeUnlock
  /-- after the last unlock store: the profile update and `st->status = UNLOCKED` -/
  | released (sh : Bool)
  /-- after `_xend()`: `if (p && !_xtest())` the profile update, `st->status = UNLOCKED` -/
  | committed (sh : Bool)
  /-- a failed assertion, or `_xend()` outside a transaction -/
  | error
  deriving DecidableEq, Repr

/-- A live transaction: the function whose `_xbegin` it resumes at (`lock_shared` when
`shared`), the status to restore, its read set and its buffered store to `c`. -/
structure Txn where
  shared : Bool
  saved : MutexStatus
  readsState : Bool
  readsWflag : Bool
  readsC : Bool
  bufC : Option Nat
  deriving DecidableEq, Repr

/-- A thread: its position, handle status, transaction and position in the rwlock code,
the locals `num_retries` and `xstatus`, the section's register `v`, its profile, the
writer sections it has still to start, `c` when its reader section started, and the
record `(lo, r, hi)` of its finished reader sections, latest first. -/
structure Thread where
  pc : Pc
  status : MutexStatus
  txn : Option Txn
  rw : RwPc
  retries : Nat
  xstatus : Nat
  v : Nat
  prof : Option HtmMutexProfile
  todo : Nat
  lo : Nat
  reads : List (Nat × Nat × Nat)
  deriving DecidableEq, Repr

/-- A store to shared memory. -/
inductive Store
  | state (w : Nat)
  | wflag (w : Int)
  | c (v : Nat)
  deriving DecidableEq, Repr

/-- What the scheduled thread does: its next instruction (an idle thread starts a writer
section), start a reader section, a `_xbegin` that fails, or an abort. -/
inductive Act
  | run
  | read
  | fail
  | abort
  deriving DecidableEq, Repr

/-- Whether a store hits the transaction's read or write set. -/
def Txn.conflicts (tx : Txn) : Store → Bool
  | .state _ => tx.readsState
  | .wflag _ => tx.readsWflag
  | .c _ => tx.readsC || tx.bufC.isSome

/-- The hardware aborts transaction `tx` with status `x`: back to the `_xbegin` of the
function that started it, with the status written in it and its store dropped. -/
def Thread.rollback (th : Thread) (tx : Txn) (x : Nat) : Thread :=
  { th with pc := .aborted tx.shared, txn := none, status := tx.saved, xstatus := x }

/-- Another thread's store `w`: a transaction it conflicts with aborts with status `x`. -/
def Thread.abortOn (th : Thread) (w : Option Store) (x : Nat) : Thread :=
  match th.txn, w with
  | some tx, some w => if tx.conflicts w then th.rollback tx x else th
  | _, _ => th

/-! ## The four functions -/

/-- `_xend()`: commits the transaction and publishes its store, or faults outside one. -/
def xend (th : Thread) (sh : Bool) : Thread × Option Store :=
  match th.txn with
  | some tx => ({ th with pc := .committed sh, txn := none }, tx.bufC.map .c)
  | none => ({ th with pc := .error }, none)

/-- One step of the portable rwlock code at `th.rw` on the word `st` (`rd` picks
`read_lock` from idle), with its store. -/
def rwlockStep (st : Nat) (rd : Bool) (th : Thread) : Thread × Option Store :=
  let r := rwlockThreadStep st rd th.rw
  ({ th with rw := r.2 }, if rwlockStores st th.rw then some (.state r.1) else none)

/-- Whether the word that `lock` (`sh = false`) or `lock_shared` waits on and checks is
held: `libtle_rwlock_is_locked(&mtx->state)` or `libtle_spinlock_is_locked(&mtx->wflag)`. -/
def isLocked (sh : Bool) (st : Nat) (wf : Int) : Bool :=
  if sh then spinlockIsLocked .aarch64 wf else rwlockIsLocked st

theorem state_eq_zero_of_not_isLocked {st : Nat} {wf : Int}
    (h : ¬isLocked false st wf = true) : st = 0 := by
  simpa [isLocked, rwlockIsLocked] using h

theorem wflag_eq_zero_of_not_isLocked {st : Nat} {wf : Int}
    (h : ¬isLocked true st wf = true) : wf = 0 := by
  simpa [isLocked, spinlockIsLocked] using h

/-- One step of `libtle_htm_spin_shared_mutex_lock` (`sh = false`, retry limit `Rw`) or
`..._lock_shared` (`sh = true`, retry limit `Rr`), on `state = st` and `wflag = wf`; with
`NDEBUG` (`nd`) the entry assertion is compiled out, and nothing else is. -/
def htmSpinSharedMutexLock (isa : HtmIsa) (Rw Rr : Nat) (nd : Bool) (st : Nat) (wf : Int)
    (th : Thread) (a : Act) (x : Nat) : Option (Thread × Option Store) :=
  match th.pc, a with
  | .lockEntry sh, .run =>
    some (if nd || th.status.canLock then { th with pc := .unlockWait sh, retries := 0 }
      else { th with pc := .error }, none)
  | .unlockWait sh, .run =>
    if isLocked sh st wf then none else some ({ th with pc := .xbegin sh }, none)
  | .xbegin sh, .run =>
    some ({ th with pc := .check sh, txn := some ⟨sh, th.status, false, false, false, none⟩ },
      none)
  | .xbegin sh, .fail => some ({ th with pc := .aborted sh, xstatus := x }, none)
  | .check sh, .run =>
    th.txn.map fun tx =>
      let tx := if sh then { tx with readsWflag := true } else { tx with readsState := true }
      if isLocked sh st wf then (th.rollback tx (xabortStatus isa (lockIsLockedCode isa) 1), none)
      else ({ th with pc := if sh then .csLoad else .csRead, txn := some tx,
                      status := .elided }, none)
  | .aborted sh, .run =>
    some ({ th with
      pc := if xbeginRestart isa th.xstatus && th.retries + 1 < (if sh then Rr else Rw) then
          .unlockWait sh
        else if sh then .readLock else .writeLock,
      retries := th.retries + 1,
      prof := th.prof.map fun p => p.updateAbort isa th.xstatus }, none)
  | .writeLock, .run =>
    let r := rwlockStep st false th
    some ({ r.1 with pc := if r.1.rw = .writing then .lockWflag else .writeLock }, r.2)
  | .lockWflag, .run =>
    some ({ th with pc := .setUnique }, some (.wflag (spinlockLockUncontended .aarch64)))
  | .setUnique, .run => some ({ th with pc := .csRead, status := .lockedUnique }, none)
  | .readLock, .run =>
    let r := rwlockStep st true th
    some ({ r.1 with pc := if r.1.rw = .reading then .setShared else .readLock }, r.2)
  | .setShared, .run => some ({ th with pc := .csLoad, status := .lockedShared }, none)
  | _, _ => none

/-- The section's end in the test program: a reader section records `(lo, r, c)`. -/
def Thread.record (th : Thread) (sh : Bool) (c : Nat) : List (Nat × Nat × Nat) :=
  if sh then (th.lo, th.v, c) :: th.reads else th.reads

@[simp] theorem Thread.record_false (th : Thread) (c : Nat) : th.record false c = th.reads := rfl

@[simp] theorem Thread.record_true (th : Thread) (c : Nat) :
    th.record true c = (th.lo, th.v, c) :: th.reads := rfl

/-- The `default:` branch of the `switch` in `unlock` (`sh = false`) or `unlock_shared`:
`assert(0)` in the debug build; with `NDEBUG` the call goes on to
`st->status = LIBTLE_MUTEX_STATUS_UNLOCKED` and returns. -/
def unlockDefault (nd sh : Bool) (c : Nat) (th : Thread) : Thread :=
  if nd then { th with pc := .idle, status := .unlocked, reads := th.record sh c }
  else { th with pc := .error }

@[simp] theorem unlockDefault_rw (nd sh : Bool) (c : Nat) (th : Thread) :
    (unlockDefault nd sh c th).rw = th.rw := by
  unfold unlockDefault; split <;> rfl

/-- One step of `libtle_htm_spin_shared_mutex_unlock` (`sh = false`) or `..._unlock_shared`;
a reader section ends by recording `(lo, r, c)`. -/
def htmSpinSharedMutexUnlock (nd : Bool) (st : Nat) (c : Nat) (th : Thread) :
    Option (Thread × Option Store) :=
  match th.pc with
  | .unlockEntry =>
    match th.status with
    | .elided => some (xend th false)
    | .lockedUnique =>
      some ({ th with pc := .writeUnlock }, some (.wflag (spinlockUnlock .aarch64)))
    | _ => some (unlockDefault nd false c th, none)
  | .unlockSharedEntry =>
    match th.status with
    | .elided => some (xend th true)
    | .lockedShared =>
      let r := rwlockStep st true th
      some ({ r.1 with pc := .released true }, r.2)
    | _ => some (unlockDefault nd true c th, none)
  | .writeUnlock =>
    let r := rwlockStep st false th
    some ({ r.1 with pc := .released false }, r.2)
  | .released sh =>
    some ({ th with pc := .idle, prof := th.prof.map HtmMutexProfile.updateUnlock,
                    status := .unlocked, reads := th.record sh c }, none)
  | .committed sh =>
    some ({ th with pc := .idle,
                    prof := if th.txn.isNone then th.prof.map HtmMutexProfile.updateCommit
                      else th.prof,
                    status := .unlocked, reads := th.record sh c }, none)
  | _ => none

/-- One step of a thread: the test program around the four functions, or an abort. -/
def step (isa : HtmIsa) (Rw Rr : Nat) (nd : Bool) (st : Nat) (wf : Int) (c : Nat)
    (th : Thread) (a : Act) (x : Nat) :
    Option (Thread × Option Store) :=
  match a, th.pc with
  | .abort, _ => th.txn.map fun tx => (th.rollback tx x, none)
  | .run, .idle =>
    if th.todo = 0 then none
    else some ({ th with pc := .lockEntry false, todo := th.todo - 1 }, none)
  | .read, .idle => some ({ th with pc := .lockEntry true, lo := c }, none)
  | .run, .csRead =>
    some ({ th with pc := .csWrite, v := (th.txn.bind Txn.bufC).getD c,
                    txn := th.txn.map fun tx => { tx with readsC := true } }, none)
  | .run, .csWrite =>
    match th.txn with
    | some tx =>
      some ({ th with pc := .unlockEntry, txn := some { tx with bufC := some (th.v + 1) } }, none)
    | none => some ({ th with pc := .unlockEntry }, some (.c (th.v + 1)))
  | .run, .csLoad =>
    some ({ th with pc := .unlockSharedEntry, v := c,
                    txn := th.txn.map fun tx => { tx with readsC := true } }, none)
  | .run, .unlockEntry | .run, .unlockSharedEntry | .run, .writeUnlock | .run, .released _
  | .run, .committed _ =>
    htmSpinSharedMutexUnlock nd st c th
  | _, _ => htmSpinSharedMutexLock isa Rw Rr nd st wf th a x

/-- An abort rolls back the thread's transaction, if it has one, whatever its position. -/
theorem step_abort (isa : HtmIsa) (Rw Rr : Nat) (nd : Bool) (st : Nat) (wf : Int) (c : Nat)
    (th : Thread) (x : Nat) :
    step isa Rw Rr nd st wf c th .abort x = th.txn.map fun tx => (th.rollback tx x, none) := rfl

/-! ## The system -/

/-- The rwlock word `state`, the spinlock `wflag`, the counter and `N` threads. -/
structure State (N : Nat) where
  state : Nat
  wflag : Int
  c : Nat
  th : Fin N → Thread

variable {N : Nat} {isa : HtmIsa} {nd : Bool}

/-- `libtle_htm_spin_shared_mutex_init`, `c = 0`, and every handle `UNKNOWN` with `K`
writer sections to run and the profile `p`. -/
def init (N K : Nat) (p : Option HtmMutexProfile) : State N :=
  ⟨rwlockInit, spinlockInit .aarch64, 0,
    fun _ => ⟨.idle, .unknown, none, .idle, 0, 0, 0, p, K, 0, []⟩⟩

/-- The word `state` after the store `w`, if any. -/
def Store.newState : Option Store → Nat → Nat
  | some (.state v), _ => v
  | _, st => st

/-- The word `wflag` after the store `w`, if any. -/
def Store.newWflag : Option Store → Int → Int
  | some (.wflag v), _ => v
  | _, wf => wf

/-- The counter after the store `w`, if any. -/
def Store.newC : Option Store → Nat → Nat
  | some (.c v), _ => v
  | _, n => n

/-- Thread `t` moves to `th` and makes the store `w`, if any, which aborts the
transactions it conflicts with, the one of thread `u` with status `x u`. -/
def State.apply (s : State N) (t : Fin N) (th : Thread) (w : Option Store) (x : Fin N → Nat) :
    State N :=
  ⟨Store.newState w s.state, Store.newWflag w s.wflag, Store.newC w s.c,
    Function.update (fun u => (s.th u).abortOn w (x u)) t th⟩

/-- Thread `t` takes a step. A transaction of thread `u` that fails or aborts in it, by
`t`'s own `_xbegin` or abort or by a store of `t` it conflicts with, gets the status `x u`,
never `_XBEGIN_STARTED`. -/
def next (isa : HtmIsa) (Rw Rr : Nat) (nd : Bool) (s : State N) (t : Fin N) (a : Act) (x : Fin N → Nat) :
    Option (State N) :=
  if ∃ u, x u = xbeginStarted isa then none
  else (step isa Rw Rr nd s.state s.wflag s.c (s.th t) a (x t)).map fun r => s.apply t r.1 r.2 x

/-- The states reachable from `init N K p` with retry limits `Rw` and `Rr`, in build `nd`. -/
inductive Reachable (isa : HtmIsa) (Rw Rr : Nat) (nd : Bool) (K : Nat)
    (p : Option HtmMutexProfile) :
    State N → Prop
  | init : Reachable isa Rw Rr nd K p (init N K p)
  | step {s s' : State N} (t : Fin N) (a : Act) (x : Fin N → Nat) :
    Reachable isa Rw Rr nd K p s → next isa Rw Rr nd s t a x = some s' → Reachable isa Rw Rr nd K p s'

/-! ## The rwlock underneath -/

/-- The rwlock word and every thread's position in the rwlock code. -/
def State.rwlock (s : State N) : RwState N := ⟨s.state, fun t => (s.th t).rw⟩

theorem Thread.abortOn_rw (th : Thread) (w : Option Store) (x : Nat) :
    (th.abortOn w x).rw = th.rw := by
  unfold Thread.abortOn
  split
  · split <;> rfl
  · rfl

/-- `rwlockStep` is a step of the rwlock code, on the word as on the position. -/
theorem rwlockStep_spec (st : Nat) (rd : Bool) (th : Thread) :
    (rwlockStep st rd th).1.rw = (rwlockThreadStep st rd th.rw).2 ∧
    Store.newState (rwlockStep st rd th).2 st = (rwlockThreadStep st rd th.rw).1 := by
  refine ⟨rfl, ?_⟩
  cases h : rwlockStores st th.rw
  · simp [rwlockStep, h, Store.newState, rwlockThreadStep_fst_of_not_stores h]
  · simp [rwlockStep, h, Store.newState]

@[simp] theorem rwlockStep_fst (st : Nat) (rd : Bool) (th : Thread) :
    (rwlockStep st rd th).1 = { th with rw := (rwlockThreadStep st rd th.rw).2 } := rfl

@[simp] theorem Store.newWflag_rwlockStep (st : Nat) (rd : Bool) (th : Thread) (wf : Int) :
    Store.newWflag (rwlockStep st rd th).2 wf = wf := by
  unfold rwlockStep; split <;> rfl

@[simp] theorem Store.newC_rwlockStep (st : Nat) (rd : Bool) (th : Thread) (c : Nat) :
    Store.newC (rwlockStep st rd th).2 c = c := by
  unfold rwlockStep; split <;> rfl

/-- What one step of a thread stores, and what it does to the thread's position in the
rwlock code. -/
inductive StepStore (st : Nat) (th th' : Thread) : Option Store → Prop
  /-- no store, the position in the rwlock code kept -/
  | none : th'.rw = th.rw → StepStore st th th' none
  /-- a step of the rwlock code, `read_lock` when `rd` -/
  | rwlock (rd : Bool) : th'.rw = (rwlockThreadStep st rd th.rw).2 →
    StepStore st th th' (rwlockStep st rd th).2
  /-- `libtle_spinlock_lock_uncontended(&mtx->wflag)` -/
  | lockWflag : th'.rw = th.rw → th.pc = .lockWflag →
    StepStore st th th' (some (.wflag (spinlockLockUncontended .aarch64)))
  /-- the `LOCKED_UNIQUE` branch of `unlock` releases `wflag` -/
  | unlockWflag : th'.rw = th.rw → th.pc = .unlockEntry → th.status = .lockedUnique →
    StepStore st th th' (some (.wflag (spinlockUnlock .aarch64)))
  /-- a fallback writer section's store `c = v + 1` -/
  | storeC : th'.rw = th.rw → th.txn = none → th.pc = .csWrite →
    StepStore st th th' (some (.c (th.v + 1)))
  /-- `_xend()` publishes the transaction's buffered store to `c` -/
  | commit (tx : Txn) : th'.rw = th.rw → th.txn = some tx → StepStore st th th' (tx.bufC.map .c)

/-- Every step is one of the kinds of `StepStore`. -/
theorem step_store {Rw Rr st : Nat} {wf : Int} {c : Nat} {th th' : Thread} {a : Act}
    {x : Nat} {w : Option Store} (h : step isa Rw Rr nd st wf c th a x = some (th', w)) :
    StepStore st th th' w := by
  cases a
  case abort =>
    rw [step_abort, Option.map_eq_some'] at h
    obtain ⟨tx, -, h⟩ := h
    cases h
    exact .none rfl
  all_goals unfold step htmSpinSharedMutexLock htmSpinSharedMutexUnlock at h
  all_goals cases hpc : th.pc <;>
    simp only [hpc, reduceCtorEq, Option.map_eq_some', Option.some.injEq, Prod.mk.injEq] at h
  all_goals first | (obtain ⟨rfl, rfl⟩ := h; exact .none rfl) | skip
  case run.idle | run.unlockWait =>
    split at h <;> simp only [Option.some.injEq, Prod.mk.injEq, reduceCtorEq] at h
    obtain ⟨rfl, rfl⟩ := h
    exact .none rfl
  case run.lockEntry => split at h <;> obtain ⟨rfl, rfl⟩ := h <;> exact .none rfl
  case run.check =>
    obtain ⟨tx, -, h⟩ := h
    split at h <;> simp only [Prod.mk.injEq] at h <;> obtain ⟨rfl, rfl⟩ := h <;> exact .none rfl
  case run.csWrite =>
    split at h <;> simp only [Option.some.injEq, Prod.mk.injEq] at h <;> obtain ⟨rfl, rfl⟩ := h
    · exact .none rfl
    · exact .storeC rfl ‹_› hpc
  case run.lockWflag => obtain ⟨rfl, rfl⟩ := h; exact .lockWflag rfl hpc
  case run.writeLock | run.writeUnlock => obtain ⟨rfl, rfl⟩ := h; exact .rwlock false rfl
  case run.readLock => obtain ⟨rfl, rfl⟩ := h; exact .rwlock true rfl
  case run.unlockEntry | run.unlockSharedEntry =>
    split at h <;> simp only [Option.some.injEq, Prod.mk.injEq] at h
    all_goals first
      | (obtain ⟨rfl, rfl⟩ := h; exact .unlockWflag rfl hpc ‹_›)
      | (obtain ⟨rfl, rfl⟩ := h; exact .rwlock true rfl)
      | (obtain ⟨rfl, rfl⟩ := h; exact .none (unlockDefault_rw ..))
      | (unfold xend at h
         split at h <;> simp only [Prod.mk.injEq] at h <;> obtain ⟨rfl, rfl⟩ := h
         · exact .commit _ rfl ‹_›
         · exact .none rfl)

/-- A thread's step either leaves the rwlock alone or is a step of the rwlock code. -/
theorem step_rwlock {Rw Rr st : Nat} {wf : Int} {c : Nat} {th th' : Thread} {a : Act}
    {x : Nat} {w : Option Store} (h : step isa Rw Rr nd st wf c th a x = some (th', w)) :
    (th'.rw = th.rw ∧ Store.newState w st = st) ∨
    ∃ rd, th'.rw = (rwlockThreadStep st rd th.rw).2 ∧
      Store.newState w st = (rwlockThreadStep st rd th.rw).1 := by
  cases step_store h with
  | none h1 | lockWflag h1 _ | unlockWflag h1 _ _ | storeC h1 _ _ => exact .inl ⟨h1, rfl⟩
  | rwlock rd h1 => exact .inr ⟨rd, h1, (rwlockStep_spec st rd th).2⟩
  | commit tx h1 _ => exact .inl ⟨h1, by cases tx.bufC <;> rfl⟩

/-- Only a writer section's store and a commit change `c`. -/
theorem step_newC {Rw Rr st : Nat} {wf : Int} {c : Nat} {th th' : Thread} {a : Act}
    {x : Nat} {w : Option Store} (h : step isa Rw Rr nd st wf c th a x = some (th', w)) :
    Store.newC w c = c ∨ (th.txn = none ∧ th.pc = .csWrite ∧ Store.newC w c = th.v + 1) ∨
      ∃ tx, th.txn = some tx ∧ w = tx.bufC.map .c := by
  cases step_store h with
  | none _ | lockWflag _ _ | unlockWflag _ _ _ => exact .inl rfl
  | rwlock rd _ => exact .inl (Store.newC_rwlockStep st rd th c)
  | storeC _ htx hpc => exact .inr (.inl ⟨htx, hpc, rfl⟩)
  | commit tx _ htx => exact .inr (.inr ⟨tx, htx, rfl⟩)

theorem rwlockStep_snd_ne_wflag (st : Nat) (rd : Bool) (th : Thread) (v : Int) :
    (rwlockStep st rd th).2 ≠ some (.wflag v) := by
  unfold rwlockStep; split <;> simp

/-- Only `lock_uncontended(&wflag)` and the `LOCKED_UNIQUE` branch of `unlock` store to
`wflag`, the one setting it and the other clearing it. -/
theorem step_wflag {Rw Rr st : Nat} {wf : Int} {c : Nat} {th th' : Thread} {a : Act}
    {x : Nat} {v : Int} (h : step isa Rw Rr nd st wf c th a x = some (th', some (.wflag v))) :
    th.pc = .lockWflag ∧ v = spinlockLockUncontended .aarch64 ∨
      th.pc = .unlockEntry ∧ th.status = .lockedUnique ∧ v = spinlockUnlock .aarch64 := by
  generalize hw : some (Store.wflag v) = w at h
  cases step_store h with
  | none _ | storeC _ _ _ => cases hw
  | rwlock rd _ => exact absurd hw.symm (rwlockStep_snd_ne_wflag st rd th v)
  | lockWflag _ hpc => exact .inl ⟨hpc, Store.wflag.inj (Option.some.inj hw)⟩
  | unlockWflag _ hpc hst => exact .inr ⟨hpc, hst, Store.wflag.inj (Option.some.inj hw)⟩
  | commit tx _ _ => cases htx : tx.bufC <;> simp [htx] at hw

theorem next_eq_some {Rw Rr : Nat} {s s' : State N} {t : Fin N} {a : Act} {x : Fin N → Nat}
    (h : next isa Rw Rr nd s t a x = some s') :
    ∃ th w, step isa Rw Rr nd s.state s.wflag s.c (s.th t) a (x t) = some (th, w) ∧
      s' = s.apply t th w x := by
  unfold next at h
  split_ifs at h
  obtain ⟨⟨th, w⟩, hr, rfl⟩ := Option.map_eq_some'.1 h
  exact ⟨th, w, hr, rfl⟩

theorem State.apply_rwlock (s : State N) (t : Fin N) (th : Thread) (w : Option Store)
    (x : Fin N → Nat) :
    (s.apply t th w x).rwlock =
      ⟨Store.newState w s.state, Function.update s.rwlock.pc t th.rw⟩ := by
  simp only [State.apply, State.rwlock, RwState.mk.injEq, true_and]
  funext u
  by_cases hu : u = t
  · subst hu; simp
  · simp [hu, Thread.abortOn_rw]

/-- The shared mutex refines the rwlock: its word and the threads' positions in the
rwlock code are a run of the rwlock system. -/
theorem Reachable.rwlock {Rw Rr K : Nat} {p : Option HtmMutexProfile} {s : State N}
    (hs : Reachable isa Rw Rr nd K p s) : RwReachable s.rwlock := by
  induction hs with
  | init =>
    convert RwReachable.init (N := N) using 1
  | step t a x _ hn ih =>
    obtain ⟨th, w, hr, rfl⟩ := next_eq_some hn
    rw [State.apply_rwlock]
    rcases step_rwlock hr with ⟨h1, h2⟩ | ⟨rd, h1, h2⟩
    · convert ih using 1
      rw [h1, h2]
      exact congrArg _ (Function.update_eq_self t _)
    · convert RwReachable.step t rd ih using 1
      rw [h1, h2]
      rfl

/-! ## Ghost state -/

/-- The thread holds `wflag`: it stored `1` there and has not stored `0` back. -/
def Thread.holdsWflag (th : Thread) : Bool :=
  th.txn.isNone && match th.pc with
    | .setUnique | .csRead | .csWrite | .unlockEntry => true
    | _ => false

/-- `1` while the thread's writer section has started and its increment is not in `c`. -/
def Thread.pending (th : Thread) : Nat :=
  match th.pc with
  | .lockEntry sh | .unlockWait sh | .xbegin sh | .check sh | .aborted sh => (!sh).toNat
  | .writeLock | .lockWflag | .setUnique | .csRead | .csWrite => 1
  | .unlockEntry => th.txn.isSome.toNat
  | _ => 0

/-- The increments the thread has still to make visible. -/
def Thread.left (th : Thread) : Nat := th.todo + th.pending

/-- The thread is in a reader section, from `lock_shared` to the end of `unlock_shared`. -/
def Thread.inReader (th : Thread) : Bool :=
  match th.pc with
  | .lockEntry sh | .unlockWait sh | .xbegin sh | .check sh | .aborted sh | .released sh
  | .committed sh => sh
  | .readLock | .setShared | .csLoad | .unlockSharedEntry => true
  | _ => false

/-- The thread's reader section has loaded `c` into `v`. -/
def Thread.loaded (th : Thread) : Bool :=
  match th.pc with
  | .released sh | .committed sh => sh
  | .unlockSharedEntry => true
  | _ => false

/-- The thread's reader sections when the counter is `c`. -/
abbrev Thread.ReadsOk (th : Thread) (c : Nat) : Prop :=
  LibTle.ReadsOk th.reads th.lo th.v th.inReader th.loaded c

/-! ## The shape of a thread -/

/-- In the section of `lock` (`sh = false`) or `lock_shared`: on the fallback path,
holding the rwlock in that mode with the matching status, or in a transaction past its
check of `state` (or `wflag`), status `ELIDED`, whose sets satisfy `P`. -/
def Thread.Cs (th : Thread) (sh : Bool) (P : Txn → Prop) : Prop :=
  (th.txn = none ∧ th.rw = (if sh then .reading else .writing) ∧
    th.status = (if sh then .lockedShared else .lockedUnique)) ∨
  (∃ tx, th.txn = some tx ∧ tx.shared = sh ∧ tx.saved.canLock = true ∧
    (if sh then tx.readsWflag else tx.readsState) = true ∧ P tx ∧ th.status = .elided ∧
    th.rw = .idle)

/-- What each position says of the thread's transaction, rwlock position and status. -/
def Thread.Ok (th : Thread) : Prop :=
  match th.pc with
  | .idle | .lockEntry _ | .unlockWait _ | .xbegin _ | .aborted _ =>
    th.txn = none ∧ th.rw = .idle ∧ th.status.canLock = true
  | .check sh => th.rw = .idle ∧ th.status.canLock = true ∧ ∃ tx, th.txn = some tx ∧
    tx.shared = sh ∧ tx.saved = th.status ∧ tx.readsState = false ∧ tx.readsWflag = false ∧
    tx.readsC = false ∧ tx.bufC = none
  | .writeLock =>
    th.txn = none ∧ (th.rw = .idle ∨ th.rw.inWriteLock = true) ∧ th.status.canLock = true
  | .lockWflag | .setUnique => th.txn = none ∧ th.rw = .writing ∧ th.status.canLock = true
  | .readLock => th.txn = none ∧
    (th.rw = .idle ∨ th.rw = .readLoad ∨ th.rw = .readAdd ∨ th.rw = .readUndo) ∧
    th.status.canLock = true
  | .setShared => th.txn = none ∧ th.rw = .reading ∧ th.status.canLock = true
  | .csRead => th.Cs false fun tx => tx.readsC = false ∧ tx.bufC = none
  | .csWrite => th.Cs false fun tx => tx.readsC = true ∧ tx.bufC = none
  | .unlockEntry => th.Cs false fun tx => tx.readsC = true ∧ tx.bufC.isSome = true
  | .csLoad => th.Cs true fun tx => tx.readsC = false ∧ tx.bufC = none
  | .unlockSharedEntry => th.Cs true fun tx => tx.readsC = true ∧ tx.bufC = none
  | .writeUnlock => th.txn = none ∧ th.rw = .writing ∧ th.status = .lockedUnique
  | .released sh => th.txn = none ∧ th.rw = .idle ∧
    th.status = if sh then .lockedShared else .lockedUnique
  | .committed _ => th.txn = none ∧ th.rw = .idle ∧ th.status = .elided
  | .error => False

theorem Thread.holdsWflag_of_txn {th : Thread} {tx : Txn} (h : th.txn = some tx) :
    th.holdsWflag = false := by
  simp [Thread.holdsWflag, h]

/-- A live transaction belongs to the function it resumes at, restores a status a lock
may start from, and leaves the thread idle in the rwlock code. -/
theorem Thread.Ok.of_txn {th : Thread} {tx : Txn} (h : th.Ok) (htx : th.txn = some tx) :
    tx.saved.canLock = true ∧ th.rw = .idle ∧ th.pending = (!tx.shared).toNat ∧
      th.inReader = tx.shared := by
  unfold Thread.Ok at h
  cases hpc : th.pc <;> simp only [hpc, Thread.Cs] at h <;>
    simp_all [Thread.pending, Thread.inReader]

/-- A rolled-back thread keeps its shape, its count of increments and its reader
section. -/
theorem Thread.Ok.rollback {th : Thread} {tx : Txn} {c : Nat} (h : th.Ok)
    (htx : th.txn = some tx) (hr : th.ReadsOk c) (x : Nat) :
    (th.rollback tx x).Ok ∧ (th.rollback tx x).left = th.left ∧
      (th.rollback tx x).ReadsOk c := by
  obtain ⟨hs, hrw, hp, hin⟩ := h.of_txn htx
  refine ⟨by simp [Thread.rollback, Thread.Ok, hs, hrw],
    by rw [Thread.left, Thread.left, hp]; rfl, ⟨hr.log,
      fun hi => hr.opened (hin.trans (by simpa [Thread.rollback, Thread.inReader] using hi)),
      by simp [Thread.rollback, Thread.loaded]⟩⟩

/-- A thread is either untouched by a store or rolled back from a live transaction. -/
theorem Thread.abortOn_cases (th : Thread) (w : Option Store) (x : Nat) :
    th.abortOn w x = th ∨ ∃ tx, th.txn = some tx ∧ th.abortOn w x = th.rollback tx x := by
  unfold Thread.abortOn
  split
  · split
    · exact .inr ⟨_, ‹_›, rfl⟩
    · exact .inl rfl
  · exact .inl rfl

theorem Thread.holdsWflag_abortOn (th : Thread) (w : Option Store) (x : Nat) :
    (th.abortOn w x).holdsWflag = th.holdsWflag := by
  rcases th.abortOn_cases w x with h | ⟨tx, htx, h⟩ <;> rw [h]
  simp [Thread.holdsWflag, htx, Thread.rollback]

/-- Another thread's store keeps this thread's facts, for a counter that only grows. -/
theorem Thread.Ok.abortOn {th : Thread} {c c' : Nat} (h : th.Ok) (hr : th.ReadsOk c)
    (hc : c ≤ c') (w : Option Store) (x : Nat) :
    (th.abortOn w x).Ok ∧ (th.abortOn w x).left = th.left ∧ (th.abortOn w x).ReadsOk c' := by
  rcases th.abortOn_cases w x with he | ⟨tx, htx, he⟩ <;> rw [he]
  · exact ⟨h, rfl, LibTle.ReadsOk.mono hr hc⟩
  · obtain ⟨h1, h2, h3⟩ := h.rollback htx hr x
    exact ⟨h1, h2, LibTle.ReadsOk.mono h3 hc⟩

/-- A transaction that survives a store does not conflict with it, and its thread is
untouched. -/
theorem Thread.abortOn_of_txn {th : Thread} {w : Option Store} {x : Nat} {tx : Txn}
    (h : (th.abortOn w x).txn = some tx) :
    th.abortOn w x = th ∧ th.txn = some tx ∧ ∀ v, w = some v → tx.conflicts v = false := by
  unfold Thread.abortOn at *
  split at *
  · split at * <;> simp_all [Thread.rollback]
  · simp_all

/-! ## The invariant -/

section Invariant

variable {total : Nat} {s : State N} {t : Fin N} {th : Thread} {w : Option Store}
  {x : Fin N → Nat}

@[simp] theorem State.apply_th_self : (s.apply t th w x).th t = th := by simp [State.apply]

theorem State.apply_th_ne {u : Fin N} (h : u ≠ t) :
    (s.apply t th w x).th u = (s.th u).abortOn w (x u) := by simp [State.apply, h]

@[simp] theorem State.apply_state : (s.apply t th w x).state = Store.newState w s.state := rfl
@[simp] theorem State.apply_wflag : (s.apply t th w x).wflag = Store.newWflag w s.wflag := rfl
@[simp] theorem State.apply_c : (s.apply t th w x).c = Store.newC w s.c := rfl

/-- The invariant of every reachable state, with `total` writer sections in all: the
shape of every thread; `wflag` counts its holders, at most one; a transaction that read
`state` or `wflag` saw it free; `c` plus the increments still to come is `total`; a writer
section's register holds the current `c` when it stores; and the reader sections read in
range. -/
structure Inv (total : Nat) (s : State N) : Prop where
  ok : ∀ t, (s.th t).Ok
  wflag : s.wflag = count Thread.holdsWflag s.th
  wflag_le : s.wflag ≤ 1
  sub_state : ∀ t tx, (s.th t).txn = some tx → tx.readsState = true → s.state = 0
  sub_wflag : ∀ t tx, (s.th t).txn = some tx → tx.readsWflag = true → s.wflag = 0
  sum : s.c + ∑ t, (s.th t).left = total
  holder_v : ∀ t, (s.th t).txn = none → (s.th t).pc = .csWrite → (s.th t).v = s.c
  txn_c : ∀ t tx, (s.th t).txn = some tx → tx.readsC = true →
    ((s.th t).pc = .csWrite → (s.th t).v = s.c) ∧
    (tx.bufC.isSome = true → tx.bufC = some (s.c + 1))
  reads : ∀ t, (s.th t).ReadsOk s.c

/-- A step of thread `t` keeps the invariant if it does so at `t` and `c` does not go
down; what the step's store does to the other threads is dealt with here, once. -/
theorem Inv.apply (h : Inv total s) (hok : th.Ok)
    (hwf : (s.apply t th w x).wflag + ((s.th t).holdsWflag.toNat : Int) =
      s.wflag + th.holdsWflag.toNat)
    (hwle : (s.apply t th w x).wflag ≤ 1)
    (hsubS : ∀ tx, th.txn = some tx → tx.readsState = true → (s.apply t th w x).state = 0)
    (hsubW : ∀ tx, th.txn = some tx → tx.readsWflag = true → (s.apply t th w x).wflag = 0)
    (hsum : (s.apply t th w x).c + th.left = s.c + (s.th t).left)
    (hmono : s.c ≤ (s.apply t th w x).c)
    (hv : th.txn = none → th.pc = .csWrite → th.v = (s.apply t th w x).c)
    (hc : ∀ tx, th.txn = some tx → tx.readsC = true →
      (th.pc = .csWrite → th.v = (s.apply t th w x).c) ∧
      (tx.bufC.isSome = true → tx.bufC = some ((s.apply t th w x).c + 1)))
    (hown : (s.apply t th w x).c ≠ s.c → ∀ u, u ≠ t → (s.th u).txn = none →
      (s.th u).pc ≠ .csWrite)
    (hreads : th.ReadsOk (s.apply t th w x).c) :
    Inv total (s.apply t th w x) where
  ok u := by
    rcases eq_or_ne u t with rfl | hu
    · simpa using hok
    · rw [State.apply_th_ne hu]; exact ((h.ok u).abortOn (h.reads u) hmono w (x u)).1
  wflag := by
    have hc := count_add_of_eq_off (p := Thread.holdsWflag) (f := s.th)
      (g := (s.apply t th w x).th) t fun u hu => by
        rw [State.apply_th_ne hu, Thread.holdsWflag_abortOn]
    rw [State.apply_th_self] at hc
    have := h.wflag
    omega
  wflag_le := hwle
  sub_state u tx htx hr := by
    rcases eq_or_ne u t with rfl | hu
    · exact hsubS tx (by simpa using htx) hr
    rw [State.apply_th_ne hu] at htx
    obtain ⟨-, hold, hno⟩ := Thread.abortOn_of_txn htx
    rcases w with _ | ⟨v⟩ | ⟨v⟩ | ⟨v⟩
    · exact h.sub_state u tx hold hr
    · simp [Txn.conflicts, hr] at hno
    all_goals exact h.sub_state u tx hold hr
  sub_wflag u tx htx hr := by
    rcases eq_or_ne u t with rfl | hu
    · exact hsubW tx (by simpa using htx) hr
    rw [State.apply_th_ne hu] at htx
    obtain ⟨-, hold, hno⟩ := Thread.abortOn_of_txn htx
    rcases w with _ | ⟨v⟩ | ⟨v⟩ | ⟨v⟩
    · exact h.sub_wflag u tx hold hr
    · exact h.sub_wflag u tx hold hr
    · simp [Txn.conflicts, hr] at hno
    · exact h.sub_wflag u tx hold hr
  sum := by
    have hs := sum_add_of_eq_off (f := fun u => (s.th u).left)
      (g := fun u => ((s.apply t th w x).th u).left) t fun u hu => by
        dsimp only; rw [State.apply_th_ne hu]
        exact ((h.ok u).abortOn (h.reads u) hmono w (x u)).2.1
    simp only [State.apply_th_self] at hs
    have := h.sum
    omega
  holder_v u htx hpc := by
    rcases eq_or_ne u t with rfl | hu
    · simpa using hv (by simpa using htx) (by simpa using hpc)
    rw [State.apply_th_ne hu] at htx hpc ⊢
    rcases (s.th u).abortOn_cases w (x u) with he | ⟨tx, -, he⟩ <;> rw [he] at htx hpc ⊢
    · have hc : (s.apply t th w x).c = s.c := by_contra fun hne => hown hne u hu htx hpc
      rw [hc]; exact h.holder_v u htx hpc
    · simp [Thread.rollback] at hpc
  txn_c u tx htx hr := by
    rcases eq_or_ne u t with rfl | hu
    · simpa using hc tx (by simpa using htx) hr
    rw [State.apply_th_ne hu] at htx ⊢
    obtain ⟨he, hold, hno⟩ := Thread.abortOn_of_txn htx
    rw [he]
    have hcc : (s.apply t th w x).c = s.c := by
      rcases w with _ | ⟨v⟩ | ⟨v⟩ | ⟨v⟩
      · rfl
      · rfl
      · rfl
      · simp [Txn.conflicts, hr] at hno
    rw [hcc]; exact h.txn_c u tx hold hr
  reads u := by
    rcases eq_or_ne u t with rfl | hu
    · simpa using hreads
    · rw [State.apply_th_ne hu]; exact ((h.ok u).abortOn (h.reads u) hmono w (x u)).2.2

/-- A step that leaves the records of a thread alone keeps them in range, as the counter
goes from `c` to `c'`, if the open section it enters was open before and a load it shows
is in range. -/
theorem Thread.ReadsOk.of_open {th th' : Thread} {c c' : Nat} (h : th.ReadsOk c)
    (hreads : th'.reads = th.reads) (hlo : th'.lo = th.lo)
    (hin : th'.inReader = true → th.inReader = true)
    (hl : th'.loaded = true → th'.lo ≤ th'.v ∧ th'.v ≤ c) (hc : c ≤ c') :
    th'.ReadsOk c' := by
  rw [Thread.ReadsOk, hreads, hlo]
  exact (LibTle.ReadsOk.of_open h hin fun h' => hlo ▸ hl h').mono hc

/-- The end of a reader section records its load in range. -/
theorem Thread.ReadsOk.record {th th' : Thread} {c : Nat} (h : th.ReadsOk c)
    (hin : th.inReader = true) (hl : th.loaded = true)
    (hreads : th'.reads = (th.lo, th.v, c) :: th.reads) (hin' : th'.inReader = false)
    (hl' : th'.loaded = false) : th'.ReadsOk c := by
  unfold Thread.ReadsOk at *
  rw [hin, hl] at h
  rw [hreads, hin', hl']
  exact h.record _ _

/-- A step that stores nothing keeps the invariant if the thread keeps its facts. -/
theorem Inv.apply_none (h : Inv total s) (hok : th.Ok)
    (hwf : th.holdsWflag = (s.th t).holdsWflag)
    (hsubS : ∀ tx, th.txn = some tx → tx.readsState = true → s.state = 0)
    (hsubW : ∀ tx, th.txn = some tx → tx.readsWflag = true → s.wflag = 0)
    (hleft : th.left = (s.th t).left)
    (hv : th.txn = none → th.pc = .csWrite → th.v = s.c)
    (hc : ∀ tx, th.txn = some tx → tx.readsC = true →
      (th.pc = .csWrite → th.v = s.c) ∧ (tx.bufC.isSome = true → tx.bufC = some (s.c + 1)))
    (hreads : th.ReadsOk s.c) :
    Inv total (s.apply t th none x) :=
  h.apply hok (by simp [hwf, Store.newWflag]) (by simpa [Store.newWflag] using h.wflag_le)
    (by simpa [Store.newState] using hsubS) (by simpa [Store.newWflag] using hsubW)
    (by simp [hleft, Store.newC]) (by simp [Store.newC]) (by simpa [Store.newC] using hv)
    (by simpa [Store.newC] using hc) (by simp [Store.newC]) (by simpa [Store.newC] using hreads)

/-- A step outside a transaction whose store, if any, leaves `wflag` and `c` alone keeps
the invariant if the thread keeps its hold on `wflag`, its count of increments and its
reader records. -/
theorem Inv.apply_local (h : Inv total s) (hok : th.Ok) (htx : th.txn = none)
    (hw : Store.newWflag w s.wflag = s.wflag) (hc : Store.newC w s.c = s.c)
    (hwf : th.holdsWflag = (s.th t).holdsWflag) (hleft : th.left = (s.th t).left)
    (hv : th.pc = .csWrite → th.v = s.c) (hreads : th.ReadsOk s.c) :
    Inv total (s.apply t th w x) :=
  h.apply hok (by rw [State.apply_wflag, hw, hwf])
    (by rw [State.apply_wflag, hw]; exact h.wflag_le) (by simp [htx]) (by simp [htx])
    (by rw [State.apply_c, hc, hleft]) (by rw [State.apply_c, hc])
    (fun _ hp => by rw [State.apply_c, hc]; exact hv hp) (by simp [htx])
    (fun hne => (hne (by rw [State.apply_c, hc])).elim)
    (by rw [State.apply_c, hc]; exact hreads)

theorem Thread.Ok.rw_of_holdsWflag {th : Thread} (h : th.Ok) (hw : th.holdsWflag = true) :
    th.rw = .writing := by
  unfold Thread.Ok at h
  cases hpc : th.pc <;> simp_all [Thread.holdsWflag, Thread.Cs]

/-- The fallback writer is the only one, and while it does not hold `wflag` nobody does. -/
theorem Inv.wflag_eq_zero (h : Inv total s) (hrw : RwInv s.rwlock) (ht : (s.th t).rw = .writing)
    (hnt : (s.th t).holdsWflag = false) : s.wflag = 0 := by
  have hw := h.wflag
  have : count Thread.holdsWflag s.th = 0 := count_eq_zero_iff.2 fun u => by
    cases hu : (s.th u).holdsWflag
    · rfl
    · have := hrw.writer_unique (t := u) (u := t) ((h.ok u).rw_of_holdsWflag hu) ht
      subst this; simp_all
  omega

theorem Inv.wflag_eq_one (h : Inv total s) (ht : (s.th t).holdsWflag = true) : s.wflag = 1 := by
  have hw := h.wflag
  have hle := h.wflag_le
  have := (count_pos_iff (p := Thread.holdsWflag) (f := s.th)).2 ⟨t, ht⟩
  omega

/-- A thread whose step stores to `wflag` holds the write lock. -/
theorem Inv.writing_of_step_wflag (h : Inv total s) {Rw Rr : Nat} {a : Act} {y : Nat}
    {th' : Thread} {v : Int}
    (hst : step isa Rw Rr nd s.state s.wflag s.c (s.th t) a y = some (th', some (.wflag v))) :
    (s.th t).rw = .writing := by
  have hok := h.ok t
  rcases step_wflag hst with ⟨hpc, -⟩ | ⟨hpc, hst', -⟩ <;>
    simp only [Thread.Ok, Thread.Cs, hpc] at hok
  · exact hok.2.1
  · rcases hok with ⟨-, hrw, -⟩ | ⟨-, -, -, -, -, -, hel, -⟩
    · exact hrw
    · rw [hst'] at hel; cases hel

/-- The hardware aborts thread `t`'s transaction. -/
theorem Inv.rollback (h : Inv total s) {tx : Txn} (htx : (s.th t).txn = some tx) (y : Nat) :
    Inv total (s.apply t ((s.th t).rollback tx y) none x) := by
  obtain ⟨h1, h2, h3⟩ := (h.ok t).rollback htx (h.reads t) y
  exact h.apply_none h1 (by rw [Thread.holdsWflag_of_txn htx]; rfl) (by simp [Thread.rollback])
    (by simp [Thread.rollback]) h2 (by simp [Thread.rollback]) (by simp [Thread.rollback]) h3

/-- A step of `htmSpinSharedMutexLock` (`lock` or `lock_shared`) keeps the invariant. -/
theorem Inv.lock {Rw Rr : Nat} {a : Act} (h : Inv total s) (hrw : RwInv s.rwlock)
    (hr : htmSpinSharedMutexLock isa Rw Rr nd s.state s.wflag (s.th t) a (x t) = some (th, w)) :
    Inv total (s.apply t th w x) := by
  have hok := h.ok t
  have hrd := h.reads t
  unfold htmSpinSharedMutexLock at hr
  cases a <;> cases hpc : (s.th t).pc <;>
    simp only [hpc, reduceCtorEq] at hr <;>
    simp only [Thread.Ok, hpc] at hok
  case run.lockEntry sh =>
    simp only [hok.2.2, Bool.or_true, if_true, Option.some.injEq, Prod.mk.injEq] at hr
    obtain ⟨rfl, rfl⟩ := hr
    exact h.apply_local hok hok.1 rfl rfl (by simp [Thread.holdsWflag, hpc])
      (by simp [Thread.left, Thread.pending, hpc]) nofun
      (hrd.of_open rfl rfl (by simp [Thread.inReader, hpc]) nofun le_rfl)
  case run.unlockWait sh =>
    split at hr <;> simp only [Option.some.injEq, Prod.mk.injEq, reduceCtorEq] at hr
    obtain ⟨rfl, rfl⟩ := hr
    exact h.apply_local hok hok.1 rfl rfl (by simp [Thread.holdsWflag, hpc])
      (by simp [Thread.left, Thread.pending, hpc]) nofun
      (hrd.of_open rfl rfl (by simp [Thread.inReader, hpc]) nofun le_rfl)
  case run.xbegin sh =>
    -- the transaction starts with empty read and write sets
    simp only [Option.some.injEq, Prod.mk.injEq] at hr
    obtain ⟨rfl, rfl⟩ := hr
    exact h.apply_none ⟨hok.2.1, hok.2.2, _, rfl, rfl, rfl, rfl, rfl, rfl, rfl⟩
      (by simp [Thread.holdsWflag, hpc]) (by rintro _ ⟨⟩ ⟨⟩) (by rintro _ ⟨⟩ ⟨⟩)
      (by simp [Thread.left, Thread.pending, hpc]) nofun (by rintro _ ⟨⟩ ⟨⟩)
      (hrd.of_open rfl rfl (by simp [Thread.inReader, hpc]) nofun le_rfl)
  case fail.xbegin sh =>
    -- `_xbegin` fails and returns the abort status
    simp only [Option.some.injEq, Prod.mk.injEq] at hr
    obtain ⟨rfl, rfl⟩ := hr
    exact h.apply_local hok hok.1 rfl rfl (by simp [Thread.holdsWflag, hpc])
      (by simp [Thread.left, Thread.pending, hpc]) nofun
      (hrd.of_open rfl rfl (by simp [Thread.inReader, hpc]) nofun le_rfl)
  case run.check sh =>
    -- the check aborts the transaction, or adds the word it read, free, to the read set
    obtain ⟨hrw0, hcan, tx, htx, hsh, hsv, hrs, hrwf, hrc, hbuf⟩ := hok
    rw [htx] at hr
    simp only [Option.map_some', Option.some.injEq] at hr
    cases sh <;> split at hr <;> simp only [Prod.mk.injEq] at hr <;> obtain ⟨rfl, rfl⟩ := hr
    · exact h.rollback htx _
    · rename_i hl
      exact h.apply_none (.inr ⟨_, rfl, hsh, hsv ▸ hcan, rfl, ⟨hrc, hbuf⟩, rfl, hrw0⟩)
        (by simp [Thread.holdsWflag, htx]) (fun _ _ _ => state_eq_zero_of_not_isLocked hl)
        (by rintro _ ⟨⟩ h'; simp [hrwf] at h') (by simp [Thread.left, Thread.pending, hpc])
        nofun (by rintro _ ⟨⟩ h'; simp [hrc] at h') (hrd.of_open rfl rfl nofun nofun le_rfl)
    · exact h.rollback htx _
    · rename_i hl
      exact h.apply_none (.inr ⟨_, rfl, hsh, hsv ▸ hcan, rfl, ⟨hrc, hbuf⟩, rfl, hrw0⟩)
        (by simp [Thread.holdsWflag, htx]) (by rintro _ ⟨⟩ h'; simp [hrs] at h')
        (fun _ _ _ => wflag_eq_zero_of_not_isLocked hl)
        (by simp [Thread.left, Thread.pending, hpc]) nofun
        (by rintro _ ⟨⟩ h'; simp [hrc] at h')
        (hrd.of_open rfl rfl (by simp [Thread.inReader, hpc]) nofun le_rfl)
  case run.aborted sh =>
    -- the retry waits again, or falls back to the lock of its own mode
    cases sh <;> simp only [Bool.false_eq_true, reduceIte, Option.some.injEq, Prod.mk.injEq]
      at hr <;> obtain ⟨rfl, rfl⟩ := hr <;> split_ifs <;>
      exact h.apply_local (by simp [Thread.Ok, hok]) hok.1 rfl rfl
        (by simp [Thread.holdsWflag, hpc]) (by simp [Thread.left, Thread.pending, hpc]) nofun
        (hrd.of_open rfl rfl (by simp [Thread.inReader, hpc]) nofun le_rfl)
  case run.writeLock =>
    -- `write_lock` moves on inside its own loop, and leaves it holding the lock
    simp only [Option.some.injEq, Prod.mk.injEq] at hr
    obtain ⟨rfl, rfl⟩ := hr
    have hnew := rwlockThreadStep_in_write_lock (w := s.state) hok.2.1
    split_ifs with hq <;>
      refine h.apply_local ?_ hok.1 (Store.newWflag_rwlockStep ..) (Store.newC_rwlockStep ..)
        (by simp [Thread.holdsWflag, hpc]) (by simp [Thread.left, Thread.pending, hpc]) nofun
        (hrd.of_open rfl rfl nofun nofun le_rfl)
    · exact ⟨hok.1, hq, hok.2.2⟩
    · exact ⟨hok.1, .inr (hnew.resolve_left hq), hok.2.2⟩
  case run.readLock =>
    -- `read_lock` moves on inside its own loop, and leaves it holding the lock shared
    simp only [Option.some.injEq, Prod.mk.injEq] at hr
    obtain ⟨rfl, rfl⟩ := hr
    have hnew := rwlockThreadStep_in_read_lock (w := s.state) hok.2.1
    split_ifs with hq <;>
      refine h.apply_local ?_ hok.1 (Store.newWflag_rwlockStep ..) (Store.newC_rwlockStep ..)
        (by simp [Thread.holdsWflag, hpc]) (by simp [Thread.left, Thread.pending, hpc]) nofun
        (hrd.of_open rfl rfl (fun _ => by simp [Thread.inReader, hpc]) nofun le_rfl)
    · exact ⟨hok.1, hq, hok.2.2⟩
    · exact ⟨hok.1, .inr (hnew.resolve_left hq), hok.2.2⟩
  case run.lockWflag =>
    -- nobody holds `wflag` while the fallback writer has not taken it
    simp only [Option.some.injEq, Prod.mk.injEq] at hr
    obtain ⟨rfl, rfl⟩ := hr
    have h0 := h.wflag_eq_zero hrw hok.2.1 (by simp [Thread.holdsWflag, hpc])
    exact h.apply hok
      (by simp [Store.newWflag, spinlockLockUncontended, Thread.holdsWflag, hpc, hok.1, h0])
      (by simp [Store.newWflag, spinlockLockUncontended]) (by simp [hok.1]) (by simp [hok.1])
      (by simp [Store.newC, Thread.left, Thread.pending, hpc]) le_rfl (fun _ => nofun)
      (by simp [hok.1]) (fun hne => (hne rfl).elim) (hrd.of_open rfl rfl nofun nofun le_rfl)
  case run.setUnique =>
    simp only [Option.some.injEq, Prod.mk.injEq] at hr
    obtain ⟨rfl, rfl⟩ := hr
    exact h.apply_local (.inl ⟨hok.1, hok.2.1, rfl⟩) hok.1 rfl rfl
      (by simp [Thread.holdsWflag, hpc]) (by simp [Thread.left, Thread.pending, hpc]) nofun
      (hrd.of_open rfl rfl nofun nofun le_rfl)
  case run.setShared =>
    simp only [Option.some.injEq, Prod.mk.injEq] at hr
    obtain ⟨rfl, rfl⟩ := hr
    exact h.apply_local (.inl ⟨hok.1, hok.2.1, rfl⟩) hok.1 rfl rfl
      (by simp [Thread.holdsWflag, hpc]) (by simp [Thread.left, Thread.pending, hpc]) nofun
      (hrd.of_open rfl rfl (fun _ => by simp [Thread.inReader, hpc]) nofun le_rfl)

/-- A step of `htmSpinSharedMutexUnlock` (`unlock` or `unlock_shared`) keeps the
invariant. -/
theorem Inv.unlock (h : Inv total s) (hrw : RwInv s.rwlock)
    (hr : htmSpinSharedMutexUnlock nd s.state s.c (s.th t) = some (th, w)) :
    Inv total (s.apply t th w x) := by
  have hok := h.ok t
  have hrd := h.reads t
  unfold htmSpinSharedMutexUnlock at hr
  cases hpc : (s.th t).pc <;> simp only [hpc, reduceCtorEq] at hr <;>
    simp only [Thread.Ok, hpc] at hok
  case unlockEntry =>
    obtain ⟨htx, hrw1, hst⟩ | ⟨tx, htx, hsh, hcan, hr1, ⟨hrc, hbuf⟩, hst, hrw1⟩ := hok <;>
      simp only [hst, Option.some.injEq, Prod.mk.injEq] at hr
    · -- the fallback writer releases `wflag`
      obtain ⟨rfl, rfl⟩ := hr
      have h1 := h.wflag_eq_one (t := t) (by simp [Thread.holdsWflag, htx, hpc])
      exact h.apply ⟨htx, hrw1, rfl⟩
        (by simp [Thread.holdsWflag, htx, hpc, h1, Store.newWflag, spinlockUnlock])
        (by simp [Store.newWflag, spinlockUnlock]) (by simp [htx]) (by simp [htx])
        (by simp [Store.newC, Thread.left, Thread.pending, hpc, htx]) le_rfl (fun _ => nofun)
        (by simp [htx]) (fun hne => (hne rfl).elim) (hrd.of_open rfl rfl nofun nofun le_rfl)
    · -- the commit publishes the buffered increment, which nobody else can be making
      have h0 := h.sub_state t tx htx (by simpa using hr1)
      have hb := (h.txn_c t tx htx hrc).2 hbuf
      simp only [xend, htx, hb, Option.map_some'] at hr
      obtain ⟨rfl, rfl⟩ := hr
      have hown : ∀ u, u ≠ t → (s.th u).txn = none → (s.th u).pc ≠ .csWrite := by
        intro u _ hux hup
        have hok' := h.ok u
        simp [Thread.Ok, hup, Thread.Cs, hux] at hok'
        exact hrw.word_ne_zero_of_writing (t := u) hok'.1 h0
      exact h.apply ⟨rfl, hrw1, hst⟩ (by simp [Thread.holdsWflag, htx, Store.newWflag])
        h.wflag_le (by simp) (by simp)
        (by simp [Store.newC, Thread.left, Thread.pending, hpc, htx]; omega)
        (by simp [Store.newC]) nofun (by simp) (fun _ => hown)
        (hrd.of_open rfl rfl nofun nofun (by simp [Store.newC]))
  case unlockSharedEntry =>
    have hl := hrd.loaded (by simp [Thread.loaded, hpc])
    obtain ⟨htx, hrw1, hst⟩ | ⟨tx, htx, hsh, hcan, hr1, ⟨hrc, hbuf⟩, hst, hrw1⟩ := hok <;>
      simp only [hst, Option.some.injEq, Prod.mk.injEq] at hr
    · -- the fallback reader leaves `read_lock`'s section
      obtain ⟨rfl, rfl⟩ := hr
      exact h.apply_local ⟨htx, by simp [rwlockThreadStep, hrw1], hst⟩ htx
        (Store.newWflag_rwlockStep ..) (Store.newC_rwlockStep ..)
        (by simp [Thread.holdsWflag, hpc]) (by simp [Thread.left, Thread.pending, hpc]) nofun
        (hrd.of_open rfl rfl (fun _ => by simp [Thread.inReader, hpc]) (fun _ => hl) le_rfl)
    · -- a read-only transaction commits and publishes nothing
      simp only [xend, htx, hbuf, Option.map_none'] at hr
      obtain ⟨rfl, rfl⟩ := hr
      exact h.apply_local ⟨rfl, hrw1, hst⟩ rfl rfl rfl
        (by simp [Thread.holdsWflag, htx]) (by simp [Thread.left, Thread.pending, hpc]) nofun
        (hrd.of_open rfl rfl (fun _ => by simp [Thread.inReader, hpc]) (fun _ => hl) le_rfl)
  case writeUnlock =>
    simp only [Option.some.injEq, Prod.mk.injEq] at hr
    obtain ⟨rfl, rfl⟩ := hr
    exact h.apply_local ⟨hok.1, by simp [rwlockThreadStep, hok.2.1], hok.2.2⟩ hok.1
      (Store.newWflag_rwlockStep ..) (Store.newC_rwlockStep ..)
      (by simp [Thread.holdsWflag, hpc]) (by simp [Thread.left, Thread.pending, hpc]) nofun
      (hrd.of_open rfl rfl nofun nofun le_rfl)
  case released sh | committed sh =>
    -- the section ends; a reader section records what it read
    simp only [Option.some.injEq, Prod.mk.injEq] at hr
    obtain ⟨rfl, rfl⟩ := hr
    cases sh
    · exact h.apply_local ⟨hok.1, hok.2.1, rfl⟩ hok.1 rfl rfl
        (by simp [Thread.holdsWflag, hpc]) (by simp [Thread.left, Thread.pending, hpc]) nofun
        (hrd.of_open rfl rfl nofun nofun le_rfl)
    · exact h.apply_local ⟨hok.1, hok.2.1, rfl⟩ hok.1 rfl rfl
        (by simp [Thread.holdsWflag, hpc]) (by simp [Thread.left, Thread.pending, hpc]) nofun
        (hrd.record (by simp [Thread.inReader, hpc]) (by simp [Thread.loaded, hpc]) rfl rfl
          rfl)

/-- One step keeps the invariant: the test program's own steps here, the four functions by
`Inv.lock` and `Inv.unlock`, and an abort by `Inv.rollback`. -/
theorem Inv.next {Rw Rr : Nat} {a : Act} {s' : State N} (h : Inv total s)
    (hrw : RwInv s.rwlock) (hs : next isa Rw Rr nd s t a x = some s') : Inv total s' := by
  obtain ⟨th, w, hr, rfl⟩ := next_eq_some hs
  clear hs
  have hok := h.ok t
  have hrd := h.reads t
  cases a
  case abort =>
    rw [step_abort] at hr
    cases htx : (s.th t).txn <;> simp only [htx, Option.map_none', Option.map_some',
      reduceCtorEq, Option.some.injEq, Prod.mk.injEq] at hr
    obtain ⟨rfl, rfl⟩ := hr
    exact h.rollback htx (x t)
  all_goals unfold step at hr
  all_goals cases hpc : (s.th t).pc <;> simp only [hpc] at hr
  case run.idle =>
    -- a writer section starts: one increment moves from `todo` to `pending`
    simp only [Thread.Ok, hpc] at hok
    split at hr <;> simp only [Option.some.injEq, Prod.mk.injEq, reduceCtorEq] at hr
    obtain ⟨rfl, rfl⟩ := hr
    exact h.apply_local hok hok.1 rfl rfl (by simp [Thread.holdsWflag, hpc])
      (by simp [Thread.left, Thread.pending, hpc]; omega) nofun
      (hrd.of_open rfl rfl nofun nofun le_rfl)
  case read.idle =>
    -- a reader section starts at the current value of `c`
    simp only [Thread.Ok, hpc] at hok
    simp only [Option.some.injEq, Prod.mk.injEq] at hr
    obtain ⟨rfl, rfl⟩ := hr
    exact h.apply_local hok hok.1 rfl rfl (by simp [Thread.holdsWflag, hpc])
      (by simp [Thread.left, Thread.pending, hpc]) nofun (LibTle.ReadsOk.start hrd _)
  case run.csRead =>
    -- the writer section loads `c`, or in a transaction adds it to the read set
    simp only [Thread.Ok, hpc] at hok
    simp only [Option.some.injEq, Prod.mk.injEq] at hr
    obtain ⟨rfl, rfl⟩ := hr
    obtain ⟨htx, hrw1, hst⟩ | ⟨tx, htx, hsh, hcan, hr1, ⟨hrc, hbuf⟩, hst, hrw1⟩ := hok
    · exact h.apply_local (.inl ⟨by simp [htx], hrw1, hst⟩) (by simp [htx]) rfl rfl
        (by simp [Thread.holdsWflag, hpc, htx]) (by simp [Thread.left, Thread.pending, hpc])
        (fun _ => by simp [htx]) (hrd.of_open rfl rfl nofun nofun le_rfl)
    · have h0 := h.sub_state t tx htx (by simpa using hr1)
      exact h.apply_none
        (.inr ⟨{ tx with readsC := true }, by simp [htx], hsh, hcan, hr1, ⟨rfl, hbuf⟩, hst,
          hrw1⟩)
        (by simp [Thread.holdsWflag, htx]) (fun _ _ _ => h0)
        (by simpa [htx] using h.sub_wflag t tx htx) (by simp [Thread.left, Thread.pending, hpc])
        (by simp [htx]) (by simp [htx, hbuf]) (hrd.of_open rfl rfl nofun nofun le_rfl)
  case run.csWrite =>
    -- the writer section's store: to `c` on the fallback path, or to the buffer
    simp only [Thread.Ok, hpc] at hok
    obtain ⟨htx, hrw1, hst⟩ | ⟨tx, htx, hsh, hcan, hr1, ⟨hrc, hbuf⟩, hst, hrw1⟩ := hok <;>
      simp only [htx, Option.some.injEq, Prod.mk.injEq] at hr <;> obtain ⟨rfl, rfl⟩ := hr
    · have hv := h.holder_v t htx hpc
      have hown : ∀ u, u ≠ t → (s.th u).txn = none → (s.th u).pc ≠ .csWrite := by
        intro u hu hux hup
        have hok' := h.ok u
        simp [Thread.Ok, hup, Thread.Cs, hux] at hok'
        exact hu (hrw.writer_unique (t := u) (u := t) hok'.1 hrw1)
      exact h.apply (.inl ⟨rfl, hrw1, hst⟩)
        (by simp [Thread.holdsWflag, hpc, htx, Store.newWflag]) h.wflag_le (by simp) (by simp)
        (by simp [Store.newC, Thread.left, Thread.pending, hpc, hv]; omega)
        (by simp [Store.newC, hv]) (fun _ => nofun) (by simp) (fun _ => hown)
        (hrd.of_open rfl rfl nofun nofun (by simp [Store.newC, hv]))
    · have hv := (h.txn_c t tx htx hrc).1 hpc
      have h0 := h.sub_state t tx htx (by simpa using hr1)
      exact h.apply_none (.inr ⟨_, rfl, hsh, hcan, hr1, ⟨hrc, rfl⟩, hst, hrw1⟩)
        (by simp [Thread.holdsWflag, htx]) (fun _ _ _ => h0)
        (by rintro _ ⟨⟩; exact h.sub_wflag t tx htx)
        (by simp [Thread.left, Thread.pending, hpc, htx]) nofun
        (by rintro _ ⟨⟩ -; exact ⟨nofun, fun _ => by rw [hv]⟩)
        (hrd.of_open rfl rfl nofun nofun le_rfl)
  case run.csLoad =>
    -- the reader section loads `c`, which is in its range
    simp only [Thread.Ok, hpc] at hok
    simp only [Option.some.injEq, Prod.mk.injEq] at hr
    obtain ⟨rfl, rfl⟩ := hr
    have hlo := (hrd.opened (by simp [Thread.inReader, hpc])).2
    obtain ⟨htx, hrw1, hst⟩ | ⟨tx, htx, hsh, hcan, hr1, ⟨hrc, hbuf⟩, hst, hrw1⟩ := hok
    · exact h.apply_local (.inl ⟨by simp [htx], hrw1, hst⟩) (by simp [htx]) rfl rfl
        (by simp [Thread.holdsWflag, hpc]) (by simp [Thread.left, Thread.pending, hpc]) nofun
        (hrd.of_open rfl rfl (fun _ => by simp [Thread.inReader, hpc])
          (fun _ => ⟨hlo, le_rfl⟩) le_rfl)
    · have h0 := h.sub_wflag t tx htx (by simpa using hr1)
      exact h.apply_none
        (.inr ⟨{ tx with readsC := true }, by simp [htx], hsh, hcan, hr1, ⟨rfl, hbuf⟩, hst,
          hrw1⟩)
        (by simp [Thread.holdsWflag, htx]) (by simpa [htx] using h.sub_state t tx htx)
        (fun _ _ _ => h0) (by simp [Thread.left, Thread.pending, hpc]) (by simp [htx])
        (by simp [htx, hbuf])
        (hrd.of_open rfl rfl (fun _ => by simp [Thread.inReader, hpc])
          (fun _ => ⟨hlo, le_rfl⟩) le_rfl)
  case run.unlockEntry | run.unlockSharedEntry | run.writeUnlock | run.released | run.committed =>
    exact h.unlock hrw hr
  all_goals exact h.lock hrw hr

theorem Inv.init (N K : Nat) (p : Option HtmMutexProfile) : Inv (N * K) (init N K p) where
  ok _ := by simp [HtmSpinSharedMutex.init, Thread.Ok, MutexStatus.canLock_iff]
  wflag := by simp [HtmSpinSharedMutex.init, count, Thread.holdsWflag, spinlockInit]
  wflag_le := by simp [HtmSpinSharedMutex.init, spinlockInit]
  sub_state := by simp [HtmSpinSharedMutex.init]
  sub_wflag := by simp [HtmSpinSharedMutex.init]
  sum := by simp [HtmSpinSharedMutex.init, Thread.left, Thread.pending, mul_comm]
  holder_v := by simp [HtmSpinSharedMutex.init]
  txn_c := by simp [HtmSpinSharedMutex.init]
  reads _ := ⟨ReadLog.nil 0, by simp [HtmSpinSharedMutex.init, Thread.inReader],
    by simp [HtmSpinSharedMutex.init, Thread.loaded]⟩

theorem Reachable.inv {Rw Rr K : Nat} {p : Option HtmMutexProfile}
    (hs : Reachable isa Rw Rr nd K p s) : Inv (N * K) s := by
  induction hs with
  | init => exact Inv.init N K p
  | step _ _ _ hs' hn ih => exact ih.next hs'.rwlock.inv hn

end Invariant

/-! ## Exclusion -/

/-- Runs a schedule: each entry names the thread, what it does and the abort statuses. -/
def execute (isa : HtmIsa) (Rw Rr : Nat) (nd : Bool) :
    List (Fin N × Act × (Fin N → Nat)) → State N → Option (State N)
  | [], s => some s
  | (t, a, x) :: l, s => (next isa Rw Rr nd s t a x).bind (execute isa Rw Rr nd l)

theorem Reachable.execute {Rw Rr K : Nat} {p : Option HtmMutexProfile} {s s' : State N} :
    ∀ {l : List (Fin N × Act × (Fin N → Nat))}, Reachable isa Rw Rr nd K p s →
      execute isa Rw Rr nd l s = some s' →
      Reachable isa Rw Rr nd K p s'
  | [], hs, h => by cases h; exact hs
  | (t, a, x) :: l, hs, h => by
    simp only [HtmSpinSharedMutex.execute, Option.bind_eq_some] at h
    obtain ⟨s₁, h₁, h₂⟩ := h
    exact Reachable.execute (hs.step t a x h₁) h₂

/-- A schedule that runs to its end from the initial state reaches the state it ends in. -/
theorem Reachable.execute_getD {Rw Rr K : Nat} {p : Option HtmMutexProfile}
    {l : List (Fin N × Act × (Fin N → Nat))}
    (h : (HtmSpinSharedMutex.execute isa Rw Rr nd l (HtmSpinSharedMutex.init N K p)).isSome) :
    Reachable isa Rw Rr nd K p ((HtmSpinSharedMutex.execute isa Rw Rr nd l
      (HtmSpinSharedMutex.init N K p)).getD (HtmSpinSharedMutex.init N K p)) := by
  obtain ⟨s, hs⟩ := Option.isSome_iff_exists.1 h
  rw [hs]
  exact Reachable.init.execute hs

/-- A fallback writer that has released `wflag` still holds `state`, with its handle
`LOCKED_UNIQUE`, while a reader elides: thread 0 fails its `_xbegin`, takes the fallback,
runs its section and clears `wflag`; thread 1 then passes `unlock_wait(&wflag)`, starts a
transaction and passes its check of `wflag`. -/
theorem htm_spin_shared_mutex_reader_elides_in_writer_window :
    ∃ s : State 2, Reachable .tme 10 10 false 1 none s ∧
      (s.th 0).status = .lockedUnique ∧ (s.th 0).rw = .writing ∧
      (s.th 1).status = .elided ∧ (s.th 1).pc = .csLoad ∧ (s.th 1).txn.isSome = true :=
  ⟨_, Reachable.execute (l := [(0, .run, 1), (0, .run, 1), (0, .run, 1), (0, .fail, 1),
      (0, .run, 1), (0, .run, 1), (0, .run, 1), (0, .run, 1), (0, .run, 1), (0, .run, 1),
      (0, .run, 1), (0, .run, 1), (0, .run, 1), (1, .read, 1), (1, .run, 1), (1, .run, 1),
      (1, .run, 1), (1, .run, 1)]) .init rfl, by decide⟩

section Results

variable {Rw Rr K : Nat} {p : Option HtmMutexProfile} {s : State N}

/-- In a writer section a thread holds the write lock with status `LOCKED_UNIQUE`, or is
in a transaction past its check of `state` with status `ELIDED`; in a reader section it
holds a read lock with status `LOCKED_SHARED`, or is past its check of `wflag`. -/
theorem Thread.Ok.section {th : Thread} (h : th.Ok) :
    (th.pc = .csRead ∨ th.pc = .csWrite ∨ th.pc = .unlockEntry →
      (th.status = .lockedUnique ↔ th.rw = .writing) ∧
      (th.status = .elided ↔ ∃ tx, th.txn = some tx ∧ tx.readsState = true)) ∧
    (th.pc = .csLoad ∨ th.pc = .unlockSharedEntry →
      (th.status = .lockedShared ↔ th.rw = .reading) ∧
      (th.status = .elided ↔ ∃ tx, th.txn = some tx ∧ tx.readsWflag = true)) := by
  unfold Thread.Ok at h
  constructor
  · rintro (hpc | hpc | hpc) <;> simp only [hpc, Thread.Cs] at h <;>
      rcases h with ⟨htx, hrw, hst⟩ | ⟨tx, htx, -, -, hr, -, hst, hrw⟩ <;> simp_all
  · rintro (hpc | hpc) <;> simp only [hpc, Thread.Cs] at h <;>
      rcases h with ⟨htx, hrw, hst⟩ | ⟨tx, htx, -, -, hr, -, hst, hrw⟩ <;> simp_all

/-- Exclusion for at most `2^30` threads. A thread holding the write lock on `state`
excludes any other holder of it or of a read lock, and any transaction past its check of
`state`; while it also holds `wflag` it excludes any transaction past its check of
`wflag`. A thread holding a read lock excludes any transaction past its check of `state`.
In a section the handle status says which of these the thread is. -/
theorem htm_spin_shared_mutex_exclusion (hN : N ≤ 2 ^ 30) (hs : Reachable isa Rw Rr nd K p s) :
    (∀ t u, t ≠ u → (s.th t).rw = .writing →
      (s.th u).rw ≠ .writing ∧ (s.th u).rw ≠ .reading ∧
      (∀ tx, (s.th u).txn = some tx → tx.readsState = false) ∧
      ((s.th t).holdsWflag = true → ∀ tx, (s.th u).txn = some tx → tx.readsWflag = false)) ∧
    (∀ t u, (s.th t).rw = .reading → ∀ tx, (s.th u).txn = some tx → tx.readsState = false) ∧
    (∀ t, (s.th t).pc = .csRead ∨ (s.th t).pc = .csWrite ∨ (s.th t).pc = .unlockEntry →
      ((s.th t).status = .lockedUnique ↔ (s.th t).rw = .writing) ∧
      ((s.th t).status = .elided ↔ ∃ tx, (s.th t).txn = some tx ∧ tx.readsState = true)) ∧
    (∀ t, (s.th t).pc = .csLoad ∨ (s.th t).pc = .unlockSharedEntry →
      ((s.th t).status = .lockedShared ↔ (s.th t).rw = .reading) ∧
      ((s.th t).status = .elided ↔ ∃ tx, (s.th t).txn = some tx ∧ tx.readsWflag = true)) := by
  have h := hs.inv
  have hrw := hs.rwlock.inv
  refine ⟨fun t u htu ht => ⟨fun hu => htu (hrw.writer_unique ht hu), hs.rwlock.excl hN t u ht,
    fun tx htx => ?_, fun hw tx htx => ?_⟩, fun t u ht tx htx => ?_,
    fun t => ((h.ok t).section).1, fun t => ((h.ok t).section).2⟩
  · cases hr : tx.readsState
    · rfl
    · exact absurd (h.sub_state u tx htx hr) (hrw.word_ne_zero_of_writing (t := t) ht)
  · cases hr : tx.readsWflag
    · rfl
    · have := h.sub_wflag u tx htx hr
      have := h.wflag_eq_one hw
      omega
  · cases hr : tx.readsState
    · rfl
    · have hu : (s.th u).rw = .idle := ((h.ok u).of_txn htx).2.1
      exact absurd (h.sub_state u tx htx hr)
        (hrw.word_ne_zero_of_reading hN (t := t) (u := u) ht (by simp [State.rwlock, hu,
          RwPc.isReader]))

/-- The writer flag is written uncontended, for any number of threads. While `wflag` is set,
its holder holds the write lock on `state`, which no other thread holds. Only two steps store
to `wflag`, `lock_uncontended` and the `LOCKED_UNIQUE` branch of `unlock`, each by a thread
holding the write lock. A thread about to run `lock_uncontended` finds `wflag` clear, and no
other thread's next step stores to it. -/
theorem htm_spin_shared_mutex_wflag_uncontended (hs : Reachable isa Rw Rr nd K p s) :
    (s.wflag ≠ 0 → ∃ u, (s.th u).holdsWflag = true ∧ (s.th u).rw = .writing ∧
      ∀ v, (s.th v).rw = .writing → v = u) ∧
    (∀ t a x th' v, step isa Rw Rr nd s.state s.wflag s.c (s.th t) a x = some (th', some (.wflag v)) →
      (s.th t).rw = .writing ∧
        ((s.th t).pc = .lockWflag ∧ v = spinlockLockUncontended .aarch64 ∨
          (s.th t).pc = .unlockEntry ∧ (s.th t).status = .lockedUnique ∧
            v = spinlockUnlock .aarch64)) ∧
    (∀ t, (s.th t).pc = .lockWflag → s.wflag = 0 ∧
      ∀ u, u ≠ t → ∀ a x th' v,
        step isa Rw Rr nd s.state s.wflag s.c (s.th u) a x ≠ some (th', some (.wflag v))) := by
  have h := hs.inv
  have hrw := hs.rwlock.inv
  refine ⟨fun hne => ?_, fun t a x th' v hst => ⟨h.writing_of_step_wflag hst, step_wflag hst⟩,
    fun t hpc => ?_⟩
  · -- `wflag` counts its holders, and a holder is the one writer
    have hw := h.wflag
    obtain ⟨u, hu⟩ := (count_pos_iff (p := Thread.holdsWflag) (f := s.th)).1 (by omega)
    have hwu := (h.ok u).rw_of_holdsWflag hu
    exact ⟨u, hu, hwu, fun v hv => hrw.writer_unique hv hwu⟩
  · -- the thread at `lockWflag` is the one writer and does not hold `wflag` yet
    have hwt : (s.th t).rw = .writing := by
      have hok := h.ok t
      simp only [Thread.Ok, hpc] at hok
      exact hok.2.1
    exact ⟨h.wflag_eq_zero hrw hwt (by simp [Thread.holdsWflag, hpc]),
      fun u hu a x th' v hst => hu (hrw.writer_unique (h.writing_of_step_wflag hst) hwt)⟩

/-- `c` goes up by `0` or `1` at each step, so it takes every value between two of its
values. -/
theorem Inv.c_step (h : Inv total s) {t : Fin N} {a : Act} {x : Fin N → Nat}
    {s' : State N} (hs : HtmSpinSharedMutex.next isa Rw Rr nd s t a x = some s') :
    s.c ≤ s'.c ∧ s'.c ≤ s.c + 1 := by
  obtain ⟨th, w, hr, rfl⟩ := next_eq_some hs
  rcases step_newC hr with hc | ⟨htx, hpc, hc⟩ | ⟨tx, htx, rfl⟩
  · simp [hc]
  · simp [hc, h.holder_v t htx hpc]
  · cases hb : tx.bufC with
    | none => simp [Store.newC]
    | some v =>
      have hrc : tx.readsC = true := by
        have hok := h.ok t
        unfold Thread.Ok at hok
        cases hpc : (s.th t).pc <;> simp only [hpc, Thread.Cs] at hok <;> simp_all
      have := (h.txn_c t tx htx hrc).2 (by simp [hb])
      simp only [hb, Option.some.injEq] at this
      simp [Store.newC, this]

/-- Once every thread has run its `K` writer sections and is idle, `c = N * K`. -/
theorem Reachable.c_eq_of_done (hs : Reachable isa Rw Rr nd K p s)
    (hdone : ∀ t, (s.th t).pc = .idle ∧ (s.th t).todo = 0) : s.c = N * K := by
  have h := hs.inv.sum
  simp [Thread.left, Thread.pending, hdone] at h
  exact h

/-- Every thread's closed reader sections read `c` in range. -/
theorem Reachable.readLog (hs : Reachable isa Rw Rr nd K p s) (t : Fin N) :
    ReadLog (s.th t).reads s.c :=
  LibTle.ReadsOk.log (hs.inv.reads t)

end Results

end HtmSpinSharedMutex
end LibTle
