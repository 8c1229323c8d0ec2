import LibTle.Htm
import LibTle.Rwlock
import LibTle.Spinlock

/-!
# One thread, many handles: nested elision

One thread holds `H` handles, each on one of `M` mutexes, each mutex a debug-build
`libtle_htm_spin_mutex_t` or a `libtle_htm_spin_shared_mutex_t`, built on RTM or TME. The
thread calls lock and unlock on its handles in any order, each handle alternating `lock`
with `unlock` or `lock_shared` with `unlock_shared`. Both extensions nest transactions
flatly: an `_xbegin` inside a transaction goes one level deeper and returns
`_XBEGIN_STARTED`, `_xend` ends one level and only the outermost commits, and an abort at
any depth rolls memory, registers and position back to the outermost `_xbegin`, which then
returns a status other than `_XBEGIN_STARTED`. The shared mutexes take their rwlock
through the portable loops of `rwlock.h`.

* `Mem`: the lock words, the handle statuses and the profiles, all rolled back by an
  abort; `Regs`: the position, `num_retries`, `xstatus`, the position in the rwlock's
  loops, and which handles the program has locked.
* `htmMutexLock` and `htmMutexUnlock`: the lock and unlock functions of both mutexes, one
  access to a lock word per step. A handle-status store is merged into the step before it:
  the thread is alone, so no other step can come in between, and an abort in between rolls
  it back together with that step.
* `Inv`: the lock words are what the statuses of the handles on each mutex say, and the
  transaction depth is the number of `ELIDED` handles; the checkpoint satisfies the same at
  depth `0`.
-/

namespace LibTle
namespace Nesting

/-! ## The system -/

/-- The kind of a mutex: `libtle_htm_spin_mutex_t` or `libtle_htm_spin_shared_mutex_t`. -/
inductive Kind
  | spin
  | shared
  deriving DecidableEq, Repr

/-- The mutex each handle is on, the kind of each mutex, the retry limits
`LIBTLE_HTM_SPIN_MUTEX_RETRY_LIMIT`, `LIBTLE_HTM_SPIN_SHARED_MUTEX_WRITE_RETRY_LIMIT` and
`LIBTLE_HTM_SPIN_SHARED_MUTEX_READ_RETRY_LIMIT`, and the HTM extension of the build. -/
structure Setup (H M : Nat) where
  mtx : Fin H → Fin M
  kind : Fin M → Kind
  R : Nat
  Rw : Nat
  Rr : Nat
  isa : HtmIsa

/-- Where the thread is; `i` is the handle, `sh` tells `lock_shared` and `unlock_shared`
from `lock` and `unlock`. -/
inductive Pc (H : Nat)
  /-- between two calls -/
  | idle
  /-- `assert(st->status <= LIBTLE_MUTEX_STATUS_UNLOCKED)`, `num_retries = 0` -/
  | lockEntry (i : Fin H) (sh : Bool)
  /-- `unlock_wait` on the lock word, then `_xbegin()` -/
  | unlockWait (i : Fin H) (sh : Bool)
  /-- in the transaction: the `is_locked` check, then `st->status = ELIDED` -/
  | check (i : Fin H) (sh : Bool)
  /-- `_xbegin()` returned another status: `++num_retries`, the profile, the loop test -/
  | aborted (i : Fin H) (sh : Bool)
  /-- the fallback lock: `libtle_spinlock_lock`, `libtle_rwlock_write_lock` or
  `libtle_rwlock_read_lock`, then the status -/
  | fallback (i : Fin H) (sh : Bool)
  /-- `libtle_spinlock_lock_uncontended(&mtx->wflag)`, then `LOCKED_UNIQUE` -/
  | lockWflag (i : Fin H)
  /-- `switch (st->status)` -/
  | unlockEntry (i : Fin H) (sh : Bool)
  /-- `_xend()` -/
  | xend (i : Fin H)
  /-- `if (p && !_xtest()) libtle_htm_mutex_profile_update_commit(p)`, then `UNLOCKED` -/
  | committed (i : Fin H)
  /-- the release of the fallback lock (of `wflag` first, for the write lock), the profile,
  then `UNLOCKED` -/
  | release (i : Fin H) (sh : Bool)
  /-- `libtle_rwlock_write_unlock(&mtx->state)`, the profile, then `UNLOCKED` -/
  | releaseState (i : Fin H)
  /-- a failed assertion, or `_xend` outside a transaction -/
  | error
  deriving DecidableEq, Repr

/-- The thread's registers and position, which an abort restores. `opened i` is
`some sh` while the program has locked handle `i` (shared when `sh`). -/
structure Regs (H : Nat) where
  pc : Pc H
  retries : Nat
  xstatus : Nat
  rw : RwPc
  opened : Fin H → Option Bool

/-- The memory an abort rolls back: the spinlock `state` of each `htm_spin_mutex`, the
rwlock `state` and the spinlock `wflag` of each `htm_spin_shared_mutex`, the handle
statuses, and the profile each handle's calls pass (`none` for `NULL`). -/
structure Mem (H M : Nat) where
  spinState : Fin M → Int
  rwState : Fin M → Nat
  wflag : Fin M → Int
  status : Fin H → MutexStatus
  prof : Fin H → Option HtmMutexProfile

/-- Memory, registers, the transaction depth `_xtest()` returns, and the checkpoint of the
outermost `_xbegin`. -/
structure State (H M : Nat) where
  mem : Mem H M
  regs : Regs H
  depth : Nat
  ckpt : Option (Mem H M × Regs H)

variable {H M : Nat}

/-- `is_locked` of the word handle `i` waits on and checks: the spinlock `state`, the
rwlock `state` for `lock` of a shared mutex, its `wflag` for `lock_shared`. -/
def Setup.isLocked (c : Setup H M) (mem : Mem H M) (i : Fin H) (sh : Bool) : Bool :=
  match c.kind (c.mtx i), sh with
  | .spin, _ => spinlockIsLocked .aarch64 (mem.spinState (c.mtx i))
  | .shared, false => rwlockIsLocked (mem.rwState (c.mtx i))
  | .shared, true => spinlockIsLocked .aarch64 (mem.wflag (c.mtx i))

/-- The retry limit of the loop of handle `i`. -/
def Setup.limit (c : Setup H M) (i : Fin H) (sh : Bool) : Nat :=
  match c.kind (c.mtx i), sh with
  | .spin, _ => c.R
  | .shared, false => c.Rw
  | .shared, true => c.Rr

namespace Mem

def setStatus (mem : Mem H M) (i : Fin H) (st : MutexStatus) : Mem H M :=
  { mem with status := Function.update mem.status i st }

/-- `if (p) f(p)` on handle `i`'s profile. -/
def updateProf (mem : Mem H M) (i : Fin H) (f : HtmMutexProfile → HtmMutexProfile) : Mem H M :=
  { mem with prof := Function.update mem.prof i ((mem.prof i).map f) }

end Mem

namespace State

def goto (s : State H M) (pc : Pc H) : State H M := { s with regs := { s.regs with pc := pc } }

/-- Return from a lock (`some sh`) or an unlock (`none`) of handle `i` with its status. -/
def finish (s : State H M) (i : Fin H) (st : MutexStatus) (o : Option Bool) : State H M :=
  ⟨s.mem.setStatus i st,
    { s.regs with pc := .idle, rw := .idle, opened := Function.update s.regs.opened i o },
    s.depth, s.ckpt⟩

/-- `_xbegin` starting a transaction one level deeper; the outermost one saves memory and
registers, to resume at `ret`. -/
def xbegin (s : State H M) (ret : Pc H) : State H M :=
  { s with
    depth := s.depth + 1
    ckpt := if s.depth = 0 then some (s.mem, { s.regs with pc := ret }) else s.ckpt }

/-- An abort with status `x`: memory and registers go back to the checkpoint, where
`_xbegin` returns `x`. -/
def abort (s : State H M) (x : Nat) : Option (State H M) :=
  s.ckpt.map fun p => ⟨p.1, { p.2 with xstatus := x }, 0, none⟩

end State

/-- One step of `libtle_htm_spin_mutex_lock` (debug build), `libtle_htm_spin_shared_mutex_lock`
or `libtle_htm_spin_shared_mutex_lock_shared`. -/
def htmMutexLock (c : Setup H M) (s : State H M) : Option (State H M) :=
  match s.regs.pc with
  | .lockEntry i sh =>
    some (if (s.mem.status i).canLock then
      { s with regs := { s.regs with pc := .unlockWait i sh, retries := 0 } } else s.goto .error)
  | .unlockWait i sh =>
    if c.isLocked s.mem i sh then none else some ((s.xbegin (.aborted i sh)).goto (.check i sh))
  | .check i sh =>
    if c.isLocked s.mem i sh then s.abort (xabortStatus c.isa (lockIsLockedCode c.isa) s.depth)
    else some (s.finish i .elided (some sh))
  | .aborted i sh =>
    let n := s.regs.retries + 1
    some { s with
      mem := s.mem.updateProf i (·.updateAbort c.isa s.regs.xstatus)
      regs := { s.regs with
        retries := n
        pc := if xbeginRestart c.isa s.regs.xstatus && n < c.limit i sh then .unlockWait i sh
          else .fallback i sh } }
  | .fallback i sh =>
    let m := c.mtx i
    match c.kind m, sh with
    | .spin, _ =>
      if s.mem.spinState m = 0 then
        some (({ s with mem := { s.mem with spinState := Function.update s.mem.spinState m 1 } }
          ).finish i .lockedUnique (some false))
      else none
    | .shared, false =>
      let r := rwlockThreadStep (s.mem.rwState m) false s.regs.rw
      some { s with
        mem := { s.mem with rwState := Function.update s.mem.rwState m r.1 }
        regs := { s.regs with rw := r.2, pc := if r.2 = .writing then .lockWflag i else .fallback i sh } }
    | .shared, true =>
      let r := rwlockThreadStep (s.mem.rwState m) true s.regs.rw
      let s' := { s with
        mem := { s.mem with rwState := Function.update s.mem.rwState m r.1 }
        regs := { s.regs with rw := r.2 } }
      some (if r.2 = .reading then s'.finish i .lockedShared (some true) else s')
  | .lockWflag i =>
    some (({ s with mem := { s.mem with
      wflag := Function.update s.mem.wflag (c.mtx i) (spinlockLockUncontended .aarch64) } }
      ).finish i .lockedUnique (some false))
  | _ => none

/-- One step of `libtle_htm_spin_mutex_unlock` (debug build),
`libtle_htm_spin_shared_mutex_unlock` or `libtle_htm_spin_shared_mutex_unlock_shared`. -/
def htmMutexUnlock (c : Setup H M) (s : State H M) : Option (State H M) :=
  match s.regs.pc with
  | .unlockEntry i sh =>
    some (match s.mem.status i, sh with
      | .elided, _ => s.goto (.xend i)
      | .lockedUnique, false => s.goto (.release i false)
      | .lockedShared, true => s.goto (.release i true)
      | _, _ => s.goto .error)
  | .xend i =>
    some (if s.depth = 0 then s.goto .error
      else { s with
        depth := s.depth - 1
        ckpt := if s.depth = 1 then none else s.ckpt
        regs := { s.regs with pc := .committed i } })
  | .committed i =>
    let mem := if s.depth = 0 then s.mem.updateProf i HtmMutexProfile.updateCommit else s.mem
    some (({ s with mem := mem }).finish i .unlocked none)
  | .release i sh =>
    let m := c.mtx i
    match c.kind m, sh with
    | .spin, _ =>
      some (({ s with mem := { s.mem.updateProf i HtmMutexProfile.updateUnlock with
        spinState := Function.update s.mem.spinState m (spinlockUnlock .aarch64) } }
        ).finish i .unlocked none)
    | .shared, false =>
      some ({ s with mem := { s.mem with
        wflag := Function.update s.mem.wflag m (spinlockUnlock .aarch64) } }.goto (.releaseState i))
    | .shared, true =>
      some (({ s with mem := { s.mem.updateProf i HtmMutexProfile.updateUnlock with
        rwState := Function.update s.mem.rwState m (rwlockReadUnlock (s.mem.rwState m)) } }
        ).finish i .unlocked none)
  | .releaseState i =>
    let m := c.mtx i
    some (({ s with mem := { s.mem.updateProf i HtmMutexProfile.updateUnlock with
      rwState := Function.update s.mem.rwState m (rwlockWriteUnlock (s.mem.rwState m)) } }
      ).finish i .unlocked none)
  | _ => none

/-- What happens next: the program calls `lock` (`lock_shared` when `sh`) or the matching
unlock on a handle, the thread runs, or the transaction aborts with status `x`. -/
inductive Act (H : Nat)
  | lock (i : Fin H) (sh : Bool)
  | unlock (i : Fin H)
  | run
  | abort (x : Nat)

def step (c : Setup H M) (s : State H M) : Act H → Option (State H M)
  | .lock i sh =>
    if s.regs.pc = .idle ∧ s.regs.opened i = none ∧ (sh = true → c.kind (c.mtx i) = .shared)
    then some (s.goto (.lockEntry i sh)) else none
  | .unlock i =>
    match s.regs.pc, s.regs.opened i with
    | .idle, some sh => some (s.goto (.unlockEntry i sh))
    | _, _ => none
  | .run =>
    match s.regs.pc with
    | .unlockEntry _ _ | .xend _ | .committed _ | .release _ _ | .releaseState _ =>
      htmMutexUnlock c s
    | _ => htmMutexLock c s
  | .abort x => if x = xbeginStarted c.isa then none else s.abort x

/-- Every mutex and handle initialised, the profiles `p`, no transaction. -/
def init (p : Fin H → Option HtmMutexProfile) : State H M :=
  ⟨⟨fun _ => spinlockInit .aarch64, fun _ => rwlockInit, fun _ => spinlockInit .aarch64,
    fun _ => .unknown, p⟩, ⟨.idle, 0, 0, .idle, fun _ => none⟩, 0, none⟩

inductive Reachable (c : Setup H M) (p : Fin H → Option HtmMutexProfile) : State H M → Prop
  | init : Reachable c p (init p)
  | step {s s' : State H M} (a : Act H) : Reachable c p s → step c s a = some s' →
    Reachable c p s'

/-! ## What the statuses say -/

/-- The handles on mutex `m` with status `st`. -/
def holders (c : Setup H M) (status : Fin H → MutexStatus) (m : Fin M) (st : MutexStatus) :
    Nat :=
  count (fun j => decide (c.mtx j = m ∧ status j = st)) id

/-- The `ELIDED` handles. -/
def elided (status : Fin H → MutexStatus) : Nat :=
  count (fun st => decide (st = MutexStatus.elided)) status

theorem holders_update (c : Setup H M) (status : Fin H → MutexStatus) (i : Fin H)
    (st : MutexStatus) (m : Fin M) (st' : MutexStatus) :
    holders c (Function.update status i st) m st' +
        (decide (c.mtx i = m ∧ status i = st')).toNat =
      holders c status m st' + (decide (c.mtx i = m ∧ st = st')).toNat := by
  have := sum_add_of_eq_off (f := fun j => (decide (c.mtx j = m ∧ status j = st')).toNat)
    (g := fun j => (decide (c.mtx j = m ∧ Function.update status i st j = st')).toNat) i
    fun j hj => by simp [Function.update_noteq hj]
  simpa [holders, count] using this

/-- Off handle `i`'s mutex, a change of handle `i`'s status changes no count. -/
theorem holders_congr {c : Setup H M} {status status' : Fin H → MutexStatus} {i : Fin H}
    {m : Fin M} (hst : ∀ j, j ≠ i → status' j = status j) (hm : m ≠ c.mtx i)
    (st : MutexStatus) : holders c status' m st = holders c status m st := by
  unfold holders count
  refine Finset.sum_congr rfl fun j _ => congrArg Bool.toNat ?_
  rcases eq_or_ne j i with rfl | hj
  · simp [Ne.symm hm]
  · simp [hst j hj]

theorem elided_update (status : Fin H → MutexStatus) (i : Fin H) (st : MutexStatus) :
    elided (Function.update status i st) + (decide (status i = .elided)).toNat =
      elided status + (decide (st = .elided)).toNat :=
  count_update _ _ i st

/-- Handle `i` leaves a status a lock starts from for `st`: on its mutex, the count of a held
status `st'` goes up by one if `st' = st`. -/
theorem holders_lock (c : Setup H M) {status : Fin H → MutexStatus} {i : Fin H}
    (hcan : (status i).canLock = true) (st st' : MutexStatus) (hst' : st'.canLock = false) :
    holders c (Function.update status i st) (c.mtx i) st' =
      holders c status (c.mtx i) st' + (decide (st = st')).toNat := by
  have hne : status i ≠ st' := fun he => by rw [he, hst'] at hcan; cases hcan
  simpa [hne] using holders_update c status i st (c.mtx i) st'

theorem elided_lock {status : Fin H → MutexStatus} {i : Fin H}
    (hcan : (status i).canLock = true) (st : MutexStatus) :
    elided (Function.update status i st) = elided status + (decide (st = .elided)).toNat := by
  have hne : status i ≠ .elided := fun he => by rw [he] at hcan; cases hcan
  simpa [hne] using elided_update status i st

/-- Handle `i` goes from `st` back to `UNLOCKED`: on its mutex, the count of `st` goes down
by one. -/
theorem holders_unlock (c : Setup H M) {status : Fin H → MutexStatus} {i : Fin H}
    {st : MutexStatus} (hst : status i = st) (st' : MutexStatus) (hst' : st' ≠ .unlocked) :
    holders c (Function.update status i .unlocked) (c.mtx i) st' + (decide (st = st')).toNat =
      holders c status (c.mtx i) st' := by
  simpa [hst, Ne.symm hst'] using holders_update c status i .unlocked (c.mtx i) st'

theorem elided_unlock {status : Fin H → MutexStatus} {i : Fin H} {st : MutexStatus}
    (hst : status i = st) :
    elided (Function.update status i .unlocked) + (decide (st = .elided)).toNat =
      elided status := by
  simpa [hst] using elided_update status i .unlocked

namespace Pc

/-- The handle a position is in a call for. -/
def handle : Pc H → Option (Fin H)
  | .lockEntry i _ | .unlockWait i _ | .check i _ | .aborted i _ | .fallback i _ | .lockWflag i
  | .unlockEntry i _ | .xend i | .committed i | .release i _ | .releaseState i => some i
  | _ => none

/-- `1` on mutex `m` between taking the write lock of its `state` and setting its `wflag`. -/
def acquiring (c : Setup H M) (m : Fin M) : Pc H → Nat
  | .lockWflag i => (decide (c.mtx i = m)).toNat
  | _ => 0

/-- `1` on mutex `m` between releasing its `wflag` and the write lock of its `state`. -/
def releasing (c : Setup H M) (m : Fin M) : Pc H → Nat
  | .releaseState i => (decide (c.mtx i = m)).toNat
  | _ => 0

/-- `1` in a transaction whose handle is not yet `ELIDED`. -/
def opening : Pc H → Nat
  | .check _ _ => 1
  | _ => 0

/-- `1` after the `_xend` of a handle still `ELIDED`. -/
def closing : Pc H → Nat
  | .committed _ => 1
  | _ => 0

theorem acquiring_eq_zero {c : Setup H M} {m : Fin M} {pc : Pc H} {i : Fin H}
    (h : pc.handle = none ∨ pc.handle = some i) (hm : m ≠ c.mtx i) : pc.acquiring c m = 0 := by
  cases pc <;> simp_all [handle, acquiring]
  exact Ne.symm hm

theorem releasing_eq_zero {c : Setup H M} {m : Fin M} {pc : Pc H} {i : Fin H}
    (h : pc.handle = none ∨ pc.handle = some i) (hm : m ≠ c.mtx i) : pc.releasing c m = 0 := by
  cases pc <;> simp_all [handle, releasing]
  exact Ne.symm hm

end Pc

/-- The words of mutex `m` are what the statuses of the handles on it say: the spinlock of an
`htm_spin_mutex` is the number of its `LOCKED_UNIQUE` handles, at most one; on an
`htm_spin_shared_mutex`, `wflag` is that number and the rwlock word has the
`LOCKED_SHARED` handles in its reader field and the `LOCKED_UNIQUE` one in its writer bit,
counting a write lock taken before its status is set and a `wflag` released before the
write lock is. -/
def Words (c : Setup H M) (mem : Mem H M) (pc : Pc H) (m : Fin M) : Prop :=
  match c.kind m with
  | .spin =>
    mem.spinState m = holders c mem.status m .lockedUnique ∧
      holders c mem.status m .lockedUnique ≤ 1
  | .shared =>
    mem.wflag m + pc.releasing c m = holders c mem.status m .lockedUnique ∧
    mem.rwState m = (4 * holders c mem.status m .lockedShared +
      holders c mem.status m .lockedUnique + pc.acquiring c m) % 2 ^ 32 ∧
    holders c mem.status m .lockedUnique + pc.acquiring c m ≤ 1

/-- The status of handle `j` matches how the program has it locked: not at all, by `lock`,
or by `lock_shared` (only on a shared mutex). -/
def HandleOk (c : Setup H M) (st : MutexStatus) (o : Option Bool) (j : Fin H) : Prop :=
  match o with
  | none => st.canLock = true
  | some false => st = .elided ∨ st = .lockedUnique
  | some true => (st = .elided ∨ st = .lockedShared) ∧ c.kind (c.mtx j) = .shared

/-- In the fallback loop of handle `i` the word it takes is free, and the rwlock loop is
where a free word leads it. -/
def FallbackOk (c : Setup H M) (mem : Mem H M) (rw : RwPc) (i : Fin H) : Bool → Prop
  | sh => match c.kind (c.mtx i), sh with
    | .spin, _ => rw = .idle ∧ mem.spinState (c.mtx i) = 0
    | .shared, false =>
      mem.rwState (c.mtx i) = 0 ∧ (rw = .idle ∨ rw = .writeLoad ∨ rw = .writeCas 0)
    | .shared, true => mem.wflag (c.mtx i) = 0 ∧ (rw = .idle ∨ rw = .readLoad ∨ rw = .readAdd)

/-- What each position says. The fallback is taken only at depth `0`, where `_xbegin`
returned an abort status after `unlock_wait` saw the word free; an unlock's `_xend` and
release find the status they dispatched on. -/
def PcOk (c : Setup H M) (mem : Mem H M) (regs : Regs H) (d : Nat) : Prop :=
  match regs.pc with
  | .idle => regs.rw = .idle
  | .lockEntry i sh | .unlockWait i sh | .check i sh =>
    regs.rw = .idle ∧ regs.opened i = none ∧ (sh = true → c.kind (c.mtx i) = .shared)
  | .aborted i sh =>
    regs.rw = .idle ∧ regs.opened i = none ∧ (sh = true → c.kind (c.mtx i) = .shared) ∧
      d = 0 ∧ c.isLocked mem i sh = false
  | .fallback i sh =>
    regs.opened i = none ∧ (sh = true → c.kind (c.mtx i) = .shared) ∧ d = 0 ∧
      FallbackOk c mem regs.rw i sh
  | .lockWflag i =>
    regs.opened i = none ∧ c.kind (c.mtx i) = .shared ∧ d = 0 ∧ regs.rw = .writing
  | .unlockEntry i sh => regs.rw = .idle ∧ regs.opened i = some sh
  | .xend i | .committed i =>
    regs.rw = .idle ∧ regs.opened i ≠ none ∧ mem.status i = .elided
  | .release i sh =>
    regs.rw = .idle ∧ regs.opened i = some sh ∧
      mem.status i = if sh then .lockedShared else .lockedUnique
  | .releaseState i =>
    regs.rw = .idle ∧ regs.opened i = some false ∧ mem.status i = .lockedUnique ∧
      c.kind (c.mtx i) = .shared
  | .error => False

/-- Memory, registers and depth agree: the words, the depth as the number of `ELIDED`
handles, every handle, and the position. -/
structure Good (c : Setup H M) (mem : Mem H M) (regs : Regs H) (d : Nat) : Prop where
  words : ∀ m, Words c mem regs.pc m
  depth : d + regs.pc.closing = elided mem.status + regs.pc.opening
  handles : ∀ j, HandleOk c (mem.status j) (regs.opened j) j
  pc : PcOk c mem regs d

/-- The state is good, there is a checkpoint exactly inside a transaction, and the
checkpoint is good at depth `0`. -/
structure Inv (c : Setup H M) (s : State H M) : Prop where
  good : Good c s.mem s.regs s.depth
  ckpt_none : s.ckpt = none ↔ s.depth = 0
  ckpt : ∀ p, s.ckpt = some p → Good c p.1 p.2 0

/-! ## One step -/

section Invariant

variable {c : Setup H M}

@[simp] theorem Mem.setStatus_status (mem : Mem H M) (i : Fin H) (st : MutexStatus) :
    (mem.setStatus i st).status = Function.update mem.status i st := rfl

@[simp] theorem Mem.setStatus_spinState (mem : Mem H M) (i : Fin H) (st : MutexStatus) :
    (mem.setStatus i st).spinState = mem.spinState := rfl

@[simp] theorem Mem.setStatus_rwState (mem : Mem H M) (i : Fin H) (st : MutexStatus) :
    (mem.setStatus i st).rwState = mem.rwState := rfl

@[simp] theorem Mem.setStatus_wflag (mem : Mem H M) (i : Fin H) (st : MutexStatus) :
    (mem.setStatus i st).wflag = mem.wflag := rfl

@[simp] theorem Mem.updateProf_status (mem : Mem H M) (i : Fin H) (f) :
    (mem.updateProf i f).status = mem.status := rfl

@[simp] theorem Mem.updateProf_spinState (mem : Mem H M) (i : Fin H) (f) :
    (mem.updateProf i f).spinState = mem.spinState := rfl

@[simp] theorem Mem.updateProf_rwState (mem : Mem H M) (i : Fin H) (f) :
    (mem.updateProf i f).rwState = mem.rwState := rfl

@[simp] theorem Mem.updateProf_wflag (mem : Mem H M) (i : Fin H) (f) :
    (mem.updateProf i f).wflag = mem.wflag := rfl

theorem Words.frame {mem mem' : Mem H M} {pc pc' : Pc H} {m : Fin M} (h : Words c mem pc m)
    (hs : mem'.spinState m = mem.spinState m) (hr : mem'.rwState m = mem.rwState m)
    (hw : mem'.wflag m = mem.wflag m)
    (hU : holders c mem'.status m .lockedUnique = holders c mem.status m .lockedUnique)
    (hS : holders c mem'.status m .lockedShared = holders c mem.status m .lockedShared)
    (ha : pc'.acquiring c m = pc.acquiring c m) (hl : pc'.releasing c m = pc.releasing c m) :
    Words c mem' pc' m := by
  unfold Words at *
  rw [hs, hr, hw, hU, hS, ha, hl]
  exact h

/-- A step in a call for handle `i` that changes only the words of its mutex, its status and
how it is locked keeps `Good` if handle `i`, its mutex and the new position are right. -/
theorem Good.local {mem mem' : Mem H M} {regs regs' : Regs H} {d d' : Nat} {i : Fin H}
    (h : Good c mem regs d)
    (hpc : regs.pc.handle = none ∨ regs.pc.handle = some i)
    (hpc' : regs'.pc.handle = none ∨ regs'.pc.handle = some i)
    (hmem : ∀ m, m ≠ c.mtx i → mem'.spinState m = mem.spinState m ∧
      mem'.rwState m = mem.rwState m ∧ mem'.wflag m = mem.wflag m)
    (hst : ∀ j, j ≠ i → mem'.status j = mem.status j)
    (hop : ∀ j, j ≠ i → regs'.opened j = regs.opened j)
    (hw : Words c mem' regs'.pc (c.mtx i))
    (hd : d' + regs'.pc.closing = elided mem'.status + regs'.pc.opening)
    (hi : HandleOk c (mem'.status i) (regs'.opened i) i)
    (hp : PcOk c mem' regs' d') : Good c mem' regs' d' where
  words m := by
    rcases eq_or_ne m (c.mtx i) with rfl | hm
    · exact hw
    · obtain ⟨h1, h2, h3⟩ := hmem m hm
      exact (h.words m).frame h1 h2 h3 (holders_congr hst hm _) (holders_congr hst hm _)
        (by rw [Pc.acquiring_eq_zero hpc' hm, Pc.acquiring_eq_zero hpc hm])
        (by rw [Pc.releasing_eq_zero hpc' hm, Pc.releasing_eq_zero hpc hm])
  depth := hd
  handles j := by
    rcases eq_or_ne j i with rfl | hj
    · exact hi
    · rw [hst j hj, hop j hj]; exact h.handles j
  pc := hp

/-- A step that stores to no lock word and no status, nor changes how a handle is
locked, keeps `Good` if the new position is right. -/
theorem Good.move {mem mem' : Mem H M} {regs regs' : Regs H} {d d' : Nat}
    (h : Good c mem regs d) (hs : mem'.spinState = mem.spinState)
    (hr : mem'.rwState = mem.rwState) (hw : mem'.wflag = mem.wflag)
    (hst : mem'.status = mem.status) (hop : regs'.opened = regs.opened)
    (hacq : ∀ m, regs'.pc.acquiring c m = regs.pc.acquiring c m)
    (hrel : ∀ m, regs'.pc.releasing c m = regs.pc.releasing c m)
    (hd : d' + regs'.pc.closing = elided mem.status + regs'.pc.opening)
    (hp : PcOk c mem' regs' d') : Good c mem' regs' d' where
  words m := (h.words m).frame (by rw [hs]) (by rw [hr]) (by rw [hw]) (by rw [hst])
    (by rw [hst]) (hacq m) (hrel m)
  depth := hst ▸ hd
  handles j := by rw [hst, hop]; exact h.handles j
  pc := hp

theorem Inv.keep {s s' : State H M} (h : Inv c s) (hg : Good c s'.mem s'.regs s'.depth)
    (hd : s'.depth = s.depth) (hc : s'.ckpt = s.ckpt) : Inv c s' :=
  ⟨hg, hc ▸ hd ▸ h.ckpt_none, hc ▸ h.ckpt⟩

@[simp] theorem State.goto_mem (s : State H M) (pc : Pc H) : (s.goto pc).mem = s.mem := rfl
@[simp] theorem State.goto_regs (s : State H M) (pc : Pc H) :
    (s.goto pc).regs = { s.regs with pc := pc } := rfl
@[simp] theorem State.goto_depth (s : State H M) (pc : Pc H) : (s.goto pc).depth = s.depth := rfl
@[simp] theorem State.goto_ckpt (s : State H M) (pc : Pc H) : (s.goto pc).ckpt = s.ckpt := rfl

@[simp] theorem State.finish_mem (s : State H M) (i : Fin H) (st : MutexStatus) (o : Option Bool) :
    (s.finish i st o).mem = s.mem.setStatus i st := rfl
@[simp] theorem State.finish_regs (s : State H M) (i : Fin H) (st : MutexStatus)
    (o : Option Bool) : (s.finish i st o).regs =
      { s.regs with pc := .idle, rw := .idle, opened := Function.update s.regs.opened i o } := rfl
@[simp] theorem State.finish_depth (s : State H M) (i : Fin H) (st : MutexStatus)
    (o : Option Bool) : (s.finish i st o).depth = s.depth := rfl
@[simp] theorem State.finish_ckpt (s : State H M) (i : Fin H) (st : MutexStatus)
    (o : Option Bool) : (s.finish i st o).ckpt = s.ckpt := rfl

variable {s : State H M} {i : Fin H} {sh : Bool}

/-- The program calls `lock` or `lock_shared` on a handle it has not locked. -/
theorem Inv.lock (h : Inv c s) (hidle : s.regs.pc = .idle) (ho : s.regs.opened i = none)
    (hk : sh = true → c.kind (c.mtx i) = .shared) : Inv c (s.goto (.lockEntry i sh)) := by
  have hp := h.good.pc
  have hd := h.good.depth
  simp only [PcOk, hidle] at hp
  simp only [hidle, Pc.closing, Pc.opening] at hd
  exact h.keep (h.good.move rfl rfl rfl rfl rfl (fun m => by simp [Pc.acquiring, hidle])
    (fun m => by simp [Pc.releasing, hidle]) (by simpa [Pc.closing, Pc.opening] using hd)
    ⟨hp, ho, hk⟩) rfl rfl

/-- The program calls the unlock matching how it locked a handle. -/
theorem Inv.unlock (h : Inv c s) (hidle : s.regs.pc = .idle) (ho : s.regs.opened i = some sh) :
    Inv c (s.goto (.unlockEntry i sh)) := by
  have hp := h.good.pc
  have hd := h.good.depth
  simp only [PcOk, hidle] at hp
  simp only [hidle, Pc.closing, Pc.opening] at hd
  exact h.keep (h.good.move rfl rfl rfl rfl rfl (fun m => by simp [Pc.acquiring, hidle])
    (fun m => by simp [Pc.releasing, hidle]) (by simpa [Pc.closing, Pc.opening] using hd)
    ⟨hp, ho⟩) rfl rfl

@[simp] theorem State.xbegin_mem (s : State H M) (r : Pc H) : (s.xbegin r).mem = s.mem := rfl
@[simp] theorem State.xbegin_regs (s : State H M) (r : Pc H) : (s.xbegin r).regs = s.regs := rfl
@[simp] theorem State.xbegin_depth (s : State H M) (r : Pc H) :
    (s.xbegin r).depth = s.depth + 1 := rfl
@[simp] theorem State.xbegin_ckpt (s : State H M) (r : Pc H) : (s.xbegin r).ckpt =
    if s.depth = 0 then some (s.mem, { s.regs with pc := r }) else s.ckpt := rfl

/-- A handle the program has not locked can be locked. -/
theorem Good.canLock {mem : Mem H M} {regs : Regs H} {d : Nat} (h : Good c mem regs d)
    (ho : regs.opened i = none) : (mem.status i).canLock = true := by
  simpa [HandleOk, ho] using h.handles i

/-- A free word puts the fallback loop at its start. -/
theorem FallbackOk.of_free {mem : Mem H M} (hf : c.isLocked mem i sh = false) :
    FallbackOk c mem .idle i sh := by
  unfold Setup.isLocked at hf
  unfold FallbackOk
  split at hf <;> simp_all [spinlockIsLocked, rwlockIsLocked]

theorem Inv.lockEntry (h : Inv c s) (hpc : s.regs.pc = .lockEntry i sh) :
    (s.mem.status i).canLock = true ∧
      Inv c { s with regs := { s.regs with pc := .unlockWait i sh, retries := 0 } } := by
  have hp := h.good.pc
  simp only [PcOk, hpc] at hp
  refine ⟨h.good.canLock hp.2.1, h.keep (h.good.move rfl rfl rfl rfl rfl
    (fun m => by simp [Pc.acquiring, hpc]) (fun m => by simp [Pc.releasing, hpc])
    (by simpa [hpc, Pc.closing, Pc.opening] using h.good.depth) hp) rfl rfl⟩

/-- `unlock_wait` returns and `_xbegin` starts a transaction; the outermost one saves a
checkpoint that is good at depth `0`, resuming where `_xbegin` returns an abort status. -/
theorem Inv.unlockWait (h : Inv c s) (hpc : s.regs.pc = .unlockWait i sh)
    (hf : c.isLocked s.mem i sh = false) :
    Inv c ((s.xbegin (.aborted i sh)).goto (.check i sh)) := by
  have hp := h.good.pc
  have hd := h.good.depth
  simp only [PcOk, hpc] at hp
  simp only [hpc, Pc.closing, Pc.opening] at hd
  have hmove : ∀ (pc : Pc H) (d : Nat), (∀ m, pc.acquiring c m = 0) →
      (∀ m, pc.releasing c m = 0) → d + pc.closing = elided s.mem.status + pc.opening →
      PcOk c s.mem { s.regs with pc := pc } d → Good c s.mem { s.regs with pc := pc } d :=
    fun pc d ha hl hd' hp' => h.good.move rfl rfl rfl rfl rfl
      (fun m => by rw [ha m, hpc]; rfl) (fun m => by rw [hl m, hpc]; rfl) hd' hp'
  refine ⟨hmove _ _ (fun _ => rfl) (fun _ => rfl)
    (by simp only [State.goto_depth, State.xbegin_depth, Pc.closing, Pc.opening]; omega) hp, ?_,
    fun p hckpt => ?_⟩
  · by_cases h0 : s.depth = 0 <;> simp [h0, h.ckpt_none]
  · by_cases h0 : s.depth = 0
    · simp only [State.goto_ckpt, State.xbegin_ckpt, h0, if_true, Option.some.injEq] at hckpt
      subst hckpt
      exact hmove _ _ (fun _ => rfl) (fun _ => rfl) (by simp [Pc.closing, Pc.opening, ← hd, h0])
        ⟨hp.1, hp.2.1, hp.2.2, rfl, hf⟩
    · simp only [State.goto_ckpt, State.xbegin_ckpt, h0, if_false] at hckpt
      exact h.ckpt p hckpt

/-- The check inside the transaction finds the word free: the handle is `ELIDED`. -/
theorem Inv.check (h : Inv c s) (hpc : s.regs.pc = .check i sh) :
    Inv c (s.finish i .elided (some sh)) := by
  have hp := h.good.pc
  have hd := h.good.depth
  simp only [PcOk, hpc] at hp
  simp only [hpc, Pc.closing, Pc.opening] at hd
  have hcan := h.good.canLock hp.2.1
  have hU : holders c (Function.update s.mem.status i .elided) (c.mtx i) .lockedUnique =
      holders c s.mem.status (c.mtx i) .lockedUnique := holders_lock c hcan _ _ rfl
  have hS : holders c (Function.update s.mem.status i .elided) (c.mtx i) .lockedShared =
      holders c s.mem.status (c.mtx i) .lockedShared := holders_lock c hcan _ _ rfl
  refine h.keep (h.good.local (i := i) (by simp [hpc, Pc.handle]) (by simp [Pc.handle])
    (fun _ _ => ⟨rfl, rfl, rfl⟩) (fun j hj => by simp [hj]) (fun j hj => by simp [hj])
    ((h.good.words _).frame rfl rfl rfl hU hS (by simp [Pc.acquiring, hpc])
      (by simp [Pc.releasing, hpc]))
    (by simp [elided_lock hcan, Pc.closing, Pc.opening]; omega) ?_ rfl) rfl rfl
  cases sh <;> simp_all [HandleOk]

theorem words_spin {mem : Mem H M} {pc : Pc H} {m : Fin M} (hk : c.kind m = .spin) :
    Words c mem pc m ↔ mem.spinState m = holders c mem.status m .lockedUnique ∧
      holders c mem.status m .lockedUnique ≤ 1 := by
  simp only [Words, hk]

theorem words_shared {mem : Mem H M} {pc : Pc H} {m : Fin M} (hk : c.kind m = .shared) :
    Words c mem pc m ↔ mem.wflag m + pc.releasing c m = holders c mem.status m .lockedUnique ∧
      mem.rwState m = (4 * holders c mem.status m .lockedShared +
        holders c mem.status m .lockedUnique + pc.acquiring c m) % 2 ^ 32 ∧
      holders c mem.status m .lockedUnique + pc.acquiring c m ≤ 1 := by
  simp only [Words, hk]

/-- `_xbegin` returned an abort status: the retry count, the profile, and the loop test. -/
theorem Inv.aborted (h : Inv c s) (hpc : s.regs.pc = .aborted i sh) :
    Inv c { s with
      mem := s.mem.updateProf i (·.updateAbort c.isa s.regs.xstatus)
      regs := { s.regs with
        retries := s.regs.retries + 1
        pc := if xbeginRestart c.isa s.regs.xstatus && s.regs.retries + 1 < c.limit i sh then
          .unlockWait i sh else .fallback i sh } } := by
  have hp := h.good.pc
  simp only [PcOk, hpc] at hp
  obtain ⟨hrw, ho, hk, hd0, hf⟩ := hp
  refine h.keep (h.good.move rfl rfl rfl rfl rfl (fun m => ?_) (fun m => ?_) ?_ ?_) rfl rfl <;>
    split_ifs
  all_goals simp_all [Pc.acquiring, Pc.releasing, Pc.closing, Pc.opening, PcOk]
  all_goals first
    | simpa [Pc.closing, Pc.opening, hpc, hd0] using h.good.depth
    | exact hrw ▸ FallbackOk.of_free hf

/-- The spinlock of an `htm_spin_mutex` is free: `libtle_spinlock_lock` takes it and the
handle is `LOCKED_UNIQUE`. -/
theorem Inv.fallback_spin (h : Inv c s) (hpc : s.regs.pc = .fallback i sh)
    (hk : c.kind (c.mtx i) = .spin) :
    Inv c (({ s with mem := { s.mem with
      spinState := Function.update s.mem.spinState (c.mtx i) 1 } }).finish i .lockedUnique
      (some false)) := by
  have hp := h.good.pc
  simp only [PcOk, hpc, FallbackOk, hk] at hp
  obtain ⟨ho, -, hd0, -, h0⟩ := hp
  have hw := (words_spin hk).1 (h.good.words (c.mtx i))
  have hcan := h.good.canLock ho
  have hU : holders c (Function.update s.mem.status i .lockedUnique) (c.mtx i) .lockedUnique =
      holders c s.mem.status (c.mtx i) .lockedUnique + 1 := holders_lock c hcan _ _ rfl
  have hd := h.good.depth
  simp only [hpc, Pc.closing, Pc.opening] at hd
  refine h.keep (h.good.local (i := i) (by simp [hpc, Pc.handle]) (by simp [Pc.handle])
    (fun m hm => by simp [Function.update_noteq hm]) (fun j hj => by simp [hj])
    (fun j hj => by simp [hj]) ((words_spin hk).2 (by simp [hU]; omega))
    (by simp [elided_lock hcan, Pc.closing, Pc.opening]; omega)
    (by simp [HandleOk, MutexStatus.canLock_iff]) rfl) rfl rfl

/-- One step of `libtle_rwlock_write_lock` on a free word: it loads, then takes the lock
with its compare-and-swap. -/
theorem Inv.fallback_write (h : Inv c s) (hpc : s.regs.pc = .fallback i false)
    (hk : c.kind (c.mtx i) = .shared) :
    Inv c { s with
      mem := { s.mem with
        rwState := Function.update s.mem.rwState (c.mtx i)
          (rwlockThreadStep (s.mem.rwState (c.mtx i)) false s.regs.rw).1 }
      regs := { s.regs with
        rw := (rwlockThreadStep (s.mem.rwState (c.mtx i)) false s.regs.rw).2
        pc := if (rwlockThreadStep (s.mem.rwState (c.mtx i)) false s.regs.rw).2 = .writing
          then .lockWflag i else .fallback i false } } := by
  have hp := h.good.pc
  simp only [PcOk, hpc, FallbackOk, hk] at hp
  obtain ⟨ho, -, hd0, h0, hrw⟩ := hp
  have hw := (words_shared hk).1 (h.good.words (c.mtx i))
  have hd := h.good.depth
  simp only [hpc, Pc.closing, Pc.opening, Pc.acquiring, Pc.releasing] at hd hw
  have hloc : ∀ (pc : Pc H) (rw : RwPc) (w : Nat), pc.handle = some i →
      Words c { s.mem with rwState := Function.update s.mem.rwState (c.mtx i) w } pc (c.mtx i) →
      PcOk c { s.mem with rwState := Function.update s.mem.rwState (c.mtx i) w }
        { s.regs with rw := rw, pc := pc } s.depth →
      pc.closing = 0 → pc.opening = 0 →
      Inv c { s with
        mem := { s.mem with rwState := Function.update s.mem.rwState (c.mtx i) w }
        regs := { s.regs with rw := rw, pc := pc } } :=
    fun pc rw w hpc' hw' hp' hc ho => h.keep
      (h.good.local (i := i) (by simp [hpc, Pc.handle]) (Or.inr hpc')
        (fun m hm => by simp [Function.update_noteq hm]) (fun _ _ => rfl) (fun _ _ => rfl) hw'
        (by simp [hc, ho, hd]) (h.good.handles i) hp') rfl rfl
  rcases hrw with hrw | hrw | hrw <;> simp only [hrw, h0, rwlockThreadStep, rwlockLockStep]
  · exact hloc _ _ _ rfl ((words_shared hk).2 (by simpa [Pc.acquiring, Pc.releasing, h0] using hw))
      ⟨ho, fun _ => hk, hd0, by simp [FallbackOk, hk]⟩ rfl rfl
  · exact hloc _ _ _ rfl ((words_shared hk).2 (by simpa [Pc.acquiring, Pc.releasing, h0] using hw))
      ⟨ho, fun _ => hk, hd0, by simp [FallbackOk, hk]⟩ rfl rfl
  · refine hloc _ _ _ rfl ((words_shared hk).2 ?_) ⟨ho, hk, hd0, rfl⟩ rfl rfl
    simp [Pc.acquiring, Pc.releasing] at hw ⊢
    omega

/-- One step of `libtle_rwlock_read_lock` while `wflag` is free: the word has no writer, so
the loop loads, adds `4` and is in; the handle is `LOCKED_SHARED`. -/
theorem Inv.fallback_read (h : Inv c s) (hpc : s.regs.pc = .fallback i true)
    (hk : c.kind (c.mtx i) = .shared) :
    Inv c (if (rwlockThreadStep (s.mem.rwState (c.mtx i)) true s.regs.rw).2 = .reading then
      ({ s with
        mem := { s.mem with
          rwState := Function.update s.mem.rwState (c.mtx i)
            (rwlockThreadStep (s.mem.rwState (c.mtx i)) true s.regs.rw).1 }
        regs := { s.regs with
          pc := .fallback i true
          rw := (rwlockThreadStep (s.mem.rwState (c.mtx i)) true s.regs.rw).2 } }
        ).finish i .lockedShared (some true)
      else { s with
        mem := { s.mem with
          rwState := Function.update s.mem.rwState (c.mtx i)
            (rwlockThreadStep (s.mem.rwState (c.mtx i)) true s.regs.rw).1 }
        regs := { s.regs with
          pc := .fallback i true
          rw := (rwlockThreadStep (s.mem.rwState (c.mtx i)) true s.regs.rw).2 } }) := by
  have hp := h.good.pc
  simp only [PcOk, hpc, FallbackOk, hk] at hp
  obtain ⟨ho, -, hd0, h0, hrw⟩ := hp
  have hw := (words_shared hk).1 (h.good.words (c.mtx i))
  have hd := h.good.depth
  simp only [hpc, Pc.closing, Pc.opening, Pc.acquiring, Pc.releasing, h0] at hd hw
  have hU : holders c s.mem.status (c.mtx i) .lockedUnique = 0 := by omega
  have h4 : s.mem.rwState (c.mtx i) % 4 = 0 := by omega
  have hloop : ∀ rw : RwPc, (rw = .readLoad ∨ rw = .readAdd) →
      Inv c { s with
        mem := { s.mem with
          rwState := Function.update s.mem.rwState (c.mtx i) (s.mem.rwState (c.mtx i)) }
        regs := { s.regs with pc := .fallback i true, rw := rw } } := fun rw hrw' => by
    rw [Function.update_eq_self]
    exact h.keep (h.good.move rfl rfl rfl rfl rfl (fun _ => by simp [hpc]) (fun _ => by simp [hpc])
      (by simpa [hpc] using h.good.depth)
      (by simp only [PcOk]; exact ⟨ho, fun _ => hk, hd0, by simp [FallbackOk, hk, h0, hrw']⟩))
      rfl rfl
  rcases hrw with hrw | hrw | hrw <;>
    simp only [hrw, rwlockThreadStep, rwlockLockStep, and_three, Nat.and_one_is_mod, h4,
      reduceCtorEq, if_false, if_true]
  · exact hloop _ (Or.inl rfl)
  · exact hloop _ (Or.inr rfl)
  · have hcan := h.good.canLock ho
    have hS : holders c (Function.update s.mem.status i .lockedShared) (c.mtx i) .lockedShared =
        holders c s.mem.status (c.mtx i) .lockedShared + 1 := holders_lock c hcan _ _ rfl
    have hU' : holders c (Function.update s.mem.status i .lockedShared) (c.mtx i) .lockedUnique =
        holders c s.mem.status (c.mtx i) .lockedUnique := holders_lock c hcan _ _ rfl
    have h2 : s.mem.rwState (c.mtx i) % 2 = 0 := by omega
    simp only [h2, if_true]
    refine h.keep (h.good.local (i := i) (by simp [hpc, Pc.handle]) (by simp [Pc.handle])
      (fun m hm => by simp [Function.update_noteq hm]) (fun j hj => by simp [hj])
      (fun j hj => by simp [hj])
      ((words_shared hk).2 (by simp [hS, hU', Pc.acquiring, Pc.releasing, wrapAdd]; omega))
      (by simp [elided_lock hcan, Pc.closing, Pc.opening]; omega) (by simp [HandleOk, hk]) rfl)
      rfl rfl

/-- `libtle_spinlock_lock_uncontended(&mtx->wflag)` after the write lock: the handle is
`LOCKED_UNIQUE`. -/
theorem Inv.lockWflag (h : Inv c s) (hpc : s.regs.pc = .lockWflag i) :
    Inv c (({ s with mem := { s.mem with
      wflag := Function.update s.mem.wflag (c.mtx i) (spinlockLockUncontended .aarch64) } }
      ).finish i .lockedUnique (some false)) := by
  have hp := h.good.pc
  simp only [PcOk, hpc] at hp
  obtain ⟨ho, hk, hd0, -⟩ := hp
  have hw := (words_shared hk).1 (h.good.words (c.mtx i))
  have hd := h.good.depth
  simp only [hpc, Pc.closing, Pc.opening, Pc.acquiring, Pc.releasing, decide_True,
    Bool.toNat_true] at hd hw
  have hcan := h.good.canLock ho
  have hU : holders c (Function.update s.mem.status i .lockedUnique) (c.mtx i) .lockedUnique =
      holders c s.mem.status (c.mtx i) .lockedUnique + 1 := holders_lock c hcan _ _ rfl
  have hS : holders c (Function.update s.mem.status i .lockedUnique) (c.mtx i) .lockedShared =
      holders c s.mem.status (c.mtx i) .lockedShared := holders_lock c hcan _ _ rfl
  refine h.keep (h.good.local (i := i) (by simp [hpc, Pc.handle]) (by simp [Pc.handle])
    (fun m hm => by simp [Function.update_noteq hm]) (fun j hj => by simp [hj])
    (fun j hj => by simp [hj])
    ((words_shared hk).2
      (by simp [hU, hS, Pc.acquiring, Pc.releasing, spinlockLockUncontended]; omega))
    (by simp [elided_lock hcan, Pc.closing, Pc.opening]; omega)
    (by simp [HandleOk, MutexStatus.canLock_iff]) rfl) rfl rfl

/-- The unlock's `switch (st->status)` finds `ELIDED`, or the fallback lock it took. -/
theorem Inv.unlockEntry (h : Inv c s) (hpc : s.regs.pc = .unlockEntry i sh) :
    (s.mem.status i = .elided ∧ Inv c (s.goto (.xend i))) ∨
    (s.mem.status i = (if sh then .lockedShared else .lockedUnique) ∧
      Inv c (s.goto (.release i sh))) := by
  have hp := h.good.pc
  simp only [PcOk, hpc] at hp
  obtain ⟨hrw, ho⟩ := hp
  have hi := h.good.handles i
  have hd := h.good.depth
  simp only [hpc, Pc.closing, Pc.opening] at hd
  have hmove : ∀ pc : Pc H, (∀ m, pc.acquiring c m = 0) → (∀ m, pc.releasing c m = 0) →
      pc.closing = 0 → pc.opening = 0 → PcOk c s.mem { s.regs with pc := pc } s.depth →
      Inv c (s.goto pc) := fun pc ha hl hc hop hp' =>
    h.keep (h.good.move rfl rfl rfl rfl rfl
      (fun m => by simp only [State.goto_regs, ha m, hpc]; rfl)
      (fun m => by simp only [State.goto_regs, hl m, hpc]; rfl) (by simp [hc, hop, hd]) hp') rfl rfl
  have hel : s.mem.status i = .elided → s.mem.status i = .elided ∧ Inv c (s.goto (.xend i)) :=
    fun hst =>
      ⟨hst, hmove _ (fun _ => rfl) (fun _ => rfl) rfl rfl (by simp [PcOk, hrw, ho, hst])⟩
  have hrel : s.mem.status i = (if sh then .lockedShared else .lockedUnique) →
      Inv c (s.goto (.release i sh)) :=
    fun hst => hmove _ (fun _ => rfl) (fun _ => rfl) rfl rfl (by simp [PcOk, hrw, ho, hst])
  simp only [HandleOk, ho] at hi
  cases sh
  · rcases hi with hst | hst
    exacts [.inl (hel hst), .inr ⟨by simpa using hst, hrel (by simpa using hst)⟩]
  · rcases hi.1 with hst | hst
    exacts [.inl (hel hst), .inr ⟨by simpa using hst, hrel (by simpa using hst)⟩]

/-- `_xend` of an `ELIDED` handle: the depth is the number of `ELIDED` handles, so it is
inside a transaction; only the outermost one commits and drops the checkpoint. -/
theorem Inv.xend (h : Inv c s) (hpc : s.regs.pc = .xend i) :
    s.depth ≠ 0 ∧ Inv c { s with
      depth := s.depth - 1
      ckpt := if s.depth = 1 then none else s.ckpt
      regs := { s.regs with pc := .committed i } } := by
  have hp := h.good.pc
  simp only [PcOk, hpc] at hp
  obtain ⟨hrw, ho, hst⟩ := hp
  have hd := h.good.depth
  simp only [hpc, Pc.closing, Pc.opening] at hd
  have hpos : 0 < elided s.mem.status :=
    (count_pos_iff (p := fun st => decide (st = MutexStatus.elided)) (f := s.mem.status)).2
      ⟨i, by simp [hst]⟩
  refine ⟨by omega, h.good.move rfl rfl rfl rfl rfl (fun m => by simp [Pc.acquiring, hpc])
    (fun m => by simp [Pc.releasing, hpc]) (by simp [Pc.closing, Pc.opening]; omega)
    (by simp [PcOk, hrw, ho, hst]), ?_, fun p hc => ?_⟩
  · by_cases h1 : s.depth = 1
    · simp [h1]
    · simp only [h1, if_false]
      rw [h.ckpt_none]
      omega
  · by_cases h1 : s.depth = 1
    · simp [h1] at hc
    · simp only [h1, if_false] at hc
      exact h.ckpt p hc

/-- After `_xend`: the commit is counted when `_xtest()` is `0`, and the handle is
`UNLOCKED`. -/
theorem Inv.committed (h : Inv c s) (hpc : s.regs.pc = .committed i) :
    Inv c (({ s with mem := if s.depth = 0 then s.mem.updateProf i HtmMutexProfile.updateCommit
      else s.mem }).finish i .unlocked none) := by
  have hp := h.good.pc
  simp only [PcOk, hpc] at hp
  obtain ⟨hrw, ho, hst⟩ := hp
  have hd := h.good.depth
  simp only [hpc, Pc.closing, Pc.opening] at hd
  have hU : holders c (Function.update s.mem.status i .unlocked) (c.mtx i) .lockedUnique =
      holders c s.mem.status (c.mtx i) .lockedUnique := holders_unlock c hst .lockedUnique nofun
  have hS : holders c (Function.update s.mem.status i .unlocked) (c.mtx i) .lockedShared =
      holders c s.mem.status (c.mtx i) .lockedShared := holders_unlock c hst .lockedShared nofun
  have hE : elided (Function.update s.mem.status i .unlocked) + 1 = elided s.mem.status :=
    elided_unlock hst
  have hw := h.good.words (c.mtx i)
  rw [hpc] at hw
  -- the profile update touches no word and no status
  split_ifs <;>
    exact h.keep (h.good.local (i := i) (by simp [hpc, Pc.handle]) (by simp [Pc.handle])
      (fun _ _ => ⟨rfl, rfl, rfl⟩) (fun j hj => by simp [hj]) (fun j hj => by simp [hj])
      (hw.frame rfl rfl rfl hU hS rfl rfl) (by simp [Pc.closing, Pc.opening]; omega)
      (by simp [HandleOk, MutexStatus.canLock_iff]) rfl) rfl rfl

/-- The release of a fallback lock: the spinlock of an `htm_spin_mutex`, or the `wflag`
then the write lock, or the read lock, of an `htm_spin_shared_mutex`. -/
theorem Inv.release_spin (h : Inv c s) (hpc : s.regs.pc = .release i sh)
    (hk : c.kind (c.mtx i) = .spin) :
    Inv c (({ s with mem := { s.mem.updateProf i HtmMutexProfile.updateUnlock with
      spinState := Function.update s.mem.spinState (c.mtx i) (spinlockUnlock .aarch64) } }
      ).finish i .unlocked none) := by
  have hp := h.good.pc
  simp only [PcOk, hpc] at hp
  obtain ⟨hrw, ho, hst⟩ := hp
  have hsh : sh = false := by
    have hi := h.good.handles i
    cases sh <;> simp_all [HandleOk]
  subst hsh
  have hw := (words_spin hk).1 (h.good.words (c.mtx i))
  have hd := h.good.depth
  simp only [hpc, Pc.closing, Pc.opening] at hd
  simp only [if_false, Bool.false_eq_true] at hst
  have hU : holders c (Function.update s.mem.status i .unlocked) (c.mtx i) .lockedUnique + 1 =
      holders c s.mem.status (c.mtx i) .lockedUnique := holders_unlock c hst .lockedUnique nofun
  have hE : elided (Function.update s.mem.status i .unlocked) = elided s.mem.status :=
    elided_unlock hst
  refine h.keep (h.good.local (i := i) (by simp [hpc, Pc.handle]) (by simp [Pc.handle])
    (fun m hm => by simp [Function.update_noteq hm]) (fun j hj => by simp [hj])
    (fun j hj => by simp [hj]) ((words_spin hk).2 (by simp [spinlockUnlock]; omega))
    (by simp [Pc.closing, Pc.opening]; omega) (by simp [HandleOk, MutexStatus.canLock_iff]) rfl)
    rfl rfl

theorem Inv.release_write (h : Inv c s) (hpc : s.regs.pc = .release i false)
    (hk : c.kind (c.mtx i) = .shared) :
    Inv c ({ s with mem := { s.mem with
      wflag := Function.update s.mem.wflag (c.mtx i) (spinlockUnlock .aarch64) } }.goto
      (.releaseState i)) := by
  have hp := h.good.pc
  simp only [PcOk, hpc] at hp
  obtain ⟨hrw, ho, hst⟩ := hp
  simp only [if_false, Bool.false_eq_true] at hst
  have hw := (words_shared hk).1 (h.good.words (c.mtx i))
  have hd := h.good.depth
  simp only [hpc, Pc.closing, Pc.opening, Pc.acquiring, Pc.releasing] at hd hw
  have hU := holders_update c s.mem.status i .unlocked (c.mtx i) .lockedUnique
  refine h.keep (h.good.local (i := i) (by simp [hpc, Pc.handle]) (by simp [Pc.handle])
    (fun m hm => by simp [Function.update_noteq hm]) (fun _ _ => rfl) (fun _ _ => rfl)
    ((words_shared hk).2 ?_) (by simpa [Pc.closing, Pc.opening] using hd)
    (by simpa [HandleOk, ho] using Or.inr hst) (by simp [PcOk, hrw, ho, hst, hk])) rfl rfl
  simp_all [Pc.acquiring, Pc.releasing, spinlockUnlock]
  omega

theorem Inv.release_read (h : Inv c s) (hpc : s.regs.pc = .release i true)
    (hk : c.kind (c.mtx i) = .shared) :
    Inv c (({ s with mem := { s.mem.updateProf i HtmMutexProfile.updateUnlock with
      rwState := Function.update s.mem.rwState (c.mtx i)
        (rwlockReadUnlock (s.mem.rwState (c.mtx i))) } }).finish i .unlocked none) := by
  have hp := h.good.pc
  simp only [PcOk, hpc] at hp
  obtain ⟨hrw, ho, hst⟩ := hp
  simp only [if_true] at hst
  have hw := (words_shared hk).1 (h.good.words (c.mtx i))
  have hd := h.good.depth
  simp only [hpc, Pc.closing, Pc.opening, Pc.acquiring, Pc.releasing] at hd hw
  have hS : holders c (Function.update s.mem.status i .unlocked) (c.mtx i) .lockedShared + 1 =
      holders c s.mem.status (c.mtx i) .lockedShared := holders_unlock c hst .lockedShared nofun
  have hU : holders c (Function.update s.mem.status i .unlocked) (c.mtx i) .lockedUnique =
      holders c s.mem.status (c.mtx i) .lockedUnique := holders_unlock c hst .lockedUnique nofun
  have hE : elided (Function.update s.mem.status i .unlocked) = elided s.mem.status :=
    elided_unlock hst
  refine h.keep (h.good.local (i := i) (by simp [hpc, Pc.handle]) (by simp [Pc.handle])
    (fun m hm => by simp [Function.update_noteq hm]) (fun j hj => by simp [hj])
    (fun j hj => by simp [hj])
    ((words_shared hk).2
      (by simp [hU, Pc.acquiring, Pc.releasing, rwlockReadUnlock, wrapSub]; omega))
    (by simp [Pc.closing, Pc.opening]; omega) (by simp [HandleOk, MutexStatus.canLock_iff]) rfl)
    rfl rfl

/-- `libtle_rwlock_write_unlock` after `wflag` is released: the handle is `UNLOCKED`. -/
theorem Inv.releaseState (h : Inv c s) (hpc : s.regs.pc = .releaseState i) :
    Inv c (({ s with mem := { s.mem.updateProf i HtmMutexProfile.updateUnlock with
      rwState := Function.update s.mem.rwState (c.mtx i)
        (rwlockWriteUnlock (s.mem.rwState (c.mtx i))) } }).finish i .unlocked none) := by
  have hp := h.good.pc
  simp only [PcOk, hpc] at hp
  obtain ⟨hrw, ho, hst, hk⟩ := hp
  have hw := (words_shared hk).1 (h.good.words (c.mtx i))
  have hd := h.good.depth
  simp only [hpc, Pc.closing, Pc.opening, Pc.acquiring, Pc.releasing, decide_True,
    Bool.toNat_true] at hd hw
  have hS : holders c (Function.update s.mem.status i .unlocked) (c.mtx i) .lockedShared =
      holders c s.mem.status (c.mtx i) .lockedShared := holders_unlock c hst .lockedShared nofun
  have hU : holders c (Function.update s.mem.status i .unlocked) (c.mtx i) .lockedUnique + 1 =
      holders c s.mem.status (c.mtx i) .lockedUnique := holders_unlock c hst .lockedUnique nofun
  have hE : elided (Function.update s.mem.status i .unlocked) = elided s.mem.status :=
    elided_unlock hst
  -- clearing the writer bit takes the word down to its readers
  have hand : rwlockWriteUnlock (s.mem.rwState (c.mtx i)) = 4 * (s.mem.rwState (c.mtx i) / 4) :=
    and_not_three (by rw [hw.2.1]; exact Nat.mod_lt _ (Nat.two_pow_pos 32))
  refine h.keep (h.good.local (i := i) (by simp [hpc, Pc.handle]) (by simp [Pc.handle])
    (fun m hm => by simp [Function.update_noteq hm]) (fun j hj => by simp [hj])
    (fun j hj => by simp [hj])
    ((words_shared hk).2 (by simp [hS, hand, Pc.acquiring, Pc.releasing]; omega))
    (by simp [Pc.closing, Pc.opening]; omega) (by simp [HandleOk, MutexStatus.canLock_iff]) rfl)
    rfl rfl

/-- An abort restores the checkpoint, good at depth `0`. -/
theorem Inv.abort (h : Inv c s) {x : Nat} {s' : State H M} (hs : s.abort x = some s') :
    Inv c s' := by
  simp only [State.abort, Option.map_eq_some'] at hs
  obtain ⟨p, hp, rfl⟩ := hs
  have hg := h.ckpt p hp
  exact ⟨⟨hg.words, hg.depth, hg.handles, hg.pc⟩, by simp, by simp⟩

/-- Every step of the thread, every call the program makes and every abort keeps `Inv`. -/
theorem Inv.step (h : Inv c s) {a : Act H} {s' : State H M} (hs : step c s a = some s') :
    Inv c s' := by
  cases a with
  | lock i sh =>
    simp only [Nesting.step] at hs
    split_ifs at hs with hg
    cases hs
    exact h.lock hg.1 hg.2.1 hg.2.2
  | unlock i =>
    cases hpc : s.regs.pc <;> cases ho : s.regs.opened i <;> simp [Nesting.step, hpc, ho] at hs
    subst hs
    exact h.unlock hpc ho
  | abort x =>
    simp only [Nesting.step] at hs
    split_ifs at hs
    exact h.abort hs
  | run =>
    cases hpc : s.regs.pc <;> simp only [Nesting.step, htmMutexLock, htmMutexUnlock, hpc] at hs
    case idle | error => cases hs
    case lockEntry i sh =>
      obtain ⟨hcan, hinv⟩ := h.lockEntry hpc
      simp only [hcan, if_true, Option.some.injEq] at hs
      exact hs ▸ hinv
    case unlockWait i sh =>
      split_ifs at hs with hf
      cases hs
      exact h.unlockWait hpc (by simpa using hf)
    case check i sh =>
      split_ifs at hs
      · exact h.abort hs
      · cases hs; exact h.check hpc
    case aborted i sh => cases hs; exact h.aborted hpc
    case fallback i sh =>
      cases hk : c.kind (c.mtx i) <;> cases sh <;> simp only [hk] at hs
      all_goals first
        | (split_ifs at hs; cases hs; exact h.fallback_spin hpc hk)
        | (cases hs; exact h.fallback_write hpc hk)
        | (cases hs; exact h.fallback_read hpc hk)
    case lockWflag i => cases hs; exact h.lockWflag hpc
    case unlockEntry i sh =>
      rcases h.unlockEntry hpc with ⟨hst, hinv⟩ | ⟨hst, hinv⟩ <;> cases sh <;>
        simp only [hst, if_true, if_false, Bool.false_eq_true, Option.some.injEq] at hs <;>
        exact hs ▸ hinv
    case xend i =>
      obtain ⟨hd, hinv⟩ := h.xend hpc
      simp only [hd, if_false, Option.some.injEq] at hs
      exact hs ▸ hinv
    case committed i => cases hs; exact h.committed hpc
    case release i sh =>
      cases hk : c.kind (c.mtx i) <;> cases sh <;> simp only [hk] at hs <;> cases hs
      exacts [h.release_spin hpc hk, h.release_spin hpc hk, h.release_write hpc hk,
        h.release_read hpc hk]
    case releaseState i => cases hs; exact h.releaseState hpc

theorem Inv.init (p : Fin H → Option HtmMutexProfile) : Inv c (init p) where
  good :=
    { words := fun m => by
        unfold Words
        split <;> simp [Nesting.init, holders, count, spinlockInit, rwlockInit, Pc.acquiring,
          Pc.releasing]
      depth := by simp [Nesting.init, elided, count, Pc.closing, Pc.opening]
      handles := fun j => by simp [Nesting.init, HandleOk, MutexStatus.canLock_iff]
      pc := rfl }
  ckpt_none := by simp [Nesting.init]
  ckpt := by simp [Nesting.init]

theorem Reachable.inv {p : Fin H → Option HtmMutexProfile} (hs : Reachable c p s) : Inv c s := by
  induction hs with
  | init => exact Inv.init p
  | step _ _ hn ih => exact ih.step hn

/-! ## Between calls, and at `_xend` -/

/-- At the commit point of handle `i`, `_xtest()` is `0` exactly when no other handle is
`ELIDED`. -/
theorem Inv.committed_depth (h : Inv c s) (hpc : s.regs.pc = .committed i) :
    s.depth = 0 ↔ ∀ j, j ≠ i → s.mem.status j ≠ .elided := by
  have hp := h.good.pc
  simp only [PcOk, hpc] at hp
  have hd := h.good.depth
  simp only [hpc, Pc.closing, Pc.opening] at hd
  have hE := elided_update s.mem.status i .unlocked
  simp only [hp.2.2, decide_True, Bool.toNat_true, reduceCtorEq, decide_False,
    Bool.toNat_false] at hE
  have hz := count_eq_zero_iff (p := fun st => decide (st = MutexStatus.elided))
    (f := Function.update s.mem.status i .unlocked)
  rw [show s.depth = elided (Function.update s.mem.status i .unlocked) by omega]
  refine hz.trans ⟨fun h0 j hj => by simpa [hj] using h0 j, fun h0 j => ?_⟩
  rcases eq_or_ne j i with rfl | hj
  · simp
  · simpa [hj] using h0 j hj

theorem nested_elision_status_depth {p : Fin H → Option HtmMutexProfile}
    (hs : Reachable c p s) :
    (s.regs.pc = .idle → s.depth = elided s.mem.status ∧
      ∀ m, (c.kind m = .spin → s.mem.spinState m = holders c s.mem.status m .lockedUnique ∧
          holders c s.mem.status m .lockedUnique ≤ 1) ∧
        (c.kind m = .shared → s.mem.wflag m = holders c s.mem.status m .lockedUnique ∧
          s.mem.rwState m = (4 * holders c s.mem.status m .lockedShared +
            holders c s.mem.status m .lockedUnique) % 2 ^ 32 ∧
          holders c s.mem.status m .lockedUnique ≤ 1)) ∧
    (∀ i sh, s.regs.pc = .lockEntry i sh → (s.mem.status i).canLock = true) ∧
    (∀ i sh, s.regs.pc = .unlockEntry i sh → s.mem.status i = .elided ∨
      s.mem.status i = if sh then .lockedShared else .lockedUnique) ∧
    (∀ i, s.regs.pc = .xend i → 0 < s.depth) ∧
    (∀ i, s.regs.pc = .committed i → (s.depth = 0 ↔ ∀ j, j ≠ i → s.mem.status j ≠ .elided)) ∧
    s.regs.pc ≠ .error := by
  have h := hs.inv
  refine ⟨fun hpc => ⟨?_, fun m => ⟨fun hk => ?_, fun hk => ?_⟩⟩,
    fun i sh hpc => (h.lockEntry hpc).1, fun i sh hpc => ?_,
    fun i hpc => Nat.pos_of_ne_zero (h.xend hpc).1, fun i hpc => h.committed_depth hpc,
    fun hpc => by simpa [PcOk, hpc] using h.good.pc⟩
  · simpa [hpc, Pc.closing, Pc.opening] using h.good.depth
  · simpa [hpc] using (words_spin hk).1 (h.good.words m)
  · simpa [hpc, Pc.acquiring, Pc.releasing] using (words_shared hk).1 (h.good.words m)
  · rcases h.unlockEntry hpc with ⟨hst, -⟩ | ⟨hst, -⟩
    exacts [.inl hst, .inr hst]

end Invariant

end Nesting
end LibTle
