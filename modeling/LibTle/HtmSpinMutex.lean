import LibTle.Htm
import LibTle.Spinlock

/-!
# `libtle_htm_spin_mutex_t` under transactional memory

`N` threads run the test program of the library, `lock(); c := c + 1; unlock()`, `K`
times each, every thread through its own handle on one HTM spin mutex. The HTM extension
`isa` (RTM on x86-64, TME on AArch64) fixes the abort statuses and the retry test; the
fallback word `state` is the test-and-set lock that both builds' `libtle_spinlock_lock`
refine (`AsmRefinement`), in the AArch64 encoding (`0` free). The model keeps the code's
data: the fallback word, the handle status, `num_retries`, the `_xbegin` status and the
profile.

* `htmSpinMutexLock` and `htmSpinMutexUnlock` are the two functions of `mutex.h`, one
  atomic step at a time, for the debug build and for the release (`NDEBUG`) build, where
  unlock tests `libtle_spinlock_is_locked(&mtx->state)` instead of the status.
* The hardware: a transaction buffers its store to `c`, records the locations it reads,
  and aborts (status restored, store dropped, `_xbegin` returning a status other than
  `_XBEGIN_STARTED`) when it is scheduled to, or when another thread stores to a
  location it read or wrote (`Thread.abortOn`).
* `Inv`, an invariant of every reachable state, from which the results follow: one
  thread at most holds `state`, never while another is past its in-transaction check,
  and the release build's unlock branches as the debug build's does.
-/

namespace LibTle
namespace HtmSpinMutex

/-! ## Threads -/

/-- Where a thread is in the test program and in the two functions. -/
inductive Pc
  /-- between two sections -/
  | idle
  /-- `assert(st->status <= LIBTLE_MUTEX_STATUS_UNLOCKED)` -/
  | lockEntry
  /-- `libtle_spinlock_unlock_wait(&mtx->state)` -/
  | unlockWait
  /-- `xstatus = _xbegin()` -/
  | xbegin
  /-- in the transaction: `if (libtle_spinlock_is_locked(&mtx->state)) _xabort(...)` -/
  | check
  /-- `++num_retries`, the profile update and the loop condition -/
  | aborted
  /-- `libtle_spinlock_lock(&mtx->state)` -/
  | fallback
  /-- `st->status = LIBTLE_MUTEX_STATUS_LOCKED_UNIQUE` -/
  | setUnique
  /-- the section's load of `c` -/
  | csRead
  /-- the section's store `c = v + 1` -/
  | csWrite
  /-- the test on entry to unlock: `switch (st->status)`, or `is_locked` under `NDEBUG` -/
  | unlockEntry
  /-- `NDEBUG`: `libtle_spinlock_unlock(&mtx->state)` -/
  | release
  /-- `NDEBUG`: `_xend()` -/
  | commit
  /-- after the unlock store: the profile update and `st->status = UNLOCKED` -/
  | released
  /-- after `_xend()`: `if (p && !_xtest())` the profile update, `st->status = UNLOCKED` -/
  | committed
  /-- a failed assertion, or `_xend()` outside a transaction -/
  | error
  deriving DecidableEq, Repr

/-- A live transaction: the handle status to restore on abort, its read set, and its
buffered store to `c`. -/
structure Txn where
  saved : MutexStatus
  readsState : Bool
  readsC : Bool
  bufC : Option Nat
  deriving DecidableEq, Repr

/-- A thread: its position, its handle status, its transaction, the locals
`num_retries` and `xstatus`, the section's register `v`, its profile (`p`, possibly
null), and the number of sections it has still to start. -/
structure Thread where
  pc : Pc
  status : MutexStatus
  txn : Option Txn
  retries : Nat
  xstatus : Nat
  v : Nat
  prof : Option HtmMutexProfile
  todo : Nat
  deriving DecidableEq, Repr

/-- A store to shared memory. -/
inductive Store
  | state (w : Int)
  | c (v : Nat)
  deriving DecidableEq, Repr

/-- What the scheduled thread does: its next instruction, a `_xbegin` that fails without
starting, or an abort of its transaction by the hardware. -/
inductive Act
  | run
  | fail
  | abort
  deriving DecidableEq, Repr

/-- Whether a store conflicts with the transaction: it hits its read or write set. -/
def Txn.conflicts (tx : Txn) : Store → Bool
  | .state _ => tx.readsState
  | .c _ => tx.readsC || tx.bufC.isSome

/-- The hardware aborts transaction `tx` with status `x`: the handle status written in it
and its buffered store are dropped, and `_xbegin` returns `x`. -/
def Thread.rollback (th : Thread) (tx : Txn) (x : Nat) : Thread :=
  { th with pc := .aborted, txn := none, status := tx.saved, xstatus := x }

/-- Another thread's store `w`: a transaction it conflicts with aborts with status `x`. -/
def Thread.abortOn (th : Thread) (w : Option Store) (x : Nat) : Thread :=
  match th.txn, w with
  | some tx, some w => if tx.conflicts w then th.rollback tx x else th
  | _, _ => th

/-! ## The two functions -/

/-- `_xend()`: commits the transaction and publishes its store, or faults outside one. -/
def xend (th : Thread) : Thread × Option Store :=
  match th.txn with
  | some tx => ({ th with pc := .committed, txn := none }, tx.bufC.map .c)
  | none => ({ th with pc := .error }, none)

/-- One step of `libtle_htm_spin_mutex_lock` with retry limit `R`, on the word `st`;
`x` is the status of a failed `_xbegin`. -/
def htmSpinMutexLock (isa : HtmIsa) (R : Nat) (nd : Bool) (st : Int) (th : Thread) (a : Act)
    (x : Nat) : Option (Thread × Option Store) :=
  match th.pc, a with
  | .lockEntry, .run =>
    some (if nd || th.status.canLock then { th with pc := .unlockWait, retries := 0 }
      else { th with pc := .error }, none)
  | .unlockWait, .run =>
    if spinlockIsLocked .aarch64 st then none else some ({ th with pc := .xbegin }, none)
  | .xbegin, .run => some ({ th with pc := .check, txn := some ⟨th.status, false, false, none⟩ }, none)
  | .xbegin, .fail => some ({ th with pc := .aborted, xstatus := x }, none)
  | .check, .run =>
    th.txn.map fun tx =>
      if spinlockIsLocked .aarch64 st then
        (th.rollback tx (xabortStatus isa (lockIsLockedCode isa) 1), none)
      else ({ th with
        pc := .csRead, txn := some { tx with readsState := true },
        status := if nd then th.status else .elided }, none)
  | .aborted, .run =>
    some ({ th with
      pc := if xbeginRestart isa th.xstatus && th.retries + 1 < R then .unlockWait else .fallback,
      retries := th.retries + 1,
      prof := th.prof.map fun p => p.updateAbort isa th.xstatus }, none)
  | .fallback, .run =>
    -- the AArch64 `ldaxr`/`stxr` loop stores `1` only over `0`
    if st = 0 then some ({ th with pc := if nd then .csRead else .setUnique }, some (.state 1))
    else none
  | .setUnique, .run => some ({ th with pc := .csRead, status := .lockedUnique }, none)
  | _, _ => none

/-- One step of `libtle_htm_spin_mutex_unlock`, debug build (`nd = false`) or `NDEBUG`. -/
def htmSpinMutexUnlock (nd : Bool) (st : Int) (th : Thread) : Option (Thread × Option Store) :=
  match th.pc with
  | .unlockEntry =>
    if nd then
      some ({ th with pc := if spinlockIsLocked .aarch64 st then .release else .commit,
                      txn := th.txn.map fun tx => { tx with readsState := true } }, none)
    else match th.status with
      | .elided => some (xend th)
      | .lockedUnique => some ({ th with pc := .released }, some (.state (spinlockUnlock .aarch64)))
      | _ => some ({ th with pc := .error }, none)
  | .release => some ({ th with pc := .released }, some (.state (spinlockUnlock .aarch64)))
  | .commit => some (xend th)
  | .released =>
    some ({ th with pc := .idle, prof := th.prof.map HtmMutexProfile.updateUnlock,
                    status := if nd then th.status else .unlocked }, none)
  | .committed =>
    some ({ th with pc := .idle,
                    prof := if th.txn.isNone then th.prof.map HtmMutexProfile.updateCommit
                      else th.prof,
                    status := if nd then th.status else .unlocked }, none)
  | _ => none

/-- One step of a thread: the test program around the two functions, or an abort. -/
def step (isa : HtmIsa) (R : Nat) (nd : Bool) (st : Int) (c : Nat) (th : Thread) (a : Act)
    (x : Nat) : Option (Thread × Option Store) :=
  match a, th.pc with
  | .abort, _ => th.txn.map fun tx => (th.rollback tx x, none)
  | .run, .idle =>
    if th.todo = 0 then none else some ({ th with pc := .lockEntry, todo := th.todo - 1 }, none)
  | .run, .csRead =>
    some ({ th with pc := .csWrite, v := (th.txn.bind Txn.bufC).getD c,
                    txn := th.txn.map fun tx => { tx with readsC := true } }, none)
  | .run, .csWrite =>
    match th.txn with
    | some tx => some ({ th with pc := .unlockEntry, txn := some { tx with bufC := some (th.v + 1) } }, none)
    | none => some ({ th with pc := .unlockEntry }, some (.c (th.v + 1)))
  | .run, .unlockEntry | .run, .release | .run, .commit | .run, .released
  | .run, .committed => htmSpinMutexUnlock nd st th
  | _, _ => htmSpinMutexLock isa R nd st th a x

/-- An abort rolls back the thread's transaction, if it has one, whatever its position. -/
theorem step_abort (isa : HtmIsa) (R : Nat) (nd : Bool) (st : Int) (c : Nat) (th : Thread)
    (x : Nat) : step isa R nd st c th .abort x = th.txn.map fun tx => (th.rollback tx x, none) := rfl

/-! ## The system -/

/-- The fallback word, the counter and `N` threads. -/
structure State (N : Nat) where
  state : Int
  c : Nat
  th : Fin N → Thread

variable {N : Nat} {isa : HtmIsa}

/-- `libtle_htm_spin_mutex_init`, `c = 0`, and every handle `UNKNOWN` with `K` sections
to run and the profile `p`. -/
def init (N K : Nat) (p : Option HtmMutexProfile) : State N :=
  ⟨spinlockInit .aarch64, 0, fun _ => ⟨.idle, .unknown, none, 0, 0, 0, p, K⟩⟩

/-- Thread `t` moves to `th` and makes the store `w`, if any, which aborts the
transactions it conflicts with, the one of thread `u` with status `x u`. -/
def State.apply (s : State N) (t : Fin N) (th : Thread) (w : Option Store) (x : Fin N → Nat) :
    State N where
  state := match w with
    | some (.state v) => v
    | _ => s.state
  c := match w with
    | some (.c v) => v
    | _ => s.c
  th := Function.update (fun u => (s.th u).abortOn w (x u)) t th

/-- Thread `t` takes a step. A transaction of thread `u` that fails or aborts in it, by
`t`'s own `_xbegin` or abort or by a store of `t` it conflicts with, gets the status `x u`,
never `_XBEGIN_STARTED`. -/
def next (isa : HtmIsa) (R : Nat) (nd : Bool) (s : State N) (t : Fin N) (a : Act)
    (x : Fin N → Nat) : Option (State N) :=
  if ∃ u, x u = xbeginStarted isa then none
  else (step isa R nd s.state s.c (s.th t) a (x t)).map fun r => s.apply t r.1 r.2 x

/-- The states reachable from `init N K p` with retry limit `R` in build `nd`. -/
inductive Reachable (isa : HtmIsa) (R : Nat) (nd : Bool) (K : Nat)
    (p : Option HtmMutexProfile) : State N → Prop
  | init : Reachable isa R nd K p (init N K p)
  | step {s s' : State N} (t : Fin N) (a : Act) (x : Fin N → Nat) :
    Reachable isa R nd K p s → next isa R nd s t a x = some s' → Reachable isa R nd K p s'

/-! ## Ghost state -/

/-- The thread holds the fallback word: it stored `1` there and has not stored `0` back. -/
def Thread.holds (th : Thread) : Bool :=
  th.txn.isNone && match th.pc with
    | .setUnique | .csRead | .csWrite | .unlockEntry | .release => true
    | _ => false

/-- `1` while the thread's section has started and its increment is not yet in `c`. -/
def Thread.pending (th : Thread) : Nat :=
  match th.pc with
  | .idle | .release | .released | .committed => 0
  | .unlockEntry | .commit => th.txn.isSome.toNat
  | _ => 1

/-- The increments the thread has still to make visible. -/
def Thread.left (th : Thread) : Nat := th.todo + th.pending

@[simp] theorem Thread.rollback_txn (th : Thread) (tx : Txn) (x : Nat) :
    (th.rollback tx x).txn = none := rfl

@[simp] theorem Thread.rollback_holds (th : Thread) (tx : Txn) (x : Nat) :
    (th.rollback tx x).holds = false := rfl

theorem Thread.holds_of_txn {th : Thread} {tx : Txn} (h : th.txn = some tx) :
    th.holds = false := by
  simp [Thread.holds, h]

/-! ## The shape of a thread -/

/-- A transaction inside the section: it read `state`, and it restores a status from
which a lock may start. -/
def Txn.InCs (tx : Txn) : Prop := tx.readsState = true ∧ tx.saved.canLock = true

/-- In the section: on the fallback path (status `LOCKED_UNIQUE` in the debug build), or
in a transaction past its check (status `ELIDED`) whose read and write sets satisfy `P`. -/
def Thread.Cs (th : Thread) (nd : Bool) (P : Txn → Prop) : Prop :=
  (th.txn = none ∧ (nd = true ∨ th.status = .lockedUnique)) ∨
  (∃ tx, th.txn = some tx ∧ tx.InCs ∧ P tx ∧ (nd = true ∨ th.status = .elided))

/-- What each position says of the thread's transaction and handle status. The release
build never writes the status. -/
def Thread.Ok (nd : Bool) (th : Thread) : Prop :=
  (nd = true → th.status = .unknown ∧ ∀ tx, th.txn = some tx → tx.saved = .unknown) ∧
  match th.pc with
  | .idle | .lockEntry | .unlockWait | .xbegin | .aborted | .fallback =>
    th.txn = none ∧ th.status.canLock = true
  | .setUnique => nd = false ∧ th.txn = none ∧ th.status.canLock = true
  | .check => ∃ tx, th.txn = some tx ∧ tx.saved = th.status ∧ th.status.canLock = true ∧
      tx.readsC = false ∧ tx.bufC = none
  | .csRead => th.Cs nd fun tx => tx.readsC = false ∧ tx.bufC = none
  | .csWrite => th.Cs nd fun tx => tx.readsC = true ∧ tx.bufC = none
  | .unlockEntry => th.Cs nd fun tx => tx.readsC = true ∧ tx.bufC.isSome = true
  | .release => nd = true ∧ th.txn = none
  | .commit => nd = true ∧ ∃ tx, th.txn = some tx ∧ tx.InCs ∧ tx.readsC = true ∧
      tx.bufC.isSome = true
  | .released => th.txn = none ∧ (nd = true ∨ th.status = .lockedUnique)
  | .committed => th.txn = none ∧ (nd = true ∨ th.status = .elided)
  | .error => False

/-- A live transaction restores a status a lock may start from, and its section has not
made its increment visible. -/
theorem Thread.Ok.of_txn {nd : Bool} {th : Thread} {tx : Txn} (h : th.Ok nd)
    (htx : th.txn = some tx) : tx.saved.canLock = true ∧ th.pending = 1 := by
  obtain ⟨-, h⟩ := h
  cases hpc : th.pc <;> simp only [hpc, Thread.Cs, Txn.InCs] at h <;>
    simp_all [Thread.pending]

theorem Thread.Ok.rollback {nd : Bool} {th : Thread} {tx : Txn} (h : th.Ok nd)
    (htx : th.txn = some tx) (x : Nat) : (th.rollback tx x).Ok nd := by
  have hs := (h.of_txn htx).1
  refine ⟨fun hnd => ⟨(h.1 hnd).2 tx htx, by simp⟩, ?_⟩
  simpa [Thread.rollback] using hs

/-- A thread is either untouched by a store or rolled back from a live transaction. -/
theorem Thread.abortOn_cases (th : Thread) (w : Option Store) (x : Nat) :
    th.abortOn w x = th ∨ ∃ tx, th.txn = some tx ∧ th.abortOn w x = th.rollback tx x := by
  unfold Thread.abortOn
  split
  · split
    · exact .inr ⟨_, ‹_›, rfl⟩
    · exact .inl rfl
  · exact .inl rfl

theorem Thread.holds_abortOn (th : Thread) (w : Option Store) (x : Nat) :
    (th.abortOn w x).holds = th.holds := by
  rcases th.abortOn_cases w x with h | ⟨tx, htx, h⟩ <;> rw [h]
  simp [Thread.holds, htx, Thread.rollback]

theorem Thread.Ok.abortOn {nd : Bool} {th : Thread} (h : th.Ok nd) (w : Option Store)
    (x : Nat) : (th.abortOn w x).Ok nd ∧ (th.abortOn w x).left = th.left := by
  rcases th.abortOn_cases w x with hr | ⟨tx, htx, hr⟩ <;> rw [hr]
  · exact ⟨h, rfl⟩
  · exact ⟨h.rollback htx x, by rw [Thread.left, Thread.left, (h.of_txn htx).2]; rfl⟩

/-- A transaction that survives a store does not conflict with it, and its thread is
untouched. -/
theorem Thread.abortOn_of_txn {th : Thread} {w : Option Store} {x : Nat} {tx : Txn}
    (h : (th.abortOn w x).txn = some tx) :
    th.abortOn w x = th ∧ th.txn = some tx ∧ ∀ v, w = some v → tx.conflicts v = false := by
  unfold Thread.abortOn at *
  split at *
  · split at * <;> simp_all
  · simp_all

/-! ## The invariant -/

section Invariant

variable {nd : Bool} {total : Nat} {s : State N} {t : Fin N} {th : Thread}
  {w : Option Store} {x : Fin N → Nat}

@[simp] theorem State.apply_th_self : (s.apply t th w x).th t = th := by simp [State.apply]

theorem State.apply_th_ne {u : Fin N} (h : u ≠ t) :
    (s.apply t th w x).th u = (s.th u).abortOn w (x u) := by simp [State.apply, h]

/-- Only a store to `state` changes it, and only a store to `c` changes `c`. -/
theorem State.apply_state_c (s : State N) (t : Fin N) (th : Thread) (w : Option Store)
    (x : Fin N → Nat) :
    ((s.apply t th w x).state = s.state ∨ ∃ v, w = some (.state v)) ∧
    ((s.apply t th w x).c = s.c ∨ ∃ v, w = some (.c v)) := by
  rcases w with _ | ⟨v⟩ | ⟨v⟩ <;> simp [State.apply]

@[simp] theorem State.apply_none_state : (s.apply t th none x).state = s.state := rfl
@[simp] theorem State.apply_none_c : (s.apply t th none x).c = s.c := rfl
@[simp] theorem State.apply_state_state {v : Int} :
    (s.apply t th (some (.state v)) x).state = v := rfl
@[simp] theorem State.apply_state_c' {v : Int} : (s.apply t th (some (.state v)) x).c = s.c := rfl
@[simp] theorem State.apply_c_state {v : Nat} : (s.apply t th (some (.c v)) x).state = s.state :=
  rfl
@[simp] theorem State.apply_c_c {v : Nat} : (s.apply t th (some (.c v)) x).c = v := rfl

/-- The invariant of every reachable state, with `total` sections to run in all: the
shape of every thread; `state` counts the holders, at most one; a transaction that read
`state` saw it free; `c` plus the increments still to come is `total`; and a section's
register holds the current `c` when it stores. -/
structure Inv (nd : Bool) (total : Nat) (s : State N) : Prop where
  ok : ∀ t, (s.th t).Ok nd
  word : s.state = count Thread.holds s.th
  word_le : s.state ≤ 1
  subscribed : ∀ t tx, (s.th t).txn = some tx → tx.readsState = true → s.state = 0
  sum : s.c + ∑ t, (s.th t).left = total
  holder_v : ∀ t, (s.th t).holds = true → (s.th t).pc = .csWrite → (s.th t).v = s.c
  txn_c : ∀ t tx, (s.th t).txn = some tx → tx.readsC = true →
    ((s.th t).pc = .csWrite → (s.th t).v = s.c) ∧
    (tx.bufC.isSome = true → tx.bufC = some (s.c + 1))

/-- A step of thread `t` keeps the invariant if it does so at `t`; what the step's store
does to the other threads is dealt with here, once. -/
theorem Inv.apply (h : Inv nd total s) (hok : th.Ok nd)
    (hword : (s.apply t th w x).state + ((s.th t).holds.toNat : Int) =
      s.state + th.holds.toNat)
    (hle : (s.apply t th w x).state ≤ 1)
    (hsub : ∀ tx, th.txn = some tx → tx.readsState = true → (s.apply t th w x).state = 0)
    (hsum : (s.apply t th w x).c + th.left = s.c + (s.th t).left)
    (hv : th.holds = true → th.pc = .csWrite → th.v = (s.apply t th w x).c)
    (hc : ∀ tx, th.txn = some tx → tx.readsC = true →
      (th.pc = .csWrite → th.v = (s.apply t th w x).c) ∧
      (tx.bufC.isSome = true → tx.bufC = some ((s.apply t th w x).c + 1)))
    (hown : (s.apply t th w x).c ≠ s.c → ∀ u, u ≠ t → (s.th u).holds = false) :
    Inv nd total (s.apply t th w x) where
  ok u := by
    rcases eq_or_ne u t with rfl | hu
    · simpa using hok
    · rw [State.apply_th_ne hu]; exact ((h.ok u).abortOn w (x u)).1
  word := by
    have hc := count_add_of_eq_off (p := Thread.holds) (f := s.th) (g := (s.apply t th w x).th)
      t fun u hu => by rw [State.apply_th_ne hu, Thread.holds_abortOn]
    rw [State.apply_th_self] at hc
    have := h.word
    omega
  word_le := hle
  subscribed u tx htx hr := by
    rcases eq_or_ne u t with rfl | hu
    · exact hsub tx (by simpa using htx) hr
    rw [State.apply_th_ne hu] at htx
    obtain ⟨-, htx, hno⟩ := Thread.abortOn_of_txn htx
    rcases (s.apply_state_c t th w x).1 with hs | ⟨v, rfl⟩
    · rw [hs]; exact h.subscribed u tx htx hr
    · simp [Txn.conflicts, hr] at hno
  sum := by
    have hs := sum_add_of_eq_off (f := fun u => (s.th u).left)
      (g := fun u => ((s.apply t th w x).th u).left) t fun u hu => by
        dsimp only; rw [State.apply_th_ne hu]; exact ((h.ok u).abortOn w (x u)).2
    simp only [State.apply_th_self] at hs
    have := h.sum
    omega
  holder_v u hh hpc := by
    rcases eq_or_ne u t with rfl | hu
    · simpa using hv (by simpa using hh) (by simpa using hpc)
    rw [State.apply_th_ne hu] at hh hpc ⊢
    rw [Thread.holds_abortOn] at hh
    rcases (s.th u).abortOn_cases w (x u) with he | ⟨tx, -, he⟩ <;> rw [he] at hpc ⊢
    · have hc : (s.apply t th w x).c = s.c := by_contra fun hne => by simp [hown hne u hu] at hh
      rw [hc]; exact h.holder_v u hh hpc
    · simp [Thread.rollback] at hpc
  txn_c u tx htx hr := by
    rcases eq_or_ne u t with rfl | hu
    · simpa using hc tx (by simpa using htx) hr
    rw [State.apply_th_ne hu] at htx ⊢
    obtain ⟨he, htx, hno⟩ := Thread.abortOn_of_txn htx
    rw [he]
    rcases (s.apply_state_c t th w x).2 with hs | ⟨v, rfl⟩
    · rw [hs]; exact h.txn_c u tx htx hr
    · simp [Txn.conflicts, hr] at hno

/-- A step that stores nothing keeps the invariant if the thread keeps its facts. -/
theorem Inv.apply_none (h : Inv nd total s) (hok : th.Ok nd)
    (hholds : th.holds = (s.th t).holds)
    (hsub : ∀ tx, th.txn = some tx → tx.readsState = true → s.state = 0)
    (hleft : th.left = (s.th t).left)
    (hv : th.holds = true → th.pc = .csWrite → th.v = s.c)
    (hc : ∀ tx, th.txn = some tx → tx.readsC = true →
      (th.pc = .csWrite → th.v = s.c) ∧ (tx.bufC.isSome = true → tx.bufC = some (s.c + 1))) :
    Inv nd total (s.apply t th none x) :=
  h.apply hok (by simp [hholds]) (by simpa using h.word_le) (by simpa using hsub)
    (by simp [hleft]) (by simpa using hv) (by simpa using hc) (by simp)

/-- A step outside a transaction that stores nothing keeps the invariant if the thread
keeps its hold on `state` and its count of increments. -/
theorem Inv.apply_local (h : Inv nd total s) (hok : th.Ok nd) (htx : th.txn = none)
    (hholds : th.holds = (s.th t).holds) (hleft : th.left = (s.th t).left)
    (hv : th.holds = true → th.pc = .csWrite → th.v = s.c) :
    Inv nd total (s.apply t th none x) :=
  h.apply_none hok hholds (by simp [htx]) hleft hv (by simp [htx])

/-- `state` counts the holders and is at most `1`: a holder is the only one. -/
theorem Inv.not_holds (h : Inv nd total s) (ht : (s.th t).holds = true) {u : Fin N}
    (hu : u ≠ t) : (s.th u).holds = false := by
  have hw := h.word
  have hle := h.word_le
  cases hh : (s.th u).holds
  · rfl
  · exact absurd (eq_of_count_le_one (by omega) hh ht) hu

/-- While some transaction has `state` in its read set, nobody holds it. -/
theorem Inv.not_holds_of_txn (h : Inv nd total s) {tx : Txn} (htx : (s.th t).txn = some tx)
    (hr : tx.readsState = true) (u : Fin N) : (s.th u).holds = false := by
  have hw := h.word
  have h0 := h.subscribed t tx htx hr
  exact count_eq_zero_iff.1 (by omega) u

theorem Inv.state_eq_one (h : Inv nd total s) (ht : (s.th t).holds = true) : s.state = 1 := by
  have hw := h.word
  have hle := h.word_le
  have := count_pos_iff.2 ⟨t, ht⟩
  omega

theorem next_eq_some {R : Nat} {a : Act} {s' : State N} (h : next isa R nd s t a x = some s') :
    ∃ th w, step isa R nd s.state s.c (s.th t) a (x t) = some (th, w) ∧ s' = s.apply t th w x := by
  unfold next at h
  split_ifs at h
  obtain ⟨⟨th, w⟩, hr, rfl⟩ := Option.map_eq_some'.1 h
  exact ⟨th, w, hr, rfl⟩

/-- The hardware aborts thread `t`'s transaction. -/
theorem Inv.rollback (h : Inv nd total s) {tx : Txn} (htx : (s.th t).txn = some tx) (y : Nat) :
    Inv nd total (s.apply t ((s.th t).rollback tx y) none x) :=
  h.apply_none ((h.ok t).rollback htx y) (by rw [Thread.rollback_holds, Thread.holds_of_txn htx])
    (by simp) (by rw [Thread.left, Thread.left, ((h.ok t).of_txn htx).2]; rfl) (by simp) (by simp)

/-- A step of `htmSpinMutexLock` keeps the invariant. -/
theorem Inv.lock {R : Nat} {a : Act} (h : Inv nd total s)
    (hr : htmSpinMutexLock isa R nd s.state (s.th t) a (x t) = some (th, w)) :
    Inv nd total (s.apply t th w x) := by
  have hok := h.ok t
  unfold htmSpinMutexLock at hr
  cases a <;> cases hpc : (s.th t).pc <;>
    simp only [hpc, reduceCtorEq] at hr <;> simp only [Thread.Ok, hpc] at hok
  case run.lockEntry =>
    simp only [hok.2.2, Bool.or_true, if_true, Option.some.injEq, Prod.mk.injEq] at hr
    obtain ⟨rfl, rfl⟩ := hr
    exact h.apply_local hok hok.2.1 (by simp [Thread.holds, hpc])
      (by simp [Thread.left, Thread.pending, hpc]) (fun _ => nofun)
  case run.unlockWait =>
    split at hr <;> simp only [Option.some.injEq, Prod.mk.injEq, reduceCtorEq] at hr
    obtain ⟨rfl, rfl⟩ := hr
    exact h.apply_local hok hok.2.1 (by simp [Thread.holds, hpc])
      (by simp [Thread.left, Thread.pending, hpc]) (fun _ => nofun)
  case run.xbegin =>
    -- the transaction starts with empty read and write sets
    simp only [Option.some.injEq, Prod.mk.injEq] at hr
    obtain ⟨rfl, rfl⟩ := hr
    exact h.apply_none
      ⟨fun hn => ⟨(hok.1 hn).1, by rintro _ ⟨⟩; exact (hok.1 hn).1⟩, _, rfl, rfl,
        hok.2.2, rfl, rfl⟩
      (by simp [Thread.holds, hpc]) (by rintro _ ⟨⟩ ⟨⟩)
      (by simp [Thread.left, Thread.pending, hpc]) (fun _ => nofun) (by rintro _ ⟨⟩ ⟨⟩)
  case fail.xbegin =>
    -- `_xbegin` fails and returns the abort status
    simp only [Option.some.injEq, Prod.mk.injEq] at hr
    obtain ⟨rfl, rfl⟩ := hr
    exact h.apply_local hok hok.2.1 (by simp [Thread.holds, hpc])
      (by simp [Thread.left, Thread.pending, hpc]) (fun _ => nofun)
  case run.check =>
    -- the check aborts the transaction, or adds `state`, free, to its read set
    obtain ⟨hnd, tx, htx, hsv, hcan, hrc, hbuf⟩ := hok
    rw [htx] at hr
    simp only [Option.map_some', Option.some.injEq] at hr
    split at hr <;> obtain ⟨rfl, rfl⟩ := hr
    · exact h.rollback htx _
    · rename_i hl
      refine h.apply_none
        ⟨fun hn => ?_, .inr ⟨_, rfl, ⟨rfl, hsv ▸ hcan⟩, ⟨hrc, hbuf⟩, ?_⟩⟩
        (by simp [Thread.holds, htx]) (fun _ _ _ => by simpa [spinlockIsLocked] using hl)
        (by simp [Thread.left, Thread.pending, hpc]) (fun _ => nofun)
        (by rintro _ ⟨⟩ h'; simp [hrc] at h')
      · subst hn
        exact ⟨(hnd rfl).1, by rintro _ ⟨⟩; exact (hnd rfl).2 tx htx⟩
      · cases nd <;> simp
  case run.aborted =>
    -- the retry waits again, or falls back to the lock
    simp only [Option.some.injEq, Prod.mk.injEq] at hr
    obtain ⟨rfl, rfl⟩ := hr
    split_ifs <;> exact h.apply_local hok hok.2.1 (by simp [Thread.holds, hpc])
      (by simp [Thread.left, Thread.pending, hpc]) (fun _ => nofun)
  case run.fallback =>
    -- the word is free and the thread takes it
    split at hr <;> simp only [Option.some.injEq, Prod.mk.injEq, reduceCtorEq] at hr
    obtain ⟨rfl, rfl⟩ := hr
    rename_i h0
    cases nd
    · exact h.apply ⟨hok.1, rfl, hok.2⟩ (by simp [Thread.holds, hpc, hok.2.1, h0]) (by simp)
        (by simp [hok.2.1]) (by simp [Thread.left, Thread.pending, hpc]) (fun _ => nofun)
        (by simp [hok.2.1]) (fun hne => (hne rfl).elim)
    · exact h.apply ⟨hok.1, .inl ⟨hok.2.1, .inl rfl⟩⟩
        (by simp [Thread.holds, hpc, hok.2.1, h0]) (by simp) (by simp [hok.2.1])
        (by simp [Thread.left, Thread.pending, hpc]) (fun _ => nofun) (by simp [hok.2.1])
        (fun hne => (hne rfl).elim)
  case run.setUnique =>
    simp only [Option.some.injEq, Prod.mk.injEq] at hr
    obtain ⟨rfl, rfl⟩ := hr
    obtain ⟨-, rfl, htx, -⟩ := hok
    exact h.apply_local ⟨nofun, .inl ⟨htx, .inr rfl⟩⟩ htx (by simp [Thread.holds, hpc])
      (by simp [Thread.left, Thread.pending, hpc]) (fun _ => nofun)

/-- A step of `htmSpinMutexUnlock` keeps the invariant. -/
theorem Inv.unlock (h : Inv nd total s)
    (hr : htmSpinMutexUnlock nd s.state (s.th t) = some (th, w)) :
    Inv nd total (s.apply t th w x) := by
  have hok := h.ok t
  unfold htmSpinMutexUnlock at hr
  cases hpc : (s.th t).pc <;> simp only [hpc, reduceCtorEq] at hr <;>
    simp only [Thread.Ok, hpc] at hok
  case unlockEntry =>
    obtain ⟨hnd, ⟨htx, hst⟩ | ⟨tx, htx, hin, ⟨hrc, hbuf⟩, hst⟩⟩ := hok
    · -- the fallback path releases the word; the release build first tests it, held
      have hh : (s.th t).holds = true := by simp [Thread.holds, htx, hpc]
      have h1 := h.state_eq_one hh
      cases nd
      · simp only [Bool.false_eq_true, false_or] at hst
        simp only [Bool.false_eq_true, if_false, reduceIte, hst, Option.some.injEq,
          Prod.mk.injEq] at hr
        obtain ⟨rfl, rfl⟩ := hr
        exact h.apply ⟨nofun, htx, .inr (by simp [hst])⟩
          (by simp [Thread.holds, hpc, htx, h1, spinlockUnlock]) (by simp [spinlockUnlock])
          (by simp [htx]) (by simp [Thread.left, Thread.pending, hpc, htx]) (fun _ => nofun)
          (by simp [htx]) (fun _ u hu => h.not_holds hh hu)
      · have hl : spinlockIsLocked .aarch64 s.state = true := by simp [spinlockIsLocked, h1]
        simp only [if_true, reduceIte, hl, htx, Option.map_none', Option.some.injEq,
          Prod.mk.injEq] at hr
        obtain ⟨rfl, rfl⟩ := hr
        exact h.apply_local ⟨fun hn => ⟨(hnd hn).1, nofun⟩, rfl, rfl⟩ rfl
          (by simp [Thread.holds, hpc, htx]) (by simp [Thread.left, Thread.pending, hpc, htx])
          (fun _ => nofun)
    · -- a transaction commits; the release build first tests the word, free
      have h0 := h.subscribed t tx htx hin.1
      have hb := (h.txn_c t tx htx hrc).2 hbuf
      cases nd
      · simp only [Bool.false_eq_true, false_or] at hst
        simp only [Bool.false_eq_true, if_false, reduceIte, hst, xend, htx, hb,
          Option.map_some', Option.some.injEq, Prod.mk.injEq] at hr
        obtain ⟨rfl, rfl⟩ := hr
        exact h.apply ⟨nofun, rfl, .inr (by simp [hst])⟩ (by simp [Thread.holds, htx])
          (by simpa using h.word_le) (by simp)
          (by simp [Thread.left, Thread.pending, hpc, htx]; omega) (fun _ => nofun) (by simp)
          (fun _ u _ => h.not_holds_of_txn htx hin.1 u)
      · have hl : spinlockIsLocked .aarch64 s.state = false := by simp [spinlockIsLocked, h0]
        simp only [if_true, hl, Bool.false_eq_true, if_false, reduceIte, htx,
          Option.map_some', Option.some.injEq, Prod.mk.injEq] at hr
        obtain ⟨rfl, rfl⟩ := hr
        exact h.apply_none
          ⟨fun hn => ⟨(hnd hn).1, by rintro _ ⟨⟩; exact (hnd hn).2 tx htx⟩, rfl, _, rfl,
            ⟨rfl, hin.2⟩, hrc, hbuf⟩
          (by simp [Thread.holds, htx]) (fun _ _ _ => h0)
          (by simp [Thread.left, Thread.pending, hpc, htx]) (by simp [Thread.holds])
          (by rintro _ ⟨⟩ -; exact ⟨nofun, fun _ => hb⟩)
  case release =>
    -- the release build's fallback path releases the word
    obtain ⟨hnd, rfl, htx⟩ := hok
    have hh : (s.th t).holds = true := by simp [Thread.holds, htx, hpc]
    simp only [Option.some.injEq, Prod.mk.injEq] at hr
    obtain ⟨rfl, rfl⟩ := hr
    exact h.apply ⟨hnd, htx, .inl rfl⟩
      (by simp [Thread.holds, hpc, htx, h.state_eq_one hh, spinlockUnlock])
      (by simp [spinlockUnlock]) (by simp [htx]) (by simp [Thread.left, Thread.pending, hpc])
      (fun _ => nofun) (by simp [htx]) (fun _ u hu => h.not_holds hh hu)
  case commit =>
    -- the release build's transaction commits and publishes its increment
    obtain ⟨hnd, rfl, tx, htx, hin, hrc, hbuf⟩ := hok
    have hb := (h.txn_c t tx htx hrc).2 hbuf
    simp only [xend, htx, hb, Option.map_some', Option.some.injEq, Prod.mk.injEq] at hr
    obtain ⟨rfl, rfl⟩ := hr
    exact h.apply ⟨fun hn => ⟨(hnd hn).1, nofun⟩, rfl, .inl rfl⟩
      (by simp [Thread.holds, htx]) (by simpa using h.word_le) (by simp)
      (by simp [Thread.left, Thread.pending, hpc, htx]; omega) (fun _ => nofun) (by simp)
      (fun _ u _ => h.not_holds_of_txn htx hin.1 u)
  case released | committed =>
    -- the section ends; the debug build writes `UNLOCKED`
    simp only [Option.some.injEq, Prod.mk.injEq] at hr
    obtain ⟨rfl, rfl⟩ := hr
    cases nd
    · exact h.apply_local ⟨nofun, hok.2.1, rfl⟩ hok.2.1 (by simp [Thread.holds, hpc])
        (by simp [Thread.left, Thread.pending, hpc]) (fun _ => nofun)
    · exact h.apply_local ⟨hok.1, hok.2.1, by simp [(hok.1 rfl).1, MutexStatus.canLock_iff]⟩
        hok.2.1 (by simp [Thread.holds, hpc]) (by simp [Thread.left, Thread.pending, hpc])
        (fun _ => nofun)

/-- One step keeps the invariant: the test program's own steps here, the two functions by
`Inv.lock` and `Inv.unlock`, and an abort by `Inv.rollback`. -/
theorem Inv.next {R : Nat} {a : Act} {s' : State N} (h : Inv nd total s)
    (hs : next isa R nd s t a x = some s') : Inv nd total s' := by
  obtain ⟨th, w, hr, rfl⟩ := next_eq_some hs
  clear hs
  have hok := h.ok t
  cases a
  case abort =>
    rw [step_abort] at hr
    cases htx : (s.th t).txn <;> simp only [htx, Option.map_none', Option.map_some',
      reduceCtorEq, Option.some.injEq, Prod.mk.injEq] at hr
    obtain ⟨rfl, rfl⟩ := hr
    exact h.rollback htx (x t)
  all_goals unfold step at hr
  all_goals cases hpc : (s.th t).pc <;> simp only [hpc] at hr
  case run.idle =>
    -- a section starts: one increment moves from `todo` to `pending`
    simp only [Thread.Ok, hpc] at hok
    split at hr <;> simp only [Option.some.injEq, Prod.mk.injEq, reduceCtorEq] at hr
    obtain ⟨rfl, rfl⟩ := hr
    exact h.apply_local hok hok.2.1 (by simp [Thread.holds, hpc])
      (by simp [Thread.left, Thread.pending, hpc]; omega) (fun _ => nofun)
  case run.csRead =>
    -- the section loads `c`, or in a transaction adds it to the read set
    simp only [Thread.Ok, hpc] at hok
    simp only [Option.some.injEq, Prod.mk.injEq] at hr
    obtain ⟨rfl, rfl⟩ := hr
    obtain ⟨hnd, ⟨htx, hst⟩ | ⟨tx, htx, hin, ⟨hrc, hbuf⟩, hst⟩⟩ := hok
    · exact h.apply_local
        ⟨fun hn => ⟨(hnd hn).1, by simp [htx]⟩, .inl ⟨by simp [htx], hst⟩⟩
        (by simp [htx]) (by simp [Thread.holds, hpc, htx])
        (by simp [Thread.left, Thread.pending, hpc]) (fun _ _ => by simp [htx])
    · have h0 := h.subscribed t tx htx hin.1
      exact h.apply_none
        ⟨fun hn => ⟨(hnd hn).1, by simp [htx, (hnd hn).2 tx htx]⟩,
          .inr ⟨{ tx with readsC := true }, by simp [htx], hin, ⟨rfl, hbuf⟩, hst⟩⟩
        (by simp [Thread.holds, htx]) (fun _ _ _ => h0)
        (by simp [Thread.left, Thread.pending, hpc]) (by simp [Thread.holds, htx])
        (by simp [htx, hbuf])
  case run.csWrite =>
    -- the section's store: to `c` on the fallback path, or to the buffer
    simp only [Thread.Ok, hpc] at hok
    obtain ⟨hnd, ⟨htx, hst⟩ | ⟨tx, htx, hin, ⟨hrc, hbuf⟩, hst⟩⟩ := hok <;>
      simp only [htx, Option.some.injEq, Prod.mk.injEq] at hr <;> obtain ⟨rfl, rfl⟩ := hr
    · have hh : (s.th t).holds = true := by simp [Thread.holds, htx, hpc]
      have hv := h.holder_v t hh hpc
      exact h.apply ⟨fun hn => ⟨(hnd hn).1, nofun⟩, .inl ⟨rfl, hst⟩⟩
        (by simp [Thread.holds, hpc, htx]) (by simpa using h.word_le) (by simp)
        (by simp [Thread.left, Thread.pending, hpc, htx, hv]; omega) (fun _ => nofun) (by simp)
        (fun _ u hu => h.not_holds hh hu)
    · have hv := (h.txn_c t tx htx hrc).1 hpc
      have h0 := h.subscribed t tx htx hin.1
      exact h.apply_none
        ⟨fun hn => ⟨(hnd hn).1, by rintro _ ⟨⟩; exact (hnd hn).2 tx htx⟩,
          .inr ⟨_, rfl, hin, ⟨hrc, rfl⟩, hst⟩⟩
        (by simp [Thread.holds, htx]) (fun _ _ _ => h0)
        (by simp [Thread.left, Thread.pending, hpc, htx]) (by simp [Thread.holds])
        (by rintro _ ⟨⟩ -; exact ⟨nofun, fun _ => by rw [hv]⟩)
  case run.unlockEntry | run.release | run.commit | run.released | run.committed =>
    exact h.unlock hr
  all_goals exact h.lock hr

theorem Inv.init (N K : Nat) (p : Option HtmMutexProfile) : Inv nd (N * K) (init N K p) where
  ok _ := by simp [HtmSpinMutex.init, Thread.Ok, MutexStatus.canLock_iff]
  word := by simp [HtmSpinMutex.init, count, Thread.holds, spinlockInit]
  word_le := by simp [HtmSpinMutex.init, spinlockInit]
  subscribed := by simp [HtmSpinMutex.init]
  sum := by simp [HtmSpinMutex.init, Thread.left, Thread.pending, mul_comm]
  holder_v := by simp [HtmSpinMutex.init, Thread.holds]
  txn_c := by simp [HtmSpinMutex.init]

theorem Reachable.inv {R K : Nat} {p : Option HtmMutexProfile} (hs : Reachable isa R nd K p s) :
    Inv nd (N * K) s := by
  induction hs with
  | init => exact Inv.init N K p
  | step _ _ _ _ hn ih => exact ih.next hn

end Invariant

/-! ## Schedules -/

/-- Runs a schedule: each entry names the thread, what it does and the abort statuses. -/
def execute (isa : HtmIsa) (R : Nat) (nd : Bool) : List (Fin N × Act × (Fin N → Nat)) → State N →
    Option (State N)
  | [], s => some s
  | (t, a, x) :: l, s => (next isa R nd s t a x).bind (execute isa R nd l)

theorem Reachable.execute {R K : Nat} {nd : Bool} {p : Option HtmMutexProfile}
    {s s' : State N} :
    ∀ {l : List (Fin N × Act × (Fin N → Nat))}, Reachable isa R nd K p s →
      execute isa R nd l s = some s' → Reachable isa R nd K p s'
  | [], hs, h => by cases h; exact hs
  | (t, a, x) :: l, hs, h => by
    simp only [HtmSpinMutex.execute, Option.bind_eq_some] at h
    obtain ⟨s₁, h₁, h₂⟩ := h
    exact Reachable.execute (hs.step t a x h₁) h₂

/-- A schedule that runs to its end from the initial state reaches the state it ends in. -/
theorem Reachable.execute_getD {R K : Nat} {nd : Bool} {p : Option HtmMutexProfile}
    {l : List (Fin N × Act × (Fin N → Nat))}
    (h : (HtmSpinMutex.execute isa R nd l (HtmSpinMutex.init N K p)).isSome) :
    Reachable isa R nd K p
      ((HtmSpinMutex.execute isa R nd l (HtmSpinMutex.init N K p)).getD (HtmSpinMutex.init N K p)) := by
  obtain ⟨s, hs⟩ := Option.isSome_iff_exists.1 h
  rw [hs]
  exact Reachable.init.execute hs

/-- Two threads, one section each, in the debug build with retry limit `10`. Thread 1 starts
a transaction and passes its check of `state`. Thread 0's `_xbegin` fails with a capacity
abort, which is not restartable, and thread 0 takes the fallback lock; its store to `state`
aborts thread 1's transaction with a restartable conflict. Thread 0 runs its section and
unlocks; thread 1 goes round its loop again, elides its section and commits. -/
def race (isa : HtmIsa) : List (Fin 2 × Act × (Fin 2 → Nat)) :=
  let cap : Fin 2 → Nat := fun _ => xabortCapacity isa
  [(1, .run, cap), (1, .run, cap), (1, .run, cap), (1, .run, cap), (1, .run, cap),
    (0, .run, cap), (0, .run, cap), (0, .run, cap), (0, .fail, cap), (0, .run, cap),
    (0, .run, fun _ => xabortConflict isa ||| xabortRetry isa), (0, .run, cap), (0, .run, cap),
    (0, .run, cap), (0, .run, cap), (0, .run, cap),
    (1, .run, cap), (1, .run, cap), (1, .run, cap), (1, .run, cap), (1, .run, cap),
    (1, .run, cap), (1, .run, cap), (1, .run, cap)]

/-- The state after the first `n` entries of `race`, from profiles that start zeroed. -/
def raceState (isa : HtmIsa) (n : Nat) : State 2 :=
  (execute isa 10 false ((race isa).take n) (init 2 1 (some .init))).getD (init 2 1 (some .init))

/-- The release build: thread 1 elides its section and reaches `_xend`. -/
def elidedCommit : State 2 :=
  (execute .tme 10 true (List.replicate 8 (1, .run, fun _ => xabortCapacity .tme))
    (init 2 1 none)).getD (init 2 1 none)

/-! ## Exclusion, the unlock branch and the count -/

/-- The thread is in its section: `lock` returned and `unlock` has not yet branched. -/
def Thread.InSection (th : Thread) : Prop :=
  th.pc = .csRead ∨ th.pc = .csWrite ∨ th.pc = .unlockEntry

section Results

variable {nd : Bool} {total : Nat} {s : State N}

/-- In its section a thread is on the fallback path, holding `state`, or in a transaction
that has `state` in its read set; in the debug build its status says which. -/
theorem Inv.section (h : Inv nd total s) {t : Fin N} (hsec : (s.th t).InSection) :
    ((s.th t).holds = true ∨ ∃ tx, (s.th t).txn = some tx ∧ tx.readsState = true) ∧
    (nd = false → ((s.th t).status = .lockedUnique ↔ (s.th t).holds = true) ∧
      ((s.th t).status = .elided ↔ ∃ tx, (s.th t).txn = some tx ∧ tx.readsState = true)) := by
  have hok := (h.ok t).2
  rcases hsec with hpc | hpc | hpc <;> simp only [hpc, Thread.Cs, Txn.InCs] at hok <;>
    rcases hok with ⟨htx, hst⟩ | ⟨tx, htx, hin, -, hst⟩ <;>
    cases nd <;> simp_all [Thread.holds]

theorem Inv.holds_unique (h : Inv nd total s) {t u : Fin N} (ht : (s.th t).holds = true)
    (hu : (s.th u).holds = true) : t = u :=
  by_contra fun hne => by simp [h.not_holds ht (Ne.symm hne)] at hu

/-- Exclusion in the debug build: one thread at most holds `state`, none while another
thread's transaction is past its check of `state`; in the section a handle is
`LOCKED_UNIQUE` exactly when its thread holds `state` and `ELIDED` exactly when it is in
such a transaction; so the `_xend` of unlock runs in a live transaction, with `state`
free. -/
theorem htm_spin_mutex_exclusion {R K : Nat} {p : Option HtmMutexProfile}
    (hs : Reachable isa R false K p s) :
    (∀ t u, (s.th t).holds = true → (s.th u).holds = true → t = u) ∧
    (∀ t u tx, (s.th t).holds = true → (s.th u).txn = some tx → tx.readsState = true → False) ∧
    (∀ t, (s.th t).InSection →
      ((s.th t).status = .lockedUnique ↔ (s.th t).holds = true) ∧
      ((s.th t).status = .elided ↔ ∃ tx, (s.th t).txn = some tx ∧ tx.readsState = true)) ∧
    (∀ t, (s.th t).pc = .unlockEntry → (s.th t).status = .elided →
      (s.th t).txn.isSome = true ∧ ∀ u, (s.th u).holds = false) := by
  have h := hs.inv
  refine ⟨fun t u => h.holds_unique, fun t u tx ht htx hr => ?_,
    fun t hsec => (h.section hsec).2 rfl, fun t hpc hst => ?_⟩
  · simp [h.not_holds_of_txn htx hr t] at ht
  · obtain ⟨tx, htx, hr⟩ := ((h.section (.inr (.inr hpc))).2 rfl).2.1 hst
    exact ⟨by simp [htx], h.not_holds_of_txn htx hr⟩

/-- Thread 0 holds the fallback lock in its section; thread 1, whose transaction passed its
check before the lock was taken, has been aborted by thread 0's store. -/
theorem htm_spin_mutex_exclusion_fallback :
    (Reachable .rtm 10 false 1 (some .init) (raceState .rtm 12) ∧
      ((raceState .rtm 12).th 0).pc = .csRead ∧ ((raceState .rtm 12).th 0).holds = true ∧
      ((raceState .rtm 12).th 1).pc = .aborted) ∧
    (∀ t u, ((raceState .rtm 12).th t).holds = true → ((raceState .rtm 12).th u).holds = true → t = u) ∧
    (∀ t u tx, ((raceState .rtm 12).th t).holds = true → ((raceState .rtm 12).th u).txn = some tx → tx.readsState = true → False) ∧
    (∀ t, ((raceState .rtm 12).th t).InSection →
      (((raceState .rtm 12).th t).status = .lockedUnique ↔ ((raceState .rtm 12).th t).holds = true) ∧
      (((raceState .rtm 12).th t).status = .elided ↔ ∃ tx, ((raceState .rtm 12).th t).txn = some tx ∧ tx.readsState = true)) ∧
    (∀ t, ((raceState .rtm 12).th t).pc = .unlockEntry → ((raceState .rtm 12).th t).status = .elided →
      ((raceState .rtm 12).th t).txn.isSome = true ∧ ∀ u, ((raceState .rtm 12).th u).holds = false) :=
  ⟨⟨Reachable.execute_getD rfl, by decide, by decide, by decide⟩,
    htm_spin_mutex_exclusion (Reachable.execute_getD rfl)⟩

/-- In either build, at unlock's test `libtle_spinlock_is_locked(&mtx->state)` is true
exactly when the thread holds `state` and false exactly when it is in a transaction; the
debug build's status gives the same branch. So the release build reaches `_xend` only in
a transaction and `libtle_spinlock_unlock` only holding `state`, and no build reaches an
error. -/
theorem htm_spin_mutex_unlock_branch {R K : Nat} {p : Option HtmMutexProfile}
    (hs : Reachable isa R nd K p s) :
    (∀ t, (s.th t).pc = .unlockEntry →
      (spinlockIsLocked .aarch64 s.state = true ↔ (s.th t).holds = true) ∧
      (spinlockIsLocked .aarch64 s.state = false ↔
        ∃ tx, (s.th t).txn = some tx ∧ tx.readsState = true) ∧
      (nd = false →
        ((s.th t).status = .lockedUnique ↔ spinlockIsLocked .aarch64 s.state = true) ∧
        ((s.th t).status = .elided ↔ spinlockIsLocked .aarch64 s.state = false))) ∧
    (∀ t, (s.th t).pc = .commit → (s.th t).txn.isSome = true) ∧
    (∀ t, (s.th t).pc = .release → (s.th t).holds = true) ∧
    (∀ t, (s.th t).pc ≠ .error) := by
  have h := hs.inv
  have hlocked : ∀ t, (s.th t).InSection →
      (spinlockIsLocked .aarch64 s.state = true ↔ (s.th t).holds = true) ∧
      (spinlockIsLocked .aarch64 s.state = false ↔
        ∃ tx, (s.th t).txn = some tx ∧ tx.readsState = true) := fun t hsec => by
    rcases (h.section hsec).1 with hh | ⟨tx, htx, hr⟩
    · have := h.state_eq_one hh
      simp_all [spinlockIsLocked, Thread.holds]
    · have := h.subscribed t tx htx hr
      simp_all [spinlockIsLocked, Thread.holds_of_txn htx]
  refine ⟨fun t hpc => ?_, fun t hpc => ?_, fun t hpc => ?_, fun t hpc => ?_⟩
  · have hsec : (s.th t).InSection := .inr (.inr hpc)
    refine ⟨(hlocked t hsec).1, (hlocked t hsec).2, fun hnd => ?_⟩
    rw [((h.section hsec).2 hnd).1, ((h.section hsec).2 hnd).2, (hlocked t hsec).1,
      (hlocked t hsec).2]
    exact ⟨Iff.rfl, Iff.rfl⟩
  · have hok := (h.ok t).2
    simp only [hpc] at hok
    obtain ⟨-, tx, htx, -⟩ := hok
    simp [htx]
  · have hok := (h.ok t).2
    simp only [hpc] at hok
    simp [Thread.holds, hpc, hok.2]
  · have hok := (h.ok t).2
    rw [hpc] at hok
    exact hok

/-- Both builds: in the debug build thread 0 is at `unlock` holding the fallback lock, with
thread 1 aborted; in the release build thread 1 is at `_xend` in its transaction. -/
theorem htm_spin_mutex_unlock_branch_both_builds :
    (Reachable .tme 10 false 1 (some .init) (raceState .tme 14) ∧
      ((raceState .tme 14).th 0).pc = .unlockEntry) ∧
    ((∀ t, ((raceState .tme 14).th t).pc = .unlockEntry →
      (spinlockIsLocked .aarch64 (raceState .tme 14).state = true ↔ ((raceState .tme 14).th t).holds = true) ∧
      (spinlockIsLocked .aarch64 (raceState .tme 14).state = false ↔
        ∃ tx, ((raceState .tme 14).th t).txn = some tx ∧ tx.readsState = true) ∧
      (false = false →
        (((raceState .tme 14).th t).status = .lockedUnique ↔ spinlockIsLocked .aarch64 (raceState .tme 14).state = true) ∧
        (((raceState .tme 14).th t).status = .elided ↔ spinlockIsLocked .aarch64 (raceState .tme 14).state = false))) ∧
    (∀ t, ((raceState .tme 14).th t).pc = .commit → ((raceState .tme 14).th t).txn.isSome = true) ∧
    (∀ t, ((raceState .tme 14).th t).pc = .release → ((raceState .tme 14).th t).holds = true) ∧
    (∀ t, ((raceState .tme 14).th t).pc ≠ .error)) ∧
    (Reachable .tme 10 true 1 none elidedCommit ∧ (elidedCommit.th 1).pc = .commit) ∧
    ((∀ t, (elidedCommit.th t).pc = .unlockEntry →
      (spinlockIsLocked .aarch64 elidedCommit.state = true ↔ (elidedCommit.th t).holds = true) ∧
      (spinlockIsLocked .aarch64 elidedCommit.state = false ↔
        ∃ tx, (elidedCommit.th t).txn = some tx ∧ tx.readsState = true) ∧
      (true = false →
        ((elidedCommit.th t).status = .lockedUnique ↔ spinlockIsLocked .aarch64 elidedCommit.state = true) ∧
        ((elidedCommit.th t).status = .elided ↔ spinlockIsLocked .aarch64 elidedCommit.state = false))) ∧
    (∀ t, (elidedCommit.th t).pc = .commit → (elidedCommit.th t).txn.isSome = true) ∧
    (∀ t, (elidedCommit.th t).pc = .release → (elidedCommit.th t).holds = true) ∧
    (∀ t, (elidedCommit.th t).pc ≠ .error)) :=
  ⟨⟨Reachable.execute_getD rfl, by decide⟩, htm_spin_mutex_unlock_branch (Reachable.execute_getD rfl),
    ⟨Reachable.execute_getD rfl, by decide⟩, htm_spin_mutex_unlock_branch (Reachable.execute_getD rfl)⟩

/-- Once every thread has run its `K` sections and is idle, `c = N * K`. -/
theorem Reachable.c_eq_of_done {R K : Nat} {p : Option HtmMutexProfile}
    (hs : Reachable isa R nd K p s) (hdone : ∀ t, (s.th t).pc = .idle ∧ (s.th t).todo = 0) :
    s.c = N * K := by
  have h := hs.inv.sum
  simp [Thread.left, Thread.pending, hdone] at h
  exact h

end Results

end HtmSpinMutex
end LibTle
