import LibTle.HtmSpinSharedMutex
import LibTle.AsmRefinement

/-!
# `libtle_htm_spin_shared_mutex_t` on the AArch64 build

`HtmSpinSharedMutex` runs the portable loops of `libtle_rwlock_write_lock` and
`libtle_rwlock_read_lock`; the AArch64 build of `mutex.h` runs their `asm` blocks instead
(`RwlockAsm`). Here each thread runs those blocks, one instruction a step, with the exclusive
monitor of the architecture: a store of another thread to `state` closes it, and so may the
hardware at any time (`Move.lose`). Every other step is the step of `HtmSpinSharedMutex` on
TME, the HTM extension of the AArch64 build.

`stlxr %w0, %w0, %1`, the store of `read_lock` and of the pending bit in `write_lock`, names one
register as status and data, and the architecture leaves the value it stores UNKNOWN. With the
value `0`:

* a second writer clears the word that the first writer holds, takes it, and runs
  `lock_uncontended(&wflag)` while the first holds `wflag`; both handles are then
  `LOCKED_UNIQUE` in their sections (`htm_spin_shared_mutex_a64_two_writers`);
* a single thread's `lock_shared` returns `LOCKED_SHARED` with the word at `0`: the handle
  says the thread holds a read lock that the word does not record
  (`htm_spin_shared_mutex_a64_shared_unrecorded`).
-/

namespace LibTle
namespace HtmSpinSharedMutexA64

open HtmSpinSharedMutex (Act Pc Store)

/-- Where a thread is in the AArch64 blocks of `rwlock.h`: outside them, or in the block of
`read_lock` or of `write_lock`. -/
inductive Block
  | idle
  | read (c : A64Cpu)
  | write (c : A64Cpu)

/-- A store to `state` by another thread closes the monitor of a thread in a block. -/
def Block.clearMon : Block → Block
  | .idle => .idle
  | .read c => .read { c with mon := false }
  | .write c => .write { c with mon := false }

/-- One instruction of a block on the word `w`: the new word, whether it stored, and the new
block state. A call enters its block with the registers `e` and the constant `1` in `%w2`; a
store-exclusive whose status and data registers are one register stores `u`. -/
def Block.step (w u : Nat) (rd : Bool) (e : A64Cpu) : Block → Nat × Bool × Block
  | .idle =>
    (w, false, if rd then .read { e with pc := 0, val := 1 } else .write { e with pc := 0, val := 1 })
  | .read c =>
    ((a64Step a64ReadLockAsm w u c).1, a64Stores a64ReadLockAsm c,
      .read (a64Step a64ReadLockAsm w u c).2)
  | .write c =>
    ((a64Step a64WriteLockAsm w u c).1, a64Stores a64WriteLockAsm c,
      .write (a64Step a64WriteLockAsm w u c).2)

/-- The block has returned to its caller. -/
def Block.returned : Block → Bool
  | .idle => false
  | .read c => c.pc = a64ReadLockAsm.length
  | .write c => c.pc = a64WriteLockAsm.length

/-- The HTM shared mutex and each thread's block state. -/
structure State (N : Nat) where
  base : HtmSpinSharedMutex.State N
  blk : Fin N → Block

/-- What happens next: thread `t` takes a step of `HtmSpinSharedMutex` (`a`, with the abort
statuses `x`), entering a block with the registers `e` and storing `u` where a store is
UNKNOWN; or the hardware closes thread `t`'s monitor. -/
inductive Move (N : Nat)
  | run (t : Fin N) (a : Act) (x : Fin N → Nat) (e : A64Cpu) (u : Nat)
  | lose (t : Fin N)

variable {N : Nat}

/-- Every monitor but thread `t`'s closes when `w` stores to `state`. -/
def clearOthers (blk : Fin N → Block) (t : Fin N) (w : Option Store) : Fin N → Block :=
  match w with
  | some (.state _) => fun u => if u = t then blk u else (blk u).clearMon
  | _ => blk

/-- Thread `t` takes a step. At `write_lock` and `read_lock` it runs one instruction of the
block, whose store is a store to `state` that aborts the transactions that read it; when the
block returns, the thread goes on as the portable loop's return does. Any other step is the
step of `HtmSpinSharedMutex`. -/
def next (Rw Rr : Nat) (nd : Bool) (s : State N) (t : Fin N) (a : Act) (x : Fin N → Nat) (e : A64Cpu)
    (u : Nat) : Option (State N) :=
  let th := s.base.th t
  if ∃ v, x v = xbeginStarted .tme then none
  else if a = .run ∧ (th.pc = .writeLock ∨ th.pc = .readLock) then
    let r := (s.blk t).step s.base.state u (th.pc = .readLock) e
    let w := if r.2.1 then some (Store.state r.1) else none
    if r.2.2.returned then
      let th' := if th.pc = .readLock then { th with pc := .setShared, rw := .reading }
        else { th with pc := .lockWflag, rw := .writing }
      some ⟨s.base.apply t th' w x, Function.update (clearOthers s.blk t w) t .idle⟩
    else some ⟨s.base.apply t th w x, Function.update (clearOthers s.blk t w) t r.2.2⟩
  else (HtmSpinSharedMutex.step .tme Rw Rr nd s.base.state s.base.wflag s.base.c th a (x t)).map
    fun r => ⟨s.base.apply t r.1 r.2 x, clearOthers s.blk t r.2⟩

/-- The hardware closes thread `t`'s monitor, with no store. -/
def State.lose (s : State N) (t : Fin N) : State N :=
  ⟨s.base, Function.update s.blk t (s.blk t).clearMon⟩

def move (Rw Rr : Nat) (nd : Bool) (s : State N) : Move N → Option (State N)
  | .run t a x e u => next Rw Rr nd s t a x e u
  | .lose t => some (s.lose t)

/-- `libtle_htm_spin_shared_mutex_init`, every thread outside the blocks. -/
def init (N K : Nat) (p : Option HtmMutexProfile) : State N :=
  ⟨HtmSpinSharedMutex.init N K p, fun _ => .idle⟩

/-- The states of the AArch64 build reachable under every interleaving of instructions, in
the debug build (`nd = false`) or with `NDEBUG`. -/
inductive Reachable (Rw Rr : Nat) (nd : Bool) (K : Nat) (p : Option HtmMutexProfile) :
    State N → Prop
  | init : Reachable Rw Rr nd K p (init N K p)
  | step {s s' : State N} (m : Move N) : Reachable Rw Rr nd K p s →
    move Rw Rr nd s m = some s' → Reachable Rw Rr nd K p s'

/-- Runs a schedule of moves; `none` when one of them cannot happen. -/
def execute (Rw Rr : Nat) (nd : Bool) : List (Move N) → State N → Option (State N)
  | [], s => some s
  | m :: l, s => (move Rw Rr nd s m).bind (execute Rw Rr nd l)

theorem Reachable.execute {Rw Rr K : Nat} {nd : Bool} {p : Option HtmMutexProfile}
    {s s' : State N} :
    ∀ {l : List (Move N)}, Reachable Rw Rr nd K p s → execute Rw Rr nd l s = some s' →
      Reachable Rw Rr nd K p s'
  | [], hs, h => by cases h; exact hs
  | m :: l, hs, h => by
    simp only [HtmSpinSharedMutexA64.execute, Option.bind_eq_some] at h
    obtain ⟨s₁, h₁, h₂⟩ := h
    exact Reachable.execute (hs.step m h₁) h₂

/-- A schedule that runs to its end from the initial state reaches the state it ends in. -/
theorem Reachable.execute_getD {Rw Rr K : Nat} {nd : Bool} {p : Option HtmMutexProfile}
    {l : List (Move N)}
    (h : (HtmSpinSharedMutexA64.execute Rw Rr nd l (HtmSpinSharedMutexA64.init N K p)).isSome) :
    Reachable Rw Rr nd K p ((HtmSpinSharedMutexA64.execute Rw Rr nd l
      (HtmSpinSharedMutexA64.init N K p)).getD (HtmSpinSharedMutexA64.init N K p)) := by
  obtain ⟨s, hs⟩ := Option.isSome_iff_exists.1 h
  rw [hs]
  exact Reachable.init.execute hs

/-- Outside the blocks the AArch64 build is `HtmSpinSharedMutex`: a step that does not run an
instruction of `write_lock` or `read_lock` makes the step of the portable model. -/
theorem next_base {Rw Rr : Nat} {nd : Bool} {s : State N} {t : Fin N} {a : Act} {x : Fin N → Nat}
    {e : A64Cpu} {u : Nat}
    (h : ¬(a = .run ∧ ((s.base.th t).pc = .writeLock ∨ (s.base.th t).pc = .readLock))) :
    (next Rw Rr nd s t a x e u).map State.base =
      HtmSpinSharedMutex.next .tme Rw Rr nd s.base t a x := by
  unfold next HtmSpinSharedMutex.next
  by_cases hx : ∃ v, x v = xbeginStarted .tme
  · simp only [hx, if_true, Option.map_none']
  · simp only [hx, h, if_false, Option.map_map]
    rfl

/-! ## The UNKNOWN store

Every schedule below runs the debug build, enters the blocks with `a64Entry` and has every
UNKNOWN store write `0`; a transaction fails at `_xbegin` with `_XABORT_CAPACITY`, whose retry bit is clear, so the
thread falls back to the lock. -/

/-- Thread `t` runs `a`; a failing transaction gets `_XABORT_CAPACITY`. -/
def runZero {N : Nat} (t : Fin N) (a : Act) : Move N :=
  .run t a (fun _ => xabortCapacity .tme) a64Entry 0

/-- Two writers: thread `1` fails its transaction and reaches `write_lock`; thread `0` does the
same, takes the word with `stlxr %w0, %w2` (the word becomes `1`), sets `wflag` and enters its
section. Thread `1` then loads `1`, finds bit `1` clear and stores the pending bit with
`stlxr %w0, %w0`, which writes `0`; it loads `0` and takes the word too. Both run their
sections and unlock. -/
def twoWriters : List (Move 2) :=
  [runZero 1 .run, runZero 1 .run, runZero 1 .run, runZero 1 .fail, runZero 1 .run,
    runZero 0 .run, runZero 0 .run, runZero 0 .run, runZero 0 .fail, runZero 0 .run] ++
  List.replicate 11 (runZero 0 .run) ++ List.replicate 18 (runZero 1 .run) ++
  [runZero 0 .run, runZero 1 .run, runZero 0 .run, runZero 1 .run] ++
  List.replicate 3 (runZero 0 .run) ++ List.replicate 3 (runZero 1 .run)

/-- The state after the first `n` moves of `twoWriters`, each thread with one writer section. -/
def twoWritersState (n : Nat) : State 2 :=
  (execute 1 1 false (twoWriters.take n) (init 2 1 none)).getD (init 2 1 none)

/-- After 37 moves thread `0` holds `wflag` in its section and thread `1` has returned from
`write_lock` and is about to run `lock_uncontended(&wflag)`; after 39 both have stored to
`wflag` and are in their sections. -/
theorem htm_spin_shared_mutex_a64_wflag_overlap :
    (Reachable 1 1 false 1 none (twoWritersState 37) ∧ (twoWritersState 37).base.wflag = 1 ∧
      ((twoWritersState 37).base.th 0).pc = .csRead ∧
      ((twoWritersState 37).base.th 1).pc = .lockWflag) ∧
    (Reachable 1 1 false 1 none (twoWritersState 39) ∧ (twoWritersState 39).base.wflag = 1 ∧
      ∀ t, ((twoWritersState 39).base.th t).pc = .csRead) :=
  ⟨⟨Reachable.execute_getD rfl, by decide, by decide, by decide⟩,
    ⟨Reachable.execute_getD rfl, by decide, by decide⟩⟩

/-- After 39 moves both handles are `LOCKED_UNIQUE` in their sections; both read `c = 0`, and
when both are done `c = 1`, not `2`. -/
theorem htm_spin_shared_mutex_a64_two_writers :
    (Reachable 1 1 false 1 none (twoWritersState 39) ∧
      ∀ t, ((twoWritersState 39).base.th t).pc = .csRead ∧
        ((twoWritersState 39).base.th t).status = .lockedUnique) ∧
    (Reachable 1 1 false 1 none (twoWritersState 49) ∧
      (∀ t, ((twoWritersState 49).base.th t).pc = .idle ∧
        ((twoWritersState 49).base.th t).todo = 0) ∧
      (twoWritersState 49).base.c = 1 ∧ (twoWritersState 49).base.c ≠ 2 * 1) :=
  ⟨⟨Reachable.execute_getD rfl, by decide⟩, ⟨Reachable.execute_getD rfl, by decide, by decide,
    by decide⟩⟩

/-- One reader: its transaction fails, it calls `read_lock`, loads `0`, adds `4` and stores with
`stlxr %w0, %w0`, which writes `0`. -/
def unrecordedReader : List (Move 1) :=
  [runZero 0 .read, runZero 0 .run, runZero 0 .run, runZero 0 .fail] ++
    List.replicate 15 (runZero 0 .run)

/-- The state after the first `n` moves of `unrecordedReader`. -/
def unrecordedReaderState (n : Nat) : State 1 :=
  (execute 1 1 false (unrecordedReader.take n) (init 1 0 none)).getD (init 1 0 none)

/-- After 16 moves the handle is `LOCKED_SHARED` in the reader section while the word records
no reader; `unlock_shared` then subtracts `4` from `0`, and the idle thread leaves the word
at `0xfffffffc`, locked. -/
theorem htm_spin_shared_mutex_a64_shared_unrecorded :
    (Reachable 1 1 false 0 none (unrecordedReaderState 16) ∧
      ((unrecordedReaderState 16).base.th 0).pc = .csLoad ∧
      ((unrecordedReaderState 16).base.th 0).status = .lockedShared ∧
      (unrecordedReaderState 16).base.state = 0) ∧
    (Reachable 1 1 false 0 none (unrecordedReaderState 19) ∧
      ((unrecordedReaderState 19).base.th 0).pc = .idle ∧
      (unrecordedReaderState 19).base.state = 0xfffffffc) :=
  ⟨⟨Reachable.execute_getD rfl, by decide, by decide, by decide⟩,
    ⟨Reachable.execute_getD rfl, by decide, by decide⟩⟩

end HtmSpinSharedMutexA64
end LibTle
