import LibTle.SpinMutex
import LibTle.AsmRefinement

/-!
# `libtle_spin_shared_mutex_t` on the x86-64 build

`SpinSharedMutex` runs the portable loops of `libtle_rwlock_write_lock` and
`libtle_rwlock_read_lock`, which `mutex.h` never builds: it compiles only on x86-64 and AArch64,
where both are the `asm` blocks of `RwlockAsm`. Here the threads of the test program run the
x86-64 blocks, one instruction a step, inside the same four functions; every other step is
the step of `SpinSharedMutex`.

* With `%1` of `write_lock` in `%eax`, each step is a step of `SpinSharedMutex` or changes
  nothing it sees (`Reachable.abs`): the x86-64 build loses no increment and its readers read
  `c` in range (`x86_spin_shared_mutex_no_lost_update`).
* With `%1` in `%edx` and `%2` in `%esi`, a writer whose `lock cmpxchg` failed keeps the word
  it saw in `%eax`; when the word comes back to that value, after the other writer has
  unlocked and locked again, its next `lock cmpxchg` succeeds. Both writers are then in
  their sections and an increment is lost (`x86_spin_shared_mutex_loses_update`).
-/

namespace LibTle
namespace SpinSharedMutexX86

open SpinSharedMutex (Act Pc spinSharedMutexLock rwlockStep)

/-- A thread of the x86-64 build: the thread of `SpinSharedMutex` and its state in the `asm`
block of `rwlock.h` it runs, if any. Once the block has returned, `th.rw` is `.writing` or
`.reading`, where the C unlocks find it. -/
structure Thread where
  th : SpinSharedMutex.Thread
  blk : X86RwThread

/-- The word, the counter and `N` threads. -/
structure State (N : Nat) where
  state : Nat
  c : Nat
  th : Fin N → Thread

variable {N : Nat}

/-- A thread of `SpinSharedMutex` in `write_lock` at the loop position `p`, or, once `p` is
the section, at its status store (or in its section with `NDEBUG`). -/
def writerAt (nd : Bool) (th : SpinSharedMutex.Thread) (p : RwPc) : SpinSharedMutex.Thread :=
  { th with rw := p,
            pc := if p = .writing then (if nd then .csRead else .setUnique) else .writeLock }

/-- A thread of `SpinSharedMutex` in `read_lock` at the loop position `p`, or, once `p` is the
section, at its status store (or in its section with `NDEBUG`). -/
def readerAt (nd : Bool) (th : SpinSharedMutex.Thread) (p : RwPc) : SpinSharedMutex.Thread :=
  { th with rw := p,
            pc := if p = .reading then (if nd then .csLoad else .setShared) else .readLock }

/-- In the loop of `write_lock`, a step of `SpinSharedMutex` is the loop's step. -/
theorem step_writerAt (nd : Bool) (st c : Nat) (th : SpinSharedMutex.Thread) {p : RwPc}
    (hp : p.inWriteLock = true) :
    SpinSharedMutex.step nd st c (writerAt nd th p) .run =
      some (writerAt nd th (rwlockLockStep st p).2, (rwlockLockStep st p).1, c) := by
  cases p <;> simp only [RwPc.inWriteLock, Bool.false_eq_true] at hp <;>
    simp only [writerAt, SpinSharedMutex.step, spinSharedMutexLock, rwlockStep,
      rwlockThreadStep, reduceCtorEq, if_false] <;> split_ifs <;> simp_all

/-- In the loop of `read_lock`, a step of `SpinSharedMutex` is the loop's step. -/
theorem step_readerAt (nd : Bool) (st c : Nat) (th : SpinSharedMutex.Thread) {p : RwPc}
    (hp : p = .readLoad ∨ p = .readAdd ∨ p = .readUndo) :
    SpinSharedMutex.step nd st c (readerAt nd th p) .run =
      some (readerAt nd th (rwlockLockStep st p).2, (rwlockLockStep st p).1, c) := by
  rcases hp with rfl | rfl | rfl <;>
    simp only [readerAt, SpinSharedMutex.step, spinSharedMutexLock, rwlockStep,
      rwlockThreadStep, rwlockLockStep, reduceCtorEq, if_false] <;> (try split_ifs) <;> simp_all

/-- The call of `write_lock` or `read_lock` is a step of `SpinSharedMutex` into its loop. -/
theorem step_lock_entry (nd : Bool) (st c : Nat) {th : SpinSharedMutex.Thread} (hrw : th.rw = .idle) :
    (th.pc = .writeLock →
      SpinSharedMutex.step nd st c th .run = some (writerAt nd th .writeLoad, st, c)) ∧
    (th.pc = .readLock →
      SpinSharedMutex.step nd st c th .run = some (readerAt nd th .readLoad, st, c)) := by
  constructor <;> intro hpc <;>
    simp [SpinSharedMutex.step, spinSharedMutexLock, rwlockStep, rwlockThreadStep, writerAt,
      readerAt, hpc, hrw]

/-- The block of `write_lock` stands for a position of the loop, or for the section. -/
theorem x86WriteAbs_cases (tmp : X86Reg) (c : X86Cpu) :
    x86WriteAbs tmp c = .writing ∨ (x86WriteAbs tmp c).inWriteLock = true := by
  unfold x86WriteAbs
  split <;> (try split_ifs) <;> simp [RwPc.inWriteLock]

/-- The block of `read_lock` stands for a position of the loop, or for the section. -/
theorem x86ReadAbs_cases (tmp : X86Reg) (c : X86Cpu) :
    x86ReadAbs tmp c = .reading ∨
      x86ReadAbs tmp c = .readLoad ∨ x86ReadAbs tmp c = .readAdd ∨ x86ReadAbs tmp c = .readUndo := by
  unfold x86ReadAbs
  split <;> (try split_ifs) <;> simp

/-- A move of the `write_lock` loop, or none, from a position of the loop or the section, is
a step of the thread in `write_lock` or leaves it as it is. -/
theorem writerAt_of_loopMove {nd : Bool} {st w' : Nat} {p p' : RwPc} (hm : LoopMove st p w' p')
    (hp : p = .writing ∨ p.inWriteLock = true) (th : SpinSharedMutex.Thread) (c : Nat) :
    writerAt nd th p' = writerAt nd th p ∧ w' = st ∨
      SpinSharedMutex.step nd st c (writerAt nd th p) .run = some (writerAt nd th p', w', c) := by
  rcases hm with h | h
  · simp only [Prod.mk.injEq] at h
    exact .inl ⟨by rw [h.2], h.1⟩
  rcases hp with rfl | hp
  · -- the section: the loop does not move
    simp only [rwlockLockStep, Prod.mk.injEq] at h
    exact .inl ⟨by rw [h.2], h.1⟩
  · rw [step_writerAt nd st c th hp, ← h]
    exact .inr rfl

/-- A move of the `read_lock` loop, or none, from a position of the loop or the section, is a
step of the thread in `read_lock` or leaves it as it is. -/
theorem readerAt_of_loopMove {nd : Bool} {st w' : Nat} {p p' : RwPc} (hm : LoopMove st p w' p')
    (hp : p = .reading ∨ p = .readLoad ∨ p = .readAdd ∨ p = .readUndo)
    (th : SpinSharedMutex.Thread) (c : Nat) :
    readerAt nd th p' = readerAt nd th p ∧ w' = st ∨
      SpinSharedMutex.step nd st c (readerAt nd th p) .run = some (readerAt nd th p', w', c) := by
  rcases hm with h | h
  · simp only [Prod.mk.injEq] at h
    exact .inl ⟨by rw [h.2], h.1⟩
  rcases hp with rfl | hp
  · simp only [rwlockLockStep, Prod.mk.injEq] at h
    exact .inl ⟨by rw [h.2], h.1⟩
  · rw [step_readerAt nd st c th hp, ← h]
    exact .inr rfl

section Build

variable (rtmp wtmp one : X86Reg) (nd : Bool)

/-- One step of `libtle_rwlock_write_lock` (`rd = false`) or `libtle_rwlock_read_lock` on the
word `st`: the call enters the block with the registers `e`, then each step runs one
instruction. When the block returns, the thread goes on to its status store, or with `NDEBUG`
into its section. -/
def rwlockLock (st : Nat) (rd : Bool) (e : X86Cpu) (t : Thread) : Thread × Nat :=
  let r := t.blk.step rtmp wtmp one st rd e
  (match r.2 with
    | .write c =>
      if c.pc = (x86WriteLockAsm wtmp one).length then
        ⟨{ t.th with pc := if nd then .csRead else .setUnique, rw := .writing }, .idle⟩
      else ⟨t.th, r.2⟩
    | .read c =>
      if c.pc = (x86ReadLockAsm rtmp).length then
        ⟨{ t.th with pc := if nd then .csLoad else .setShared, rw := .reading }, .idle⟩
      else ⟨t.th, r.2⟩
    | .idle => ⟨t.th, .idle⟩, r.1)

/-- One step of a thread on the word `st` and the counter `c`: the lock blocks at
`write_lock` and `read_lock`, and otherwise `SpinSharedMutex.step`. -/
def step (st c : Nat) (t : Thread) (a : Act) (e : X86Cpu) : Option (Thread × Nat × Nat) :=
  if a = .run ∧ (t.th.pc = .writeLock ∨ t.th.pc = .readLock) then
    let r := rwlockLock rtmp wtmp one nd st (t.th.pc = .readLock) e t
    some (r.1, r.2, c)
  else (SpinSharedMutex.step nd st c t.th a).map fun r => (⟨r.1, t.blk⟩, r.2.1, r.2.2)

/-- `libtle_spin_shared_mutex_init`, `c = 0`, every thread outside the blocks. -/
def init (N K : Nat) (p : Option Nat) : State N :=
  ⟨rwlockInit, 0, fun t => ⟨(SpinSharedMutex.init N K p).th t, .idle⟩⟩

/-- Thread `t` takes a step, entering a block with the registers `e`. -/
def next (s : State N) (t : Fin N) (a : Act) (e : X86Cpu) : Option (State N) :=
  (step rtmp wtmp one nd s.state s.c (s.th t) a e).map fun r =>
    ⟨r.2.1, r.2.2, Function.update s.th t r.1⟩

/-- The states of the x86-64 build reachable under every interleaving of instructions. -/
inductive Reachable (K : Nat) (p : Option Nat) : State N → Prop
  | init : Reachable K p (init N K p)
  | step {s s' : State N} (t : Fin N) (a : Act) (e : X86Cpu) : Reachable K p s →
    next rtmp wtmp one nd s t a e = some s' → Reachable K p s'

/-- Runs a schedule; `none` when a thread of it cannot move. -/
def execute : List (Fin N × Act × X86Cpu) → State N → Option (State N)
  | [], s => some s
  | (t, a, e) :: l, s => (next rtmp wtmp one nd s t a e).bind (execute l)

/-- The thread of `SpinSharedMutex` an x86-64 thread stands for: in a block, at the loop
position the block's state stands for, and at the status store once that position is the
section. -/
def Thread.abs (t : Thread) : SpinSharedMutex.Thread :=
  match t.blk with
  | .idle => t.th
  | .write c => writerAt nd t.th (x86WriteAbs wtmp c)
  | .read c => readerAt nd t.th (x86ReadAbs rtmp c)

/-- The state of `SpinSharedMutex` an x86-64 state stands for. -/
def State.abs (s : State N) : SpinSharedMutex.State N :=
  ⟨s.state, s.c, fun t => (s.th t).abs rtmp wtmp nd⟩

/-- A thread is in a block only at its call, before the block returns, in a state its
instructions reach; a thread at the call that has not entered the block is outside the
rwlock code. -/
def Thread.Ok (t : Thread) : Prop :=
  match t.blk with
  | .idle => t.th.pc = .writeLock ∨ t.th.pc = .readLock → t.th.rw = .idle
  | .write c =>
    t.th.pc = .writeLock ∧ X86WriteOk one c ∧ c.pc < (x86WriteLockAsm wtmp one).length
  | .read c => t.th.pc = .readLock ∧ X86ReadOk rtmp c ∧ c.pc < (x86ReadLockAsm rtmp).length

end Build

section Runs

variable {rtmp wtmp one : X86Reg} {nd : Bool} {K : Nat} {p : Option Nat}

theorem Reachable.execute {s s' : State N} :
    ∀ {l : List (Fin N × Act × X86Cpu)}, Reachable rtmp wtmp one nd K p s →
      execute rtmp wtmp one nd l s = some s' → Reachable rtmp wtmp one nd K p s'
  | [], hs, h => by cases h; exact hs
  | (t, a, e) :: l, hs, h => by
    simp only [SpinSharedMutexX86.execute, Option.bind_eq_some] at h
    obtain ⟨s₁, h₁, h₂⟩ := h
    exact Reachable.execute (hs.step t a e h₁) h₂

/-- A schedule that runs to its end from the initial state reaches the state it ends in. -/
theorem Reachable.execute_getD {l : List (Fin N × Act × X86Cpu)}
    (h : (SpinSharedMutexX86.execute rtmp wtmp one nd l (SpinSharedMutexX86.init N K p)).isSome) :
    Reachable rtmp wtmp one nd K p ((SpinSharedMutexX86.execute rtmp wtmp one nd l
      (SpinSharedMutexX86.init N K p)).getD (SpinSharedMutexX86.init N K p)) := by
  obtain ⟨s, hs⟩ := Option.isSome_iff_exists.1 h
  rw [hs]
  exact Reachable.init.execute hs

end Runs

section Refinement

variable {rtmp wtmp one : X86Reg} {nd : Bool}

@[simp] theorem x86WriteAbs_entry (tmp : X86Reg) (e : X86Cpu) :
    x86WriteAbs tmp { e with pc := 0 } = .writeLoad := rfl

@[simp] theorem x86ReadAbs_entry (tmp : X86Reg) (e : X86Cpu) :
    x86ReadAbs tmp { e with pc := 0 } = .readLoad := rfl

/-- With `%1` of `write_lock` in `%eax`, a step of an x86-64 thread is a step of the thread of
`SpinSharedMutex` it stands for, or changes neither that thread, the word nor `c`. -/
theorem Thread.Ok.step (hw : wtmp = .rax) (hone : one ≠ .rax) {t t' : Thread}
    (hok : t.Ok rtmp wtmp one) (habs : (t.abs rtmp wtmp nd).Ok nd) {st c st' c' : Nat} {a : Act}
    {e : X86Cpu} (h : SpinSharedMutexX86.step rtmp wtmp one nd st c t a e = some (t', st', c')) :
    t'.Ok rtmp wtmp one ∧
      (t'.abs rtmp wtmp nd = t.abs rtmp wtmp nd ∧ st' = st ∧ c' = c ∨
        SpinSharedMutex.step nd st c (t.abs rtmp wtmp nd) a = some (t'.abs rtmp wtmp nd, st', c')) := by
  subst hw
  obtain ⟨th, blk⟩ := t
  unfold SpinSharedMutexX86.step at h
  split_ifs at h with hl
  · -- `write_lock` and `read_lock` run their blocks
    obtain ⟨rfl, hpc⟩ := hl
    simp only [Option.some.injEq, Prod.mk.injEq] at h
    obtain ⟨rfl, rfl, rfl⟩ := h
    dsimp only at hpc
    cases blk with
    | idle =>
      -- the call enters the block, as the portable loop enters its first load
      have hrw : th.rw = .idle := hok hpc
      have hent := step_lock_entry nd st c hrw
      rcases hpc with hpc | hpc <;>
        simp only [rwlockLock, X86RwThread.step, hpc, reduceCtorEq, decide_False, decide_True,
          Bool.false_eq_true, if_false, if_true, x86WriteLockAsm, x86ReadLockAsm,
          List.length_cons, List.length_nil]
      · exact ⟨⟨hpc, X86WriteOk.entry one e, by simp [x86WriteLockAsm]⟩,
          .inr (by simpa [Thread.abs] using hent.1 hpc)⟩
      · exact ⟨⟨hpc, X86ReadOk.entry rtmp e, by simp [x86ReadLockAsm]⟩,
          .inr (by simpa [Thread.abs] using hent.2 hpc)⟩
    | write c0 =>
      -- one instruction of the `write_lock` block: a move of the portable loop, or none
      obtain ⟨hpc, hc0, hlt⟩ := hok
      simp only [rwlockLock, X86RwThread.step, if_pos hlt]
      obtain ⟨hc1, hm⟩ := x86WriteLock_step hone (w := st) hc0
      generalize x86Step (x86WriteLockAsm .rax one) st c0 = r at hc1 hm ⊢
      obtain ⟨w', c1⟩ := r
      dsimp only at hc1 hm ⊢
      -- once the block returns the thread is at its status store, which the section stands for
      have habs1 : Thread.abs rtmp .rax nd
          (if c1.pc = (x86WriteLockAsm .rax one).length then
            ⟨{ th with pc := if nd then .csRead else .setUnique, rw := .writing }, .idle⟩ else ⟨th, .write c1⟩) =
          writerAt nd th (x86WriteAbs .rax c1) := by
        by_cases hend : c1.pc = (x86WriteLockAsm .rax one).length
        · have hw1 : x86WriteAbs .rax c1 = .writing := by
            simp [x86WriteAbs, hend, x86WriteLockAsm]
          rw [if_pos hend]
          cases nd <;> simp [Thread.abs, writerAt, hw1]
        · rw [if_neg hend]
          rfl
      refine ⟨?_, habs1 ▸ ?_⟩
      · by_cases hend : c1.pc = (x86WriteLockAsm .rax one).length
        · rw [if_pos hend]
          cases nd <;> simp [Thread.Ok]
        · rw [if_neg hend]
          exact ⟨hpc, hc1, lt_of_le_of_ne hc1.1 hend⟩
      · rcases writerAt_of_loopMove hm (x86WriteAbs_cases .rax c0) th c with ⟨h1, h2⟩ | h
        exacts [.inl ⟨h1, h2, trivial⟩, .inr h]
    | read c0 =>
      -- one instruction of the `read_lock` block, whatever register `%1` is in
      obtain ⟨hpc, hc0, hlt⟩ := hok
      simp only [rwlockLock, X86RwThread.step, if_pos hlt]
      obtain ⟨hc1, hm⟩ := x86ReadLock_step (w := st) hc0
      generalize x86Step (x86ReadLockAsm rtmp) st c0 = r at hc1 hm ⊢
      obtain ⟨w', c1⟩ := r
      dsimp only at hc1 hm ⊢
      have habs1 : Thread.abs rtmp .rax nd
          (if c1.pc = (x86ReadLockAsm rtmp).length then
            ⟨{ th with pc := if nd then .csLoad else .setShared, rw := .reading }, .idle⟩ else ⟨th, .read c1⟩) =
          readerAt nd th (x86ReadAbs rtmp c1) := by
        by_cases hend : c1.pc = (x86ReadLockAsm rtmp).length
        · have hr1 : x86ReadAbs rtmp c1 = .reading := by
            simp [x86ReadAbs, hend, x86ReadLockAsm]
          rw [if_pos hend]
          cases nd <;> simp [Thread.abs, readerAt, hr1]
        · rw [if_neg hend]
          rfl
      refine ⟨?_, habs1 ▸ ?_⟩
      · by_cases hend : c1.pc = (x86ReadLockAsm rtmp).length
        · rw [if_pos hend]
          cases nd <;> simp [Thread.Ok]
        · rw [if_neg hend]
          exact ⟨hpc, hc1, lt_of_le_of_ne hc1.1 hend⟩
      · rcases readerAt_of_loopMove hm (x86ReadAbs_cases rtmp c0) th c with ⟨h1, h2⟩ | h
        exacts [.inl ⟨h1, h2, trivial⟩, .inr h]
  · -- every other step is the step of `SpinSharedMutex`, outside the blocks
    obtain ⟨⟨th', st₁, c₁⟩, hr, he⟩ := Option.map_eq_some'.1 h
    simp only [Prod.mk.injEq] at he
    obtain ⟨rfl, rfl, rfl⟩ := he
    dsimp only at hr hl
    -- a thread in a block is at the call of its lock, where only `.run` moves it
    have hread : ∀ {pc}, th.pc = pc → (pc = .writeLock ∨ pc = .readLock) → a = .read → False :=
      fun hpc hlk ha => by subst ha; rcases hlk with rfl | rfl <;> simp [SpinSharedMutex.step, hpc] at hr
    have hrun : (th.pc = .writeLock ∨ th.pc = .readLock) → a = .read := fun hlk => by
      cases a
      · exact absurd ⟨rfl, hlk⟩ hl
      · rfl
    have hblk : blk = .idle := by
      cases blk with
      | idle => rfl
      | write c0 => exact (hread rfl (.inl hok.1) (hrun (.inl hok.1))).elim
      | read c0 => exact (hread rfl (.inr hok.1) (hrun (.inr hok.1))).elim
    subst hblk
    refine ⟨fun hl' => ?_, .inr hr⟩
    rcases SpinSharedMutex.step_to_lock hr hl' with ⟨⟨sh, hsh⟩, hrw⟩ | hlk
    · -- from the entry assertion, where the thread is outside the rwlock code
      have hok' : (th.rw = .idle ∧ (nd = true ∨ th.status.canLock = true)) := by
        simpa [Thread.abs, SpinSharedMutex.Thread.Ok, hsh] using habs
      exact hrw.trans hok'.1
    · exact (hread rfl hlk (hrun hlk)).elim

theorem State.abs_update (s : State N) (t : Fin N) (t' : Thread) (st c : Nat) :
    (⟨st, c, Function.update s.th t t'⟩ : State N).abs rtmp wtmp nd =
      ⟨st, c, Function.update (s.abs rtmp wtmp nd).th t (t'.abs rtmp wtmp nd)⟩ := by
  simp only [State.abs, SpinSharedMutex.State.mk.injEq, true_and]
  funext u
  rcases eq_or_ne u t with rfl | hu <;> simp [*]

/-- With `%1` of `write_lock` in `%eax`, a step of the x86-64 build is a step of
`SpinSharedMutex`, or leaves the state it stands for as it is. -/
theorem State.abs_next (hw : wtmp = .rax) (hone : one ≠ .rax) {s s' : State N}
    (hok : ∀ u, (s.th u).Ok rtmp wtmp one) (habs : ∀ u, ((s.th u).abs rtmp wtmp nd).Ok nd) {t : Fin N}
    {a : Act} {e : X86Cpu} (h : next rtmp wtmp one nd s t a e = some s') :
    (∀ u, (s'.th u).Ok rtmp wtmp one) ∧
      (s'.abs rtmp wtmp nd = s.abs rtmp wtmp nd ∨
        SpinSharedMutex.next nd (s.abs rtmp wtmp nd) t a = some (s'.abs rtmp wtmp nd)) := by
  obtain ⟨⟨t', st', c'⟩, hr, rfl⟩ := Option.map_eq_some'.1 h
  obtain ⟨hok', hm⟩ := (hok t).step hw hone (habs t) hr
  refine ⟨fun u => ?_, ?_⟩
  · rcases eq_or_ne u t with rfl | hu
    · simpa using hok'
    · simpa [hu] using hok u
  rw [State.abs_update]
  rcases hm with ⟨h1, rfl, rfl⟩ | h2
  · left
    rw [h1, show (s.th t).abs rtmp wtmp nd = (s.abs rtmp wtmp nd).th t from rfl, Function.update_eq_self]
    rfl
  · right
    simp [SpinSharedMutex.next, State.abs, h2]

/-- With `%1` of `write_lock` in `%eax`, every state the x86-64 build reaches stands for a
state `SpinSharedMutex` reaches: the blocks refine the portable loops inside the mutex. -/
theorem Reachable.abs (hw : wtmp = .rax) (hone : one ≠ .rax) {K : Nat} {p : Option Nat}
    {s : State N} (hs : Reachable rtmp wtmp one nd K p s) :
    (∀ u, (s.th u).Ok rtmp wtmp one) ∧ SpinSharedMutex.Reachable nd K p (s.abs rtmp wtmp nd) := by
  induction hs with
  | init =>
    exact ⟨fun _ => by simp [Thread.Ok, SpinSharedMutexX86.init, SpinSharedMutex.init], .init⟩
  | step t a e _ hn ih =>
    obtain ⟨hok, hr⟩ := ih
    obtain ⟨hok', hm⟩ := State.abs_next hw hone hok (fun u => hr.inv.ok u) hn
    refine ⟨hok', ?_⟩
    rcases hm with h | h
    · rw [h]; exact hr
    · exact hr.step t a h

/-- A thread outside the blocks stands for itself; only `pc` and `rw` differ in a block. -/
theorem Thread.abs_of_idle {t : Thread} (hok : t.Ok rtmp wtmp one) (hpc : t.th.pc = .idle) :
    t.abs rtmp wtmp nd = t.th := by
  obtain ⟨th, blk⟩ := t
  cases blk <;> simp_all [Thread.Ok, Thread.abs]

theorem Thread.abs_reads (t : Thread) : (t.abs rtmp wtmp nd).reads = t.th.reads := by
  obtain ⟨th, blk⟩ := t
  cases blk <;> rfl

/-- The x86-64 build of `libtle_spin_shared_mutex_t` with `%1` of `write_lock` in `%eax`: every
reachable state stands for a reachable state of `SpinSharedMutex`; a run in which every
thread has run its `K` writer sections ends with `c = N * K`; every reader section read a
value `c` held during it. -/
theorem x86_spin_shared_mutex_no_lost_update (hw : wtmp = .rax) (hone : one ≠ .rax) {K : Nat}
    {p : Option Nat} {s : State N} (hs : Reachable rtmp wtmp one nd K p s) :
    SpinSharedMutex.Reachable nd K p (s.abs rtmp wtmp nd) ∧
      ((∀ t, (s.th t).th.pc = .idle ∧ (s.th t).th.todo = 0) → s.c = N * K) ∧
      ∀ t, ReadLog (s.th t).th.reads s.c := by
  obtain ⟨hok, hr⟩ := hs.abs hw hone
  refine ⟨hr, fun hdone => hr.c_eq_of_done fun t => ?_, fun t => ?_⟩
  · show ((s.th t).abs rtmp wtmp nd).pc = .idle ∧ ((s.th t).abs rtmp wtmp nd).todo = 0
    rw [Thread.abs_of_idle (hok t) (hdone t).1]
    exact hdone t
  · simpa [State.abs, Thread.abs_reads] using hr.readLog t

end Refinement

/-- With `%1` of `write_lock` in `%eax` and `%2` in `%esi`: thread 1 runs `read_lock` and
loads `c` in its reader section while thread 0's `write_lock` sets the pending bit and waits;
thread 1 unlocks, thread 0's `lock cmpxchg` from its snapshot `2` takes the lock and thread 0
runs its section; thread 1 then runs its writer section. -/
def readerThenWriters : List (Fin 2 × Act × X86Cpu) :=
  let a : Fin 2 × Act × X86Cpu := (0, .run, x86Entry)
  let b : Fin 2 × Act × X86Cpu := (1, .run, x86Entry)
  (1, .read, x86Entry) :: List.replicate 10 b ++ List.replicate 13 a ++ List.replicate 4 b ++
    List.replicate 17 a ++ List.replicate 15 b

/-- The state after the first `n` entries of `readerThenWriters`. -/
def readerThenWritersState (n : Nat) : State 2 :=
  (execute .rcx .rax .rsi false (readerThenWriters.take n) (init 2 1 none)).getD (init 2 1 none)

/-- Mid-run, thread 0 waits in its block with the pending bit set while thread 1 is in its
reader section; at the end both threads are done, `c = 2` and thread 1's reader section read
`0`. -/
theorem x86_spin_shared_mutex_no_lost_update_runs :
    (X86Reg.rax = .rax ∧ X86Reg.rsi ≠ .rax ∧
      Reachable .rcx .rax .rsi false 1 none (readerThenWritersState 24) ∧
      (readerThenWritersState 24).state = 6 ∧
      ((readerThenWritersState 24).th 0).th.pc = .writeLock ∧
      ((readerThenWritersState 24).th 1).th.pc = .csLoad) ∧
    (SpinSharedMutex.Reachable false 1 none ((readerThenWritersState 24).abs .rcx .rax false) ∧
      ((∀ t, ((readerThenWritersState 24).th t).th.pc = .idle ∧
          ((readerThenWritersState 24).th t).th.todo = 0) →
        (readerThenWritersState 24).c = 2 * 1) ∧
      ∀ t, ReadLog ((readerThenWritersState 24).th t).th.reads (readerThenWritersState 24).c) ∧
    (Reachable .rcx .rax .rsi false 1 none (readerThenWritersState 60) ∧
      (∀ t, ((readerThenWritersState 60).th t).th.pc = .idle ∧
        ((readerThenWritersState 60).th t).th.todo = 0) ∧
      ((readerThenWritersState 60).th 1).th.reads = [(0, 0, 0)]) ∧
    (SpinSharedMutex.Reachable false 1 none ((readerThenWritersState 60).abs .rcx .rax false) ∧
      ((∀ t, ((readerThenWritersState 60).th t).th.pc = .idle ∧
          ((readerThenWritersState 60).th t).th.todo = 0) →
        (readerThenWritersState 60).c = 2 * 1) ∧
      ∀ t, ReadLog ((readerThenWritersState 60).th t).th.reads (readerThenWritersState 60).c) :=
  ⟨⟨rfl, by decide, Reachable.execute_getD rfl, by decide, by decide, by decide⟩,
    x86_spin_shared_mutex_no_lost_update rfl (by decide) (Reachable.execute_getD rfl),
    ⟨Reachable.execute_getD rfl, by decide, by decide⟩,
    x86_spin_shared_mutex_no_lost_update rfl (by decide) (Reachable.execute_getD rfl)⟩

/-! ## With `%1` in `%edx` and `%2` in `%esi` an increment is lost -/

/-- Two writers, two sections each, every call entering its block with zeroed registers.
Thread 0 takes the lock while thread 1 is at `lock cmpxchg` with the snapshot `0`; thread 1's
`lock cmpxchg` fails and leaves the word `1` in `%eax`. Thread 0 runs its section and unlocks;
thread 1 loads `0` and jumps back to `lock cmpxchg`; thread 0 locks again. The word is `1`,
as `%eax` of thread 1 is, so thread 1's `lock cmpxchg` succeeds and `write_lock` returns to
both threads. Both load `c = 1` and store `2`; thread 1 then runs its second section. -/
def lostUpdate : List (Fin 2 × Act × X86Cpu) :=
  let a : Fin 2 × Act × X86Cpu := (0, .run, x86Entry)
  let b : Fin 2 × Act × X86Cpu := (1, .run, x86Entry)
  List.replicate 7 a ++ List.replicate 7 b ++ List.replicate 2 a ++ List.replicate 4 b ++
    List.replicate 6 a ++ List.replicate 3 b ++ List.replicate 9 a ++ List.replicate 2 b ++
    List.replicate 2 a ++ List.replicate 2 b ++ [a, b] ++ List.replicate 3 a ++
    List.replicate 18 b

/-- The state after the first `n` entries of `lostUpdate`. -/
def lostUpdateState (n : Nat) : State 2 :=
  (execute .rcx .rdx .rsi false (lostUpdate.take n) (init 2 2 none)).getD (init 2 2 none)

theorem x86_spin_shared_mutex_loses_update :
    (Reachable .rcx .rdx .rsi false 2 none (lostUpdateState 40) ∧
      ((lostUpdateState 40).th 0).th.pc = .setUnique ∧
      ((lostUpdateState 40).th 1).th.pc = .setUnique ∧ (lostUpdateState 40).state = 1) ∧
    (Reachable .rcx .rdx .rsi false 2 none (lostUpdateState 44) ∧
      (∀ t, ((lostUpdateState 44).th t).th.pc = .csWrite ∧
        ((lostUpdateState 44).th t).th.status = .lockedUnique ∧
        ((lostUpdateState 44).th t).th.v = (lostUpdateState 44).c)) ∧
    (Reachable .rcx .rdx .rsi false 2 none (lostUpdateState 67) ∧
      (∀ t, ((lostUpdateState 67).th t).th.pc = .idle ∧ ((lostUpdateState 67).th t).th.todo = 0) ∧
      (lostUpdateState 67).c = 3 ∧ (lostUpdateState 67).c ≠ 2 * 2) :=
  ⟨⟨Reachable.execute_getD rfl, by decide, by decide, by decide⟩,
    ⟨Reachable.execute_getD rfl, by decide⟩,
    ⟨Reachable.execute_getD rfl, by decide, by decide, by decide⟩⟩

end SpinSharedMutexX86
end LibTle
