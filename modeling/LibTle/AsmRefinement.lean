import LibTle.RwlockAsm
import LibTle.Spinlock
import Mathlib.Tactic.IntervalCases

/-!
# The hand-written lock blocks refine the portable loops

`RwlockAsm` runs the x86-64 and AArch64 `asm` blocks of `rwlock.h` and `spinlock.h`
instruction by instruction. This module relates them to the loops the rest of the
development runs:

* x86-64 `libtle_rwlock_read_lock`: whatever register the compiler gives `%1`, every
  instruction of the block is one atomic step of the portable `read_lock` loop on the same
  word, or leaves the word and the loop's position as they are (`x86ReadLock_step`);
* x86-64 `libtle_rwlock_write_lock`: the same holds when `%1` is `%eax`, the register that
  `lock cmpxchg` compares with (`x86WriteLock_step`);
* `X86RwState`: `N` threads running the two blocks and the C unlocks. Each of its steps is a
  step of `RwState` or none, so its runs are runs of the portable rwlock
  (`X86RwReachable.rwReachable`) and reader/writer exclusion holds for the x86-64 build;
* `TasState`: the test-and-set lock of the mutex models, which store `1` only over `0` and
  unlock with a store of `0`; its word counts its holders (`TasReachable.word_eq`);
* AArch64 `libtle_spinlock_lock` (`ldaxr`/`stxr`, whose monitor any other store clears) and
  x86-64 `libtle_spinlock_lock` (`lock decl` and the `pause` loop, with fewer than `2^31`
  threads): every run of either maps to a run of `TasState`
  (`A64SpinReachable.tasReachable`, `X86Reachable.tasReachable`).
-/

namespace LibTle

/-- `testb $imm, %b r` reads the low byte of `r`; a mask below `256` sees only that byte. -/
theorem mod_256_and (x : Nat) {m : Nat} (hm : m < 256) : x % 256 &&& m = x &&& m := by
  rw [show x % 256 = x &&& 2 ^ 8 - 1 from (Nat.and_pow_two_sub_one_eq_mod x 8).symm,
    Nat.and_assoc, Nat.and_comm _ m, Nat.and_pow_two_sub_one_of_lt_two_pow hm]

/-- `testb $0x1, %b r`, which `simp` writes with `% 2`. -/
theorem mod_256_mod_two (x : Nat) : x % 256 % 2 = x % 2 := by omega

/-- One atomic step of the portable lock loops from the word `w` and the position `p`, or
none: what one instruction of a block does to the word and to the loop's position. -/
def LoopMove (w : Nat) (p : RwPc) (w' : Nat) (p' : RwPc) : Prop :=
  (w', p') = (w, p) ∨ (w', p') = rwlockLockStep w p

/-! ## x86-64 `libtle_rwlock_read_lock` -/

/-- The position of the portable `read_lock` loop that the block's state `c` stands for:
after `mov %0, %1` the loop has loaded the word; after `lock xadd` it has added `4`; after
`lock subl` it has undone the increment. -/
def x86ReadAbs (tmp : X86Reg) (c : X86Cpu) : RwPc :=
  match c.pc with
  | 0 | 8 | 9 => .readLoad
  | 1 => if c.reg tmp &&& 3 = 0 then .readAdd else .readLoad
  | 2 => if c.zf then .readAdd else .readLoad
  | 3 | 4 => .readAdd
  | 5 => if c.reg tmp &&& 1 = 0 then .reading else .readUndo
  | 6 => if c.zf then .reading else .readUndo
  | 7 => .readUndo
  | _ => .reading

/-- The block's state: inside the block or at its end, with `%1 = 4` at `lock xadd`. -/
def X86ReadOk (tmp : X86Reg) (c : X86Cpu) : Prop := c.pc ≤ 10 ∧ (c.pc = 4 → c.reg tmp = 4)

theorem X86ReadOk.entry (tmp : X86Reg) (e : X86Cpu) : X86ReadOk tmp { e with pc := 0 } :=
  ⟨by simp, by simp⟩

/-- Every instruction of the x86-64 `read_lock` block, with `%1` in any register, is one step
of the portable loop or a stutter. -/
theorem x86ReadLock_step {tmp : X86Reg} {w : Nat} {c : X86Cpu} (h : X86ReadOk tmp c) :
    X86ReadOk tmp (x86Step (x86ReadLockAsm tmp) w c).2 ∧
      LoopMove w (x86ReadAbs tmp c) (x86Step (x86ReadLockAsm tmp) w c).1
        (x86ReadAbs tmp (x86Step (x86ReadLockAsm tmp) w c).2) := by
  obtain ⟨pc, reg, zf⟩ := c
  obtain ⟨hpc, h4⟩ := h
  simp only at hpc h4
  interval_cases pc <;> cases zf <;>
    simp [x86Step, x86ReadLockAsm, X86Insn.exec, x86ReadAbs, X86ReadOk, LoopMove,
      rwlockLockStep, mod_256_and, mod_256_mod_two, h4]

/-! ## x86-64 `libtle_rwlock_write_lock` -/

/-- The position of the portable `write_lock` loop that the block's state `c` stands for,
with `%1` in `tmp`: after `mov %0, %1` the loop has loaded its snapshot; `lock cmpxchg`
is its compare-and-swap, from the value in `%eax`. -/
def x86WriteAbs (tmp : X86Reg) (c : X86Cpu) : RwPc :=
  match c.pc with
  | 0 | 1 | 7 | 8 => .writeLoad
  | 2 =>
    if c.reg tmp &&& 0xfffffffd = 0 then .writeCas (c.reg tmp)
    else if c.reg tmp &&& 2 = 0 then .writeOr else .writeLoad
  | 3 =>
    if c.zf then .writeCas (c.reg tmp)
    else if c.reg tmp &&& 2 = 0 then .writeOr else .writeLoad
  | 4 => if c.reg tmp &&& 2 = 0 then .writeOr else .writeLoad
  | 5 => if c.zf then .writeOr else .writeLoad
  | 6 => .writeOr
  | 9 => .writeCas (c.reg .rax)
  | 10 => if c.zf then .writing else .writeLoad
  | _ => .writing

/-- The block's state: inside the block or at its end, with `%2 = 1` once `mov $0x1, %2`
has run. -/
def X86WriteOk (one : X86Reg) (c : X86Cpu) : Prop := c.pc ≤ 11 ∧ (1 ≤ c.pc → c.reg one = 1)

theorem X86WriteOk.entry (one : X86Reg) (e : X86Cpu) : X86WriteOk one { e with pc := 0 } :=
  ⟨by simp, by simp⟩

/-- With `%1` in `%eax`, every instruction of the x86-64 `write_lock` block is one step of
the portable loop or a stutter: `lock cmpxchg` then compares the word with the snapshot. -/
theorem x86WriteLock_step {one : X86Reg} (hone : one ≠ .rax) {w : Nat} {c : X86Cpu}
    (h : X86WriteOk one c) :
    X86WriteOk one (x86Step (x86WriteLockAsm .rax one) w c).2 ∧
      LoopMove w (x86WriteAbs .rax c) (x86Step (x86WriteLockAsm .rax one) w c).1
        (x86WriteAbs .rax (x86Step (x86WriteLockAsm .rax one) w c).2) := by
  obtain ⟨pc, reg, zf⟩ := c
  obtain ⟨hpc, h1⟩ := h
  simp only at hpc h1
  interval_cases pc <;>
    simp only [x86Step, x86WriteLockAsm, List.getElem?_cons_succ, List.getElem?_cons_zero,
      X86Insn.exec] <;> (try split_ifs) <;>
    simp_all [x86WriteAbs, X86WriteOk, LoopMove, rwlockLockStep, mod_256_and, eq_comm (a := w)]

/-- A step of the lock loops is a step of a thread of `RwState`, or moves nothing: outside
the loops `rwlockLockStep` leaves the position alone. -/
theorem LoopMove.threadStep {w w' : Nat} {p p' : RwPc} (h : LoopMove w p w' p') (rd : Bool) :
    (w', p') = (w, p) ∨ (w', p') = rwlockThreadStep w rd p := by
  rcases h with h | h
  · exact .inl h
  · cases p <;> simp_all [rwlockLockStep, rwlockThreadStep]

/-! ## `N` threads on the x86-64 build -/

/-- A thread of the x86-64 build: idle, or in the block of `read_lock` or of `write_lock`. A
thread whose block has run to its end has returned and is in its section. -/
inductive X86RwThread
  | idle
  | read (c : X86Cpu)
  | write (c : X86Cpu)

/-- The lock word and `N` threads. -/
structure X86RwState (N : Nat) where
  word : Nat
  th : Fin N → X86RwThread

section X86System

variable (rtmp wtmp one : X86Reg) {N : Nat}

/-- One step of a thread on the word `w`, with `%1` of `read_lock` in `rtmp` and `%1` and
`%2` of `write_lock` in `wtmp` and `one`: an idle thread enters `read_lock` (`rd`) or
`write_lock` with any registers `e`; a thread in a block runs its next instruction; a thread
whose block has returned leaves its section through the C `libtle_rwlock_read_unlock` or
`libtle_rwlock_write_unlock`. -/
def X86RwThread.step (w : Nat) (rd : Bool) (e : X86Cpu) : X86RwThread → Nat × X86RwThread
  | .idle => (w, if rd then .read { e with pc := 0 } else .write { e with pc := 0 })
  | .read c =>
    if c.pc < (x86ReadLockAsm rtmp).length then
      ((x86Step (x86ReadLockAsm rtmp) w c).1, .read (x86Step (x86ReadLockAsm rtmp) w c).2)
    else (rwlockReadUnlock w, .idle)
  | .write c =>
    if c.pc < (x86WriteLockAsm wtmp one).length then
      ((x86Step (x86WriteLockAsm wtmp one) w c).1,
        .write (x86Step (x86WriteLockAsm wtmp one) w c).2)
    else (rwlockWriteUnlock w, .idle)

/-- The lock after `libtle_rwlock_init`, every thread idle. -/
def X86RwState.init (N : Nat) : X86RwState N := ⟨rwlockInit, fun _ => .idle⟩

/-- Thread `t` takes one step. -/
def X86RwState.next (s : X86RwState N) (t : Fin N) (rd : Bool) (e : X86Cpu) : X86RwState N :=
  let r := (s.th t).step rtmp wtmp one s.word rd e
  ⟨r.1, Function.update s.th t r.2⟩

/-- The states of the x86-64 build reachable under every interleaving. -/
inductive X86RwReachable : X86RwState N → Prop
  | init : X86RwReachable (X86RwState.init N)
  | step {s : X86RwState N} (t : Fin N) (rd : Bool) (e : X86Cpu) :
    X86RwReachable s → X86RwReachable (s.next rtmp wtmp one t rd e)

/-- The threads of a schedule take their steps in turn, an idle one entering with the
registers given. -/
def X86RwState.execute (s : X86RwState N) (l : List (Fin N × Bool × X86Cpu)) : X86RwState N :=
  l.foldl (fun s a => s.next rtmp wtmp one a.1 a.2.1 a.2.2) s

theorem X86RwReachable.execute {rtmp wtmp one : X86Reg} {s : X86RwState N} (hs : X86RwReachable rtmp wtmp one s)
    (l : List (Fin N × Bool × X86Cpu)) : X86RwReachable rtmp wtmp one (s.execute rtmp wtmp one l) := by
  induction l generalizing s with
  | nil => exact hs
  | cons a l ih => exact ih (hs.step a.1 a.2.1 a.2.2)

/-- The position of the portable loops a thread stands for. -/
def X86RwThread.abs : X86RwThread → RwPc
  | .idle => .idle
  | .read c => x86ReadAbs rtmp c
  | .write c => x86WriteAbs wtmp c

/-- The portable rwlock state an x86-64 state stands for. -/
def X86RwState.abs (s : X86RwState N) : RwState N := ⟨s.word, fun t => (s.th t).abs rtmp wtmp⟩

/-- A thread's block state is one its instructions can reach. -/
def X86RwThread.Ok : X86RwThread → Prop
  | .idle => True
  | .read c => X86ReadOk rtmp c
  | .write c => X86WriteOk one c

variable {rtmp wtmp one}

/-- With `%1` of `write_lock` in `%eax`, a step of an x86-64 thread is a step of a thread of
`RwState`, or moves neither the word nor the thread's position. -/
theorem X86RwThread.Ok.step (hw : wtmp = .rax) (hone : one ≠ .rax) {th : X86RwThread}
    (h : th.Ok rtmp one) (w : Nat) (rd : Bool) (e : X86Cpu) :
    (th.step rtmp wtmp one w rd e).2.Ok rtmp one ∧
      (((th.step rtmp wtmp one w rd e).1, (th.step rtmp wtmp one w rd e).2.abs rtmp wtmp) =
          (w, th.abs rtmp wtmp) ∨
        ((th.step rtmp wtmp one w rd e).1, (th.step rtmp wtmp one w rd e).2.abs rtmp wtmp) =
          rwlockThreadStep w rd (th.abs rtmp wtmp)) := by
  subst hw
  cases th with
  | idle =>
    cases rd <;> simp [X86RwThread.step, X86RwThread.Ok, X86RwThread.abs, X86ReadOk.entry,
      X86WriteOk.entry, x86ReadAbs, x86WriteAbs, rwlockThreadStep]
  | read c =>
    by_cases hc : c.pc < (x86ReadLockAsm rtmp).length
    · obtain ⟨hok, hm⟩ := x86ReadLock_step (w := w) h
      rw [X86RwThread.step, if_pos hc]
      exact ⟨hok, hm.threadStep rd⟩
    · have h10 : c.pc = 10 := by simp [x86ReadLockAsm] at hc; have := h.1; omega
      rw [X86RwThread.step, if_neg hc]
      simp [X86RwThread.Ok, X86RwThread.abs, x86ReadAbs, h10, rwlockThreadStep]
  | write c =>
    by_cases hc : c.pc < (x86WriteLockAsm .rax one).length
    · obtain ⟨hok, hm⟩ := x86WriteLock_step hone (w := w) h
      rw [X86RwThread.step, if_pos hc]
      exact ⟨hok, hm.threadStep rd⟩
    · have h11 : c.pc = 11 := by simp [x86WriteLockAsm] at hc; have := h.1; omega
      rw [X86RwThread.step, if_neg hc]
      simp [X86RwThread.Ok, X86RwThread.abs, x86WriteAbs, h11, rwlockThreadStep]

/-- A step of the x86-64 build is a step of the portable rwlock, or leaves the portable state
as it is. -/
theorem X86RwState.abs_next (hw : wtmp = .rax) (hone : one ≠ .rax) {s : X86RwState N}
    {t : Fin N} (ht : (s.th t).Ok rtmp one) (rd : Bool) (e : X86Cpu) :
    (s.next rtmp wtmp one t rd e).abs rtmp wtmp = s.abs rtmp wtmp ∨
      (s.next rtmp wtmp one t rd e).abs rtmp wtmp = (s.abs rtmp wtmp).next t rd := by
  have habs : ∀ (r : Nat × X86RwThread), (⟨r.1, Function.update s.th t r.2⟩ : X86RwState N).abs
      rtmp wtmp = ⟨r.1, Function.update (s.abs rtmp wtmp).pc t (r.2.abs rtmp wtmp)⟩ := by
    intro r
    simp only [X86RwState.abs, RwState.mk.injEq, true_and]
    funext u
    by_cases hu : u = t
    · subst hu; simp
    · simp [hu]
  simp only [X86RwState.next, RwState.next, habs]
  rcases (ht.step hw hone s.word rd e).2 with h | h <;> rw [Prod.mk.injEq] at h <;>
    simp only [h.1, h.2]
  · left
    simp [X86RwState.abs]
  · right; rfl

/-- Every reachable state of the x86-64 build, with `%1` of `write_lock` in `%eax`, stands
for a reachable state of the portable rwlock: the blocks and the C unlocks refine the
portable loops under every interleaving. -/
theorem X86RwReachable.rwReachable (hw : wtmp = .rax) (hone : one ≠ .rax) {s : X86RwState N}
    (hs : X86RwReachable rtmp wtmp one s) :
    (∀ t, (s.th t).Ok rtmp one) ∧ RwReachable (s.abs rtmp wtmp) := by
  induction hs with
  | init =>
    refine ⟨fun _ => trivial, ?_⟩
    convert RwReachable.init (N := N)
  | step t rd e _ ih =>
    obtain ⟨hok, hr⟩ := ih
    refine ⟨fun u => ?_, ?_⟩
    · by_cases hu : u = t
      · subst hu
        simpa [X86RwState.next] using ((hok u).step hw hone _ rd e).1
      · simpa [X86RwState.next, hu] using hok u
    · rcases X86RwState.abs_next hw hone (hok t) rd e with h | h <;> rw [h]
      · exact hr
      · exact hr.step t rd

/-- A thread whose `write_lock` block has returned stands for a thread in its write section. -/
theorem X86RwThread.abs_write_end {c : X86Cpu} (hc : c.pc = (x86WriteLockAsm wtmp one).length) :
    (X86RwThread.write c).abs rtmp wtmp = .writing := by
  simp [X86RwThread.abs, x86WriteAbs, hc, x86WriteLockAsm]

/-- A thread whose `read_lock` block has returned stands for a thread in its read section. -/
theorem X86RwThread.abs_read_end {c : X86Cpu} (hc : c.pc = (x86ReadLockAsm rtmp).length) :
    (X86RwThread.read c).abs rtmp wtmp = .reading := by
  simp [X86RwThread.abs, x86ReadAbs, hc, x86ReadLockAsm]

/-- The x86-64 build, with `%1` of `write_lock` in `%eax` and at most `2^30` threads: while a
thread has returned from `write_lock` and not unlocked, no other thread has, and no thread
has returned from `read_lock` and not unlocked. -/
theorem x86_rwlock_exclusion (hN : N ≤ 2 ^ 30) (hw : wtmp = .rax) (hone : one ≠ .rax)
    {s : X86RwState N} (hs : X86RwReachable rtmp wtmp one s) {t : Fin N} {c : X86Cpu}
    (ht : s.th t = .write c) (hc : c.pc = (x86WriteLockAsm wtmp one).length) (u : Fin N) :
    (∀ c', s.th u = .read c' → c'.pc ≠ (x86ReadLockAsm rtmp).length) ∧
      (∀ c', s.th u = .write c' → c'.pc = (x86WriteLockAsm wtmp one).length → u = t) := by
  have hr := (hs.rwReachable hw hone).2
  have hwt : (s.abs rtmp wtmp).pc t = .writing := by
    simp only [X86RwState.abs, ht]; exact X86RwThread.abs_write_end hc
  refine ⟨fun c' hu hc' => hr.excl hN t u hwt ?_, fun c' hu hc' => hr.inv.writer_unique ?_ hwt⟩
  · simp only [X86RwState.abs, hu]; exact X86RwThread.abs_read_end hc'
  · simp only [X86RwState.abs, hu]; exact X86RwThread.abs_write_end hc'

/-- The x86-64 build of the rwlock, with `%1` of `write_lock` in `%eax`, refines the portable
rwlock: every state its `N` threads reach under any interleaving of instructions stands for a
state the portable loops reach. -/
theorem x86_rwlock_refines_portable (hw : wtmp = .rax) (hone : one ≠ .rax)
    {s : X86RwState N} (hs : X86RwReachable rtmp wtmp one s) : RwReachable (s.abs rtmp wtmp) :=
  (hs.rwReachable hw hone).2

end X86System

/-- Thread `0` alone, with `%1` of `write_lock` in `%eax` and `%2` in `%edx`, enters
`write_lock` and runs `n` steps. -/
def x86WriterRun : Nat → X86RwState 1
  | 0 => X86RwState.init 1
  | n + 1 => (x86WriterRun n).next .rcx .rax .rdx 0 false x86Entry

theorem x86WriterRun_reachable : ∀ n, X86RwReachable .rcx .rax .rdx (x86WriterRun n)
  | 0 => .init
  | n + 1 => .step 0 false x86Entry (x86WriterRun_reachable n)

/-- The registers after the six instructions of `write_lock` on a free lock. -/
def x86WriterCpu : X86Cpu :=
  (x86Run (x86WriteLockAsm .rax .rdx) (List.replicate 6 none) (0, x86Entry)).2

theorem x86_rwlock_refines_portable_writer :
    (X86Reg.rax = .rax ∧ X86Reg.rdx ≠ .rax ∧ X86RwReachable .rcx .rax .rdx (x86WriterRun 7)) ∧
      RwReachable ((x86WriterRun 7).abs .rcx .rax) :=
  ⟨⟨rfl, by decide, x86WriterRun_reachable 7⟩,
    x86_rwlock_refines_portable rfl (by decide) (x86WriterRun_reachable 7)⟩

/-- Thread 0 runs `write_lock` through on the free word; thread 1 then enters `read_lock`,
loads the word `1`, and goes once round its `pause` loop. -/
def x86WriterAndReader : X86RwState 2 :=
  (X86RwState.init 2).execute .rcx .rax .rdx
    (List.replicate 7 (0, false, x86Entry) ++ List.replicate 6 (1, true, x86Entry))

theorem x86_rwlock_exclusion_reader_waits :
    (2 ≤ 2 ^ 30 ∧ X86Reg.rax = .rax ∧ X86Reg.rdx ≠ .rax ∧
      X86RwReachable .rcx .rax .rdx x86WriterAndReader ∧
      x86WriterAndReader.th 0 = .write x86WriterCpu ∧
      x86WriterCpu.pc = (x86WriteLockAsm .rax .rdx).length ∧ x86WriterAndReader.word = 1 ∧
      ∃ c, x86WriterAndReader.th 1 = .read c ∧ c.pc = 0) ∧
    (∀ c', x86WriterAndReader.th 1 = .read c' → c'.pc ≠ (x86ReadLockAsm .rcx).length) ∧
      (∀ c', x86WriterAndReader.th 1 = .write c' →
        c'.pc = (x86WriteLockAsm .rax .rdx).length → (1 : Fin 2) = 0) :=
  ⟨⟨by decide, rfl, by decide, X86RwReachable.init.execute _, rfl, rfl, rfl, ⟨_, rfl, rfl⟩⟩,
    x86_rwlock_exclusion (by decide) rfl (by decide)
      (X86RwReachable.init.execute _ : X86RwReachable .rcx .rax .rdx x86WriterAndReader)
      (t := 0) (c := x86WriterCpu) rfl rfl 1⟩

/-! ## The test-and-set lock of the mutex models -/

/-- A thread of a test-and-set lock: idle, spinning to take it, or holding it. -/
inductive TasPc
  | idle
  | spin
  | holds
  deriving DecidableEq, Repr

def TasPc.holding : TasPc → Bool
  | .holds => true
  | _ => false

@[simp] theorem TasPc.holding_idle : TasPc.holding .idle = false := rfl
@[simp] theorem TasPc.holding_spin : TasPc.holding .spin = false := rfl
@[simp] theorem TasPc.holding_holds : TasPc.holding .holds = true := rfl

/-- One atomic step of a thread on the word `w`: the acquire of the mutex models, which stores
`1` only over `0`, and the unlock store of `0`. -/
def tasStep (w : Nat) : TasPc → Nat × TasPc
  | .idle => (w, .spin)
  | .spin => if w = 0 then (1, .holds) else (w, .spin)
  | .holds => (0, .idle)

/-- The lock word and `N` threads. -/
structure TasState (N : Nat) where
  word : Nat
  pc : Fin N → TasPc

section Tas

variable {N : Nat}

def TasState.next (s : TasState N) (t : Fin N) : TasState N :=
  ⟨(tasStep s.word (s.pc t)).1, Function.update s.pc t (tasStep s.word (s.pc t)).2⟩

inductive TasReachable : TasState N → Prop
  | init : TasReachable ⟨0, fun _ => .idle⟩
  | step {s : TasState N} (t : Fin N) : TasReachable s → TasReachable (s.next t)

/-- The word is the number of holders, at most one. -/
theorem TasReachable.word_eq {s : TasState N} (hs : TasReachable s) :
    s.word = count TasPc.holding s.pc ∧ s.word ≤ 1 := by
  induction hs with
  | init => simp [count, TasPc.holding]
  | @step s t _ ih =>
    obtain ⟨hw, hle⟩ := ih
    have hc := count_update TasPc.holding s.pc t (tasStep s.word (s.pc t)).2
    simp only [TasState.next]
    cases hp : s.pc t <;> simp only [hp, tasStep] at hc ⊢
    · simp [TasPc.holding] at hc; omega
    · by_cases h0 : s.word = 0 <;> simp [h0, TasPc.holding] at hc ⊢ <;> omega
    · have := (count_pos_iff (p := TasPc.holding) (f := s.pc)).2 ⟨t, by simp [hp, TasPc.holding]⟩
      simp [TasPc.holding] at hc; omega

end Tas

/-! ## AArch64 `libtle_spinlock_lock` -/

/-- Whether the next instruction of `prog` at `c` stores to the word: a store-exclusive with
the monitor open. -/
def a64Stores (prog : List A64Insn) (c : A64Cpu) : Bool :=
  match prog[c.pc]? with
  | some (.stxr _ _) => c.mon
  | _ => false

/-- The test-and-set position the block's state `c` stands for: the thread holds the lock once
`stxr %w0, %w3` has stored `1` and put `0` in `%w0`. -/
def a64SpinAbs (c : A64Cpu) : TasPc :=
  match c.pc with
  | 6 => if c.tmp = 0 then .holds else .spin
  | 7 => .holds
  | _ => .spin

/-- The block's state on the word `w`: `%w3 = 1`; `stxr` runs only after `%w0 = 0`; while the
monitor that `ldaxr` opened is open, `%w0` is the word. -/
def A64SpinOk (w : Nat) (c : A64Cpu) : Prop :=
  c.pc ≤ 7 ∧ c.val = 1 ∧ (c.pc = 5 → c.tmp = 0) ∧ (4 ≤ c.pc → c.pc ≤ 5 → c.mon = true → c.tmp = w)

/-- A store of another thread closes the monitor, whatever it stores. -/
theorem A64SpinOk.clearMon {w : Nat} {c : A64Cpu} (h : A64SpinOk w c) (w' : Nat) :
    A64SpinOk w' { c with mon := false } :=
  ⟨h.1, h.2.1, h.2.2.1, by simp⟩

/-- Every instruction of the AArch64 `libtle_spinlock_lock` block is the test-and-set of the
mutex models or a stutter: it stores only through `stxr` with the monitor open, and then
stores `1` over `0`. -/
theorem A64SpinOk.step {w : Nat} {c : A64Cpu} (h : A64SpinOk w c) :
    A64SpinOk (a64Step a64SpinlockLockAsm w 0 c).1 (a64Step a64SpinlockLockAsm w 0 c).2 ∧
      (a64Stores a64SpinlockLockAsm c = false → (a64Step a64SpinlockLockAsm w 0 c).1 = w) ∧
      (((a64Step a64SpinlockLockAsm w 0 c).1, a64SpinAbs (a64Step a64SpinlockLockAsm w 0 c).2) =
          (w, a64SpinAbs c) ∨
        ((a64Step a64SpinlockLockAsm w 0 c).1, a64SpinAbs (a64Step a64SpinlockLockAsm w 0 c).2) =
          tasStep w (a64SpinAbs c)) := by
  obtain ⟨pc, tmp, val, z, mon⟩ := c
  obtain ⟨hpc, hval, hst, hmon⟩ := h
  simp only at hpc hval hst hmon
  interval_cases pc <;>
    simp only [a64Step, a64SpinlockLockAsm, List.getElem?_cons_succ, List.getElem?_cons_zero,
      A64Insn.exec, a64Stores, A64Cpu.get, A64Cpu.set, reduceCtorEq, if_false, if_true] <;>
    (try split_ifs) <;> simp_all [A64SpinOk, a64SpinAbs, tasStep]

/-- A thread of the AArch64 spinlock: idle, or in the block of `libtle_spinlock_lock`. A thread
whose block has returned holds the lock. -/
inductive A64SpinThread
  | idle
  | lock (c : A64Cpu)

/-- The lock word and `N` threads. -/
structure A64SpinState (N : Nat) where
  word : Nat
  th : Fin N → A64SpinThread

section A64System

variable {N : Nat}

/-- A store to the word by another thread clears the thread's exclusive monitor. -/
def A64SpinThread.clearMon : A64SpinThread → A64SpinThread
  | .idle => .idle
  | .lock c => .lock { c with mon := false }

/-- One step of a thread on the word `w`: the new word, whether it stored, and the thread. An
idle thread enters the block with any registers `e` and `%w3 = 1`; a thread in the block runs
its next instruction (no store of this block is UNKNOWN); a thread whose block has returned
unlocks with `libtle_spinlock_unlock`. -/
def A64SpinThread.step (w : Nat) (e : A64Cpu) : A64SpinThread → Nat × Bool × A64SpinThread
  | .idle => (w, false, .lock { e with pc := 0, val := 1 })
  | .lock c =>
    if c.pc < a64SpinlockLockAsm.length then
      ((a64Step a64SpinlockLockAsm w 0 c).1, a64Stores a64SpinlockLockAsm c,
        .lock (a64Step a64SpinlockLockAsm w 0 c).2)
    else ((spinlockUnlock .aarch64).toNat, true, .idle)

/-- `libtle_spinlock_init`, every thread idle. -/
def A64SpinState.init (N : Nat) : A64SpinState N :=
  ⟨(spinlockInit .aarch64).toNat, fun _ => .idle⟩

/-- Thread `t` takes a step; a store clears every other thread's monitor. -/
def A64SpinState.next (s : A64SpinState N) (t : Fin N) (e : A64Cpu) : A64SpinState N :=
  let r := (s.th t).step s.word e
  ⟨r.1, Function.update (if r.2.1 then fun u => (s.th u).clearMon else s.th) t r.2.2⟩

/-- The monitor of thread `t` is lost with no store to the word, as the architecture allows
at any time (an exception return, say): its next store-exclusive fails. -/
def A64SpinState.lose (s : A64SpinState N) (t : Fin N) : A64SpinState N :=
  ⟨s.word, Function.update s.th t (s.th t).clearMon⟩

/-- What happens next: thread `t` runs, an idle one entering with the registers `e`, or
thread `t` loses its monitor. -/
inductive A64SpinMove (N : Nat)
  | run (t : Fin N) (e : A64Cpu)
  | lose (t : Fin N)

def A64SpinState.move (s : A64SpinState N) : A64SpinMove N → A64SpinState N
  | .run t e => s.next t e
  | .lose t => s.lose t

/-- The states of the AArch64 spinlock reachable under every interleaving. -/
inductive A64SpinReachable : A64SpinState N → Prop
  | init : A64SpinReachable (A64SpinState.init N)
  | step {s : A64SpinState N} (m : A64SpinMove N) :
    A64SpinReachable s → A64SpinReachable (s.move m)

/-- The moves of a schedule happen in turn. -/
def A64SpinState.execute (s : A64SpinState N) (l : List (A64SpinMove N)) : A64SpinState N :=
  l.foldl A64SpinState.move s

theorem A64SpinReachable.execute {s : A64SpinState N} (hs : A64SpinReachable s)
    (l : List (A64SpinMove N)) : A64SpinReachable (s.execute l) := by
  induction l generalizing s with
  | nil => exact hs
  | cons m l ih => exact ih (hs.step m)

/-- The test-and-set position a thread stands for. -/
def A64SpinThread.abs : A64SpinThread → TasPc
  | .idle => .idle
  | .lock c => a64SpinAbs c

/-- The test-and-set state an AArch64 state stands for. -/
def A64SpinState.abs (s : A64SpinState N) : TasState N := ⟨s.word, fun t => (s.th t).abs⟩

def A64SpinThread.Ok (w : Nat) : A64SpinThread → Prop
  | .idle => True
  | .lock c => A64SpinOk w c

theorem A64SpinThread.abs_clearMon (th : A64SpinThread) : th.clearMon.abs = th.abs := by
  cases th <;> rfl

theorem A64SpinThread.Ok.clearMon {th : A64SpinThread} {w : Nat} (h : th.Ok w) (w' : Nat) :
    th.clearMon.Ok w' := by
  cases th
  · trivial
  · exact A64SpinOk.clearMon h w'

/-- A step of an AArch64 thread is a test-and-set step of it or a stutter, and a step that
does not store leaves the word alone. -/
theorem A64SpinThread.Ok.step {th : A64SpinThread} {w : Nat} (h : th.Ok w) (e : A64Cpu) :
    (th.step w e).2.2.Ok (th.step w e).1 ∧
      ((th.step w e).2.1 = false → (th.step w e).1 = w) ∧
      (((th.step w e).1, (th.step w e).2.2.abs) = (w, th.abs) ∨
        ((th.step w e).1, (th.step w e).2.2.abs) = tasStep w th.abs) := by
  cases th with
  | idle =>
    refine ⟨⟨by simp, by simp, by simp, by simp⟩, fun _ => rfl, .inr ?_⟩
    simp [A64SpinThread.step, A64SpinThread.abs, a64SpinAbs, tasStep]
  | lock c =>
    by_cases hc : c.pc < a64SpinlockLockAsm.length
    · simp only [A64SpinThread.step, if_pos hc]
      exact A64SpinOk.step h
    · have h7 : c.pc = 7 := by simp [a64SpinlockLockAsm] at hc; have := h.1; omega
      simp only [A64SpinThread.step, if_neg hc]
      simp [A64SpinThread.Ok, A64SpinThread.abs, a64SpinAbs, h7, tasStep, spinlockUnlock]

/-- Every reachable state of the AArch64 spinlock stands for a reachable state of the
test-and-set lock. -/
theorem A64SpinReachable.tasReachable {s : A64SpinState N} (hs : A64SpinReachable s) :
    (∀ t, (s.th t).Ok s.word) ∧ TasReachable s.abs := by
  induction hs with
  | init => exact ⟨fun _ => trivial, by simpa [A64SpinState.abs, A64SpinState.init, spinlockInit,
      A64SpinThread.abs] using (TasReachable.init (N := N))⟩
  | @step s m _ ih =>
    obtain ⟨hok, hr⟩ := ih
    cases m with
    | lose t =>
      -- a lost monitor changes neither the word nor what the thread stands for
      simp only [A64SpinState.move]
      have habs : (s.lose t).abs = s.abs := by
        simp only [A64SpinState.abs, A64SpinState.lose, TasState.mk.injEq, true_and]
        funext u
        by_cases hu : u = t
        · subst hu; simp [A64SpinThread.abs_clearMon]
        · simp [hu]
      refine ⟨fun u => ?_, habs ▸ hr⟩
      by_cases hu : u = t
      · subst hu; simpa [A64SpinState.lose] using (hok u).clearMon s.word
      · simpa [A64SpinState.lose, hu] using hok u
    | run t e =>
      simp only [A64SpinState.move]
      obtain ⟨hokt, hw, hm⟩ := (hok t).step e
      have habs : (s.next t e).abs =
          ⟨((s.th t).step s.word e).1, Function.update s.abs.pc t ((s.th t).step s.word e).2.2.abs⟩ := by
        simp only [A64SpinState.abs, A64SpinState.next, TasState.mk.injEq, true_and]
        funext u
        by_cases hu : u = t
        · subst hu; simp
        · split_ifs <;> simp [hu, A64SpinThread.abs_clearMon]
      refine ⟨fun u => ?_, ?_⟩
      · by_cases hu : u = t
        · subst hu; simpa [A64SpinState.next] using hokt
        · simp only [A64SpinState.next, Function.update_noteq hu]
          split_ifs with hst
          · exact (hok u).clearMon _
          · rw [hw (by simpa using hst)]; exact hok u
      · rw [habs]
        rcases hm with h | h <;> rw [Prod.mk.injEq] at h <;> rw [h.1, h.2]
        · have hf : Function.update s.abs.pc t (s.th t).abs = s.abs.pc := Function.update_eq_self _ _
          rw [hf]; exact hr
        · exact hr.step t

/-- AArch64 `libtle_spinlock_lock`: every state that `N` threads reach, running its
`ldaxr`/`stxr` block and `libtle_spinlock_unlock` under any interleaving, stands for a
reachable state of the test-and-set lock that the mutex models use. -/
theorem a64_spinlock_refines_tas {s : A64SpinState N} (hs : A64SpinReachable s) :
    TasReachable s.abs :=
  hs.tasReachable.2

/-- AArch64 `libtle_spinlock_lock`: the word is the number of threads that hold the lock, at
most one, so at most one thread has returned from the block and not unlocked. -/
theorem a64_spinlock_exclusion {s : A64SpinState N} (hs : A64SpinReachable s) :
    s.word = count (fun th => th.abs.holding) s.th ∧ s.word ≤ 1 ∧
      ∀ t u c c', s.th t = .lock c → c.pc = a64SpinlockLockAsm.length →
        s.th u = .lock c' → c'.pc = a64SpinlockLockAsm.length → t = u := by
  obtain ⟨hw, hle⟩ := hs.tasReachable.2.word_eq
  have hend : ∀ t c, s.th t = .lock c → c.pc = a64SpinlockLockAsm.length →
      (s.th t).abs.holding = true := fun t c ht hc => by
    simp [ht, hc, A64SpinThread.abs, a64SpinAbs, a64SpinlockLockAsm, TasPc.holding]
  refine ⟨hw, hle, fun t u c c' ht hc hu hc' => ?_⟩
  exact eq_of_count_le_one (p := fun th => th.abs.holding) (f := s.th) (hw ▸ hle)
    (hend t c ht hc) (hend u c' hu hc')

end A64System

/-- Thread 1 loads the free word, loses its monitor, and its `stxr` fails; thread 0 then runs
the block through and takes the lock; thread 1 loads the word `1` and waits at `wfe`. -/
def a64HolderAndSpinner : A64SpinState 2 :=
  (A64SpinState.init 2).execute
    (List.replicate 6 (.run 1 a64Entry) ++ [.lose 1, .run 1 a64Entry] ++
      List.replicate 8 (.run 0 a64Entry) ++ List.replicate 3 (.run 1 a64Entry))

theorem a64_spinlock_refines_tas_lost_monitor :
    (A64SpinReachable a64HolderAndSpinner ∧ a64HolderAndSpinner.word = 1 ∧
      (∃ c, a64HolderAndSpinner.th 0 = .lock c ∧ c.pc = a64SpinlockLockAsm.length) ∧
      ∃ c, a64HolderAndSpinner.th 1 = .lock c ∧ c.pc = 2) ∧
    TasReachable a64HolderAndSpinner.abs :=
  ⟨⟨A64SpinReachable.init.execute _, by decide, ⟨_, rfl, rfl⟩, ⟨_, rfl, rfl⟩⟩,
    a64_spinlock_refines_tas (A64SpinReachable.init.execute _)⟩

theorem a64_spinlock_exclusion_lost_monitor :
    (A64SpinReachable a64HolderAndSpinner ∧
      (∃ c, a64HolderAndSpinner.th 0 = .lock c ∧ c.pc = a64SpinlockLockAsm.length) ∧
      ∃ c, a64HolderAndSpinner.th 1 = .lock c ∧ c.pc = 2) ∧
    a64HolderAndSpinner.word = count (fun th => th.abs.holding) a64HolderAndSpinner.th ∧
      a64HolderAndSpinner.word ≤ 1 ∧
      ∀ t u c c', a64HolderAndSpinner.th t = .lock c → c.pc = a64SpinlockLockAsm.length →
        a64HolderAndSpinner.th u = .lock c' → c'.pc = a64SpinlockLockAsm.length → t = u :=
  ⟨⟨A64SpinReachable.init.execute _, ⟨_, rfl, rfl⟩, ⟨_, rfl, rfl⟩⟩,
    a64_spinlock_exclusion (A64SpinReachable.init.execute _)⟩

/-! ## x86-64 `libtle_spinlock_lock` -/

/-- The test-and-set position of an x86-64 position: a thread holds the lock once its
`lock decl` left the word non-negative. -/
def X86Pc.abs : X86Pc → TasPc
  | .idle => .idle
  | .decl => .spin
  | .spin => .spin
  | .held => .holds

@[simp] theorem X86Pc.abs_idle : X86Pc.idle.abs = .idle := rfl
@[simp] theorem X86Pc.abs_decl : X86Pc.decl.abs = .spin := rfl
@[simp] theorem X86Pc.abs_spin : X86Pc.spin.abs = .spin := rfl
@[simp] theorem X86Pc.abs_held : X86Pc.held.abs = .holds := rfl

/-- The test-and-set state of the x86-64 spinlock: its word is the number of holders. -/
def X86State.abs {N : Nat} (s : X86State N) : TasState N :=
  ⟨count (fun th => th.pc.abs.holding) s.th, fun t => (s.th t).pc.abs⟩

section X86Spin

variable {N : Nat} {s : X86State N}

theorem TasState.eq_of {a b : TasState N} (hw : a.word = b.word) (hp : ∀ t, a.pc t = b.pc t) :
    a = b := by
  cases a
  cases b
  simp only [TasState.mk.injEq] at hw ⊢
  exact ⟨hw, funext hp⟩

theorem X86Pc.abs_holding (pc : X86Pc) : pc.abs.holding = (pc == .held) := by
  cases pc <;> rfl

/-- Every step of the x86-64 spinlock is a step of the test-and-set lock or a stutter:
`lock decl` takes the lock exactly when nobody holds it, and the unlock store frees it. -/
theorem X86Inv.abs_next (hN : N < 2 ^ 31) (h : X86Inv s) (t : Fin N) :
    (s.next t).abs = s.abs ∨ (s.next t).abs = s.abs.next t := by
  have hw := h.word_eq
  have hle : s.decs ≤ N := count_le _ _
  have hc := fun th => count_update (fun th : X86Thread => th.pc.abs.holding) s.th t th
  unfold X86State.decs at hw hle
  cases hp : (s.th t).pc
  case held =>
    -- the unlock store: the holder was the only one
    refine .inr (TasState.eq_of ?_ fun u => ?_)
    · refine (count_eq_zero_iff.2 fun u => ?_).trans (by simp [X86State.abs, TasState.next, tasStep,
        hp])
      by_cases hut : u = t
      · simp [X86State.next, x86SpinlockStep, hp, hut, X86Pc.abs_holding]
      · simpa [X86State.next, x86SpinlockStep, hp, Function.update_noteq hut,
          X86Pc.abs_holding] using fun hu => hut (h.held_unique u t hu hp)
    · by_cases hut : u = t <;>
        simp [X86State.next, X86State.abs, TasState.next, x86SpinlockStep, tasStep,
          hp, hut]
  case idle =>
    -- `libtle_spinlock_lock` starts: the thread spins
    have hA : (s.th t).pc.abs = .idle := by rw [hp, X86Pc.abs_idle]
    have hu := hc { s.th t with pc := .decl }
    simp only [hA, X86Pc.abs_decl,
      Bool.toNat_false, Nat.add_zero] at hu
    refine .inr (TasState.eq_of ?_ fun u => ?_)
    · simpa [X86State.next, X86State.abs, TasState.next, x86SpinlockStep, tasStep, hp, hA] using hu
    · by_cases hut : u = t <;>
        simp [X86State.next, X86State.abs, TasState.next, x86SpinlockStep, tasStep,
          hp, hut]
  case decl =>
    have hA : (s.th t).pc.abs = .spin := by rw [hp, X86Pc.abs_decl]
    have h0 : (s.th t).dec = false := by
      cases hd : (s.th t).dec
      · rfl
      · rcases h.dec_pc t hd with h1 | h1 <;> simp_all
    have hlt := count_lt (p := X86Thread.dec) (f := s.th) t h0
    have hwrap : wrapInt32 (s.word - 1) = s.word - 1 := wrapInt32_of_mem (by omega) (by omega)
    by_cases hpos : 0 ≤ s.word - 1
    · -- the word was `1`: nobody held the lock, and `t` takes it
      have hnh : ∀ u, (s.th u).pc ≠ .held := fun u hu => by
        have := X86State.decs_pos (h.held_dec u hu)
        unfold X86State.decs at this
        omega
      have hfree : count (fun th => th.pc.abs.holding) s.th = 0 :=
        count_eq_zero_iff.2 fun u => by simpa [X86Pc.abs_holding] using hnh u
      have hu := hc ⟨.held, true⟩
      simp only [hA, X86Pc.abs_held, Bool.toNat_false, Bool.toNat_true, Nat.add_zero, hfree] at hu
      refine .inr (TasState.eq_of ?_ fun u => ?_)
      · simpa [X86State.next, X86State.abs, TasState.next, x86SpinlockStep, tasStep, hp, hA,
          hwrap, hpos, hfree] using hu
      · by_cases hut : u = t <;>
          simp [X86State.next, X86State.abs, TasState.next, x86SpinlockStep, tasStep, hp, hut, hwrap, hpos, hfree]
    · -- the lock is taken: `t` goes on spinning
      have hu := hc ⟨.spin, true⟩
      simp only [hA, X86Pc.abs_spin, Bool.toNat_false, Nat.add_zero] at hu
      refine .inl (TasState.eq_of ?_ fun u => ?_)
      · simpa [X86State.next, X86State.abs, x86SpinlockStep, hp, hwrap, hpos] using hu
      · by_cases hut : u = t <;>
          simp [X86State.next, X86State.abs, x86SpinlockStep, hp, hut, hwrap, hpos]
  case spin =>
    -- the `pause` loop reloads the word: a stutter
    have hA : (s.th t).pc.abs = .spin := by rw [hp, X86Pc.abs_spin]
    have hB : (if s.word ≤ 0 then X86Pc.spin else .decl).abs = .spin := by split_ifs <;> rfl
    have hu := hc { s.th t with pc := if s.word ≤ 0 then .spin else .decl }
    simp only [hA, hB, Bool.toNat_false, Nat.add_zero] at hu
    refine .inl (TasState.eq_of ?_ fun u => ?_)
    · simpa [X86State.next, X86State.abs, x86SpinlockStep, hp] using hu
    · by_cases hut : u = t
      · subst hut
        simpa [X86State.next, X86State.abs, x86SpinlockStep, hp, hA] using hB
      · simp [X86State.next, X86State.abs, x86SpinlockStep, hp, hut]

/-- A run of the x86-64 spinlock maps to a run of the test-and-set lock. -/
theorem X86Reachable.tasReachable (hN : N < 2 ^ 31) (hs : X86Reachable s) :
    TasReachable s.abs := by
  induction hs with
  | init =>
    have h0 : (X86State.init N).abs = ⟨0, fun _ => .idle⟩ :=
      TasState.eq_of (by simp [X86State.abs, X86State.init, count]) fun _ => rfl
    exact h0 ▸ .init
  | @step s t hs ih =>
    rcases (hs.inv hN).abs_next hN t with h | h <;> rw [h]
    exacts [ih, ih.step t]

/-- The x86-64 `libtle_spinlock_lock` (`lock decl`, `jns`, the `pause` loop) and
`libtle_spinlock_unlock` refine the test-and-set lock of the mutex models: with fewer than
`2^31` threads, every run maps, step for step or by a stutter, to a run of the test-and-set
lock, whose word counts the threads that hold the x86-64 lock. -/
theorem x86_spinlock_refines_tas (hN : N < 2 ^ 31) (hs : X86Reachable s) : TasReachable s.abs :=
  hs.tasReachable hN

end X86Spin

theorem x86_spinlock_refines_tas_contended :
    (3 < 2 ^ 31 ∧ X86Reachable x86HolderAndWaiters ∧ (x86HolderAndWaiters.th 0).pc = .held ∧
      (x86HolderAndWaiters.th 1).pc = .spin ∧ (x86HolderAndWaiters.th 1).dec = true) ∧
    TasReachable x86HolderAndWaiters.abs :=
  ⟨⟨by decide, X86Reachable.init.execute _, by decide, by decide, by decide⟩,
    x86_spinlock_refines_tas (by decide) (X86Reachable.init.execute _)⟩

end LibTle
