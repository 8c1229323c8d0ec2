import LibTle.SpinMutex
import LibTle.HtmSpinMutex
import LibTle.AsmRefinement

/-!
# The spin mutexes over the AArch64 `libtle_spinlock_lock`

`SpinMutex` and `HtmSpinMutex` take their word `state` with one test-and-set step, which the
AArch64 block of `libtle_spinlock_lock` refines on its own (`a64_spinlock_refines_tas`). Here
the two mutexes run that block instead, one instruction a step, with each thread's exclusive
monitor: a store to `state` by another thread closes it, and so may the hardware at any time
(`Move.lose`). A thread in the block stands for the thread of the model at the call, or past
it once its `stxr` has stored `1` (`acquireAt`); every other instruction is a stutter. So every
state of the AArch64 build stands for a reachable state of the model, and the model's results
hold of it:

* `a64_spin_mutex_refines`: no increment of `libtle_spin_mutex_t` is lost, and one thread at
  most holds the lock;
* `a64_htm_spin_mutex_refines`: the same of `libtle_htm_spin_mutex_t` on TME, whose
  fallback runs the block while other threads run transactions that read `state`.
-/

namespace LibTle

theorem a64SpinAbs_ne_idle (k : A64Cpu) : a64SpinAbs k ≠ .idle := by
  unfold a64SpinAbs
  split <;> (try split_ifs) <;> simp

/-- A block that has run its last instruction holds the lock. -/
theorem a64SpinAbs_of_returned {k : A64Cpu} (h : k.pc = a64SpinlockLockAsm.length) :
    a64SpinAbs k = .holds := by
  simp [a64SpinAbs, h, a64SpinlockLockAsm]

/-- An instruction of the block, from a state it reaches, is a stutter or takes the free lock:
the word goes from `0` to `1` and the block from spinning to holding. -/
theorem A64SpinOk.tas {w : Nat} {k : A64Cpu} (h : A64SpinOk w k) :
    ((a64Step a64SpinlockLockAsm w 0 k).1 = w ∧
        a64SpinAbs (a64Step a64SpinlockLockAsm w 0 k).2 = a64SpinAbs k) ∨
      (w = 0 ∧ a64SpinAbs k = .spin ∧ (a64Step a64SpinlockLockAsm w 0 k).1 = 1 ∧
        a64SpinAbs (a64Step a64SpinlockLockAsm w 0 k).2 = .holds) := by
  have hne := a64SpinAbs_ne_idle (a64Step a64SpinlockLockAsm w 0 k).2
  rcases (A64SpinOk.step h).2.2 with h1 | h1
  · exact .inl (Prod.mk.inj h1)
  cases hk : a64SpinAbs k with
  | idle => exact absurd hk (a64SpinAbs_ne_idle k)
  | spin =>
    simp only [hk, tasStep] at h1
    split_ifs at h1 with hw
    · exact .inr ⟨hw, rfl, Prod.mk.inj h1⟩
    · exact .inl (Prod.mk.inj h1)
  | holds =>
    simp only [hk, tasStep] at h1
    exact absurd (Prod.mk.inj h1).2 hne

namespace SpinMutexA64

/-- A thread of the AArch64 build: the thread of `SpinMutex` and its state in the block of
`libtle_spinlock_lock`, while it runs it. -/
structure Thread where
  th : SpinMutex.Thread
  blk : A64SpinThread

/-- The word, the counter and `N` threads. -/
structure State (N : Nat) where
  state : Nat
  c : Nat
  th : Fin N → Thread

/-- What happens next: thread `t` runs, entering the block with the registers `e`, or the
hardware closes thread `t`'s monitor. -/
inductive Move (N : Nat)
  | run (t : Fin N) (e : A64Cpu)
  | lose (t : Fin N)

variable {N : Nat}

/-- A store to the word by another thread closes the thread's monitor. -/
def Thread.clearMon (t : Thread) : Thread := ⟨t.th, t.blk.clearMon⟩

/-- One step of a thread on the word `st` and the counter `c`, and whether it stored to the
word. At `libtle_spinlock_lock` the call enters the block with the registers `e`, then runs
one instruction a step; when the block returns, the thread goes on to its status store, or
with `NDEBUG` into its section. Any other step is `SpinMutex.step`, whose one store to the
word is the unlock's, the step into `released`. -/
def step (nd : Bool) (st c : Nat) (t : Thread) (e : A64Cpu) :
    Option (Thread × Nat × Nat × Bool) :=
  if t.th.pc = .acquire then
    match t.blk with
    | .idle => some (⟨t.th, .lock { e with pc := 0, val := 1 }⟩, st, c, false)
    | .lock k =>
      let r := a64Step a64SpinlockLockAsm st 0 k
      some (if r.2.pc = a64SpinlockLockAsm.length then
          ⟨{ t.th with pc := if nd then .csRead else .setUnique }, .idle⟩
        else ⟨t.th, .lock r.2⟩, r.1, c, a64Stores a64SpinlockLockAsm k)
  else
    (SpinMutex.step nd st c t.th).map fun r =>
      (⟨r.1, t.blk⟩, r.2.1.toNat, r.2.2, decide (r.1.pc = .released))

/-- Thread `t` takes a step; a store to the word closes every other thread's monitor. -/
def next (nd : Bool) (s : State N) (t : Fin N) (e : A64Cpu) : Option (State N) :=
  (step nd s.state s.c (s.th t) e).map fun r =>
    ⟨r.2.1, r.2.2.1,
      Function.update (if r.2.2.2 then fun u => (s.th u).clearMon else s.th) t r.1⟩

/-- The hardware closes thread `t`'s monitor, with no store. -/
def State.lose (s : State N) (t : Fin N) : State N :=
  ⟨s.state, s.c, Function.update s.th t (s.th t).clearMon⟩

def move (nd : Bool) (s : State N) : Move N → Option (State N)
  | .run t e => next nd s t e
  | .lose t => some (s.lose t)

/-- `libtle_spin_mutex_init`, `c = 0`, every thread outside the block. -/
def init (N K : Nat) (p : Option Nat) : State N :=
  ⟨(spinlockInit .aarch64).toNat, 0, fun t => ⟨(SpinMutex.init N K p).th t, .idle⟩⟩

/-- The states of the AArch64 build reachable under every interleaving of instructions and
losses of monitors, in build `nd`. -/
inductive Reachable (nd : Bool) (K : Nat) (p : Option Nat) : State N → Prop
  | init : Reachable nd K p (init N K p)
  | step {s s' : State N} (m : Move N) : Reachable nd K p s → move nd s m = some s' →
    Reachable nd K p s'

/-- Runs a schedule of moves; `none` when one of them cannot happen. -/
def execute (nd : Bool) : List (Move N) → State N → Option (State N)
  | [], s => some s
  | m :: l, s => (move nd s m).bind (execute nd l)

theorem Reachable.execute {nd : Bool} {K : Nat} {p : Option Nat} {s s' : State N} :
    ∀ {l : List (Move N)}, Reachable nd K p s → execute nd l s = some s' → Reachable nd K p s'
  | [], hs, h => by cases h; exact hs
  | m :: l, hs, h => by
    simp only [SpinMutexA64.execute, Option.bind_eq_some] at h
    obtain ⟨s₁, h₁, h₂⟩ := h
    exact Reachable.execute (hs.step m h₁) h₂

/-- A schedule that runs to its end from the initial state reaches the state it ends in. -/
theorem Reachable.execute_getD {nd : Bool} {K : Nat} {p : Option Nat} {l : List (Move N)}
    (h : (SpinMutexA64.execute nd l (SpinMutexA64.init N K p)).isSome) :
    Reachable nd K p ((SpinMutexA64.execute nd l (SpinMutexA64.init N K p)).getD
      (SpinMutexA64.init N K p)) := by
  obtain ⟨s, hs⟩ := Option.isSome_iff_exists.1 h
  rw [hs]
  exact Reachable.init.execute hs

/-! ## The AArch64 build refines `SpinMutex` -/

/-- The thread of `SpinMutex` at `libtle_spinlock_lock` whose test-and-set position is `a`:
at the call, or, once it holds the lock, at its status store (in its section with
`NDEBUG`). -/
def acquireAt (nd : Bool) (th : SpinMutex.Thread) (a : TasPc) : SpinMutex.Thread :=
  if a.holding then { th with pc := if nd then .csRead else .setUnique } else th

/-- The thread of `SpinMutex` an AArch64 thread stands for. -/
def Thread.abs (nd : Bool) (t : Thread) : SpinMutex.Thread := acquireAt nd t.th t.blk.abs

/-- The state of `SpinMutex` an AArch64 state stands for. -/
def State.abs (nd : Bool) (s : State N) : SpinMutex.State N :=
  ⟨s.state, s.c, fun t => (s.th t).abs nd⟩

/-- A thread is in the block only at the call, before the block returns, in a state its
instructions reach on the word `w`. -/
def Thread.Ok (w : Nat) (t : Thread) : Prop :=
  match t.blk with
  | .idle => True
  | .lock k => t.th.pc = .acquire ∧ A64SpinOk w k ∧ k.pc < a64SpinlockLockAsm.length

section Refinement

variable {nd : Bool}

@[simp] theorem Thread.abs_clearMon (t : Thread) : t.clearMon.abs nd = t.abs nd := by
  simp [Thread.clearMon, Thread.abs, A64SpinThread.abs_clearMon]

theorem Thread.Ok.clearMon {t : Thread} {w : Nat} (h : t.Ok w) (w' : Nat) : t.clearMon.Ok w' := by
  obtain ⟨th, _ | k⟩ := t
  · trivial
  · exact ⟨h.1, h.2.1.clearMon w', h.2.2⟩

/-- A thread away from the call stands for itself. -/
theorem Thread.abs_of_ne {t : Thread} {w : Nat} (h : t.Ok w) (hpc : t.th.pc ≠ .acquire) :
    t.abs nd = t.th := by
  obtain ⟨th, _ | k⟩ := t
  · rfl
  · exact absurd h.1 hpc

/-- Away from `libtle_spinlock_lock` a step of `SpinMutex` leaves the word alone, but for the
unlock store of `0`, the one step into `released`. -/
theorem step_word {st : Int} {c c' : Nat} {th th' : SpinMutex.Thread} {w : Int}
    (hpc : th.pc ≠ .acquire) (h : SpinMutex.step nd st c th = some (th', w, c')) :
    w = st ∧ th'.pc ≠ .released ∨ w = 0 ∧ th'.pc = .released := by
  unfold SpinMutex.step SpinMutex.spinMutexLock SpinMutex.spinMutexUnlock at h
  cases hp : th.pc <;> simp only [hp, ne_eq, not_true_eq_false] at h hpc <;>
    (repeat' split at h) <;>
    simp only [Option.map_some', Option.map_none', Option.some.injEq, Prod.mk.injEq,
      reduceCtorEq] at h <;> obtain ⟨rfl, rfl, -⟩ := h <;> simp [spinlockUnlock]

/-- A step of an AArch64 thread is a step of the thread of `SpinMutex` it stands for, or
changes neither that thread, the word nor `c`; a step that does not store keeps the word. -/
theorem Thread.Ok.step {t t' : Thread} {st c st' c' : Nat} {b : Bool} {e : A64Cpu}
    (hok : t.Ok st) (h : SpinMutexA64.step nd st c t e = some (t', st', c', b)) :
    t'.Ok st' ∧ (b = false → st' = st) ∧
      (t'.abs nd = t.abs nd ∧ st' = st ∧ c' = c ∨
        SpinMutex.step nd st c (t.abs nd) = some (t'.abs nd, (st' : Int), c')) := by
  obtain ⟨th, blk⟩ := t
  unfold SpinMutexA64.step at h
  by_cases hpc : th.pc = .acquire
  swap
  · -- any other step is the step of `SpinMutex`
    have habs : Thread.abs nd ⟨th, blk⟩ = th := Thread.abs_of_ne hok hpc
    simp only [hpc, if_false] at h
    obtain ⟨⟨th', w, c''⟩, hr, h⟩ := Option.map_eq_some'.1 h
    simp only [Prod.mk.injEq] at h
    obtain ⟨rfl, rfl, rfl, rfl⟩ := h
    have hblk : blk = .idle := by
      cases blk with
      | idle => rfl
      | lock k => exact absurd hok.1 hpc
    subst hblk
    rcases step_word hpc hr with ⟨rfl, hrel⟩ | ⟨rfl, hrel⟩
    · exact ⟨trivial, fun _ => by simp, .inr (by simpa [habs] using hr)⟩
    · exact ⟨trivial, by simp [hrel], .inr (by simpa [habs] using hr)⟩
  simp only [hpc, if_true] at h
  cases blk with
  | idle =>
    -- the call enters the block: a stutter
    simp only [Option.some.injEq, Prod.mk.injEq] at h
    obtain ⟨rfl, rfl, rfl, rfl⟩ := h
    refine ⟨⟨hpc, ⟨by simp, rfl, by simp, by simp⟩, by simp [a64SpinlockLockAsm]⟩,
      fun _ => rfl, .inl ⟨?_, rfl, rfl⟩⟩
    simp [Thread.abs, acquireAt, A64SpinThread.abs, a64SpinAbs]
  | lock k =>
    -- an instruction of the block
    obtain ⟨-, hk, hlt⟩ := hok
    simp only [Option.some.injEq, Prod.mk.injEq] at h
    obtain ⟨rfl, rfl, rfl, rfl⟩ := h
    obtain ⟨hk', hw, -⟩ := A64SpinOk.step hk
    have habs' : (if (a64Step a64SpinlockLockAsm st 0 k).2.pc = a64SpinlockLockAsm.length then
          (⟨{ th with pc := if nd then .csRead else .setUnique }, .idle⟩ : Thread)
        else ⟨th, .lock (a64Step a64SpinlockLockAsm st 0 k).2⟩).abs nd =
        acquireAt nd th (a64SpinAbs (a64Step a64SpinlockLockAsm st 0 k).2) := by
      by_cases hend : (a64Step a64SpinlockLockAsm st 0 k).2.pc = a64SpinlockLockAsm.length
      · rw [if_pos hend]
        simp [Thread.abs, acquireAt, A64SpinThread.abs, a64SpinAbs_of_returned hend]
      · rw [if_neg hend]
        rfl
    refine ⟨?_, hw, ?_⟩
    · by_cases hend : (a64Step a64SpinlockLockAsm st 0 k).2.pc = a64SpinlockLockAsm.length
      · rw [if_pos hend]
        trivial
      · rw [if_neg hend]
        exact ⟨hpc, hk', lt_of_le_of_ne hk'.1 hend⟩
    rw [habs']
    rcases A64SpinOk.tas hk with ⟨h1, h2⟩ | ⟨rfl, h2, h3, h4⟩
    · exact .inl ⟨by rw [h2]; rfl, h1, rfl⟩
    · -- `stxr` stores `1` over `0`: the acquire of `SpinMutex`
      refine .inr ?_
      simp [SpinMutex.step, SpinMutex.spinMutexLock, Thread.abs, A64SpinThread.abs, acquireAt, h2,
        h3, h4, hpc]

theorem State.abs_update (s : State N) (t : Fin N) (b : Bool) (t' : Thread) :
    (fun u => (Function.update (if b then fun u => (s.th u).clearMon else s.th) t t' u).abs nd) =
      Function.update (s.abs nd).th t (t'.abs nd) := by
  funext u
  rcases eq_or_ne u t with rfl | hu
  · simp
  · split_ifs <;> simp [hu, State.abs]

/-- A move of the AArch64 build is a step of `SpinMutex` or leaves the state it stands for
as it is. -/
theorem State.abs_move {s s' : State N} {m : Move N} (hok : ∀ u, (s.th u).Ok s.state)
    (h : move nd s m = some s') :
    (∀ u, (s'.th u).Ok s'.state) ∧
      (s'.abs nd = s.abs nd ∨ ∃ t, SpinMutex.next nd (s.abs nd) t = some (s'.abs nd)) := by
  cases m with
  | lose t =>
    -- a lost monitor changes neither the word nor what the thread stands for
    simp only [move, Option.some.injEq] at h
    subst h
    refine ⟨fun u => ?_, .inl ?_⟩
    · rcases eq_or_ne u t with rfl | hu
      · simpa [State.lose] using (hok u).clearMon s.state
      · simpa [State.lose, hu] using hok u
    · simp only [State.abs, State.lose, SpinMutex.State.mk.injEq, true_and]
      funext u
      rcases eq_or_ne u t with rfl | hu <;> simp [*]
  | run t e =>
    simp only [move, next, Option.map_eq_some'] at h
    obtain ⟨⟨t', st', c', b⟩, hr, rfl⟩ := h
    obtain ⟨hok', hw, hm⟩ := (hok t).step hr
    refine ⟨fun u => ?_, ?_⟩
    · rcases eq_or_ne u t with rfl | hu
      · simpa using hok'
      · simp only [Function.update_noteq hu]
        cases b
        · rw [hw rfl]; exact hok u
        · exact (hok u).clearMon st'
    · have habs : State.abs nd ⟨st', c', Function.update
          (if b then fun u => (s.th u).clearMon else s.th) t t'⟩ =
          ⟨st', c', Function.update (s.abs nd).th t (t'.abs nd)⟩ := by
        simp only [State.abs, SpinMutex.State.mk.injEq, true_and]
        exact State.abs_update s t b t'
      rw [habs]
      rcases hm with ⟨h1, rfl, rfl⟩ | h1
      · refine .inl ?_
        rw [h1]
        simp only [State.abs, SpinMutex.State.mk.injEq, true_and]
        exact Function.update_eq_self t _
      · exact .inr ⟨t, by simp [SpinMutex.next, State.abs, h1]⟩

/-- Every state of the AArch64 build stands for a reachable state of `SpinMutex`. -/
theorem Reachable.abs {K : Nat} {p : Option Nat} {s : State N} (hs : Reachable nd K p s) :
    (∀ u, (s.th u).Ok s.state) ∧ SpinMutex.Reachable nd K p (s.abs nd) := by
  induction hs with
  | init => exact ⟨fun _ => trivial, .init⟩
  | step m _ hm ih =>
    obtain ⟨hok', h⟩ := State.abs_move ih.1 hm
    refine ⟨hok', ?_⟩
    rcases h with h | ⟨t, h⟩
    · rw [h]; exact ih.2
    · exact ih.2.step t h

/-- The AArch64 build of `libtle_spin_mutex_t`: every state that the test program reaches,
running `libtle_spinlock_lock` as its `ldaxr`/`stxr` block under any interleaving and any
loss of monitors, stands for a reachable state of `SpinMutex`. So the word is `0` or `1`,
no increment is lost, and one thread at most holds the lock. -/
theorem a64_spin_mutex_refines {K : Nat} {p : Option Nat} {s : State N}
    (hs : Reachable nd K p s) :
    SpinMutex.Reachable nd K p (s.abs nd) ∧ s.state ≤ 1 ∧
      ((∀ t, (s.th t).th.pc = .idle ∧ (s.th t).th.todo = 0) → s.c = N * K) ∧
      ∀ t u, (s.th t).th.holds = true → (s.th u).th.holds = true → t = u := by
  obtain ⟨hok, hr⟩ := hs.abs
  have hinv := hr.inv
  -- a holder, or an idle thread, is away from the call and stands for itself
  have hself : ∀ t, (s.th t).th.pc ≠ .acquire → (s.abs nd).th t = (s.th t).th :=
    fun t hpc => Thread.abs_of_ne (hok t) hpc
  have hholds : ∀ t, (s.th t).th.holds = true → ((s.abs nd).th t).holds = true := fun t ht => by
    rw [hself t fun hpc => by simp [SpinMutex.Thread.holds, hpc] at ht]
    exact ht
  refine ⟨hr, by simpa [State.abs] using hinv.word_le, fun hdone => ?_, fun t u ht hu => ?_⟩
  · refine hr.c_eq_of_done fun t => ?_
    rw [hself t (by simp [(hdone t).1])]
    exact hdone t
  · by_contra htu
    have := hinv.not_holds (hholds t ht) (Ne.symm htu)
    simp [hholds u hu] at this

end Refinement

/-- Thread `t` runs; a thread at the call enters the block with `a64Entry`. -/
def runEntry (t : Fin N) : Move N := .run t a64Entry

/-- Two threads, one section each, with profiles, in the debug build. Thread 1 enters the
block and loads the free word, which opens its monitor. Thread 0 then runs the block through
and takes the lock, and its `stxr` closes thread 1's monitor: thread 1's `stxr` fails, and it
loads `1` and goes back to `wfe`. Thread 0 runs its section and unlocks; thread 1 loads `0`,
takes the lock and runs its section. -/
def race : List (Move 2) :=
  List.replicate 7 (runEntry 1) ++ List.replicate 10 (runEntry 0) ++
    List.replicate 5 (runEntry 1) ++ List.replicate 5 (runEntry 0) ++
    List.replicate 10 (runEntry 1)

/-- The state after the first `n` moves of `race`. -/
def raceState (n : Nat) : State 2 :=
  (execute false (race.take n) (init 2 1 (some 0))).getD (init 2 1 (some 0))

/-- After 22 moves thread 0 holds the lock at its status store and thread 1, whose `stxr`
failed, waits at `wfe` with the word at `1`; after 37 both threads have run their sections. -/
theorem a64_spin_mutex_refines_race :
    (Reachable false 1 (some 0) (raceState 22) ∧ ((raceState 22).th 0).th.pc = .setUnique ∧
      (∃ k, ((raceState 22).th 1).blk = .lock k ∧ k.pc = 2 ∧ k.tmp = 1) ∧
      (raceState 22).state = 1) ∧
    (SpinMutex.Reachable false 1 (some 0) ((raceState 22).abs false) ∧
      (raceState 22).state ≤ 1 ∧
      ((∀ t, ((raceState 22).th t).th.pc = .idle ∧ ((raceState 22).th t).th.todo = 0) →
        (raceState 22).c = 2 * 1) ∧
      ∀ t u, ((raceState 22).th t).th.holds = true → ((raceState 22).th u).th.holds = true →
        t = u) ∧
    (Reachable false 1 (some 0) (raceState 37) ∧
      (∀ t, ((raceState 37).th t).th.pc = .idle ∧ ((raceState 37).th t).th.todo = 0) ∧
      (raceState 37).c = 2 * 1) :=
  have h22 : Reachable false 1 (some 0) (raceState 22) := Reachable.execute_getD rfl
  have h37 : Reachable false 1 (some 0) (raceState 37) := Reachable.execute_getD rfl
  ⟨⟨h22, by decide, ⟨_, rfl, rfl, rfl⟩, by decide⟩, a64_spin_mutex_refines h22,
    ⟨h37, by decide, (a64_spin_mutex_refines h37).2.2.1 (by decide)⟩⟩

end SpinMutexA64

namespace HtmSpinMutexA64

open HtmSpinMutex (Act Store)

/-- The HTM spin mutex and each thread's state in the block of `libtle_spinlock_lock`. -/
structure State (N : Nat) where
  base : HtmSpinMutex.State N
  blk : Fin N → A64SpinThread

/-- What happens next: thread `t` takes a step (`a`, with the abort statuses `x`), entering
the block with the registers `e`; or the hardware closes thread `t`'s monitor. -/
inductive Move (N : Nat)
  | run (t : Fin N) (a : Act) (x : Fin N → Nat) (e : A64Cpu)
  | lose (t : Fin N)

variable {N : Nat}

/-- One step of the thread `th` in the block state `b`, on the word `st` and the counter
`c`. At `libtle_spinlock_lock` on the fallback path the call enters the block with the
registers `e`, then runs one instruction a step, and its `stxr` stores to `state`; when the
block returns, the thread goes on to its status store, or with `NDEBUG` into its section. Any
other step is the step of `HtmSpinMutex` on TME. -/
def step (R : Nat) (nd : Bool) (st : Int) (c : Nat) (th : HtmSpinMutex.Thread)
    (b : A64SpinThread) (a : Act) (y : Nat) (e : A64Cpu) :
    Option (HtmSpinMutex.Thread × A64SpinThread × Option Store) :=
  if a = .run ∧ th.pc = .fallback then
    match b with
    | .idle => some (th, .lock { e with pc := 0, val := 1 }, none)
    | .lock k =>
      let r := a64Step a64SpinlockLockAsm st.toNat 0 k
      let w : Option Store := if a64Stores a64SpinlockLockAsm k then some (.state r.1) else none
      if r.2.pc = a64SpinlockLockAsm.length then
        some ({ th with pc := if nd then .csRead else .setUnique }, .idle, w)
      else some (th, .lock r.2, w)
  else (HtmSpinMutex.step .tme R nd st c th a y).map fun r => (r.1, b, r.2)

/-- Every monitor but thread `t`'s closes when `w` stores to `state`. -/
def clearOthers (blk : Fin N → A64SpinThread) (t : Fin N) (w : Option Store) :
    Fin N → A64SpinThread :=
  match w with
  | some (.state _) => fun u => if u = t then blk u else (blk u).clearMon
  | _ => blk

/-- Thread `t` takes a step. Its store aborts the transactions it conflicts with, the one of
thread `u` with status `x u`, and a store to `state` closes every other monitor. -/
def next (R : Nat) (nd : Bool) (s : State N) (t : Fin N) (a : Act) (x : Fin N → Nat)
    (e : A64Cpu) : Option (State N) :=
  if ∃ u, x u = xbeginStarted .tme then none
  else (step R nd s.base.state s.base.c (s.base.th t) (s.blk t) a (x t) e).map fun r =>
    ⟨s.base.apply t r.1 r.2.2 x, Function.update (clearOthers s.blk t r.2.2) t r.2.1⟩

/-- The hardware closes thread `t`'s monitor, with no store. -/
def State.lose (s : State N) (t : Fin N) : State N :=
  ⟨s.base, Function.update s.blk t (s.blk t).clearMon⟩

def move (R : Nat) (nd : Bool) (s : State N) : Move N → Option (State N)
  | .run t a x e => next R nd s t a x e
  | .lose t => some (s.lose t)

/-- `libtle_htm_spin_mutex_init`, every thread outside the block. -/
def init (N K : Nat) (p : Option HtmMutexProfile) : State N :=
  ⟨HtmSpinMutex.init N K p, fun _ => .idle⟩

/-- The states of the AArch64 build reachable under every interleaving of instructions,
aborts and losses of monitors, with retry limit `R` in build `nd`. -/
inductive Reachable (R : Nat) (nd : Bool) (K : Nat) (p : Option HtmMutexProfile) :
    State N → Prop
  | init : Reachable R nd K p (init N K p)
  | step {s s' : State N} (m : Move N) : Reachable R nd K p s → move R nd s m = some s' →
    Reachable R nd K p s'

/-- Runs a schedule of moves; `none` when one of them cannot happen. -/
def execute (R : Nat) (nd : Bool) : List (Move N) → State N → Option (State N)
  | [], s => some s
  | m :: l, s => (move R nd s m).bind (execute R nd l)

theorem Reachable.execute {R K : Nat} {nd : Bool} {p : Option HtmMutexProfile}
    {s s' : State N} :
    ∀ {l : List (Move N)}, Reachable R nd K p s → execute R nd l s = some s' →
      Reachable R nd K p s'
  | [], hs, h => by cases h; exact hs
  | m :: l, hs, h => by
    simp only [HtmSpinMutexA64.execute, Option.bind_eq_some] at h
    obtain ⟨s₁, h₁, h₂⟩ := h
    exact Reachable.execute (hs.step m h₁) h₂

/-- A schedule that runs to its end from the initial state reaches the state it ends in. -/
theorem Reachable.execute_getD {R K : Nat} {nd : Bool} {p : Option HtmMutexProfile}
    {l : List (Move N)}
    (h : (HtmSpinMutexA64.execute R nd l (HtmSpinMutexA64.init N K p)).isSome) :
    Reachable R nd K p ((HtmSpinMutexA64.execute R nd l (HtmSpinMutexA64.init N K p)).getD
      (HtmSpinMutexA64.init N K p)) := by
  obtain ⟨s, hs⟩ := Option.isSome_iff_exists.1 h
  rw [hs]
  exact Reachable.init.execute hs

/-! ## The AArch64 build refines `HtmSpinMutex` -/

/-- The thread of `HtmSpinMutex` on its fallback path at `libtle_spinlock_lock` whose
test-and-set position is `a`: at the call, or, once it holds the lock, at its status store (in
its section with `NDEBUG`). -/
def acquireAt (nd : Bool) (th : HtmSpinMutex.Thread) (a : TasPc) : HtmSpinMutex.Thread :=
  if a.holding then { th with pc := if nd then .csRead else .setUnique } else th

/-- The state of `HtmSpinMutex` an AArch64 state stands for. -/
def State.abs (nd : Bool) (s : State N) : HtmSpinMutex.State N :=
  ⟨s.base.state, s.base.c, fun t => acquireAt nd (s.base.th t) (s.blk t).abs⟩

/-- A thread is in the block only at the call on its fallback path, outside any transaction,
before the block returns, in a state its instructions reach on the word `w`. -/
def Ok (w : Nat) (th : HtmSpinMutex.Thread) : A64SpinThread → Prop
  | .idle => True
  | .lock k => th.pc = .fallback ∧ th.txn = none ∧ A64SpinOk w k ∧
      k.pc < a64SpinlockLockAsm.length

/-- The word after the store `w`, if any. -/
def newWord : Option Store → Int → Int
  | some (.state v), _ => v
  | _, st => st

section Refinement

variable {nd : Bool}

theorem State.apply_state (s : HtmSpinMutex.State N) (t : Fin N) (th : HtmSpinMutex.Thread)
    (w : Option Store) (x : Fin N → Nat) : (s.apply t th w x).state = newWord w s.state := by
  rcases w with _ | ⟨v⟩ | ⟨v⟩ <;> rfl

theorem Ok.clearMon {th : HtmSpinMutex.Thread} {b : A64SpinThread} {w : Nat} (h : Ok w th b)
    (w' : Nat) : Ok w' th b.clearMon := by
  cases b with
  | idle => trivial
  | lock k => exact ⟨h.1, h.2.1, h.2.2.1.clearMon w', h.2.2.2⟩

/-- A thread in the block runs no transaction, so no store aborts it. -/
theorem Ok.abortOn_of_lock {w : Nat} {th : HtmSpinMutex.Thread} {k : A64Cpu}
    (h : Ok w th (.lock k)) (v : Option Store) (y : Nat) : th.abortOn v y = th := by
  unfold HtmSpinMutex.Thread.abortOn
  rw [h.2.1]

theorem Ok.abortOn {w : Nat} {th : HtmSpinMutex.Thread} {b : A64SpinThread} (h : Ok w th b)
    (v : Option Store) (y : Nat) : Ok w (th.abortOn v y) b := by
  cases b with
  | idle => trivial
  | lock k => rw [h.abortOn_of_lock]; exact h

/-- A store aborts a thread as it aborts the thread it stands for. -/
theorem Ok.acquireAt_abortOn {w : Nat} {th : HtmSpinMutex.Thread} {b : A64SpinThread}
    (h : Ok w th b) (v : Option Store) (y : Nat) :
    acquireAt nd (th.abortOn v y) b.abs = (acquireAt nd th b.abs).abortOn v y := by
  cases b with
  | idle => rfl
  | lock k =>
    have htx : (acquireAt nd th (A64SpinThread.lock k).abs).txn = none := by
      unfold acquireAt
      split_ifs <;> exact h.2.1
    rw [h.abortOn_of_lock]
    unfold HtmSpinMutex.Thread.abortOn
    rw [htx]

/-- On its fallback path at the call and outside any transaction, a thread has no step of
`HtmSpinMutex` but `.run`. -/
theorem step_fallback {R : Nat} {st : Int} {c : Nat} {th : HtmSpinMutex.Thread} {a : Act}
    {y : Nat} (hpc : th.pc = .fallback) (htx : th.txn = none) (ha : a ≠ .run) :
    HtmSpinMutex.step .tme R nd st c th a y = none := by
  cases a
  · exact absurd rfl ha
  · simp [HtmSpinMutex.step, HtmSpinMutex.htmSpinMutexLock, hpc]
  · simp [HtmSpinMutex.step_abort, htx]

/-- An instruction of the block stores only when `stxr` finds its monitor open, and then it
takes the free word. -/
theorem A64SpinOk.stores_tas {w : Nat} {k : A64Cpu} (h : A64SpinOk w k)
    (hs : a64Stores a64SpinlockLockAsm k = true) :
    w = 0 ∧ a64SpinAbs k = .spin ∧ (a64Step a64SpinlockLockAsm w 0 k).1 = 1 ∧
      a64SpinAbs (a64Step a64SpinlockLockAsm w 0 k).2 = .holds := by
  rcases A64SpinOk.tas h with ⟨h1, -⟩ | h1
  · -- a store that leaves the word as it is would write `1` over `1`
    obtain ⟨pc, tmp, val, z, mon⟩ := k
    obtain ⟨hpc, hval, h5, hmon⟩ := h
    simp only at hpc hval h5 hmon
    interval_cases pc <;>
      simp_all [a64Stores, a64Step, a64SpinlockLockAsm, A64Insn.exec, A64Cpu.get, A64Cpu.set]
  · exact h1

/-- A step of an AArch64 thread is a step of the thread of `HtmSpinMutex` it stands for, or
changes neither that thread nor memory. -/
theorem Ok.step {R : Nat} {st : Int} {c : Nat} {th th' : HtmSpinMutex.Thread}
    {b b' : A64SpinThread} {a : Act} {y : Nat} {e : A64Cpu} {w : Option Store}
    (hok : Ok st.toNat th b) (hst : 0 ≤ st) (habs : (acquireAt nd th b.abs).Ok nd)
    (h : HtmSpinMutexA64.step R nd st c th b a y e = some (th', b', w)) :
    Ok (newWord w st).toNat th' b' ∧
      (w = none ∧ acquireAt nd th' b'.abs = acquireAt nd th b.abs ∨
        HtmSpinMutex.step .tme R nd st c (acquireAt nd th b.abs) a y =
          some (acquireAt nd th' b'.abs, w)) := by
  unfold HtmSpinMutexA64.step at h
  by_cases hl : a = .run ∧ th.pc = .fallback
  swap
  · -- any other step is the step of `HtmSpinMutex`
    rw [if_neg hl] at h
    obtain ⟨⟨th₁, w₁⟩, hr, h⟩ := Option.map_eq_some'.1 h
    simp only [Prod.mk.injEq] at h
    obtain ⟨rfl, rfl, rfl⟩ := h
    cases b with
    | idle => exact ⟨trivial, .inr hr⟩
    | lock k =>
      have ha : a ≠ .run := fun ha => hl ⟨ha, hok.1⟩
      simp [step_fallback hok.1 hok.2.1 ha] at hr
  rw [if_pos hl] at h
  obtain ⟨rfl, hpc⟩ := hl
  cases b with
  | idle =>
    -- the call enters the block: a stutter
    simp only [Option.some.injEq, Prod.mk.injEq] at h
    obtain ⟨rfl, rfl, rfl⟩ := h
    have htx : th.txn = none := by
      have h2 := habs.2
      simp only [acquireAt, A64SpinThread.abs, TasPc.holding_idle, Bool.false_eq_true, if_false,
        hpc] at h2
      exact h2.1
    refine ⟨⟨hpc, htx, ⟨by simp, rfl, by simp, by simp⟩, by simp [a64SpinlockLockAsm]⟩,
      .inl ⟨rfl, ?_⟩⟩
    simp [acquireAt, A64SpinThread.abs, a64SpinAbs]
  | lock k =>
    -- an instruction of the block
    obtain ⟨-, htx, hk, hlt⟩ := hok
    obtain ⟨hk', hw, -⟩ := A64SpinOk.step hk
    have htas := A64SpinOk.tas hk
    have hstore := A64SpinOk.stores_tas hk
    simp only at h
    generalize a64Step a64SpinlockLockAsm st.toNat 0 k = r at hk' hw htas hstore h
    obtain ⟨rfl, hth, hok'⟩ : w = (if a64Stores a64SpinlockLockAsm k then some (.state r.1)
          else none) ∧ acquireAt nd th' b'.abs = acquireAt nd th (a64SpinAbs r.2) ∧
        Ok r.1 th' b' := by
      by_cases hend : r.2.pc = a64SpinlockLockAsm.length
      · rw [if_pos hend] at h
        simp only [Option.some.injEq, Prod.mk.injEq] at h
        obtain ⟨rfl, rfl, rfl⟩ := h
        exact ⟨rfl, by simp [acquireAt, A64SpinThread.abs, a64SpinAbs_of_returned hend],
          trivial⟩
      · rw [if_neg hend] at h
        simp only [Option.some.injEq, Prod.mk.injEq] at h
        obtain ⟨rfl, rfl, rfl⟩ := h
        exact ⟨rfl, rfl, hpc, htx, hk', lt_of_le_of_ne hk'.1 hend⟩
    rw [hth]
    cases hs : a64Stores a64SpinlockLockAsm k
    · -- no store: the block reads the word and does not take it
      have hr1 := hw hs
      refine ⟨by simpa [newWord, hr1] using hok', .inl ⟨rfl, ?_⟩⟩
      rcases htas with ⟨-, h2⟩ | ⟨h0, -, h1, -⟩
      · rw [h2]; rfl
      · omega
    · -- `stxr` stores `1` over `0`: the acquire of `HtmSpinMutex`
      obtain ⟨h0, h1, h2, h3⟩ := hstore hs
      obtain rfl : st = 0 := by omega
      refine ⟨by simpa [newWord, h2] using hok', .inr ?_⟩
      simp [HtmSpinMutex.step, HtmSpinMutex.htmSpinMutexLock, acquireAt, A64SpinThread.abs, h1, h2,
        h3, hpc]

theorem abortOn_none (th : HtmSpinMutex.Thread) (y : Nat) : th.abortOn none y = th := by
  unfold HtmSpinMutex.Thread.abortOn
  split <;> simp_all

theorem clearOthers_abs (blk : Fin N → A64SpinThread) (t u : Fin N) (w : Option Store) :
    (clearOthers blk t w u).abs = (blk u).abs := by
  rcases w with _ | ⟨v⟩ | ⟨v⟩ <;> simp only [clearOthers]
  split_ifs <;> simp [A64SpinThread.abs_clearMon]

/-- Another thread keeps its shape when a step stores `w`: a store to `state` closes its
monitor, and any other store leaves the word alone. -/
theorem Ok.clearOthers {th : HtmSpinMutex.Thread} {blk : Fin N → A64SpinThread} {t u : Fin N}
    (hu : u ≠ t) {st : Int} {w : Option Store} (h : Ok st.toNat th (blk u)) :
    Ok (newWord w st).toNat th (clearOthers blk t w u) := by
  rcases w with _ | ⟨v⟩ | ⟨v⟩
  · exact h
  · simp only [HtmSpinMutexA64.clearOthers, if_neg hu]
    exact h.clearMon _
  · exact h

/-- The state a step leads to stands for the step of `HtmSpinMutex` to the thread `th'` with
the store `w`. -/
theorem State.abs_apply (s : State N) (t : Fin N) (th' : HtmSpinMutex.Thread) (b' : A64SpinThread)
    (w : Option Store) (x : Fin N → Nat)
    (hok : ∀ u, Ok s.base.state.toNat (s.base.th u) (s.blk u)) :
    State.abs nd ⟨s.base.apply t th' w x, Function.update (clearOthers s.blk t w) t b'⟩ =
      (s.abs nd).apply t (acquireAt nd th' b'.abs) w x := by
  simp only [State.abs, HtmSpinMutex.State.apply, HtmSpinMutex.State.mk.injEq, true_and]
  funext u
  rcases eq_or_ne u t with rfl | hu
  · simp
  · simp only [Function.update_noteq hu, clearOthers_abs]
    exact (hok u).acquireAt_abortOn w (x u)

/-- A move of the AArch64 build is a step of `HtmSpinMutex` or leaves the state it stands for
as it is. -/
theorem State.abs_move {R : Nat} {s s' : State N} {m : Move N}
    (hok : ∀ u, Ok s.base.state.toNat (s.base.th u) (s.blk u)) (hst : 0 ≤ s.base.state)
    (habs : ∀ u, ((s.abs nd).th u).Ok nd) (h : move R nd s m = some s') :
    (∀ u, Ok s'.base.state.toNat (s'.base.th u) (s'.blk u)) ∧
      (s'.abs nd = s.abs nd ∨
        ∃ t a x, HtmSpinMutex.next .tme R nd (s.abs nd) t a x = some (s'.abs nd)) := by
  cases m with
  | lose t =>
    -- a lost monitor changes neither memory nor what the thread stands for
    simp only [move, Option.some.injEq] at h
    subst h
    refine ⟨fun u => ?_, .inl ?_⟩
    · rcases eq_or_ne u t with rfl | hu
      · simpa [State.lose] using (hok u).clearMon s.base.state.toNat
      · simpa [State.lose, hu] using hok u
    · simp only [State.abs, State.lose, HtmSpinMutex.State.mk.injEq, true_and]
      funext u
      rcases eq_or_ne u t with rfl | hu <;> simp [*, A64SpinThread.abs_clearMon]
  | run t a x e =>
    simp only [move, next] at h
    split_ifs at h with hx
    obtain ⟨⟨th', b', w⟩, hr, rfl⟩ := Option.map_eq_some'.1 h
    obtain ⟨hok', hm⟩ := (hok t).step hst (habs t) hr
    refine ⟨fun u => ?_, ?_⟩
    · simp only [HtmSpinMutexA64.State.apply_state]
      rcases eq_or_ne u t with rfl | hu
      · simpa using hok'
      · rw [HtmSpinMutex.State.apply_th_ne hu, Function.update_noteq hu]
        exact ((hok u).abortOn w (x u)).clearOthers hu
    · rw [State.abs_apply s t th' b' w x hok]
      rcases hm with ⟨rfl, h1⟩ | h1
      · refine .inl ?_
        rw [h1]
        simp only [HtmSpinMutex.State.apply, abortOn_none, State.abs, HtmSpinMutex.State.mk.injEq,
          true_and]
        exact Function.update_eq_self t _
      · exact .inr ⟨t, a, x, by simp [HtmSpinMutex.next, hx, State.abs, h1]⟩

/-- Every state of the AArch64 build stands for a reachable state of `HtmSpinMutex` on TME. -/
theorem Reachable.abs {R K : Nat} {p : Option HtmMutexProfile} {s : State N}
    (hs : Reachable R nd K p s) :
    (∀ u, Ok s.base.state.toNat (s.base.th u) (s.blk u)) ∧
      HtmSpinMutex.Reachable .tme R nd K p (s.abs nd) := by
  induction hs with
  | init => exact ⟨fun _ => trivial, .init⟩
  | @step s₀ _ m _ hm ih =>
    have hinv := ih.2.inv
    have hst : 0 ≤ s₀.base.state := by
      have h := hinv.word
      simp only [State.abs] at h
      omega
    obtain ⟨hok', h⟩ := State.abs_move ih.1 hst hinv.ok hm
    refine ⟨hok', ?_⟩
    rcases h with h | ⟨t, a, x, h⟩
    · rw [h]; exact ih.2
    · exact ih.2.step t a x h

/-- A thread away from the call, or in a transaction, is outside the block and stands for
itself. -/
theorem Ok.abs_eq {w : Nat} {th : HtmSpinMutex.Thread} {b : A64SpinThread} (h : Ok w th b)
    (hb : th.pc ≠ .fallback ∨ th.txn.isSome = true) : acquireAt nd th b.abs = th := by
  cases b with
  | idle => rfl
  | lock k => rcases hb with hb | hb <;> simp_all [Ok]

/-- The AArch64 build of `libtle_htm_spin_mutex_t` on TME: every state that the test program
reaches, running `libtle_spinlock_lock` on its fallback path as the `ldaxr`/`stxr` block,
under any interleaving, any aborts and any loss of monitors, stands for a reachable state of
`HtmSpinMutex`. So no increment is lost, one thread at most holds `state`, and none while a
transaction that read `state` is live. -/
theorem a64_htm_spin_mutex_refines {R K : Nat} {p : Option HtmMutexProfile} {s : State N}
    (hs : Reachable R nd K p s) :
    HtmSpinMutex.Reachable .tme R nd K p (s.abs nd) ∧
      ((∀ t, (s.base.th t).pc = .idle ∧ (s.base.th t).todo = 0) → s.base.c = N * K) ∧
      (∀ t u, (s.base.th t).holds = true → (s.base.th u).holds = true → t = u) ∧
      ∀ t u tx, (s.base.th t).holds = true → (s.base.th u).txn = some tx →
        tx.readsState = true → False := by
  obtain ⟨hok, hr⟩ := hs.abs
  have hinv := hr.inv
  -- a holder is on its section's side of the call and stands for itself
  have hholds : ∀ t, (s.base.th t).holds = true → ((s.abs nd).th t).holds = true := by
    intro t ht
    have hpc : (s.base.th t).pc ≠ .fallback := fun hpc => by
      simp [HtmSpinMutex.Thread.holds, hpc] at ht
    rw [show (s.abs nd).th t = _ from (hok t).abs_eq (.inl hpc)]
    exact ht
  refine ⟨hr, fun hdone => ?_, fun t u ht hu => hinv.holds_unique (hholds t ht) (hholds u hu),
    fun t u tx ht htx hrd => ?_⟩
  · refine hr.c_eq_of_done fun t => ?_
    rw [show (s.abs nd).th t = _ from (hok t).abs_eq (.inl (by simp [(hdone t).1]))]
    exact hdone t
  · have htx : ((s.abs nd).th u).txn = some tx := by
      rw [show (s.abs nd).th u = _ from (hok u).abs_eq (.inr (by simp [htx]))]
      exact htx
    simpa [hholds t ht] using hinv.not_holds_of_txn htx hrd t

end Refinement

/-- Thread `t` runs `a`; a failing transaction gets `_XABORT_CAPACITY`, which is not
restartable, and a thread at the call enters the block with `a64Entry`. -/
def runCap (t : Fin N) (a : Act) : Move N := .run t a (fun _ => xabortCapacity .tme) a64Entry

/-- Two threads, one section each, with zeroed profiles, in the debug build with retry limit
`10`. Thread 1 starts a transaction and passes its check of `state`. Thread 0's `_xbegin` fails
and thread 0 runs the block of its fallback; the `stxr` that takes `state` aborts thread 1's
transaction with a restartable conflict. Thread 0 runs its section and unlocks; thread 1 goes
round its loop again, elides its section and commits. -/
def race : List (Move 2) :=
  List.replicate 5 (runCap 1 .run) ++
    [runCap 0 .run, runCap 0 .run, runCap 0 .run, runCap 0 .fail] ++
    List.replicate 7 (runCap 0 .run) ++
    [.run 0 .run (fun _ => xabortConflict .tme ||| xabortRetry .tme) a64Entry] ++
    List.replicate 6 (runCap 0 .run) ++ List.replicate 8 (runCap 1 .run)

/-- The state after the first `n` moves of `race`. -/
def raceState (n : Nat) : State 2 :=
  (execute 10 false (race.take n) (init 2 1 (some .init))).getD (init 2 1 (some .init))

/-- After 17 moves thread 0 is in the block past the `stxr` that took `state`, standing for
the thread at its status store, and that store has aborted thread 1's transaction; after 31
both threads have run their sections. -/
theorem a64_htm_spin_mutex_refines_race :
    (Reachable 10 false 1 (some .init) (raceState 17) ∧ (raceState 17).base.state = 1 ∧
      (∃ k, (raceState 17).blk 0 = .lock k ∧ k.pc = 6 ∧ k.tmp = 0) ∧
      (((raceState 17).abs false).th 0).pc = .setUnique ∧
      ((raceState 17).base.th 1).pc = .aborted ∧
      ((raceState 17).base.th 1).xstatus = xabortConflict .tme ||| xabortRetry .tme) ∧
    (HtmSpinMutex.Reachable .tme 10 false 1 (some .init) ((raceState 17).abs false) ∧
      ((∀ t, ((raceState 17).base.th t).pc = .idle ∧ ((raceState 17).base.th t).todo = 0) →
        (raceState 17).base.c = 2 * 1) ∧
      (∀ t u, ((raceState 17).base.th t).holds = true →
        ((raceState 17).base.th u).holds = true → t = u) ∧
      ∀ t u tx, ((raceState 17).base.th t).holds = true →
        ((raceState 17).base.th u).txn = some tx → tx.readsState = true → False) ∧
    (Reachable 10 false 1 (some .init) (raceState 31) ∧
      (∀ t, ((raceState 31).base.th t).pc = .idle ∧ ((raceState 31).base.th t).todo = 0) ∧
      (raceState 31).base.c = 2 * 1) :=
  have h17 : Reachable 10 false 1 (some .init) (raceState 17) := Reachable.execute_getD rfl
  have h31 : Reachable 10 false 1 (some .init) (raceState 31) := Reachable.execute_getD rfl
  ⟨⟨h17, by decide, ⟨_, rfl, rfl, rfl⟩, by decide, by decide, by decide⟩,
    a64_htm_spin_mutex_refines h17,
    ⟨h31, by decide, (a64_htm_spin_mutex_refines h31).2.1 (by decide)⟩⟩

end HtmSpinMutexA64

end LibTle
