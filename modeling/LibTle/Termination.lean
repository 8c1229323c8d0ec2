import LibTle.SpinMutex
import LibTle.HtmSpinMutexProfile

/-!
# The test programs terminate

The test program runs `K` sections `lock(); c := c + 1; unlock()` on each of `N` threads.
On `libtle_spin_mutex_t` and on `libtle_htm_spin_mutex_t` no step of the model spins: a
thread that finds the lock taken at `libtle_spinlock_lock` or `unlock_wait` has no step
until the word changes. For both mutexes, in either build, under every schedule, and for the HTM
mutex wherever the hardware aborts:

* every step lowers a count of the steps the threads have left (`stepsLeft`), so every run
  is finite;
* a reachable state where no thread can move is one where every thread has run its `K`
  sections, so every run ends with `c = N * K`.

On the HTM mutex the count of a call charges each attempt it may still make; the retry loop
gives every call at most `max R 1` attempts (`Thread.Budget`), whatever the profile, since
the profile never steers a thread (`Reachable.eraseProf`).
-/

namespace LibTle

/-- A sum over the threads goes down when one thread's term goes down and no other goes up. -/
theorem sum_lt_of_update {N : Nat} {f g : Fin N → Nat} (t : Fin N) (ht : g t < f t)
    (h : ∀ u, u ≠ t → g u ≤ f u) : ∑ u, g u < ∑ u, f u :=
  Finset.sum_lt_sum (fun u _ => by rcases eq_or_ne u t with rfl | hu; exacts [ht.le, h u hu])
    ⟨t, Finset.mem_univ t, ht⟩

namespace SpinMutex

variable {N : Nat}

/-- The steps a thread has left: eight for each section it has still to start, and those left
to the section it is in. -/
def Thread.stepsLeft (th : Thread) : Nat :=
  8 * th.todo + match th.pc with
    | .idle | .error => 0
    | .released => 1
    | .unlockEntry => 2
    | .csWrite => 3
    | .csRead => 4
    | .setUnique => 5
    | .acquire => 6
    | .lockEntry => 7

/-- The steps the threads have left. -/
def State.stepsLeft (s : State N) : Nat := ∑ t, (s.th t).stepsLeft

/-- Every step of a thread lowers its steps left. -/
theorem step_stepsLeft {nd : Bool} {st : Int} {c : Nat} {th th' : Thread} {st' : Int} {c' : Nat}
    (h : step nd st c th = some (th', st', c')) : th'.stepsLeft < th.stepsLeft := by
  cases hpc : th.pc <;> simp only [step, spinMutexLock, spinMutexUnlock, hpc] at h <;>
    (repeat' split at h) <;>
    simp only [Option.map_some', Option.map_none', Option.some.injEq, Prod.mk.injEq,
      reduceCtorEq] at h <;>
    (obtain ⟨rfl, -, -⟩ := h; simp [Thread.stepsLeft, hpc]; try omega)

theorem next_stepsLeft {nd : Bool} {s s' : State N} {t : Fin N} (h : next nd s t = some s') :
    s'.stepsLeft < s.stepsLeft := by
  simp only [SpinMutex.next, Option.map_eq_some'] at h
  obtain ⟨⟨th, st, c⟩, hr, rfl⟩ := h
  exact sum_lt_of_update t (by simpa using step_stepsLeft hr) fun u hu => by simp [hu]

/-- A reachable state where no thread can move has run every section: a thread at
`libtle_spinlock_lock` waits only while another holds the lock, and the holder can always
move. -/
theorem Reachable.done_of_stuck {nd : Bool} {K : Nat} {p : Option Nat} {s : State N}
    (hs : Reachable nd K p s) (hstuck : ∀ t, next nd s t = none) (t : Fin N) :
    (s.th t).pc = .idle ∧ (s.th t).todo = 0 := by
  have h := hs.inv
  have hnone : ∀ u, SpinMutex.step nd s.state s.c (s.th u) = none := fun u => by
    simpa [SpinMutex.next] using hstuck u
  have hok := h.ok t
  have ht := hnone t
  cases hpc : (s.th t).pc <;> simp only [Thread.Ok, hpc] at hok <;>
    simp only [SpinMutex.step, spinMutexLock, spinMutexUnlock, hpc, Option.map_eq_none'] at ht
  case idle => exact ⟨rfl, by simpa using ht⟩
  case acquire =>
    -- the word is `1`: its holder can move
    have hst : s.state ≠ 0 := by simpa using ht
    have hw := h.word
    have hle := h.word_le
    obtain ⟨u, hu⟩ := count_pos_iff.1 (show 0 < count Thread.holds s.th by omega)
    have hu' := hnone u
    cases hpu : (s.th u).pc <;> simp only [Thread.holds, hpu, Bool.false_eq_true] at hu <;>
      simp [SpinMutex.step, spinMutexLock, spinMutexUnlock, hpu] at hu'
  all_goals simp_all

/-- A state where every thread is idle with its sections run is stuck: the converse of
`Reachable.done_of_stuck`. -/
theorem next_eq_none_of_done {nd : Bool} {s : State N} (h : ∀ t, (s.th t).pc = .idle ∧ (s.th t).todo = 0)
    (t : Fin N) : next nd s t = none := by
  simp [SpinMutex.next, SpinMutex.step, (h t).1, (h t).2]

@[simp] theorem init_stepsLeft (N K : Nat) (p : Option Nat) :
    (init N K p).stepsLeft = N * (8 * K) := by
  simp [State.stepsLeft, Thread.stepsLeft, init]

/-- The spin-mutex test program terminates under every schedule: every step lowers the steps
left, `8 * K` per thread at the start, and a reachable state where no thread can move has run
every section, with `c = N * K`. -/
theorem spin_mutex_test_terminates {nd : Bool} {K : Nat} {p : Option Nat} {s : State N}
    (hs : Reachable nd K p s) :
    (∀ t s', next nd s t = some s' → s'.stepsLeft < s.stepsLeft) ∧
      ((∀ t, next nd s t = none) →
        (∀ t, (s.th t).pc = .idle ∧ (s.th t).todo = 0) ∧ s.c = N * K) :=
  ⟨fun _ _ h => next_stepsLeft h,
    fun h => ⟨hs.done_of_stuck h, hs.c_eq_of_done (hs.done_of_stuck h)⟩⟩

/-- Mid-run, thread 0 holds the lock and thread 1 waits for it; at the end of `race` both
have run their sections and no thread can move. -/
theorem spin_mutex_test_terminates_race :
    (Reachable false 1 (some 0) (raceState 5) ∧ ((raceState 5).th 0).pc = .setUnique ∧
      ((raceState 5).th 1).pc = .acquire) ∧
    ((∀ t s', next false (raceState 5) t = some s' → s'.stepsLeft < (raceState 5).stepsLeft) ∧
      ((∀ t, next false (raceState 5) t = none) →
        (∀ t, ((raceState 5).th t).pc = .idle ∧ ((raceState 5).th t).todo = 0) ∧
          (raceState 5).c = 2 * 1)) ∧
    (Reachable false 1 (some 0) (raceState 16) ∧ ∀ t, next false (raceState 16) t = none) ∧
    ((∀ t s', next false (raceState 16) t = some s' → s'.stepsLeft < (raceState 16).stepsLeft) ∧
      ((∀ t, next false (raceState 16) t = none) →
        (∀ t, ((raceState 16).th t).pc = .idle ∧ ((raceState 16).th t).todo = 0) ∧
          (raceState 16).c = 2 * 1)) :=
  ⟨⟨Reachable.raceState rfl, by decide, by decide⟩,
    spin_mutex_test_terminates (Reachable.raceState rfl),
    ⟨Reachable.raceState rfl, next_eq_none_of_done (by decide)⟩,
    spin_mutex_test_terminates (Reachable.raceState rfl)⟩

end SpinMutex

namespace HtmSpinMutex

variable {N : Nat}

/-- The thread with a null profile pointer. -/
def Thread.eraseProf (th : Thread) : Thread := { th with prof := none }

/-- Every thread with a null profile pointer. -/
def State.eraseProf (s : State N) : State N := { s with th := fun t => (s.th t).eraseProf }

@[simp] theorem State.eraseProf_state (s : State N) : s.eraseProf.state = s.state := rfl
@[simp] theorem State.eraseProf_c (s : State N) : s.eraseProf.c = s.c := rfl
@[simp] theorem State.eraseProf_th (s : State N) (t : Fin N) :
    s.eraseProf.th t = (s.th t).eraseProf := rfl

/-- The profile never steers a thread: with a null profile, a step does what it does with
any other, and leaves the profile null. -/
theorem step_eraseProf (isa : HtmIsa) (R : Nat) (nd : Bool) (st : Int) (c : Nat) (th : Thread)
    (a : Act) (x : Nat) :
    step isa R nd st c th.eraseProf a x =
      (step isa R nd st c th a x).map fun r => (r.1.eraseProf, r.2) := by
  obtain ⟨pc, status, txn, retries, xstatus, v, prof, todo⟩ := th
  cases a
  case abort => rw [step_abort, step_abort]; cases txn <;> rfl
  all_goals
    unfold step htmSpinMutexLock htmSpinMutexUnlock xend
    cases pc <;> cases txn <;> dsimp only [Thread.eraseProf]
  all_goals (repeat' split) <;> rfl

theorem Thread.abortOn_eraseProf (th : Thread) (w : Option Store) (x : Nat) :
    th.eraseProf.abortOn w x = (th.abortOn w x).eraseProf := by
  obtain ⟨pc, status, txn, retries, xstatus, v, prof, todo⟩ := th
  cases txn <;> cases w <;> simp only [Thread.abortOn, Thread.eraseProf]
  split_ifs <;> rfl

theorem State.apply_eraseProf (s : State N) (t : Fin N) (th : Thread) (w : Option Store)
    (x : Fin N → Nat) : (s.apply t th w x).eraseProf = s.eraseProf.apply t th.eraseProf w x := by
  simp only [State.eraseProf, State.apply, State.mk.injEq, true_and]
  funext u
  rcases eq_or_ne u t with rfl | hu
  · simp
  · simp [Function.update_noteq hu, Thread.abortOn_eraseProf]

/-- A rank of the positions of one attempt, which every step of the attempt lowers. -/
def Pc.attemptRank : Pc → Nat
  | .unlockWait => 9
  | .xbegin | .fallback => 8
  | .check | .setUnique => 7
  | .csRead => 6
  | .csWrite => 5
  | .unlockEntry => 4
  | .release | .commit => 3
  | .committed => 2
  | .released => 1
  | .idle | .lockEntry | .aborted | .error => 0

/-- A bound on the steps the thread has left when a call makes at most `M` attempts: ten for
each attempt its call has left, and a whole call for each section it has still to start. -/
def Thread.stepsLeft (M : Nat) (th : Thread) : Nat :=
  (10 * M + 11) * th.todo + match th.pc with
    | .idle | .error => 0
    | .lockEntry => 10 * M + 10
    | .unlockWait | .xbegin | .check | .aborted | .fallback | .setUnique | .csRead | .csWrite
    | .unlockEntry | .release | .commit | .released | .committed =>
      10 * (M - th.retries) + th.pc.attemptRank

/-- The steps the threads have left. -/
def State.stepsLeft (M : Nat) (s : State N) : Nat := ∑ t, (s.th t).stepsLeft M

section Step

variable {isa : HtmIsa} {R : Nat} {nd : Bool} {th th' : Thread}

/-- A thread can block only at `idle` with no section to start, or waiting on a taken word
at `unlock_wait` or at the fallback lock. -/
theorem Thread.Ok.step_run_isSome (hok : th.Ok nd) (st : Int) (c x : Nat) :
    (HtmSpinMutex.step isa R nd st c th .run x).isSome = true ∨ (th.pc = .idle ∧ th.todo = 0) ∨
      ((th.pc = .unlockWait ∨ th.pc = .fallback) ∧ st ≠ 0) := by
  obtain ⟨-, hok⟩ := hok
  unfold HtmSpinMutex.step htmSpinMutexLock htmSpinMutexUnlock
  cases hpc : th.pc <;> simp only [hpc] at hok <;> simp [hpc, spinlockIsLocked]
  case idle => omega
  case unlockWait | fallback => tauto
  case check =>
    obtain ⟨tx, htx, -⟩ := hok
    simp [htx]
  case csWrite => split <;> rfl
  case unlockEntry => split_ifs <;> (try split) <;> rfl

/-- An abort sends a live transaction back to `aborted`, at the bottom of its attempt. -/
theorem Thread.stepsLeft_rollback (hok : th.Ok nd) {tx : Txn} (htx : th.txn = some tx)
    (M y : Nat) : (th.rollback tx y).stepsLeft M < th.stepsLeft M := by
  obtain ⟨-, hok⟩ := hok
  cases hpc : th.pc <;> simp only [hpc, htx, reduceCtorEq, false_and, and_false] at hok <;>
    simp [Thread.stepsLeft, Thread.rollback, Pc.attemptRank, hpc]

theorem Thread.stepsLeft_abortOn (hok : th.Ok nd) (w : Option Store) (x M : Nat) :
    (th.abortOn w x).stepsLeft M ≤ th.stepsLeft M := by
  rcases th.abortOn_cases w x with he | ⟨tx, htx, he⟩
  · rw [he]
  · exact he ▸ (th.stepsLeft_rollback hok htx M x).le

/-- Every step of a thread lowers its steps left, where a thread in the retry loop has
attempts left. -/
theorem step_stepsLeft {st : Int} {c : Nat} {a : Act} {x : Nat} {w : Option Store}
    (hok : th.Ok nd) (hlt : th.retrying = true → th.retries < max R 1)
    (h : HtmSpinMutex.step isa R nd st c th a x = some (th', w)) :
    th'.stepsLeft (max R 1) < th.stepsLeft (max R 1) := by
  cases a
  case abort =>
    obtain ⟨tx, htx, he⟩ := Option.map_eq_some'.1 h
    cases he
    exact th.stepsLeft_rollback hok htx _ x
  all_goals
    unfold HtmSpinMutex.step htmSpinMutexLock htmSpinMutexUnlock xend at h
    cases hpc : th.pc <;> simp only [hpc] at h
  case run.idle =>
    -- a section starts: a whole call is charged from the sections to start
    split at h <;> simp only [Option.some.injEq, Prod.mk.injEq, reduceCtorEq] at h
    obtain ⟨rfl, -⟩ := h
    obtain ⟨k, hk⟩ := Nat.exists_eq_succ_of_ne_zero ‹th.todo ≠ 0›
    simp only [Thread.stepsLeft, hpc, hk, Nat.succ_sub_one, Nat.mul_succ]
    omega
  case run.check =>
    obtain ⟨tx, -, he⟩ := Option.map_eq_some'.1 h
    split at he <;> cases he <;>
      simp only [Thread.stepsLeft, Thread.rollback, Pc.attemptRank, hpc] <;> omega
  case run.aborted =>
    -- a new attempt, paid for by the one just aborted
    have hr := hlt (by simp [Thread.retrying, hpc])
    cases h
    split <;> simp only [Thread.stepsLeft, Pc.attemptRank, hpc] <;> omega
  all_goals
    (repeat' split at h) <;> simp only [Option.some.injEq, Prod.mk.injEq, reduceCtorEq] at h <;>
      (obtain ⟨rfl, -⟩ := h; simp only [Thread.stepsLeft, Pc.attemptRank, hpc]; omega)

end Step

section Runs

variable {isa : HtmIsa} {R K : Nat} {nd : Bool} {p : Option HtmMutexProfile} {s s' : State N}

/-- Erasing the profiles maps a run to a run with null profiles. -/
theorem Reachable.eraseProf (hs : Reachable isa R nd K p s) :
    Reachable isa R nd K none s.eraseProf := by
  induction hs with
  | init => exact .init
  | @step s _ t a x _ hn ih =>
    obtain ⟨th, w, hr, rfl⟩ := next_eq_some hn
    refine ih.step t a x ?_
    have hx : ¬∃ u, x u = xbeginStarted isa := fun hx => by simp [next, hx] at hn
    simp [next, hx, State.apply_eraseProf, step_eraseProf, hr]

/-- Whatever the profile, a thread in the retry loop has attempts left. -/
theorem Reachable.retries_lt (hs : Reachable isa R nd K p s) {t : Fin N}
    (ht : (s.th t).retrying = true) : (s.th t).retries < max R 1 :=
  (hs.eraseProf.budget (fun _ h => by cases h) t).retries_lt ht

theorem Reachable.next_stepsLeft (hs : Reachable isa R nd K p s) {t : Fin N} {a : Act}
    {x : Fin N → Nat}
    (h : next isa R nd s t a x = some s') : s'.stepsLeft (max R 1) < s.stepsLeft (max R 1) := by
  obtain ⟨th, w, hr, rfl⟩ := next_eq_some h
  have hok := hs.inv.ok
  refine sum_lt_of_update t ?_ fun u hu => ?_
  · simpa using step_stepsLeft (hok t) hs.retries_lt hr
  · simpa [State.apply_th_ne hu] using (s.th u).stepsLeft_abortOn (hok u) w (x u) _

/-- A reachable state where no thread can move has run every section: a thread waits at
`unlock_wait` or at the fallback lock only while another holds the word, and the holder can
always move. -/
theorem Reachable.done_of_stuck (hs : Reachable isa R nd K p s)
    (hstuck : ∀ t a x, next isa R nd s t a x = none) (t : Fin N) :
    (s.th t).pc = .idle ∧ (s.th t).todo = 0 := by
  have h := hs.inv
  have hnone : ∀ u,
      (HtmSpinMutex.step isa R nd s.state s.c (s.th u) .run (xabortCapacity isa)).isSome = false :=
    fun u => by
      simpa [next, xabortCapacity_ne_xbeginStarted] using hstuck u .run fun _ => xabortCapacity isa
  have hfree : s.state = 0 := by
    by_contra hne
    obtain ⟨u, hu⟩ := count_pos_iff.1 (show 0 < count Thread.holds s.th by
      have := h.word; omega)
    rcases (h.ok u).step_run_isSome s.state s.c (xabortCapacity isa) with
      hu' | ⟨hpu, -⟩ | ⟨hpu | hpu, -⟩
    · exact Bool.false_ne_true ((hnone u).symm.trans hu')
    all_goals simp [Thread.holds, hpu] at hu
  rcases (h.ok t).step_run_isSome s.state s.c (xabortCapacity isa) with ht | ht | ⟨-, ht⟩
  · exact absurd ((hnone t).symm.trans ht) Bool.false_ne_true
  · exact ht
  · exact absurd hfree ht

/-- A state where every thread is idle with its sections run and no transaction is stuck: the
converse of `Reachable.done_of_stuck`. -/
theorem next_eq_none_of_done
    (h : ∀ t, (s.th t).pc = .idle ∧ (s.th t).todo = 0 ∧ (s.th t).txn = none)
    (t : Fin N) (a : Act) (x : Fin N → Nat) : next isa R nd s t a x = none := by
  obtain ⟨hpc, htodo, htxn⟩ := h t
  unfold next
  split_ifs
  · rfl
  · cases a <;> simp [HtmSpinMutex.step, htmSpinMutexLock, hpc, htodo, htxn]

@[simp] theorem init_stepsLeft (N K M : Nat) (p : Option HtmMutexProfile) :
    (init N K p).stepsLeft M = N * ((10 * M + 11) * K) := by
  simp [State.stepsLeft, Thread.stepsLeft, init]

/-- The HTM-mutex test program terminates under every schedule and wherever the hardware
aborts, whatever the profile: every step lowers the steps left, `(10 * max R 1 + 11) * K`
per thread at the start, and a reachable state where no thread can move has run every
section, with `c = N * K`. -/
theorem htm_spin_mutex_test_terminates (hs : Reachable isa R nd K p s) :
    (∀ t a x s', next isa R nd s t a x = some s' →
        s'.stepsLeft (max R 1) < s.stepsLeft (max R 1)) ∧
      ((∀ t a x, next isa R nd s t a x = none) →
        (∀ t, (s.th t).pc = .idle ∧ (s.th t).todo = 0) ∧ s.c = N * K) :=
  ⟨fun _ _ _ _ h => hs.next_stepsLeft h,
    fun h => ⟨hs.done_of_stuck h, hs.c_eq_of_done (hs.done_of_stuck h)⟩⟩

end Runs

/-- Mid-run, thread 0 holds the fallback lock and thread 1 has been aborted; at the end of
`race` both have run their sections and no thread can move, whatever it tries. -/
theorem htm_spin_mutex_test_terminates_race :
    (Reachable .tme 10 false 1 (some .init) (raceState .tme 12) ∧
      ((raceState .tme 12).th 0).holds = true ∧
      ((raceState .tme 12).th 1).pc = .aborted) ∧
    ((∀ t a x s', next .tme 10 false (raceState .tme 12) t a x = some s' →
        s'.stepsLeft (max 10 1) < (raceState .tme 12).stepsLeft (max 10 1)) ∧
      ((∀ t a x, next .tme 10 false (raceState .tme 12) t a x = none) →
        (∀ t, ((raceState .tme 12).th t).pc = .idle ∧ ((raceState .tme 12).th t).todo = 0) ∧
          (raceState .tme 12).c = 2 * 1)) ∧
    (Reachable .tme 10 false 1 (some .init) (raceState .tme 24) ∧
      ∀ t a x, next .tme 10 false (raceState .tme 24) t a x = none) ∧
    ((∀ t a x s', next .tme 10 false (raceState .tme 24) t a x = some s' →
        s'.stepsLeft (max 10 1) < (raceState .tme 24).stepsLeft (max 10 1)) ∧
      ((∀ t a x, next .tme 10 false (raceState .tme 24) t a x = none) →
        (∀ t, ((raceState .tme 24).th t).pc = .idle ∧ ((raceState .tme 24).th t).todo = 0) ∧
          (raceState .tme 24).c = 2 * 1)) :=
  ⟨⟨Reachable.execute_getD rfl, by decide, by decide⟩,
    htm_spin_mutex_test_terminates (Reachable.execute_getD rfl),
    ⟨Reachable.execute_getD rfl, next_eq_none_of_done (by decide)⟩,
    htm_spin_mutex_test_terminates (Reachable.execute_getD rfl)⟩

end HtmSpinMutex

end LibTle
