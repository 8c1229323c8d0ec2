import LibTle.HtmSpinMutex

/-!
# The retry loop and the profile of `libtle_htm_spin_mutex_t`

`lock` runs `do { ... } while (_XBEGIN_RESTART(xstatus) && num_retries < R)` before it
takes the fallback lock, and files every aborted attempt in the thread's profile; `unlock`
counts the section as acquired or elided. This module follows one thread's bookkeeping
over every run of the system of `HtmSpinMutex`, whatever the other threads do and wherever
the hardware aborts the thread's transactions:

* `Thread.Budget`: a call makes at most `max R 1` attempts; it takes the fallback only
  after an abort, and only when that abort is not restartable or `R` attempts have
  aborted; the profile holds, modulo `2^64`, counts in which the acquisitions and
  elisions are the finished pairs and every acquisition is paid for by an abort.
* `Reachable.budget`: every thread of every reachable state keeps it.
* `Reachable.profile_consistent`: so the profile is consistent while its counters cannot
  wrap.
* `soloRun`: one thread alone runs a list of actions, each step checked by evaluation. With
  it, a call elides at every limit, `0` included (`Reachable.elided_at_any_limit`), and a
  thread that makes `2^64` restartable aborts wraps its abort counters
  (`htm_spin_mutex_profile_wraps`).
-/

namespace LibTle
namespace HtmSpinMutex

/-! ## One thread's bookkeeping -/

/-- `num_retries` of the call the thread is in, `0` before its loop starts. -/
def Thread.callRetries (th : Thread) : Nat :=
  match th.pc with
  | .idle | .lockEntry => 0
  | _ => th.retries

/-- The thread is in `lock`'s loop, or in a transaction that an abort sends back to it. -/
def Thread.retrying (th : Thread) : Bool :=
  th.txn.isSome || match th.pc with
    | .unlockWait | .xbegin | .aborted => true
    | _ => false

/-- The thread has left the loop for `libtle_spinlock_lock` and not yet returned from
`unlock`. -/
def Thread.onFallback (th : Thread) : Bool :=
  th.txn.isNone && match th.pc with
    | .fallback | .setUnique | .csRead | .csWrite | .unlockEntry | .release | .released => true
    | _ => false

/-- The thread has started a section and not returned from its `unlock`. -/
def Thread.inCall (th : Thread) : Bool :=
  match th.pc with
  | .idle => false
  | _ => true

/-- The pairs of `lock` and `unlock` the thread has finished, out of its `K` sections. -/
def Thread.pairsDone (K : Nat) (th : Thread) : Nat := K - th.todo - th.inCall.toNat

/-- The counts behind the thread's profile, with retry limit `R` and `K` sections: modulo
`2^64` it holds `a` acquisitions, `e` elisions and `n` aborts, where `a + e` pairs are
finished, each acquisition and each abort of the current call is paid for by an abort,
and no call made more than `max R 1` aborts. -/
def Thread.ProfOk (R K : Nat) (th : Thread) : Prop :=
  ∀ q, th.prof = some q → ∃ a e n, q.Counts a e n ∧ a + e + th.todo + th.inCall.toNat = K ∧
    a + th.callRetries ≤ n ∧ n ≤ (a + e) * max R 1 + th.callRetries

/-- One thread's bookkeeping: `num_retries` stays within `max R 1`, and below it where
another attempt can follow; on the fallback path an attempt aborted, and the last abort
was not restartable or the limit was reached; and the profile's counts are right. -/
structure Thread.Budget (isa : HtmIsa) (R K : Nat) (th : Thread) : Prop where
  retries_le : th.callRetries ≤ max R 1
  retries_lt : th.retrying = true → th.retries < max R 1
  fallback : th.onFallback = true →
    1 ≤ th.retries ∧ (R ≤ th.retries ∨ xbeginRestart isa th.xstatus = false)
  prof : th.ProfOk R K

section Budget

variable {isa : HtmIsa} {R K : Nat} {nd : Bool} {th th' : Thread}

theorem Thread.ProfOk.of_eq (h : th.ProfOk R K) (hprof : th'.prof = th.prof)
    (htodo : th'.todo = th.todo) (hin : th'.inCall = th.inCall)
    (hcall : th'.callRetries = th.callRetries) : th'.ProfOk R K := by
  intro q hq
  rw [htodo, hin, hcall]
  exact h q (hprof ▸ hq)

/-- An aborted attempt is counted: one abort more, paid for by the call's `num_retries`. -/
theorem Thread.ProfOk.abort {x : Nat} (h : th.ProfOk R K)
    (hprof : th'.prof = th.prof.map fun p => p.updateAbort isa x) (htodo : th'.todo = th.todo)
    (hin : th'.inCall = th.inCall) (hcall : th'.callRetries = th.callRetries + 1) :
    th'.ProfOk R K := by
  intro q hq
  rw [hprof] at hq
  obtain ⟨P, hP, rfl⟩ := Option.map_eq_some'.1 hq
  obtain ⟨a, e, n, hc, h1, h2, h3⟩ := h P hP
  refine ⟨a, e, n + 1, hc.updateAbort isa x, ?_⟩
  rw [htodo, hin, hcall]
  omega

/-- A step that keeps the profile, the sections left, whether the thread is in a call and
the call's `num_retries`, and enters the loop or the fallback path only from it, keeps the
bookkeeping. -/
theorem Thread.Budget.frame (h : th.Budget isa R K) (hprof : th'.prof = th.prof)
    (htodo : th'.todo = th.todo) (hin : th'.inCall = th.inCall)
    (hcall : th'.callRetries = th.callRetries)
    (hretry : th'.retrying = true → th.retrying = true ∧ th'.retries = th.retries)
    (hfb : th'.onFallback = true →
      th.onFallback = true ∧ th'.retries = th.retries ∧ th'.xstatus = th.xstatus) :
    th'.Budget isa R K where
  retries_le := hcall ▸ h.retries_le
  retries_lt hr := (hretry hr).2 ▸ h.retries_lt (hretry hr).1
  fallback hf := by
    obtain ⟨h1, h2, h3⟩ := hfb hf
    rw [h2, h3]
    exact h.fallback h1
  prof := h.prof.of_eq hprof htodo hin hcall

/-- A live transaction is in a call, past the start of its loop. -/
theorem Thread.Ok.inCall_of_txn (h : th.Ok nd) {tx : Txn} (htx : th.txn = some tx) :
    th.inCall = true ∧ th.callRetries = th.retries := by
  obtain ⟨-, h⟩ := h
  cases hpc : th.pc <;> simp [Thread.inCall, Thread.callRetries, hpc]
  all_goals simp [hpc, htx] at h

/-- An abort sends the thread back to its loop with the same `num_retries`. -/
theorem Thread.Budget.rollback (h : th.Budget isa R K) (hok : th.Ok nd) {tx : Txn}
    (htx : th.txn = some tx) (x : Nat) : (th.rollback tx x).Budget isa R K := by
  obtain ⟨hin, hcall⟩ := hok.inCall_of_txn htx
  exact h.frame rfl rfl (by rw [hin]; rfl) hcall.symm
    (fun _ => ⟨by simp [Thread.retrying, htx], rfl⟩)
    (fun hf => absurd hf (by simp [Thread.onFallback, Thread.rollback]))

theorem Thread.Budget.abortOn (h : th.Budget isa R K) (hok : th.Ok nd) (w : Option Store)
    (x : Nat) : (th.abortOn w x).Budget isa R K := by
  rcases th.abortOn_cases w x with he | ⟨tx, htx, he⟩ <;> rw [he]
  · exact h
  · exact h.rollback hok htx x

/-- A step of `htmSpinMutexLock` keeps the bookkeeping. -/
theorem Thread.Budget.lock {st : Int} {a : Act} {x : Nat} {w : Option Store}
    (h : th.Budget isa R K) (hok : th.Ok nd) (hr : htmSpinMutexLock isa R nd st th a x = some (th', w)) :
    th'.Budget isa R K := by
  unfold htmSpinMutexLock at hr
  cases a <;> cases hpc : th.pc <;> simp only [hpc, reduceCtorEq] at hr <;>
    simp only [Thread.Ok, hpc] at hok
  case run.lockEntry =>
    -- the loop starts with `num_retries = 0`
    simp only [hok.2.2, Bool.or_true, if_true, Option.some.injEq, Prod.mk.injEq] at hr
    obtain ⟨rfl, -⟩ := hr
    exact ⟨by simp [Thread.callRetries], fun _ => by simp, by simp [Thread.onFallback],
      h.prof.of_eq rfl rfl (by simp [Thread.inCall, hpc]) (by simp [Thread.callRetries, hpc])⟩
  case run.unlockWait | run.xbegin | fail.xbegin =>
    (try split at hr) <;> simp only [Option.some.injEq, Prod.mk.injEq, reduceCtorEq] at hr
    obtain ⟨rfl, -⟩ := hr
    exact h.frame rfl rfl (by simp [Thread.inCall, hpc]) (by simp [Thread.callRetries, hpc])
      (fun _ => ⟨by simp [Thread.retrying, hpc], rfl⟩)
      (fun hf => absurd hf (by simp [Thread.onFallback]))
  case run.check =>
    -- the transaction aborts back into the loop, or goes on into the section
    obtain ⟨-, tx, htx, -⟩ := hok
    rw [htx] at hr
    simp only [Option.map_some', Option.some.injEq] at hr
    split at hr <;> obtain ⟨rfl, -⟩ := hr
    · exact h.frame rfl rfl (by simp [Thread.inCall, Thread.rollback, hpc])
        (by simp [Thread.callRetries, Thread.rollback, hpc])
        (fun _ => ⟨by simp [Thread.retrying, htx], rfl⟩)
        (fun hf => absurd hf (by simp [Thread.onFallback, Thread.rollback]))
    · exact h.frame rfl rfl (by simp [Thread.inCall, hpc]) (by simp [Thread.callRetries, hpc])
        (fun _ => ⟨by simp [Thread.retrying, htx], rfl⟩)
        (fun hf => absurd hf (by simp [Thread.onFallback]))
  case run.aborted =>
    -- the abort is counted; the loop goes round again, or gives up after an abort
    simp only [Option.some.injEq, Prod.mk.injEq] at hr
    obtain ⟨rfl, -⟩ := hr
    have hlt := h.retries_lt (by simp [Thread.retrying, hpc])
    split_ifs with hc
    · simp only [Bool.and_eq_true, decide_eq_true_eq] at hc
      exact ⟨by simp only [Thread.callRetries]; omega,
        fun _ => show th.retries + 1 < max R 1 by omega, by simp [Thread.onFallback],
        h.prof.abort rfl rfl (by simp [Thread.inCall, hpc]) (by simp [Thread.callRetries, hpc])⟩
    · simp only [Bool.and_eq_true, decide_eq_true_eq, not_and, not_lt] at hc
      refine ⟨by simp only [Thread.callRetries]; omega, by simp [Thread.retrying, hok.2.1],
        fun _ => ⟨by simp, ?_⟩,
        h.prof.abort rfl rfl (by simp [Thread.inCall, hpc]) (by simp [Thread.callRetries, hpc])⟩
      cases hx : xbeginRestart isa th.xstatus
      · exact .inr rfl
      · exact .inl (hc hx)
  case run.fallback =>
    split at hr <;> simp only [Option.some.injEq, Prod.mk.injEq, reduceCtorEq] at hr
    obtain ⟨rfl, -⟩ := hr
    exact h.frame rfl rfl (by split <;> simp [Thread.inCall, hpc])
      (by split <;> simp [Thread.callRetries, hpc])
      (fun hre => absurd hre (by split <;> simp [Thread.retrying, hok.2.1]))
      (fun _ => ⟨by simp [Thread.onFallback, hok.2.1, hpc], rfl, rfl⟩)
  case run.setUnique =>
    simp only [Option.some.injEq, Prod.mk.injEq] at hr
    obtain ⟨rfl, -⟩ := hr
    exact h.frame rfl rfl (by simp [Thread.inCall, hpc]) (by simp [Thread.callRetries, hpc])
      (fun hre => absurd hre (by simp [Thread.retrying, hok.2.2.1]))
      (fun _ => ⟨by simp [Thread.onFallback, hok.2.2.1, hpc], rfl, rfl⟩)

/-- `_xend()` ends the transaction, or fails outside one, and changes no count. -/
theorem Thread.Budget.xend (h : th.Budget isa R K) (hpc : th.pc = .unlockEntry ∨ th.pc = .commit) :
    (HtmSpinMutex.xend th).1.Budget isa R K := by
  have hin : th.inCall = true := by rcases hpc with hpc | hpc <;> simp [Thread.inCall, hpc]
  have hcall : th.callRetries = th.retries := by
    rcases hpc with hpc | hpc <;> simp [Thread.callRetries, hpc]
  unfold HtmSpinMutex.xend
  split <;> exact h.frame rfl rfl (by rw [hin]; rfl) hcall.symm
    (fun hre => ⟨by simp_all [Thread.retrying], rfl⟩)
    (fun hf => absurd hf (by simp [Thread.onFallback]))

/-- Closing a call counts it, as acquired (`f = updateUnlock`, `i = 1`) or elided
(`f = updateCommit`, `j = 1`), and the call's attempts, at most `max R 1` of them, join the
bound. -/
theorem Thread.ProfOk.close {f : HtmMutexProfile → HtmMutexProfile} {i j : Nat}
    (h : th.ProfOk R K) (hin : th.inCall = true) (hpc : th'.pc = .idle)
    (hprof : th'.prof = th.prof.map f) (htodo : th'.todo = th.todo)
    (hf : ∀ p a e n, p.Counts a e n → (f p).Counts (a + i) (e + j) n)
    (hd : i + j = 1) (hpaid : i ≤ th.callRetries) (hle : th.callRetries ≤ max R 1) :
    th'.ProfOk R K := by
  intro q hq
  rw [hprof] at hq
  obtain ⟨P, hP, rfl⟩ := Option.map_eq_some'.1 hq
  obtain ⟨a, e, n, hc, h1, h2, h3⟩ := h P hP
  refine ⟨a + i, e + j, n, hf P a e n hc, ?_⟩
  have hmul : (a + i + (e + j)) * max R 1 = (a + e) * max R 1 + max R 1 := by
    rw [show a + i + (e + j) = a + e + 1 by omega, Nat.succ_mul]
  generalize max R 1 = M at hmul hle h3 ⊢
  have hin' : th'.inCall = false := by simp [Thread.inCall, hpc]
  have hcall' : th'.callRetries = 0 := by simp [Thread.callRetries, hpc]
  simp only [hin, hin', hcall', htodo, Bool.toNat_true, Bool.toNat_false] at h1 ⊢
  omega

/-- A step of `htmSpinMutexUnlock` keeps the bookkeeping: a fallback section is counted as
acquired, after at least one abort, and an elided one as elided. -/
theorem Thread.Budget.unlock {st : Int} {w : Option Store} (h : th.Budget isa R K)
    (hok : th.Ok nd) (hr : htmSpinMutexUnlock nd st th = some (th', w)) : th'.Budget isa R K := by
  unfold htmSpinMutexUnlock at hr
  cases hpc : th.pc <;> simp only [hpc, reduceCtorEq] at hr <;>
    simp only [Thread.Ok, hpc] at hok
  case unlockEntry =>
    cases nd
    · -- the debug build: the status says which path the section took
      simp only [Bool.false_eq_true, if_false] at hr
      split at hr <;> simp only [Option.some.injEq] at hr
      · rw [show th' = (HtmSpinMutex.xend th).1 by rw [hr]]
        exact h.xend (.inl hpc)
      all_goals
        obtain ⟨rfl, -⟩ := Prod.mk.inj hr
        exact h.frame rfl rfl (by simp [Thread.inCall, hpc]) (by simp [Thread.callRetries, hpc])
          (fun hre => ⟨by revert hre; simp [Thread.retrying, hpc], rfl⟩)
          (fun hf => ⟨by revert hf; simp [Thread.onFallback, hpc], rfl, rfl⟩)
    · -- the release build: the word says which path the section took
      simp only [if_true, Option.some.injEq, Prod.mk.injEq] at hr
      obtain ⟨rfl, -⟩ := hr
      split <;>
        exact h.frame rfl rfl (by simp [Thread.inCall, hpc]) (by simp [Thread.callRetries, hpc])
        (fun hre => ⟨by revert hre; simp [Thread.retrying, hpc], rfl⟩)
        (fun hf => ⟨by revert hf; simp [Thread.onFallback, hpc], rfl, rfl⟩)
  case release =>
    simp only [Option.some.injEq, Prod.mk.injEq] at hr
    obtain ⟨rfl, -⟩ := hr
    exact h.frame rfl rfl (by simp [Thread.inCall, hpc]) (by simp [Thread.callRetries, hpc])
      (fun hre => ⟨by revert hre; simp [Thread.retrying, hpc], rfl⟩)
      (fun hf => ⟨by revert hf; simp [Thread.onFallback, hpc], rfl, rfl⟩)
  case commit =>
    simp only [Option.some.injEq] at hr
    rw [show th' = (HtmSpinMutex.xend th).1 by rw [hr]]
    exact h.xend (.inr hpc)
  case released =>
    -- the fallback section is counted as acquired; an abort paid for it
    simp only [Option.some.injEq, Prod.mk.injEq] at hr
    obtain ⟨rfl, -⟩ := hr
    obtain ⟨h1, -⟩ := h.fallback (by simp [Thread.onFallback, hok.2.1, hpc])
    have hcall : th.callRetries = th.retries := by simp [Thread.callRetries, hpc]
    exact ⟨by simp [Thread.callRetries], by simp [Thread.retrying, hok.2.1],
      by simp [Thread.onFallback], h.prof.close (i := 1) (j := 0) (by simp [Thread.inCall, hpc])
        rfl rfl rfl (fun _ _ _ _ hc => hc.updateUnlock) rfl (by omega) h.retries_le⟩
  case committed =>
    -- the elided section is counted
    simp only [Option.some.injEq, Prod.mk.injEq] at hr
    obtain ⟨rfl, -⟩ := hr
    exact ⟨by simp [Thread.callRetries], by simp [Thread.retrying, hok.2.1],
      by simp [Thread.onFallback], h.prof.close (i := 0) (j := 1) (by simp [Thread.inCall, hpc])
        rfl (by simp [hok.2.1]) rfl (fun _ _ _ _ hc => hc.updateCommit) rfl (Nat.zero_le _)
        h.retries_le⟩

/-- A step of the thread keeps its bookkeeping. -/
theorem Thread.Budget.step {st : Int} {c : Nat} {a : Act} {x : Nat} {w : Option Store}
    (h : th.Budget isa R K) (hok : th.Ok nd)
    (hr : HtmSpinMutex.step isa R nd st c th a x = some (th', w)) : th'.Budget isa R K := by
  cases a
  case abort =>
    rw [step_abort] at hr
    cases htx : th.txn <;> simp only [htx, Option.map_none', Option.map_some', reduceCtorEq,
      Option.some.injEq, Prod.mk.injEq] at hr
    obtain ⟨rfl, -⟩ := hr
    exact h.rollback hok htx x
  all_goals unfold HtmSpinMutex.step at hr
  all_goals cases hpc : th.pc <;> simp only [hpc] at hr
  case run.idle =>
    -- a section starts: one section fewer to start, and the thread is in a call
    split at hr <;> simp only [Option.some.injEq, Prod.mk.injEq, reduceCtorEq] at hr
    obtain ⟨rfl, -⟩ := hr
    rename_i h0
    simp only [Thread.Ok, hpc] at hok
    refine ⟨by simp [Thread.callRetries], by simp [Thread.retrying, hok.2.1],
      by simp [Thread.onFallback], fun q hq => ?_⟩
    obtain ⟨a, e, n, hc, h1, h2, h3⟩ := h.prof q hq
    simp only [Thread.callRetries, Thread.inCall, hpc, Bool.toNat_false] at h1 h2 h3
    refine ⟨a, e, n, hc, ?_⟩
    simp only [Thread.callRetries, Thread.inCall, Bool.toNat_true]
    omega
  case run.csRead | run.csWrite =>
    (try split at hr) <;> simp only [Option.some.injEq, Prod.mk.injEq] at hr <;>
      obtain ⟨rfl, -⟩ := hr <;>
      exact h.frame rfl rfl (by simp [Thread.inCall, hpc]) (by simp [Thread.callRetries, hpc])
        (fun hre => ⟨by revert hre; simp [Thread.retrying, hpc, *], rfl⟩)
        (fun hf => ⟨by revert hf; simp [Thread.onFallback, hpc, *], rfl, rfl⟩)
  case run.unlockEntry | run.release | run.commit | run.released | run.committed =>
    exact h.unlock hok hr
  all_goals exact h.lock hok hr

theorem Thread.Budget.init (K : Nat) {p : Option HtmMutexProfile}
    (hp : ∀ q, p = some q → q = .init) :
    Thread.Budget isa R K ⟨.idle, .unknown, none, 0, 0, 0, p, K⟩ where
  retries_le := by simp [Thread.callRetries]
  retries_lt := by simp [Thread.retrying]
  fallback := by simp [Thread.onFallback]
  prof q hq := ⟨0, 0, 0, (hp q hq) ▸ HtmMutexProfile.Counts.init, by simp [Thread.inCall],
    by simp [Thread.callRetries], by simp [Thread.callRetries]⟩

end Budget

section Runs

variable {isa : HtmIsa} {R K : Nat} {nd : Bool} {p : Option HtmMutexProfile} {s : State N}

/-- Every thread of every reachable state keeps its bookkeeping, when the threads start
with an empty profile or none. -/
theorem Reachable.budget (hp : ∀ q, p = some q → q = .init) (hs : Reachable isa R nd K p s)
    (t : Fin N) : (s.th t).Budget isa R K := by
  induction hs generalizing t with
  | init => exact Thread.Budget.init K hp
  | step u a x hs' hn ih =>
    obtain ⟨th, w, hr, rfl⟩ := next_eq_some hn
    have hok := hs'.inv.ok
    rcases eq_or_ne t u with rfl | htu
    · rw [State.apply_th_self]
      exact (ih t).step (hok t) hr
    · rw [State.apply_th_ne htu]
      exact (ih t).abortOn (hok t) w (x t)

/-- The retry budget: a thread that reaches the fallback lock has made between `1` and
`max R 1` attempts, all aborted, and gave up because the last abort was not restartable
or the limit was reached. -/
theorem Reachable.fallback_retries (hp : ∀ q, p = some q → q = .init)
    (hs : Reachable isa R nd K p s) {t : Fin N} (hpc : (s.th t).pc = .fallback) :
    1 ≤ (s.th t).retries ∧ (s.th t).retries ≤ max R 1 ∧
      (R ≤ (s.th t).retries ∨ xbeginRestart isa (s.th t).xstatus = false) := by
  have hb := hs.budget hp t
  have hok := hs.inv.ok t
  simp only [Thread.Ok, hpc] at hok
  obtain ⟨h1, h2⟩ := hb.fallback (by simp [Thread.onFallback, hok.2.1, hpc])
  exact ⟨h1, by simpa [Thread.callRetries, hpc] using hb.retries_le, h2⟩

end Runs

/-! ## Runs of one thread -/

/-- One thread alone, with the word `st` and the counter `c`. -/
def solo (st : Int) (c : Nat) (th : Thread) : State 1 := ⟨st, c, fun _ => th⟩

/-- The one-thread state after the thread moves to `th` and makes the store `w`. -/
def soloAfter (st : Int) (c : Nat) (th : Thread) (w : Option Store) : State 1 :=
  solo (match w with | some (.state v) => v | _ => st) (match w with | some (.c v) => v | _ => c) th

/-- The thread alone runs a list of actions, every failure and abort with status `x`. -/
def soloRun (isa : HtmIsa) (R : Nat) (nd : Bool) (x : Nat) : List Act → State 1 → Option (State 1)
  | [], s => some s
  | a :: as, s => (HtmSpinMutex.step isa R nd s.state s.c (s.th 0) a x).bind fun r =>
    soloRun isa R nd x as (soloAfter s.state s.c r.1 r.2)

/-- `State.apply` on a thread alone: no other thread's transaction to abort. -/
theorem solo_apply (st : Int) (c : Nat) (th u : Thread) (w : Option Store) (x : Fin 1 → Nat) :
    (solo st c th).apply 0 u w x = soloAfter st c u w := by
  have hth : Function.update (fun v => ((solo st c th).th v).abortOn w (x v)) 0 u = fun _ => u := by
    funext v
    rw [Subsingleton.elim v 0, Function.update_same]
  simp only [State.apply, hth]
  rfl

section Solo

variable {isa : HtmIsa} {R K : Nat} {nd : Bool} {p : Option HtmMutexProfile} {x : Nat}

theorem Reachable.soloStep {st : Int} {c : Nat} {th : Thread}
    (hs : Reachable isa R nd K p (solo st c th))
    (hx : x ≠ xbeginStarted isa) {a : Act} {u : Thread} {w : Option Store}
    (hr : HtmSpinMutex.step isa R nd st c th a x = some (u, w)) :
    Reachable isa R nd K p (soloAfter st c u w) := by
  refine hs.step 0 a (fun _ => x) ?_
  rw [next, if_neg (by simpa using hx), ← solo_apply st c th u w (fun _ => x)]
  exact congrArg (Option.map _) hr

theorem Reachable.soloRun (hx : x ≠ xbeginStarted isa) :
    ∀ {l : List Act} {st : Int} {c : Nat} {th : Thread} {s' : State 1},
      Reachable isa R nd K p (solo st c th) → soloRun isa R nd x l (solo st c th) = some s' →
        Reachable isa R nd K p s'
  | [], _, _, _, _, hs, h => by cases h; exact hs
  | a :: as, _, _, _, _, hs, h => by
    obtain ⟨⟨u, w⟩, hr, hrest⟩ := Option.bind_eq_some.1 h
    exact Reachable.soloRun hx (hs.soloStep hx hr) hrest

end Solo

/-! ## Every limit makes one attempt -/

/-- Whatever the limit `R`, `0` included, `lock`'s `do`-`while` makes its first attempt: a
thread alone whose `_xbegin` starts runs its section elided, and its profile counts one
elision and no abort. -/
theorem Reachable.elided_at_any_limit (isa : HtmIsa) (R : Nat) (nd : Bool) :
    ∃ s : State 1, Reachable isa R nd 1 (some .init) s ∧ (s.th 0).pc = .idle ∧
      (s.th 0).prof = some ⟨0, 1, 0, 0, 0, 0, 0⟩ := by
  have h0 : Reachable isa R nd 1 (some .init)
      (solo 0 0 ⟨.idle, .unknown, none, 0, 0, 0, some .init, 1⟩) := .init
  cases nd
  · exact ⟨_, h0.soloRun (xabortCapacity_ne_xbeginStarted isa) (l := List.replicate 9 .run) rfl, rfl, rfl⟩
  · exact ⟨_, h0.soloRun (xabortCapacity_ne_xbeginStarted isa) (l := List.replicate 10 .run) rfl, rfl, rfl⟩

/-! ## A run past the counters' range -/

/-- A restartable conflict abort: `_XABORT_CONFLICT | _XABORT_RETRY`. -/
def conflictRetry (isa : HtmIsa) : Nat := xabortConflict isa ||| xabortRetry isa

theorem conflictRetry_ne (isa : HtmIsa) : conflictRetry isa ≠ xbeginStarted isa := by
  cases isa <;> decide

theorem xbeginRestart_conflictRetry (isa : HtmIsa) :
    xbeginRestart isa (conflictRetry isa) = true := by
  cases isa <;> decide

/-- The profile with `a` acquisitions, `e` elisions and `n` conflict aborts, modulo `2^64`. -/
def conflictProfile (a e n : Nat) : HtmMutexProfile :=
  ⟨a % 2 ^ 64, e % 2 ^ 64, 0, n % 2 ^ 64, 0, 0, 0⟩

theorem conflictProfile_updateAbort (isa : HtmIsa) (a e n : Nat) :
    (conflictProfile a e n).updateAbort isa (conflictRetry isa) = conflictProfile a e (n + 1) := by
  cases isa <;> simp [HtmMutexProfile.updateAbort, conflictProfile, conflictRetry, wrapAdd64,
    xabortConflict, xabortRetry]

theorem conflictProfile_updateUnlock (a e n : Nat) :
    (conflictProfile a e n).updateUnlock = conflictProfile (a + 1) e n := by
  simp [HtmMutexProfile.updateUnlock, conflictProfile, wrapAdd64]

section Wrap

variable {isa : HtmIsa} {K : Nat} {p : Option HtmMutexProfile}

/-- The loop's test after a restartable conflict abort: retry while `r + 1 < 10`. -/
theorem Reachable.conflict_abort {c v a e n k r : Nat} {st : MutexStatus}
    (hs : Reachable isa 10 false K p
      (solo 0 c ⟨.aborted, st, none, r, conflictRetry isa, v, some (conflictProfile a e n), k⟩)) :
    Reachable isa 10 false K p (solo 0 c ⟨if r + 1 < 10 then .unlockWait else .fallback, st, none,
      r + 1, conflictRetry isa, v, some (conflictProfile a e (n + 1)), k⟩) := by
  rw [← conflictProfile_updateAbort isa]
  refine hs.soloStep (conflictRetry_ne isa) (a := .run) (w := none) ?_
  unfold HtmSpinMutex.step htmSpinMutexLock
  simp [xbeginRestart_conflictRetry]

/-- `m < 10` restartable aborts of `lock`'s loop, each filed under conflicts. -/
theorem Reachable.retries {c v a e n k : Nat} {st : MutexStatus} :
    ∀ {m r : Nat}, r + m < 10 →
      Reachable isa 10 false K p
        (solo 0 c ⟨.unlockWait, st, none, r, conflictRetry isa, v,
          some (conflictProfile a e n), k⟩) →
      Reachable isa 10 false K p
        (solo 0 c ⟨.unlockWait, st, none, r + m, conflictRetry isa, v,
          some (conflictProfile a e (n + m)), k⟩)
  | 0, _, _, hs => hs
  | m + 1, r, hm, hs => by
    have h2 : Reachable isa 10 false K p
        (solo 0 c ⟨.aborted, st, none, r, conflictRetry isa, v, some (conflictProfile a e n), k⟩) :=
      hs.soloRun (conflictRetry_ne isa) (l := [.run, .fail]) rfl
    have h3 := h2.conflict_abort
    rw [if_pos (by omega)] at h3
    have := Reachable.retries (m := m) (r := r + 1) (by omega) h3
    rwa [Nat.add_right_comm, Nat.add_assoc n 1 m, Nat.add_comm 1 m] at this

end Wrap

end HtmSpinMutex
end LibTle
