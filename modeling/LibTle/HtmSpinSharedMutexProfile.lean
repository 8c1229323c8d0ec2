import LibTle.HtmSpinSharedMutex

/-!
# The retry loops and the profile of `libtle_htm_spin_shared_mutex_t`

`lock` and `lock_shared` run the loop of `libtle_htm_spin_mutex_lock`, with the limits
`LIBTLE_HTM_SPIN_SHARED_MUTEX_WRITE_RETRY_LIMIT` (`Rw`) and `..._READ_RETRY_LIMIT` (`Rr`),
before `libtle_rwlock_write_lock` or `libtle_rwlock_read_lock`; `unlock` and
`unlock_shared` count the section as acquired or elided. As for `HtmSpinMutex`, over every
run of the system of `HtmSpinSharedMutex`:

* `Thread.Budget`: a call makes at most `max L 1` attempts, `L` the limit of its kind; it
  takes the fallback only after an abort that is not restartable or after `L` aborts; the
  profile holds counts in which the acquisitions and elisions are the finished writer
  sections and reader sections, and every acquisition is paid for by an abort.
* `Reachable.budget`: every thread of every reachable state keeps it, so the profile is
  consistent while its counters cannot wrap (`Reachable.profile_consistent`).
-/

namespace LibTle
namespace HtmSpinSharedMutex

/-! ## One thread's bookkeeping -/

/-- The retry limit of the call the thread is in: `Rr` in `lock_shared`, else `Rw`. -/
def Thread.limit (Rw Rr : Nat) (th : Thread) : Nat := if th.inReader then Rr else Rw

/-- `num_retries` of the call the thread is in, `0` before its loop starts. -/
def Thread.callRetries (th : Thread) : Nat :=
  match th.pc with
  | .idle | .lockEntry _ => 0
  | _ => th.retries

/-- The thread is in a retry loop, or in a transaction that an abort sends back to one. -/
def Thread.retrying (th : Thread) : Bool :=
  th.txn.isSome || match th.pc with
    | .unlockWait _ | .xbegin _ | .aborted _ => true
    | _ => false

/-- The thread has left its loop for the rwlock and not yet returned from its unlock. -/
def Thread.onFallback (th : Thread) : Bool :=
  th.txn.isNone && match th.pc with
    | .writeLock | .lockWflag | .setUnique | .csRead | .csWrite | .unlockEntry | .writeUnlock
    | .readLock | .setShared | .csLoad | .unlockSharedEntry | .released _ => true
    | _ => false

/-- The thread has started a section and not returned from its unlock. -/
def Thread.inCall (th : Thread) : Bool :=
  match th.pc with
  | .idle => false
  | _ => true

/-- The thread is in one of its `K` writer sections. -/
def Thread.inWriter (th : Thread) : Bool := th.inCall && !th.inReader

/-- The pairs the thread has finished: writer sections out of its `K`, and reader
sections, one entry of `reads` each. -/
def Thread.pairsDone (K : Nat) (th : Thread) : Nat :=
  K + th.reads.length - th.todo - th.inWriter.toNat

/-- The counts behind the thread's profile, with `K` writer sections: modulo `2^64` it
holds `a` acquisitions, `e` elisions and `n` aborts, where `a + e` pairs are finished, each
acquisition and each abort of the current call is paid for by an abort, and no call made
more than `max (max Rw Rr) 1` aborts. -/
def Thread.ProfOk (Rw Rr K : Nat) (th : Thread) : Prop :=
  ∀ q, th.prof = some q → ∃ a e n, q.Counts a e n ∧
    a + e + th.todo + th.inWriter.toNat = K + th.reads.length ∧
    a + th.callRetries ≤ n ∧ n ≤ (a + e) * max (max Rw Rr) 1 + th.callRetries

/-- One thread's bookkeeping, as `HtmSpinMutex.Thread.Budget`, with the limit of the call's
kind. -/
structure Thread.Budget (isa : HtmIsa) (Rw Rr K : Nat) (th : Thread) : Prop where
  retries_le : th.callRetries ≤ max (th.limit Rw Rr) 1
  retries_lt : th.retrying = true → th.retries < max (th.limit Rw Rr) 1
  fallback : th.onFallback = true →
    1 ≤ th.retries ∧ (th.limit Rw Rr ≤ th.retries ∨ xbeginRestart isa th.xstatus = false)
  prof : th.ProfOk Rw Rr K

/-- Where the thread is in its call: in one or not, of which kind, after how many
attempts. -/
def Thread.callPos (th : Thread) : Bool × Bool × Nat := (th.inCall, th.inReader, th.callRetries)

section Budget

variable {isa : HtmIsa} {Rw Rr K : Nat} {nd : Bool} {th th' : Thread}

theorem Thread.limit_le_max (th : Thread) : max (th.limit Rw Rr) 1 ≤ max (max Rw Rr) 1 := by
  unfold Thread.limit
  split <;> omega

theorem Thread.ProfOk.of_eq (h : th.ProfOk Rw Rr K) (hprof : th'.prof = th.prof)
    (htodo : th'.todo = th.todo) (hreads : th'.reads = th.reads)
    (hw : th'.inWriter = th.inWriter) (hcall : th'.callRetries = th.callRetries) :
    th'.ProfOk Rw Rr K := by
  intro q hq
  rw [htodo, hreads, hw, hcall]
  exact h q (hprof ▸ hq)

/-- A step that keeps the profile, the sections left and read, and the position in the
call, and enters a loop or the fallback path only from it, keeps the bookkeeping. -/
theorem Thread.Budget.frame (h : th.Budget isa Rw Rr K) (hprof : th'.prof = th.prof)
    (htodo : th'.todo = th.todo) (hreads : th'.reads = th.reads)
    (hpos : th'.callPos = th.callPos)
    (hretry : th'.retrying = true → th.retrying = true ∧ th'.retries = th.retries)
    (hfb : th'.onFallback = true →
      th.onFallback = true ∧ th'.retries = th.retries ∧ th'.xstatus = th.xstatus) :
    th'.Budget isa Rw Rr K := by
  simp only [Thread.callPos, Prod.mk.injEq] at hpos
  obtain ⟨hin, hrd, hcall⟩ := hpos
  have hlim : th'.limit Rw Rr = th.limit Rw Rr := by rw [Thread.limit, Thread.limit, hrd]
  refine ⟨hcall ▸ hlim ▸ h.retries_le, fun hr => ?_, fun hf => ?_,
    h.prof.of_eq hprof htodo hreads (by rw [Thread.inWriter, Thread.inWriter, hin, hrd]) hcall⟩
  · rw [hlim, (hretry hr).2]
    exact h.retries_lt (hretry hr).1
  · obtain ⟨h1, h2, h3⟩ := hfb hf
    rw [hlim, h2, h3]
    exact h.fallback h1

/-- A live transaction is in a call of its own kind, past the start of its loop. -/
theorem Thread.Ok.callPos_of_txn (h : th.Ok) {tx : Txn} (htx : th.txn = some tx) :
    th.callPos = (true, tx.shared, th.retries) := by
  have hin := (h.of_txn htx).2.2.2
  unfold Thread.Ok Thread.Cs at h
  simp only [Thread.callPos, hin, Prod.mk.injEq, and_true]
  cases hpc : th.pc <;> simp only [hpc, htx, reduceCtorEq, false_and, and_false, exists_false,
    or_false, false_or] at h <;> simp [Thread.inCall, Thread.callRetries, hpc]

/-- An abort sends the thread back to the loop of its call with the same `num_retries`. -/
theorem Thread.Budget.rollback (h : th.Budget isa Rw Rr K) {tx : Txn}
    (hpos : th.callPos = (true, tx.shared, th.retries)) (hretry : th.retrying = true) (x : Nat) :
    (th.rollback tx x).Budget isa Rw Rr K :=
  h.frame rfl rfl rfl
    (by rw [hpos]; simp [Thread.callPos, Thread.rollback, Thread.inCall, Thread.inReader,
      Thread.callRetries])
    (fun _ => ⟨hretry, rfl⟩)
    (fun hf => absurd hf (by simp [Thread.onFallback, Thread.rollback]))

theorem Thread.Budget.abortOn (h : th.Budget isa Rw Rr K) (hok : th.Ok) (w : Option Store)
    (x : Nat) : (th.abortOn w x).Budget isa Rw Rr K := by
  rcases th.abortOn_cases w x with he | ⟨tx, htx, he⟩ <;> rw [he]
  · exact h
  · exact h.rollback (hok.callPos_of_txn htx) (by simp [Thread.retrying, htx]) x

/-- An aborted attempt is counted: one abort more, paid for by the call's `num_retries`. -/
theorem Thread.ProfOk.abort {x : Nat} (h : th.ProfOk Rw Rr K)
    (hprof : th'.prof = th.prof.map fun p => p.updateAbort isa x) (htodo : th'.todo = th.todo)
    (hreads : th'.reads = th.reads) (hw : th'.inWriter = th.inWriter)
    (hcall : th'.callRetries = th.callRetries + 1) : th'.ProfOk Rw Rr K := by
  intro q hq
  rw [hprof] at hq
  obtain ⟨P, hP, rfl⟩ := Option.map_eq_some'.1 hq
  obtain ⟨a, e, n, hc, h1, h2, h3⟩ := h P hP
  refine ⟨a, e, n + 1, hc.updateAbort isa x, ?_⟩
  rw [htodo, hreads, hw, hcall]
  omega

/-- The loop test after an abort: round again, or on to the rwlock of the call's kind. -/
theorem Thread.Budget.aborted {sh : Bool} (h : th.Budget isa Rw Rr K) (hok : th.Ok)
    (hpc : th.pc = .aborted sh) :
    ({ th with
      pc := if xbeginRestart isa th.xstatus && th.retries + 1 < (if sh then Rr else Rw) then
          .unlockWait sh
        else if sh then .readLock else .writeLock,
      retries := th.retries + 1,
      prof := th.prof.map fun p => p.updateAbort isa th.xstatus } : Thread).Budget isa Rw Rr K := by
  simp only [Thread.Ok, hpc] at hok
  have hlt := h.retries_lt (by simp [Thread.retrying, hpc])
  have hL : th.limit Rw Rr = if sh then Rr else Rw := by simp [Thread.limit, Thread.inReader, hpc]
  rw [hL] at hlt
  by_cases hc :
      (xbeginRestart isa th.xstatus && decide (th.retries + 1 < if sh then Rr else Rw)) = true
  · -- round again, below the limit
    rw [if_pos hc]
    simp only [Bool.and_eq_true, decide_eq_true_eq] at hc
    exact ⟨by simp only [Thread.callRetries, Thread.limit, Thread.inReader]; omega,
      fun _ => by simp only [Thread.limit, Thread.inReader]; omega, by simp [Thread.onFallback],
      h.prof.abort rfl rfl rfl (by simp [Thread.inWriter, Thread.inCall, Thread.inReader, hpc])
        (by simp [Thread.callRetries, hpc])⟩
  · -- give up after an abort that is not restartable, or at the limit
    rw [if_neg hc]
    simp only [Bool.and_eq_true, decide_eq_true_eq, not_and, not_lt] at hc
    cases sh <;> simp only [Bool.false_eq_true, if_true, if_false] at hc hlt ⊢
    all_goals
      refine ⟨by simp only [Thread.callRetries, Thread.limit, Thread.inReader, if_true, if_false,
          Bool.false_eq_true]; omega,
        by simp [Thread.retrying, hok.1], fun _ => ⟨by simp, ?_⟩,
        h.prof.abort rfl rfl rfl (by simp [Thread.inWriter, Thread.inCall, Thread.inReader, hpc])
          (by simp [Thread.callRetries, hpc])⟩
      simp only [Thread.limit, Thread.inReader, if_true, if_false, Bool.false_eq_true]
      cases hx : xbeginRestart isa th.xstatus
      · exact .inr rfl
      · exact .inl (hc hx)

/-- A step of `htmSpinSharedMutexLock` keeps the bookkeeping. -/
theorem Thread.Budget.lock {st : Nat} {wf : Int} {a : Act} {x : Nat} {w : Option Store}
    (h : th.Budget isa Rw Rr K) (hok : th.Ok)
    (hr : htmSpinSharedMutexLock isa Rw Rr nd st wf th a x = some (th', w)) :
    th'.Budget isa Rw Rr K := by
  unfold htmSpinSharedMutexLock at hr
  cases a <;> cases hpc : th.pc <;> simp only [hpc, reduceCtorEq] at hr
  case run.aborted sh =>
    simp only [Option.some.injEq, Prod.mk.injEq] at hr
    obtain ⟨rfl, -⟩ := hr
    exact h.aborted hok hpc
  all_goals have hok' := hok; simp only [Thread.Ok, hpc] at hok'
  case run.lockEntry sh =>
    -- the loop starts with `num_retries = 0`
    simp only [hok'.2.2, Bool.or_true, if_true, Option.some.injEq, Prod.mk.injEq] at hr
    obtain ⟨rfl, -⟩ := hr
    exact ⟨by simp [Thread.callRetries], fun _ => by simp, by simp [Thread.onFallback],
      h.prof.of_eq rfl rfl rfl (by simp [Thread.inWriter, Thread.inCall, Thread.inReader, hpc])
        (by simp [Thread.callRetries, hpc])⟩
  case run.check sh =>
    -- the transaction aborts back into the loop, or goes on into the section
    obtain ⟨-, -, tx, htx, rfl, -⟩ := hok'
    have hpos := hok.callPos_of_txn htx
    have hretry : th.retrying = true := by simp [Thread.retrying, htx]
    rw [htx] at hr
    simp only [Option.map_some', Option.some.injEq] at hr
    split at hr <;> obtain ⟨rfl, -⟩ := hr
    · exact h.rollback (by rw [hpos]; cases tx.shared <;> rfl) hretry _
    · refine h.frame rfl rfl rfl ?_ (fun _ => ⟨hretry, rfl⟩) (fun hf => absurd hf ?_) <;>
        cases hs : tx.shared <;> simp [Thread.callPos, Thread.inCall, Thread.inReader,
          Thread.callRetries, Thread.onFallback, hpc, hs]
  all_goals
    (try split at hr) <;> simp only [Option.some.injEq, Prod.mk.injEq, reduceCtorEq] at hr <;>
      obtain ⟨rfl, -⟩ := hr <;>
      exact h.frame rfl rfl rfl
        (by simp [Thread.callPos, Thread.inCall, Thread.inReader, Thread.callRetries, hpc])
        (fun hre => ⟨by revert hre; simp [Thread.retrying, rwlockStep, hok'.1, hpc], rfl⟩)
        (fun hf => by revert hf; simp [Thread.onFallback, rwlockStep, hok'.1, hpc])

/-- `_xend()` in a transaction commits it and changes no count. -/
theorem Thread.Budget.xend (h : th.Budget isa Rw Rr K) (hok : th.Ok) {tx : Txn}
    (htx : th.txn = some tx) {sh : Bool} (hsh : tx.shared = sh) :
    (HtmSpinSharedMutex.xend th sh).1.Budget isa Rw Rr K := by
  have hpos := hok.callPos_of_txn htx
  subst hsh
  simp only [HtmSpinSharedMutex.xend, htx]
  exact h.frame rfl rfl rfl
    (by rw [hpos]; simp [Thread.callPos, Thread.inCall, Thread.inReader, Thread.callRetries])
    (fun hre => absurd hre (by simp [Thread.retrying]))
    (fun hf => absurd hf (by simp [Thread.onFallback]))

/-- Closing a call counts it, as acquired (`f = updateUnlock`, `i = 1`) or elided
(`f = updateCommit`, `j = 1`), and the call's attempts, at most `max (max Rw Rr) 1` of them,
join the bound. -/
theorem Thread.ProfOk.close {f : HtmMutexProfile → HtmMutexProfile} {i j : Nat}
    (h : th.ProfOk Rw Rr K) (hin : th.inCall = true) (hpc : th'.pc = .idle)
    (hprof : th'.prof = th.prof.map f) (htodo : th'.todo = th.todo)
    (hreads : th'.reads.length = th.reads.length + th.inReader.toNat)
    (hf : ∀ p a e n, p.Counts a e n → (f p).Counts (a + i) (e + j) n)
    (hd : i + j = 1) (hpaid : i ≤ th.callRetries)
    (hle : th.callRetries ≤ max (max Rw Rr) 1) : th'.ProfOk Rw Rr K := by
  intro q hq
  rw [hprof] at hq
  obtain ⟨P, hP, rfl⟩ := Option.map_eq_some'.1 hq
  obtain ⟨a, e, n, hc, h1, h2, h3⟩ := h P hP
  refine ⟨a + i, e + j, n, hf P a e n hc, ?_⟩
  have hmul : (a + i + (e + j)) * max (max Rw Rr) 1 =
      (a + e) * max (max Rw Rr) 1 + max (max Rw Rr) 1 := by
    rw [show a + i + (e + j) = a + e + 1 by omega, Nat.succ_mul]
  generalize max (max Rw Rr) 1 = M at hmul hle h3 ⊢
  have hin' : th'.inCall = false := by simp [Thread.inCall, hpc]
  have hcall' : th'.callRetries = 0 := by simp [Thread.callRetries, hpc]
  simp only [Thread.inWriter, hin, hin', hcall', htodo, hreads, Bool.true_and, Bool.false_and,
    Bool.toNat_false, Nat.add_zero] at h1 ⊢
  cases hr : th.inReader <;> simp only [hr, Bool.not_true, Bool.not_false, Bool.toNat_true,
    Bool.toNat_false, Nat.add_zero] at h1 ⊢ <;> omega

/-- A step of `htmSpinSharedMutexUnlock` keeps the bookkeeping: a fallback section is counted
as acquired, after at least one abort, and an elided one as elided. -/
theorem Thread.Budget.unlock {st c : Nat} {w : Option Store} (h : th.Budget isa Rw Rr K)
    (hok : th.Ok) (hr : htmSpinSharedMutexUnlock nd st c th = some (th', w)) :
    th'.Budget isa Rw Rr K := by
  have hok' := hok
  unfold htmSpinSharedMutexUnlock at hr
  cases hpc : th.pc <;> simp only [hpc, reduceCtorEq] at hr <;>
    simp only [Thread.Ok, hpc, Thread.Cs] at hok'
  case unlockEntry | unlockSharedEntry =>
    -- the status says which path the section took; a transaction commits
    split at hr <;> simp only [Option.some.injEq] at hr
    · rw [show th' = (HtmSpinSharedMutex.xend th _).1 by rw [hr]]
      rcases hok' with ⟨-, -, hst⟩ | ⟨tx, htx, hsh, -⟩
      · simp_all
      · exact h.xend hok htx hsh
    · obtain ⟨rfl, -⟩ := Prod.mk.inj hr
      rcases hok' with ⟨htx, -, -⟩ | ⟨tx, -, -, -, -, -, hst, -⟩
      · exact h.frame rfl rfl rfl
          (by simp [Thread.callPos, Thread.inCall, Thread.inReader, Thread.callRetries,
            rwlockStep, hpc])
          (fun hre => absurd hre (by simp [Thread.retrying, htx, rwlockStep]))
          (fun _ => ⟨by simp [Thread.onFallback, htx, hpc], by simp [rwlockStep],
            by simp [rwlockStep]⟩)
      · simp_all
    · rcases hok' with ⟨-, -, hst⟩ | ⟨-, -, -, -, -, -, hst, -⟩ <;> simp_all
  case writeUnlock =>
    simp only [Option.some.injEq, Prod.mk.injEq] at hr
    obtain ⟨rfl, -⟩ := hr
    exact h.frame rfl rfl rfl
      (by simp [Thread.callPos, Thread.inCall, Thread.inReader, Thread.callRetries,
        rwlockStep, hpc])
      (fun hre => absurd hre (by simp [Thread.retrying, hok'.1, rwlockStep]))
      (fun _ => ⟨by simp [Thread.onFallback, hok'.1, hpc], by simp [rwlockStep],
        by simp [rwlockStep]⟩)
  case released sh =>
    -- the fallback section is counted as acquired; an abort paid for it
    simp only [Option.some.injEq, Prod.mk.injEq] at hr
    obtain ⟨rfl, -⟩ := hr
    obtain ⟨h1, -⟩ := h.fallback (by simp [Thread.onFallback, hok'.1, hpc])
    have hcall : th.callRetries = th.retries := by simp [Thread.callRetries, hpc]
    refine ⟨by simp [Thread.callRetries], by simp [Thread.retrying, hok'.1],
      by simp [Thread.onFallback], h.prof.close (i := 1) (j := 0) (by simp [Thread.inCall, hpc])
        rfl rfl rfl (by cases sh <;> simp [Thread.inReader, hpc])
        (fun _ _ _ _ hc => hc.updateUnlock) rfl (by omega)
        (hcall ▸ h.retries_le.trans th.limit_le_max)⟩
  case committed sh =>
    -- the elided section is counted
    simp only [Option.some.injEq, Prod.mk.injEq] at hr
    obtain ⟨rfl, -⟩ := hr
    refine ⟨by simp [Thread.callRetries], by simp [Thread.retrying, hok'.1],
      by simp [Thread.onFallback], h.prof.close (i := 0) (j := 1) (by simp [Thread.inCall, hpc])
        rfl (by simp [hok'.1]) rfl (by cases sh <;> simp [Thread.inReader, hpc])
        (fun _ _ _ _ hc => hc.updateCommit) rfl (Nat.zero_le _)
        (h.retries_le.trans th.limit_le_max)⟩

/-- A step of the thread keeps its bookkeeping. -/
theorem Thread.Budget.step {st : Nat} {wf : Int} {c : Nat} {a : Act} {x : Nat}
    {w : Option Store} (h : th.Budget isa Rw Rr K) (hok : th.Ok)
    (hr : HtmSpinSharedMutex.step isa Rw Rr nd st wf c th a x = some (th', w)) :
    th'.Budget isa Rw Rr K := by
  cases a
  case abort =>
    rw [step_abort] at hr
    cases htx : th.txn <;> simp only [htx, Option.map_none', Option.map_some', reduceCtorEq,
      Option.some.injEq, Prod.mk.injEq] at hr
    obtain ⟨rfl, -⟩ := hr
    exact h.rollback (hok.callPos_of_txn htx) (by simp [Thread.retrying, htx]) x
  all_goals unfold HtmSpinSharedMutex.step at hr
  all_goals cases hpc : th.pc <;> simp only [hpc] at hr
  case run.idle =>
    -- a writer section starts: one section fewer to start, and the thread is in it
    split at hr <;> simp only [Option.some.injEq, Prod.mk.injEq, reduceCtorEq] at hr
    obtain ⟨rfl, -⟩ := hr
    simp only [Thread.Ok, hpc] at hok
    refine ⟨by simp [Thread.callRetries], by simp [Thread.retrying, hok.1],
      by simp [Thread.onFallback], fun q hq => ?_⟩
    obtain ⟨a, e, n, hc, h1, h2, h3⟩ := h.prof q hq
    simp only [Thread.callRetries, Thread.inWriter, Thread.inCall, hpc, Bool.false_and,
      Bool.toNat_false] at h1 h2 h3
    refine ⟨a, e, n, hc, ?_⟩
    simp only [Thread.callRetries, Thread.inWriter, Thread.inCall, Thread.inReader,
      Bool.not_false, Bool.and_true, Bool.toNat_true, Nat.add_zero]
    omega
  case read.idle =>
    -- a reader section starts, outside the writer sections
    simp only [Option.some.injEq, Prod.mk.injEq] at hr
    obtain ⟨rfl, -⟩ := hr
    simp only [Thread.Ok, hpc] at hok
    refine ⟨by simp [Thread.callRetries], by simp [Thread.retrying, hok.1],
      by simp [Thread.onFallback], h.prof.of_eq rfl rfl rfl
        (by simp [Thread.inWriter, Thread.inCall, Thread.inReader, hpc])
        (by simp [Thread.callRetries, hpc])⟩
  case run.csRead | run.csWrite | run.csLoad =>
    (try split at hr) <;> simp only [Option.some.injEq, Prod.mk.injEq] at hr <;>
      obtain ⟨rfl, -⟩ := hr <;>
      exact h.frame rfl rfl rfl
        (by simp [Thread.callPos, Thread.inCall, Thread.inReader, Thread.callRetries, hpc])
        (fun hre => ⟨by revert hre; simp [Thread.retrying, hpc, *], rfl⟩)
        (fun hf => ⟨by revert hf; simp [Thread.onFallback, hpc, *], rfl, rfl⟩)
  case run.unlockEntry | run.unlockSharedEntry | run.writeUnlock | run.released
    | run.committed =>
    exact h.unlock hok hr
  all_goals exact h.lock hok hr

theorem Thread.Budget.init (K : Nat) {p : Option HtmMutexProfile}
    (hp : ∀ q, p = some q → q = .init) :
    Thread.Budget isa Rw Rr K ⟨.idle, .unknown, none, .idle, 0, 0, 0, p, K, 0, []⟩ where
  retries_le := by simp [Thread.callRetries]
  retries_lt := by simp [Thread.retrying]
  fallback := by simp [Thread.onFallback]
  prof q hq := ⟨0, 0, 0, (hp q hq) ▸ HtmMutexProfile.Counts.init,
    by simp [Thread.inWriter, Thread.inCall], by simp [Thread.callRetries],
    by simp [Thread.callRetries]⟩

end Budget

section Runs

variable {isa : HtmIsa} {Rw Rr K : Nat} {nd : Bool} {p : Option HtmMutexProfile} {s : State N}

/-- Every thread of every reachable state keeps its bookkeeping, when the threads start
with an empty profile or none. -/
theorem Reachable.budget (hp : ∀ q, p = some q → q = .init) (hs : Reachable isa Rw Rr nd K p s)
    (t : Fin N) : (s.th t).Budget isa Rw Rr K := by
  induction hs generalizing t with
  | init => exact Thread.Budget.init K hp
  | step u a x hs' hn ih =>
    obtain ⟨th, w, hr, rfl⟩ := next_eq_some hn
    have hok := hs'.inv.ok
    rcases eq_or_ne t u with rfl | htu
    · rw [State.apply_th_self]
      exact (ih t).step (hok t) hr
    · rw [State.apply_th_ne htu]
      exact (ih t).abortOn (hok t) w (x t)

/-- The retry budget: a thread that reaches `libtle_rwlock_write_lock` (`sh = false`) or
`libtle_rwlock_read_lock` has made between `1` and `max L 1` attempts, `L` the limit of its
call, all aborted, and gave up because the last abort was not restartable or the limit was
reached. -/
theorem Reachable.fallback_retries (hp : ∀ q, p = some q → q = .init)
    (hs : Reachable isa Rw Rr nd K p s) {t : Fin N} {sh : Bool}
    (hpc : (s.th t).pc = if sh then .readLock else .writeLock) :
    1 ≤ (s.th t).retries ∧ (s.th t).retries ≤ max (if sh then Rr else Rw) 1 ∧
      ((if sh then Rr else Rw) ≤ (s.th t).retries ∨
        xbeginRestart isa (s.th t).xstatus = false) := by
  have hb := hs.budget hp t
  have hok := hs.inv.ok t
  have hlim : (s.th t).limit Rw Rr = if sh then Rr else Rw := by
    cases sh <;> simp [Thread.limit, Thread.inReader, hpc]
  have htx : (s.th t).txn = none := by
    cases sh <;> simp only [Thread.Ok, hpc] at hok <;> exact hok.1
  have hcall : (s.th t).callRetries = (s.th t).retries := by
    cases sh <;> simp [Thread.callRetries, hpc]
  obtain ⟨h1, h2⟩ := hb.fallback (by cases sh <;> simp [Thread.onFallback, htx, hpc])
  rw [hlim] at h2
  exact ⟨h1, hlim ▸ hcall ▸ hb.retries_le, h2⟩

end Runs

/-! ## Every limit makes one attempt -/

/-- Whatever the limits, `0` included, the `do`-`while` loops of `lock` and `lock_shared`
make their first attempt: a thread alone whose `_xbegin` starts runs a writer section, or a
reader section, elided, and its profile counts one elision and no abort. -/
theorem Reachable.elided_at_any_limit (isa : HtmIsa) (Rw Rr : Nat) (nd : Bool) :
    (∃ s : State 1, Reachable isa Rw Rr nd 1 (some .init) s ∧ (s.th 0).pc = .idle ∧
      (s.th 0).prof = some ⟨0, 1, 0, 0, 0, 0, 0⟩) ∧
    (∃ s : State 1, Reachable isa Rw Rr nd 0 (some .init) s ∧ (s.th 0).pc = .idle ∧
      (s.th 0).reads.length = 1 ∧ (s.th 0).prof = some ⟨0, 1, 0, 0, 0, 0, 0⟩) := by
  -- the status `1` of the schedules is not `_XBEGIN_STARTED` under either extension
  cases isa <;> cases nd <;>
    exact ⟨⟨_, Reachable.execute (l := List.replicate 9 (0, .run, 1)) .init rfl, rfl, rfl⟩,
      ⟨_, Reachable.execute (l := (0, .read, 1) :: List.replicate 7 (0, .run, 1)) .init rfl, rfl,
        rfl, rfl⟩⟩

end HtmSpinSharedMutex
end LibTle
