import LibTle.HtmSpinMutexProfile
import LibTle.HtmSpinSharedMutexProfile

/-!
# Retry loops and HTM profiles

The three elision loops, `libtle_htm_spin_mutex_lock`, `libtle_htm_spin_shared_mutex_lock`
and `..._lock_shared`, and the profile each thread keeps of them. From each mutex's
bookkeeping (`Thread.Budget`), over every run:

* a call that reaches its fallback made between `1` and `max R 1` attempts, all aborted, and
  gave up at an abort that was not restartable or at the limit `R`; every abort adds `1` to
  the five abort counters. The loops are `do`-`while` loops, so even with `R = 0` a call
  makes one attempt, and elides when it starts;
* the profile is `internally_consistent` with the pairs finished, writer and reader
  sections together, while `(k + 1) * max R 1 < 2^64`: beyond that the abort counters can
  wrap (`HtmSpinMutex.htm_spin_mutex_profile_wraps`).
-/

namespace LibTle

theorem retry_loops_attempt_at_every_limit :
    (∀ (p : HtmMutexProfile) isa x, (p.updateAbort isa x).aborts = wrapAdd64 p.aborts 1) ∧
    (∀ isa N R nd K p (s : HtmSpinMutex.State N) t, (∀ q, p = some q → q = .init) →
      HtmSpinMutex.Reachable isa R nd K p s → (s.th t).pc = .fallback →
      1 ≤ (s.th t).retries ∧ (s.th t).retries ≤ max R 1 ∧
        (R ≤ (s.th t).retries ∨ xbeginRestart isa (s.th t).xstatus = false)) ∧
    (∀ isa N Rw Rr nd K p (s : HtmSpinSharedMutex.State N) t (sh : Bool),
      (∀ q, p = some q → q = .init) → HtmSpinSharedMutex.Reachable isa Rw Rr nd K p s →
      (s.th t).pc = (if sh then .readLock else .writeLock) →
      1 ≤ (s.th t).retries ∧ (s.th t).retries ≤ max (if sh then Rr else Rw) 1 ∧
        ((if sh then Rr else Rw) ≤ (s.th t).retries ∨
          xbeginRestart isa (s.th t).xstatus = false)) ∧
    (∀ isa R nd, ∃ s : HtmSpinMutex.State 1, HtmSpinMutex.Reachable isa R nd 1 (some .init) s ∧
      (s.th 0).pc = .idle ∧ (s.th 0).prof = some ⟨0, 1, 0, 0, 0, 0, 0⟩) ∧
    (∀ isa Rw Rr nd,
      (∃ s : HtmSpinSharedMutex.State 1,
        HtmSpinSharedMutex.Reachable isa Rw Rr nd 1 (some .init) s ∧
        (s.th 0).pc = .idle ∧ (s.th 0).prof = some ⟨0, 1, 0, 0, 0, 0, 0⟩) ∧
      (∃ s : HtmSpinSharedMutex.State 1,
        HtmSpinSharedMutex.Reachable isa Rw Rr nd 0 (some .init) s ∧
        (s.th 0).pc = .idle ∧ (s.th 0).reads.length = 1 ∧
        (s.th 0).prof = some ⟨0, 1, 0, 0, 0, 0, 0⟩)) :=
  ⟨HtmMutexProfile.aborts_updateAbort,
    fun _ _ _ _ _ _ _ _ hp hs hpc => hs.fallback_retries hp hpc,
    fun _ _ _ _ _ _ _ _ _ _ hp hs hpc => hs.fallback_retries hp hpc,
    HtmSpinMutex.Reachable.elided_at_any_limit,
    HtmSpinSharedMutex.Reachable.elided_at_any_limit⟩

end LibTle
