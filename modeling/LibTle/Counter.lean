import LibTle.HtmSpinMutex
import LibTle.HtmSpinSharedMutex
import LibTle.SpinMutex

/-!
# The shared counter

The test of `safe_increment` and `safe_read` for the four mutexes that protect anything:
`N` threads each add one to `c` in `K` writer sections, and on the two shared mutexes any
number of reader sections load `c` alongside. From each mutex's invariant, over every run of
either build (debug or `NDEBUG`):

* no increment is lost: once every thread is done, `c = N * K`;
* each reader section's load lies between `c` at the start of the section and `c` at its
  end (`ReadLog`), and `c` moves by `0` or `1` a step, so `c` held the loaded value at some
  instant of the section; the values one thread loads never decrease.

The two shared mutexes here take `state` through the portable loops of `rwlock.h`, which
the x86-64 and AArch64 builds replace by `asm` blocks. What holds of those builds is in
`SpinSharedMutexX86` (no update is lost when `%1` of `write_lock` is in `%eax`, and one is
lost with `%1` in `%edx`) and `HtmSpinSharedMutexA64` (the UNKNOWN store of `stlxr %w0, %w0`
lets two writers in).
-/

namespace LibTle

theorem no_lost_update :
    (∀ N nd K p (s : SpinMutex.State N), SpinMutex.Reachable nd K p s →
      (∀ t, (s.th t).pc = .idle ∧ (s.th t).todo = 0) → s.c = N * K) ∧
    (∀ isa N R nd K p (s : HtmSpinMutex.State N), HtmSpinMutex.Reachable isa R nd K p s →
      (∀ t, (s.th t).pc = .idle ∧ (s.th t).todo = 0) → s.c = N * K) ∧
    (∀ N nd K p (s : SpinSharedMutex.State N), SpinSharedMutex.Reachable nd K p s →
      ((∀ t, (s.th t).pc = .idle ∧ (s.th t).todo = 0) → s.c = N * K) ∧
      (∀ t, ReadLog (s.th t).reads s.c ∧
        ((s.th t).reads.map fun r => r.2.1).Pairwise (· ≥ ·)) ∧
      ∀ t a s', SpinSharedMutex.next nd s t a = some s' → s.c ≤ s'.c ∧ s'.c ≤ s.c + 1) ∧
    (∀ isa N Rw Rr nd K p (s : HtmSpinSharedMutex.State N),
      HtmSpinSharedMutex.Reachable isa Rw Rr nd K p s →
      ((∀ t, (s.th t).pc = .idle ∧ (s.th t).todo = 0) → s.c = N * K) ∧
      (∀ t, ReadLog (s.th t).reads s.c ∧
        ((s.th t).reads.map fun r => r.2.1).Pairwise (· ≥ ·)) ∧
      ∀ t a x s', HtmSpinSharedMutex.next isa Rw Rr nd s t a x = some s' →
        s.c ≤ s'.c ∧ s'.c ≤ s.c + 1) :=
  ⟨fun _ _ _ _ _ hs => hs.c_eq_of_done,
    fun _ _ _ _ _ _ _ hs => hs.c_eq_of_done,
    fun _ _ _ _ _ hs =>
      ⟨hs.c_eq_of_done, fun t => ⟨hs.readLog t, (hs.readLog t).reads_antitone⟩,
        fun _ _ _ => hs.inv.c_step⟩,
    fun _ _ _ _ _ _ _ _ hs => ⟨hs.c_eq_of_done,
      fun t => ⟨hs.readLog t, (hs.readLog t).reads_antitone⟩, fun _ _ _ _ => hs.inv.c_step⟩⟩

end LibTle
