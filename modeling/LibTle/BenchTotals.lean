import LibTle.SpinMutex
import LibTle.HtmSpinMutexProfile
import Mathlib.Algebra.BigOperators.Fin

/-!
# The benchmark's totals add up

The benchmark runs `lock(); work; unlock(); ++iterations` on each thread with a profile of
its own, copies the profile's counters into the thread's stats when it stops, and `main`
sums every counter over the threads in `uint64_t` (`benchTotal`). On the two exclusive
mutexes with a profile, over every run, and wherever every thread is between sections:

* `libtle_spin_mutex_t`: each thread's `locks_acquired` is its finished pairs modulo `2^64`,
  so the total of `locks_acquired` is the total of iterations and `c`, modulo `2^64`; the
  profile accumulated from all threads (`libtle_mutex_profile_accumulate`) is
  `internally_consistent` with `c`;
* `libtle_htm_spin_mutex_t`, in both builds and with any retry limit: the totals of
  `locks_acquired` and `locks_elided` add up to the total of iterations and `c`, modulo
  `2^64`, however the sections split between the fallback and elision. In every reachable
  state, while no abort counter can wrap, the profile accumulated from all threads
  (`libtle_htm_mutex_profile_accumulate`) is `internally_consistent` with the pairs finished:
  `accumulate` can break consistency of arbitrary profiles, but not of the ones the mutex
  keeps, whose acquisitions are each paid for by an abort of the same thread.
-/

namespace LibTle

/-! ## `libtle_mutex_profile_t` and the report loop -/

/-- `libtle_mutex_profile_init`. -/
def mutexProfileInit : Nat := 0

/-- `libtle_mutex_profile_internally_consistent(p, sum)` for a `uint64_t` value `sum`. -/
def mutexProfileInternallyConsistent (locksAcquired sum : Nat) : Bool := locksAcquired == sum

/-- `libtle_mutex_profile_accumulate(p, q)`, the C++ wrapper's `operator+=`. -/
def mutexProfileAccumulate (p q : Nat) : Nat := wrapAdd64 p q

variable {N : Nat}

/-- The report loop of the benchmark's `main`: `total.x += st.x` over the threads' stats,
in `uint64_t`, from `0`. -/
def benchTotal (x : Fin N → Nat) : Nat :=
  (List.finRange N).foldl (fun acc t => wrapAdd64 acc (x t)) 0

theorem foldl_wrapAdd64 (x : Fin N → Nat) :
    ∀ (l : List (Fin N)) (acc : Nat),
      l.foldl (fun acc t => wrapAdd64 acc (x t)) (acc % 2 ^ 64) =
        l.foldl (fun acc t => acc + x t) acc % 2 ^ 64
  | [], _ => rfl
  | t :: l, acc => by
    rw [List.foldl_cons, List.foldl_cons, wrapAdd64, Nat.mod_add_mod, foldl_wrapAdd64 x l]

/-- The report loop sums modulo `2^64`. -/
theorem benchTotal_eq (x : Fin N → Nat) : benchTotal x = (∑ t, x t) % 2 ^ 64 := by
  have h := foldl_wrapAdd64 x (List.finRange N) 0
  rw [Nat.zero_mod] at h
  rw [benchTotal, h, Fin.sum_univ_def, List.sum_eq_foldl, List.foldl_map]

/-- Counters that each count modulo `2^64` sum to their counts' sum, modulo `2^64`. -/
theorem benchTotal_mod (x : Fin N → Nat) :
    benchTotal (fun t => x t % 2 ^ 64) = (∑ t, x t) % 2 ^ 64 := by
  rw [benchTotal_eq, ← Finset.sum_nat_mod]

/-- A counter that `libtle_htm_mutex_profile_accumulate` adds up in `uint64_t` is, in the
profile accumulated over the threads, what the report loop sums. -/
theorem foldl_accumulate (g : HtmMutexProfile → Nat)
    (hg : ∀ p q, g (p.accumulate q) = wrapAdd64 (g p) (g q)) (x : Fin N → HtmMutexProfile) :
    ∀ (l : List (Fin N)) (acc : HtmMutexProfile),
      g (l.foldl (fun acc t => acc.accumulate (x t)) acc) =
        l.foldl (fun a t => wrapAdd64 a (g (x t))) (g acc)
  | [], _ => rfl
  | t :: l, acc => by rw [List.foldl_cons, List.foldl_cons, foldl_accumulate g hg x l, hg]

/-! ## `libtle_spin_mutex_t` -/

namespace SpinMutex

/-- The thread has started a section and not returned from its `unlock`. -/
def Thread.inCall (th : Thread) : Bool :=
  match th.pc with
  | .idle => false
  | _ => true

/-- The pairs of `lock` and `unlock` the thread has finished, out of its `K` sections. -/
def Thread.pairsDone (K : Nat) (th : Thread) : Nat := K - th.todo - th.inCall.toNat

/-- The thread's profile counts the pairs it has finished, modulo `2^64`. -/
def Thread.ProfOk (K : Nat) (th : Thread) : Prop :=
  th.todo + th.inCall.toNat ≤ K ∧ th.prof = some (th.pairsDone K % 2 ^ 64)

section Profile

variable {nd : Bool} {K : Nat} {th th' : Thread} {s : State N}

/-- A step of the thread keeps its profile right: a section starts inside the count, and
`libtle_mutex_profile_update_unlock` counts it as the call returns. -/
theorem Thread.ProfOk.step {st st' : Int} {c c' : Nat} (h : th.ProfOk K)
    (hs : SpinMutex.step nd st c th = some (th', st', c')) : th'.ProfOk K := by
  obtain ⟨hle, hprof⟩ := h
  unfold SpinMutex.step spinMutexLock spinMutexUnlock at hs
  cases hpc : th.pc <;>
    simp only [hpc, Thread.inCall, Thread.pairsDone, Bool.toNat_true, Bool.toNat_false] at hs hle hprof
  case idle =>
    split at hs <;> simp only [Option.some.injEq, Prod.mk.injEq, reduceCtorEq] at hs
    obtain ⟨rfl, -, -⟩ := hs
    refine ⟨by simp only [Thread.inCall, Bool.toNat_true]; omega, ?_⟩
    simp only [Thread.pairsDone, Thread.inCall, Bool.toNat_true, hprof]
    congr 2
    omega
  case released =>
    simp only [Option.map_some', Option.some.injEq, Prod.mk.injEq] at hs
    obtain ⟨rfl, -, -⟩ := hs
    refine ⟨by simp only [Thread.inCall, Bool.toNat_false]; omega, ?_⟩
    simp only [Thread.pairsDone, Thread.inCall, Bool.toNat_false, hprof, Option.map_some',
      mutexProfileUpdateUnlock, wrapAdd64, Nat.mod_add_mod]
    congr 2
    omega
  all_goals
    (repeat' split at hs) <;>
      simp only [Option.map_some', Option.map_none', Option.some.injEq, Prod.mk.injEq,
        reduceCtorEq] at hs <;> obtain ⟨rfl, -, -⟩ := hs <;>
      exact ⟨by simpa [Thread.inCall] using hle, by simpa [Thread.pairsDone, Thread.inCall]⟩

/-- Every thread whose profile starts at `libtle_mutex_profile_init` keeps it right. -/
theorem Reachable.profOk (hs : Reachable nd K (some mutexProfileInit) s) (t : Fin N) :
    (s.th t).ProfOk K := by
  induction hs generalizing t with
  | init => simp [Thread.ProfOk, SpinMutex.init, Thread.pairsDone, Thread.inCall, mutexProfileInit]
  | step u _ hn ih =>
    simp only [SpinMutex.next, Option.map_eq_some'] at hn
    obtain ⟨⟨th, st, c⟩, hr, rfl⟩ := hn
    rcases eq_or_ne t u with rfl | htu
    · simpa using (ih t).step hr
    · simpa [Function.update_noteq htu] using ih t

/-- Between sections, `c` is the number of pairs finished. -/
theorem Reachable.c_eq_pairsDone {p : Option Nat} (hs : Reachable nd K p s)
    (hidle : ∀ t, (s.th t).pc = .idle) (hle : ∀ t, (s.th t).todo ≤ K) :
    s.c = ∑ t, (s.th t).pairsDone K := by
  have h := hs.inv.sum
  simp only [Thread.left, Thread.pending, hidle, Nat.add_zero] at h
  have hk : ∀ t, (s.th t).pairsDone K + (s.th t).todo = K := fun t => by
    simp only [Thread.pairsDone, Thread.inCall, hidle, Bool.toNat_false]
    have := hle t
    omega
  have hsum : ∑ t, (s.th t).pairsDone K + ∑ t, (s.th t).todo = N * K := by
    simp [← Finset.sum_add_distrib, hk]
  omega

end Profile

/-- The benchmark's counts add up on `libtle_spin_mutex_t`: every thread's profile, started
by `libtle_mutex_profile_init`, is `internally_consistent` with the pairs it has finished,
modulo `2^64`; and whenever every thread is between sections, the total of `locks_acquired`
equals the total of iterations and `c`, modulo `2^64`, and the profile accumulated from all
threads is `internally_consistent` with `c`. -/
theorem spin_mutex_bench_totals {nd : Bool} {K : Nat} {s : State N}
    (hs : Reachable nd K (some mutexProfileInit) s) :
    (∀ t, ∃ q, (s.th t).prof = some q ∧
      mutexProfileInternallyConsistent q ((s.th t).pairsDone K % 2 ^ 64) = true) ∧
    ((∀ t, (s.th t).pc = .idle) →
      benchTotal (fun t => (s.th t).prof.getD mutexProfileInit) =
          benchTotal (fun t => (s.th t).pairsDone K) ∧
        benchTotal (fun t => (s.th t).pairsDone K) = s.c % 2 ^ 64 ∧
        mutexProfileInternallyConsistent
          ((List.finRange N).foldl (fun acc t =>
            mutexProfileAccumulate acc ((s.th t).prof.getD mutexProfileInit)) mutexProfileInit)
          (s.c % 2 ^ 64) = true) := by
  have hok := hs.profOk
  refine ⟨fun t => ⟨_, (hok t).2, by simp [mutexProfileInternallyConsistent]⟩, fun hidle => ?_⟩
  have hc := hs.c_eq_pairsDone hidle fun t => by have := (hok t).1; omega
  have hprof : benchTotal (fun t => (s.th t).prof.getD mutexProfileInit) = s.c % 2 ^ 64 := by
    simp only [(hok _).2, Option.getD_some, benchTotal_mod, hc]
  refine ⟨by rw [hprof, benchTotal_eq, hc], by rw [benchTotal_eq, hc], ?_⟩
  simpa [mutexProfileInternallyConsistent] using hprof

/-- At the end of `race` both threads are idle, each profile counts its one section, and the
totals agree with `c = 2`. -/
theorem spin_mutex_bench_totals_race :
    (Reachable false 1 (some mutexProfileInit) (raceState 16) ∧ (raceState 16).c = 2 ∧
      ∀ t, ((raceState 16).th t).pc = .idle) ∧
    (∀ t, ∃ q, ((raceState 16).th t).prof = some q ∧
      mutexProfileInternallyConsistent q (((raceState 16).th t).pairsDone 1 % 2 ^ 64) = true) ∧
    ((∀ t, ((raceState 16).th t).pc = .idle) →
      benchTotal (fun t => ((raceState 16).th t).prof.getD mutexProfileInit) =
          benchTotal (fun t => ((raceState 16).th t).pairsDone 1) ∧
        benchTotal (fun t => ((raceState 16).th t).pairsDone 1) = (raceState 16).c % 2 ^ 64 ∧
        mutexProfileInternallyConsistent
          ((List.finRange 2).foldl (fun acc t =>
            mutexProfileAccumulate acc (((raceState 16).th t).prof.getD mutexProfileInit)) mutexProfileInit)
          ((raceState 16).c % 2 ^ 64) = true) :=
  ⟨⟨Reachable.raceState rfl, by decide, by decide⟩,
    spin_mutex_bench_totals (Reachable.raceState rfl)⟩

end SpinMutex

/-! ## `libtle_htm_spin_mutex_t` -/

namespace HtmSpinMutex

section Profile

variable {isa : HtmIsa} {R K : Nat} {nd : Bool} {s : State N}

/-- A step never drops or creates the thread's profile: it only updates it in place. -/
theorem step_prof_isSome {st : Int} {c : Nat} {th th' : Thread} {a : Act} {x : Nat}
    {w : Option Store} (h : HtmSpinMutex.step isa R nd st c th a x = some (th', w)) :
    th'.prof.isSome = th.prof.isSome := by
  cases a
  case abort =>
    obtain ⟨tx, -, he⟩ := Option.map_eq_some'.1 h
    cases he
    rfl
  all_goals
    unfold HtmSpinMutex.step htmSpinMutexLock htmSpinMutexUnlock xend at h
    cases hpc : th.pc <;> simp only [hpc] at h
  case run.check =>
    obtain ⟨tx, -, he⟩ := Option.map_eq_some'.1 h
    split at he <;> cases he <;> rfl
  all_goals
    (repeat' split at h) <;> simp only [Option.some.injEq, Prod.mk.injEq, reduceCtorEq] at h <;>
      (obtain ⟨rfl, -⟩ := h; simp)

theorem Thread.abortOn_prof (th : Thread) (w : Option Store) (x : Nat) :
    (th.abortOn w x).prof = th.prof := by
  rcases th.abortOn_cases w x with he | ⟨tx, -, he⟩ <;> rw [he]
  rfl

/-- A thread started with a profile keeps one. -/
theorem Reachable.prof_isSome {q : HtmMutexProfile} (hs : Reachable isa R nd K (some q) s)
    (t : Fin N) : (s.th t).prof.isSome := by
  induction hs generalizing t with
  | init => rfl
  | step u a x _ hn ih =>
    obtain ⟨th, w, hr, rfl⟩ := next_eq_some hn
    rcases eq_or_ne t u with rfl | htu
    · rw [State.apply_th_self, step_prof_isSome hr, ih]
    · rw [State.apply_th_ne htu, Thread.abortOn_prof, ih]

/-- Between sections, `c` is the number of pairs finished. -/
theorem Reachable.c_eq_pairsDone {p : Option HtmMutexProfile} (hs : Reachable isa R nd K p s)
    (hidle : ∀ t, (s.th t).pc = .idle) (hle : ∀ t, (s.th t).todo ≤ K) :
    s.c = ∑ t, (s.th t).pairsDone K := by
  have h := hs.inv.sum
  simp only [Thread.left, Thread.pending, hidle, Nat.add_zero] at h
  have hk : ∀ t, (s.th t).pairsDone K + (s.th t).todo = K := fun t => by
    simp only [Thread.pairsDone, Thread.inCall, hidle, Bool.toNat_false]
    have := hle t
    omega
  have hsum : ∑ t, (s.th t).pairsDone K + ∑ t, (s.th t).todo = N * K := by
    simp [← Finset.sum_add_distrib, hk]
  omega

end Profile

/-- The benchmark's counts add up on `libtle_htm_spin_mutex_t`, in both builds and with any
retry limit: whenever every thread is between sections, the totals of `locks_acquired` and
`locks_elided`, each summed in `uint64_t`, add up to the total of iterations and to `c`,
modulo `2^64`. -/
theorem htm_spin_mutex_bench_totals {R K : Nat} {nd : Bool} {s : State N}
    (hs : Reachable isa R nd K (some .init) s) (hidle : ∀ t, (s.th t).pc = .idle) :
    wrapAdd64 (benchTotal fun t => ((s.th t).prof.getD .init).locksAcquired)
        (benchTotal fun t => ((s.th t).prof.getD .init).locksElided) =
      benchTotal (fun t => (s.th t).pairsDone K) ∧
    benchTotal (fun t => (s.th t).pairsDone K) = s.c % 2 ^ 64 := by
  have hq : ∀ t, ∃ a e, ((s.th t).prof.getD .init).locksAcquired = a % 2 ^ 64 ∧
      ((s.th t).prof.getD .init).locksElided = e % 2 ^ 64 ∧ a + e + (s.th t).todo = K := by
    intro t
    obtain ⟨q, hq⟩ := Option.isSome_iff_exists.1 (hs.prof_isSome t)
    obtain ⟨a, e, n, hc, hk, -⟩ := (hs.budget (fun _ h => (Option.some.inj h).symm) t).prof q hq
    simp only [Thread.inCall, hidle, Bool.toNat_false, Nat.add_zero] at hk
    exact ⟨a, e, by rw [hq, Option.getD_some, hc.acquired_eq],
      by rw [hq, Option.getD_some, hc.elided_eq], hk⟩
  choose a e ha he hk using hq
  have hc := hs.c_eq_pairsDone hidle fun t => by have := hk t; omega
  have hdone : ∀ t, (s.th t).pairsDone K = a t + e t := fun t => by
    simp only [Thread.pairsDone, Thread.inCall, hidle, Bool.toNat_false]
    have := hk t
    omega
  refine ⟨?_, by rw [benchTotal_eq, hc]⟩
  simp only [ha, he, benchTotal_mod]
  simp only [benchTotal_eq, hdone, wrapAdd64, Nat.add_mod_mod, Nat.mod_add_mod,
    Finset.sum_add_distrib]

/-- At the end of `race` thread 0 has taken the fallback lock once and thread 1 has elided
once: one acquisition and one elision, and `c = 2`. -/
theorem htm_spin_mutex_bench_totals_race :
    (Reachable .rtm 10 false 1 (some .init) (raceState .rtm 24) ∧ (raceState .rtm 24).c = 2 ∧
      ((raceState .rtm 24).th 0).prof = some ⟨1, 0, 0, 0, 1, 0, 0⟩ ∧
      ((raceState .rtm 24).th 1).prof = some ⟨0, 1, 0, 1, 0, 0, 0⟩) ∧
    (∀ t, ((raceState .rtm 24).th t).pc = .idle) ∧
    wrapAdd64 (benchTotal fun t => (((raceState .rtm 24).th t).prof.getD .init).locksAcquired)
        (benchTotal fun t => (((raceState .rtm 24).th t).prof.getD .init).locksElided) =
      benchTotal (fun t => ((raceState .rtm 24).th t).pairsDone 1) ∧
    benchTotal (fun t => ((raceState .rtm 24).th t).pairsDone 1) = (raceState .rtm 24).c % 2 ^ 64 :=
  ⟨⟨Reachable.execute_getD rfl, by decide, by decide, by decide⟩, by decide,
    htm_spin_mutex_bench_totals (Reachable.execute_getD rfl) (by decide)⟩

/-- The profile accumulated from all threads' profiles: `p += q` over the threads, from a
fresh profile. -/
def accumulated (s : State N) : HtmMutexProfile :=
  (List.finRange N).foldl (fun acc t => acc.accumulate ((s.th t).prof.getD .init)) .init

theorem accumulated_field (g : HtmMutexProfile → Nat)
    (hg : ∀ p q, g (p.accumulate q) = wrapAdd64 (g p) (g q)) (h0 : g .init = 0)
    (s : State N) : g (accumulated s) = benchTotal fun t => g ((s.th t).prof.getD .init) := by
  rw [accumulated, foldl_accumulate g hg, h0, benchTotal]

section Accumulate

variable {isa : HtmIsa} {R K : Nat} {nd : Bool} {s : State N}

/-- What a thread's profile holds: `a` acquisitions and `e` elisions, one for each finished
pair, and `n` aborts, at least one for each acquisition and at most `max R 1` for each call
made. -/
theorem Reachable.profile_counts (hs : Reachable isa R nd K (some .init) s) (t : Fin N) :
    ∃ a e n, ((s.th t).prof.getD .init).Counts a e n ∧ a + e = (s.th t).pairsDone K ∧
      a ≤ n ∧ n ≤ K * max R 1 := by
  obtain ⟨q, hq⟩ := Option.isSome_iff_exists.1 (hs.prof_isSome t)
  have hb := hs.budget (fun _ h => (Option.some.inj h).symm) t
  obtain ⟨a, e, n, hc, hk, h1, h2⟩ := hb.prof q hq
  refine ⟨a, e, n, by rwa [hq, Option.getD_some], by simp only [Thread.pairsDone]; omega,
    by omega, ?_⟩
  -- a call in progress made at most `max R 1` attempts; outside a call, none
  have hr := hb.retries_le
  cases hin : (s.th t).inCall
  · have h0 : (s.th t).callRetries = 0 := by
      simp only [Thread.inCall] at hin
      split at hin <;> simp_all [Thread.callRetries]
    rw [hin, Bool.toNat_false] at hk
    calc n ≤ (a + e) * max R 1 := by omega
      _ ≤ K * max R 1 := Nat.mul_le_mul_right _ (by omega)
  · rw [hin, Bool.toNat_true] at hk
    calc n ≤ (K - 1) * max R 1 + max R 1 :=
          by have := Nat.mul_le_mul_right (max R 1) (show a + e ≤ K - 1 by omega); omega
      _ = K * max R 1 := by
          rw [← Nat.succ_mul, Nat.succ_eq_add_one, Nat.sub_add_cancel (by omega)]

end Accumulate

/-- On the profiles `libtle_htm_spin_mutex_t` keeps, `libtle_htm_mutex_profile_accumulate`
keeps consistency: in every reachable state, with every profile started by
`libtle_htm_mutex_profile_init` and `N * K * max R 1 < 2^64`, the profile accumulated from all
threads is `internally_consistent` with the total of finished pairs, since each thread's
acquisitions are paid for by its own aborts. -/
theorem htm_spin_mutex_accumulated_consistent {R K : Nat} {nd : Bool} {s : State N}
    (hs : Reachable isa R nd K (some .init) s) (hbound : N * (K * max R 1) < 2 ^ 64) :
    (accumulated s).internallyConsistent (benchTotal fun t => (s.th t).pairsDone K) = true := by
  choose a e n hc hae han hn using hs.profile_counts
  have hsum : ∑ t, n t < 2 ^ 64 := lt_of_le_of_lt
    ((Finset.sum_le_sum fun t _ => hn t).trans (by simp)) hbound
  have hacq : ∑ t, a t ≤ ∑ t, n t := Finset.sum_le_sum fun t _ => han t
  have hA : (accumulated s).locksAcquired = ∑ t, a t := by
    rw [accumulated_field HtmMutexProfile.locksAcquired (fun _ _ => rfl) rfl, benchTotal_eq]
    simp only [(hc _).acquired_eq, ← Finset.sum_nat_mod]
    exact Nat.mod_eq_of_lt (by omega)
  have hE : (accumulated s).locksElided = (∑ t, e t) % 2 ^ 64 := by
    rw [accumulated_field HtmMutexProfile.locksElided (fun _ _ => rfl) rfl, benchTotal_eq]
    simp only [(hc _).elided_eq, ← Finset.sum_nat_mod]
  have hN : (accumulated s).aborts = ∑ t, n t := by
    rw [accumulated_field HtmMutexProfile.aborts HtmMutexProfile.aborts_accumulate rfl,
      benchTotal_eq]
    simp only [(hc _).aborts_eq, ← Finset.sum_nat_mod]
    exact Nat.mod_eq_of_lt hsum
  rw [HtmMutexProfile.internallyConsistent_iff, hA, hE, hN, benchTotal_eq]
  refine ⟨?_, .inl hacq⟩
  simp only [wrapAdd64, Nat.add_mod_mod, ← hae, Finset.sum_add_distrib]

theorem htm_spin_mutex_accumulated_consistent_race :
    (Reachable .rtm 10 false 1 (some .init) (raceState .rtm 24) ∧ 2 * (1 * max 10 1) < 2 ^ 64 ∧
      accumulated (raceState .rtm 24) = ⟨1, 1, 0, 1, 1, 0, 0⟩) ∧
    (accumulated (raceState .rtm 24)).internallyConsistent
      (benchTotal fun t => ((raceState .rtm 24).th t).pairsDone 1) = true :=
  ⟨⟨Reachable.execute_getD rfl, by decide, by decide⟩,
    htm_spin_mutex_accumulated_consistent (Reachable.execute_getD rfl) (by decide)⟩

end HtmSpinMutex

end LibTle
