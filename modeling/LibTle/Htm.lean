import LibTle.Basic

/-!
# Transactions, handle states and profiles

The pieces of `tme.h`, `mutex.h` and `profile.h` that every HTM-elided lock uses:

* the status codes `_xbegin` returns under RTM (x86-64) and TME (`tme.h`, AArch64), and
  the retry test `_XBEGIN_RESTART` of each build of `mutex.h`;
* `libtle_mutex_status_t`, the state of a handle;
* `libtle_htm_mutex_profile_t` and its update functions, with `uint64_t` arithmetic.
-/

namespace LibTle

/-! ## The HTM extension

`mutex.h` builds on Intel RTM (`immintrin.h`) on x86-64 and on Arm TME (`tme.h`) on
AArch64. The two differ in the value of `_XBEGIN_STARTED`, in the bits of the status a
failed `_xbegin` returns, in the mask of `_XBEGIN_RESTART` and in `LIBTLE_LOCK_IS_LOCKED`;
every HTM model takes the extension as a parameter. -/

/-- The HTM extension of a build: RTM on x86-64, TME on AArch64. -/
inductive HtmIsa
  | rtm
  | tme
  deriving DecidableEq, Repr

/-- `_XBEGIN_STARTED`: `~0u` under RTM, `0` under TME. -/
def xbeginStarted : HtmIsa → Nat
  | .rtm => 0xffffffff
  | .tme => 0

def xabortExplicit : HtmIsa → Nat
  | .rtm => 1 <<< 0
  | .tme => 1 <<< 16

def xabortRetry : HtmIsa → Nat
  | .rtm => 1 <<< 1
  | .tme => 1 <<< 15

def xabortConflict : HtmIsa → Nat
  | .rtm => 1 <<< 2
  | .tme => 1 <<< 17

def xabortCapacity : HtmIsa → Nat
  | .rtm => 1 <<< 3
  | .tme => 1 <<< 20

def xabortNested : HtmIsa → Nat
  | .rtm => 1 <<< 5
  | .tme => 1 <<< 21

/-- The mask of `_XBEGIN_RESTART(s)`: an explicit, retry or conflict abort under RTM, only
the retry bit under TME. -/
def xbeginRestartMask : HtmIsa → Nat
  | .rtm => xabortExplicit .rtm ||| xabortRetry .rtm ||| xabortConflict .rtm
  | .tme => xabortRetry .tme

/-- `_XBEGIN_RESTART(s)`. -/
def xbeginRestart (isa : HtmIsa) (s : Nat) : Bool := s &&& xbeginRestartMask isa != 0

/-- `LIBTLE_LOCK_IS_LOCKED`, the code of the explicit abort. -/
def lockIsLockedCode : HtmIsa → Nat
  | .rtm => 255
  | .tme => 65535

/-- The status the outermost `_xbegin` returns after `_xabort(code)` at nesting depth `d`:
under RTM (`xabort $code`) the explicit bit, the code in bits 24 to 31, and the nested bit
when the abort is inside a nested transaction; under TME (`tcancel #code`) the explicit bit
and the code, whose bit 15 is the retry bit. -/
def xabortStatus : HtmIsa → Nat → Nat → Nat
  | .rtm, code, d =>
    xabortExplicit .rtm ||| code <<< 24 ||| if 1 < d then xabortNested .rtm else 0
  | .tme, code, _ => xabortExplicit .tme ||| code

theorem xabortCapacity_ne_xbeginStarted (isa : HtmIsa) : xabortCapacity isa ≠ xbeginStarted isa := by
  cases isa <;> decide

/-- The lock-held abort is not `_XBEGIN_STARTED`, and `_XBEGIN_RESTART` retries it under
both extensions, at any depth: RTM through its explicit bit, TME through the retry bit of
`65535`. -/
theorem xabortStatus_lockIsLocked (isa : HtmIsa) (d : Nat) :
    xabortStatus isa (lockIsLockedCode isa) d ≠ xbeginStarted isa ∧
      xbeginRestart isa (xabortStatus isa (lockIsLockedCode isa) d) = true := by
  cases isa
  · by_cases hd : 1 < d <;> simp only [xabortStatus, hd, if_true, if_false] <;> decide
  · simp only [xabortStatus]
    decide

/-! ## Handle states -/

/-- `enum libtle_mutex_status_t`. -/
inductive MutexStatus
  | unknown
  | unlocked
  | lockedUnique
  | lockedShared
  | elided
  deriving DecidableEq, Repr

/-- The numeric value of each enumerator. -/
def MutexStatus.toNat : MutexStatus → Nat
  | unknown => 0
  | unlocked => 1
  | lockedUnique => 2
  | lockedShared => 3
  | elided => 4

/-- The lock-entry assertion `st->status <= LIBTLE_MUTEX_STATUS_UNLOCKED`. -/
def MutexStatus.canLock (st : MutexStatus) : Bool := st.toNat ≤ MutexStatus.unlocked.toNat

theorem MutexStatus.canLock_iff {st : MutexStatus} :
    st.canLock = true ↔ st = .unknown ∨ st = .unlocked := by
  cases st <;> decide

/-! ## Profiles -/

/-- `a + b` on `uint64_t`. -/
def wrapAdd64 (a b : Nat) : Nat := (a + b) % 2 ^ 64

instance : Std.Associative wrapAdd64 :=
  ⟨fun a b c => by simp only [wrapAdd64, Nat.mod_add_mod, Nat.add_mod_mod, Nat.add_assoc]⟩

instance : Std.Commutative wrapAdd64 := ⟨fun a b => by simp only [wrapAdd64, Nat.add_comm]⟩

/-- `libtle_htm_mutex_profile_t`. -/
structure HtmMutexProfile where
  locksAcquired : Nat
  locksElided : Nat
  explicitAborts : Nat
  conflictAborts : Nat
  capacityAborts : Nat
  nestedAborts : Nat
  otherAborts : Nat
  deriving DecidableEq, Repr

namespace HtmMutexProfile

/-- `libtle_htm_mutex_profile_init`. -/
def init : HtmMutexProfile := ⟨0, 0, 0, 0, 0, 0, 0⟩

/-- `libtle_htm_mutex_profile_update_unlock`: one more fallback acquisition. -/
def updateUnlock (p : HtmMutexProfile) : HtmMutexProfile :=
  { p with locksAcquired := wrapAdd64 p.locksAcquired 1 }

/-- `libtle_htm_mutex_profile_update_commit`: one more elided section. -/
def updateCommit (p : HtmMutexProfile) : HtmMutexProfile :=
  { p with locksElided := wrapAdd64 p.locksElided 1 }

/-- `libtle_htm_mutex_profile_update_abort`: one abort, filed under the first of its
conflict, explicit, capacity and nested bits under the extension `isa`, or else under
"other". -/
def updateAbort (p : HtmMutexProfile) (isa : HtmIsa) (xstatus : Nat) : HtmMutexProfile :=
  if xstatus &&& xabortConflict isa != 0 then
    { p with conflictAborts := wrapAdd64 p.conflictAborts 1 }
  else if xstatus &&& xabortExplicit isa != 0 then
    { p with explicitAborts := wrapAdd64 p.explicitAborts 1 }
  else if xstatus &&& xabortCapacity isa != 0 then
    { p with capacityAborts := wrapAdd64 p.capacityAborts 1 }
  else if xstatus &&& xabortNested isa != 0 then
    { p with nestedAborts := wrapAdd64 p.nestedAborts 1 }
  else { p with otherAborts := wrapAdd64 p.otherAborts 1 }

/-! ## Consistency and accumulation -/

/-- The five abort counters summed in `uint64_t`, as
`libtle_htm_mutex_profile_internally_consistent` sums them. -/
def aborts (p : HtmMutexProfile) : Nat :=
  wrapAdd64 (wrapAdd64 (wrapAdd64 (wrapAdd64 p.explicitAborts p.conflictAborts)
    p.capacityAborts) p.nestedAborts) p.otherAborts

/-- `libtle_htm_mutex_profile_internally_consistent(p, sum)` for a `uint64_t` value `sum`:
the acquisitions and elisions add up to `sum`, and the fallback was taken at most as often
as a transaction aborted, or nothing aborted and nothing was elided. -/
def internallyConsistent (p : HtmMutexProfile) (sum : Nat) : Bool :=
  if wrapAdd64 p.locksAcquired p.locksElided != sum then false
  else decide (p.locksAcquired ≤ p.aborts) || (p.aborts == 0 && p.locksElided == 0)

/-- `libtle_htm_mutex_profile_accumulate(p, q)`, which the C++ wrapper's `operator+=` and
`operator+` call: `p` after adding `q` to it field by field. -/
def accumulate (p q : HtmMutexProfile) : HtmMutexProfile :=
  ⟨wrapAdd64 p.locksAcquired q.locksAcquired, wrapAdd64 p.locksElided q.locksElided,
    wrapAdd64 p.explicitAborts q.explicitAborts, wrapAdd64 p.conflictAborts q.conflictAborts,
    wrapAdd64 p.capacityAborts q.capacityAborts, wrapAdd64 p.nestedAborts q.nestedAborts,
    wrapAdd64 p.otherAborts q.otherAborts⟩

@[simp] theorem updateAbort_locksAcquired (p : HtmMutexProfile) (isa : HtmIsa) (x : Nat) :
    (p.updateAbort isa x).locksAcquired = p.locksAcquired := by
  unfold updateAbort; split_ifs <;> rfl

@[simp] theorem updateAbort_locksElided (p : HtmMutexProfile) (isa : HtmIsa) (x : Nat) :
    (p.updateAbort isa x).locksElided = p.locksElided := by
  unfold updateAbort; split_ifs <;> rfl

theorem internallyConsistent_iff {p : HtmMutexProfile} {sum : Nat} :
    p.internallyConsistent sum = true ↔ wrapAdd64 p.locksAcquired p.locksElided = sum ∧
      (p.locksAcquired ≤ p.aborts ∨ p.aborts = 0 ∧ p.locksElided = 0) := by
  unfold internallyConsistent
  split_ifs with h <;> simp_all

/-- Each `update_abort` adds exactly `1` to the abort total, in `uint64_t`. -/
@[simp] theorem aborts_updateAbort (p : HtmMutexProfile) (isa : HtmIsa) (x : Nat) :
    (p.updateAbort isa x).aborts = wrapAdd64 p.aborts 1 := by
  unfold updateAbort
  split_ifs <;> simp only [aborts] <;> ac_rfl

@[simp] theorem aborts_updateUnlock (p : HtmMutexProfile) : p.updateUnlock.aborts = p.aborts :=
  rfl

@[simp] theorem aborts_updateCommit (p : HtmMutexProfile) : p.updateCommit.aborts = p.aborts :=
  rfl

/-- The abort total of an accumulated profile is the sum of the two totals. -/
theorem aborts_accumulate (p q : HtmMutexProfile) :
    (accumulate p q).aborts = wrapAdd64 p.aborts q.aborts := by
  simp only [aborts, accumulate]
  ac_rfl

/-! ## Exact counts behind the counters -/

/-- `p` holds `acquired` fallback acquisitions, `elided` elided sections and `aborted`
aborts, each modulo `2^64`. -/
structure Counts (p : HtmMutexProfile) (acquired elided aborted : Nat) : Prop where
  acquired_eq : p.locksAcquired = acquired % 2 ^ 64
  elided_eq : p.locksElided = elided % 2 ^ 64
  aborts_eq : p.aborts = aborted % 2 ^ 64

theorem Counts.init : init.Counts 0 0 0 := ⟨rfl, rfl, rfl⟩

section Counts

variable {p : HtmMutexProfile} {a e n : Nat}

theorem Counts.updateAbort (h : p.Counts a e n) (isa : HtmIsa) (x : Nat) :
    (p.updateAbort isa x).Counts a e (n + 1) :=
  ⟨by simpa using h.acquired_eq, by simpa using h.elided_eq,
    by rw [aborts_updateAbort, h.aborts_eq, wrapAdd64, Nat.mod_add_mod]⟩

theorem Counts.updateUnlock (h : p.Counts a e n) : p.updateUnlock.Counts (a + 1) e n :=
  ⟨by rw [HtmMutexProfile.updateUnlock, wrapAdd64, h.acquired_eq, Nat.mod_add_mod], h.elided_eq,
    h.aborts_eq⟩

theorem Counts.updateCommit (h : p.Counts a e n) : p.updateCommit.Counts a (e + 1) n :=
  ⟨h.acquired_eq, by rw [HtmMutexProfile.updateCommit, wrapAdd64, h.elided_eq, Nat.mod_add_mod],
    h.aborts_eq⟩

/-- Counts below `2^64` in which every acquisition is paid for by an abort make a consistent
profile. -/
theorem Counts.internallyConsistent (h : p.Counts a e n) (hle : a ≤ n) (hn : n < 2 ^ 64)
    (hk : a + e < 2 ^ 64) : p.internallyConsistent (a + e) = true := by
  rw [internallyConsistent_iff, h.acquired_eq, h.elided_eq, h.aborts_eq,
    Nat.mod_eq_of_lt (by omega : a < 2 ^ 64), Nat.mod_eq_of_lt (by omega : e < 2 ^ 64),
    Nat.mod_eq_of_lt hn]
  exact ⟨Nat.mod_eq_of_lt hk, .inl hle⟩

end Counts

/-- Accumulation does not keep consistency: `(1, 0, 0, 0, 0, 0, 0)` is consistent with `1`
through the second disjunct (no abort, no elision), `(0, 1, 0, 0, 0, 0, 0)` with `1`
through the first, and their sum, one acquisition and one elision with no abort, is not
consistent with `2`. -/
theorem accumulate_loses_consistency :
    internallyConsistent ⟨1, 0, 0, 0, 0, 0, 0⟩ 1 = true ∧
    internallyConsistent ⟨0, 1, 0, 0, 0, 0, 0⟩ 1 = true ∧
    (accumulate ⟨1, 0, 0, 0, 0, 0, 0⟩ ⟨0, 1, 0, 0, 0, 0, 0⟩).internallyConsistent
      (wrapAdd64 1 1) = false := by
  decide

/-- Accumulation keeps consistency when both profiles are consistent through the same
disjunct: each took the fallback at most as often as it aborted, and the two abort totals
add up without wrapping; or neither aborted nor elided. -/
theorem accumulate_internally_consistent {p q : HtmMutexProfile} {a b : Nat}
    (hp : p.internallyConsistent a = true) (hq : q.internallyConsistent b = true)
    (h : p.locksAcquired ≤ p.aborts ∧ q.locksAcquired ≤ q.aborts ∧ p.aborts + q.aborts < 2 ^ 64 ∨
      p.aborts = 0 ∧ p.locksElided = 0 ∧ q.aborts = 0 ∧ q.locksElided = 0) :
    (accumulate p q).internallyConsistent (wrapAdd64 a b) = true := by
  rw [internallyConsistent_iff] at hp hq ⊢
  refine ⟨by rw [← hp.1, ← hq.1]; simp only [accumulate]; ac_rfl, ?_⟩
  rw [aborts_accumulate]
  rcases h with ⟨h1, h2, h3⟩ | ⟨h1, h2, h3, h4⟩
  · -- neither sum wraps past the abort total
    left
    calc (accumulate p q).locksAcquired ≤ p.locksAcquired + q.locksAcquired := Nat.mod_le _ _
      _ ≤ p.aborts + q.aborts := Nat.add_le_add h1 h2
      _ = wrapAdd64 p.aborts q.aborts := (Nat.mod_eq_of_lt h3).symm
  · right
    simp [accumulate, wrapAdd64, h1, h2, h3, h4]

theorem accumulate_internally_consistent_one_abort :
    internallyConsistent ⟨1, 0, 1, 0, 0, 0, 0⟩ 1 = true ∧
    internallyConsistent ⟨0, 1, 0, 0, 0, 0, 0⟩ 1 = true ∧
    aborts ⟨1, 0, 1, 0, 0, 0, 0⟩ + aborts ⟨0, 1, 0, 0, 0, 0, 0⟩ < 2 ^ 64 ∧
    (accumulate ⟨1, 0, 1, 0, 0, 0, 0⟩ ⟨0, 1, 0, 0, 0, 0, 0⟩).internallyConsistent
      (wrapAdd64 1 1) = true :=
  ⟨by decide, by decide, by decide, accumulate_internally_consistent (by decide) (by decide)
    (.inl ⟨by decide, by decide, by decide⟩)⟩

end HtmMutexProfile

end LibTle
