import Mathlib.Algebra.Order.BigOperators.Group.Finset
import Mathlib.Data.Fintype.Fin

/-!
# Machine words and per-thread counting

Support shared by every lock model of the library:

* the 32-bit unsigned arithmetic of `atomic_uint` (`wrapAdd`, `wrapSub`) and the bit
  tests the rwlock code makes on its word, each reduced to `/ 4`, `/ 2 % 2` and `% 2`
  so that `omega` can use it;
* `count p f`, the number of threads whose local state satisfies `p`, and how a sum over
  the threads changes when one thread moves (`sum_add_of_eq_off`);
* `ReadLog`, the record a thread keeps of its reader sections on a shared counter.
-/

namespace LibTle

/-! ## 32-bit unsigned words -/

/-- `a + b` on `unsigned`, which wraps modulo `2^32`. -/
def wrapAdd (a b : Nat) : Nat := (a + b) % 2 ^ 32

/-- `a - b` on `unsigned` for `b ≤ 2^32`, which wraps modulo `2^32`. -/
def wrapSub (a b : Nat) : Nat := (a + (2 ^ 32 - b)) % 2 ^ 32

theorem wrapAdd_lt (a b : Nat) : wrapAdd a b < 2 ^ 32 := Nat.mod_lt _ (Nat.two_pow_pos 32)

theorem wrapSub_lt (a b : Nat) : wrapSub a b < 2 ^ 32 := Nat.mod_lt _ (Nat.two_pow_pos 32)

/-- Every word splits into its reader field `x / 4` and its two low bits. -/
theorem word_split (x : Nat) : x = 4 * (x / 4) + 2 * (x / 2 % 2) + x % 2 := by omega

private theorem div_four_eq (x : Nat) : x / 4 = x / 2 / 2 := by omega

theorem and_div_four (a b : Nat) : (a &&& b) / 4 = a / 4 &&& b / 4 := by
  rw [div_four_eq, div_four_eq a, div_four_eq b, Nat.and_div_two, Nat.and_div_two]

theorem or_div_four (a b : Nat) : (a ||| b) / 4 = a / 4 ||| b / 4 := by
  rw [div_four_eq, div_four_eq a, div_four_eq b, Nat.or_div_two, Nat.or_div_two]

/-- The reader field of a word below `2^32` fits in 30 bits. -/
theorem div_four_and_mask (h : x < 2 ^ 32) : x / 4 &&& 0x3fffffff = x / 4 := by
  have : (0x3fffffff : Nat) = 2 ^ 30 - 1 := rfl
  rw [this, Nat.and_pow_two_sub_one_eq_mod, Nat.mod_eq_of_lt (by omega)]

/-- `s & ~2u`: the word without its pending-writer bit. -/
theorem and_not_pending (h : x < 2 ^ 32) :
    x &&& 0xfffffffd = 4 * (x / 4) + x % 2 := by
  have hq : (x &&& 0xfffffffd) / 4 = x / 4 := by
    rw [and_div_four]; exact div_four_and_mask h
  have h1 : (x &&& 0xfffffffd) / 2 % 2 = 0 := by
    rw [Nat.and_div_two]
    have := (Nat.and_mod_two_eq_one (a := x / 2) (b := 0xfffffffd / 2)).not
    omega
  have h0 : (x &&& 0xfffffffd) % 2 = x % 2 := by
    have := Nat.and_mod_two_eq_one (a := x) (b := 0xfffffffd)
    omega
  rw [word_split (x &&& 0xfffffffd), hq, h1, h0]
  omega

/-- `s & ~2u` is zero exactly on the words `0` and `2`. -/
theorem and_not_pending_eq_zero (h : x < 2 ^ 32) :
    x &&& 0xfffffffd = 0 ↔ x = 0 ∨ x = 2 := by
  rw [and_not_pending h]; omega

/-- `s & ~3u`: the word with both writer bits cleared. -/
theorem and_not_three (h : x < 2 ^ 32) : x &&& 0xfffffffc = 4 * (x / 4) := by
  have hq : (x &&& 0xfffffffc) / 4 = x / 4 := by
    rw [and_div_four]; exact div_four_and_mask h
  have h1 : (x &&& 0xfffffffc) / 2 % 2 = 0 := by
    rw [Nat.and_div_two]
    have := (Nat.and_mod_two_eq_one (a := x / 2) (b := 0xfffffffc / 2)).not
    omega
  have h0 : (x &&& 0xfffffffc) % 2 = 0 := by
    have := (Nat.and_mod_two_eq_one (a := x) (b := 0xfffffffc)).not
    omega
  rw [word_split (x &&& 0xfffffffc), hq, h1, h0]; omega

/-- `s | 2u`: sets the pending-writer bit and keeps the rest. -/
theorem or_two (x : Nat) : x ||| 2 = 4 * (x / 4) + 2 + x % 2 := by
  have hq : (x ||| 2) / 4 = x / 4 := by
    rw [or_div_four]; exact Nat.or_zero _
  have h1 : (x ||| 2) / 2 % 2 = 1 := by
    rw [Nat.or_div_two]
    exact (Nat.or_mod_two_eq_one (a := x / 2) (b := 1)).2 (Or.inr rfl)
  have h0 : (x ||| 2) % 2 = x % 2 := by
    have := Nat.or_mod_two_eq_one (a := x) (b := 2)
    omega
  rw [word_split (x ||| 2), hq, h1, h0]

/-- `s & 3u`: the two writer bits. -/
theorem and_three (x : Nat) : x &&& 3 = x % 4 :=
  Nat.and_pow_two_sub_one_eq_mod x 2

/-- `s & 2u`: the pending-writer bit. -/
theorem and_two (x : Nat) : x &&& 2 = 2 * (x / 2 % 2) := by
  have hq : (x &&& 2) / 4 = 0 := by
    rw [and_div_four]; exact Nat.and_zero _
  have h1 : (x &&& 2) / 2 % 2 = x / 2 % 2 := by
    rw [Nat.and_div_two]
    have := Nat.and_mod_two_eq_one (a := x / 2) (b := 2 / 2)
    omega
  have h0 : (x &&& 2) % 2 = 0 := by
    have := (Nat.and_mod_two_eq_one (a := x) (b := 2)).not
    omega
  rw [word_split (x &&& 2), hq, h1, h0]; omega

/-! ## Counting threads -/

section Count

variable {N : Nat} {α : Type*}

/-- The number of threads whose local state satisfies `p`. -/
def count (p : α → Bool) (f : Fin N → α) : Nat := ∑ t, (p (f t)).toNat

/-- Changing the summand at one thread `t` only: the sum moves by the change at `t`. -/
theorem sum_add_of_eq_off {f g : Fin N → Nat} (t : Fin N) (h : ∀ u, u ≠ t → g u = f u) :
    ∑ u, g u + f t = ∑ u, f u + g t := by
  have hs : ∑ u ∈ Finset.univ.erase t, g u = ∑ u ∈ Finset.univ.erase t, f u :=
    Finset.sum_congr rfl fun u hu => h u (Finset.ne_of_mem_erase hu)
  rw [← Finset.add_sum_erase _ g (Finset.mem_univ t),
    ← Finset.add_sum_erase _ f (Finset.mem_univ t), hs]
  omega

/-- `count` after one thread moves, with every other thread's membership unchanged. -/
theorem count_add_of_eq_off {p : α → Bool} {f g : Fin N → α} (t : Fin N)
    (h : ∀ u, u ≠ t → p (g u) = p (f u)) :
    count p g + (p (f t)).toNat = count p f + (p (g t)).toNat :=
  sum_add_of_eq_off t fun u hu => congrArg Bool.toNat (h u hu)

/-- `count` after thread `t` moves to local state `a`. -/
theorem count_update (p : α → Bool) (f : Fin N → α) (t : Fin N) (a : α) :
    count p (Function.update f t a) + (p (f t)).toNat = count p f + (p a).toNat := by
  have := count_add_of_eq_off (p := p) (f := f) (g := Function.update f t a) t
    fun u hu => by rw [Function.update_noteq hu]
  rwa [Function.update_same] at this

theorem count_le (p : α → Bool) (f : Fin N → α) : count p f ≤ N := by
  calc count p f ≤ ∑ _t : Fin N, 1 :=
        Finset.sum_le_sum fun t _ => Bool.toNat_le _
    _ = N := by simp

/-- A thread outside `p` leaves room: at most `N - 1` threads satisfy `p`. -/
theorem count_lt {p : α → Bool} {f : Fin N → α} (t : Fin N) (ht : p (f t) = false) :
    count p f < N := by
  have h := sum_add_of_eq_off (f := fun u => (p (f u)).toNat)
    (g := fun u => if u = t then 1 else (p (f u)).toNat) t fun u hu => if_neg hu
  have hle : ∑ u, (if u = t then 1 else (p (f u)).toNat) ≤ N :=
    calc _ ≤ ∑ _u : Fin N, 1 := Finset.sum_le_sum fun u _ => by
          split
          · exact le_rfl
          · exact Bool.toNat_le _
      _ = N := by simp
  simp only [ht, Bool.toNat_false, if_pos] at h
  unfold count
  omega

theorem count_eq_zero_iff {p : α → Bool} {f : Fin N → α} :
    count p f = 0 ↔ ∀ t, p (f t) = false := by
  simp [count, Finset.sum_eq_zero_iff]

theorem count_pos_iff {p : α → Bool} {f : Fin N → α} :
    0 < count p f ↔ ∃ t, p (f t) = true := by
  rw [Nat.pos_iff_ne_zero, Ne, count_eq_zero_iff]
  simp

theorem count_eq_card (p : α → Bool) (f : Fin N → α) :
    count p f = (Finset.univ.filter fun t => p (f t) = true).card := by
  rw [Finset.card_filter, count]
  exact Finset.sum_congr rfl fun t _ => by cases p (f t) <;> rfl

/-- Two threads satisfying `p` are one thread when at most one does. -/
theorem eq_of_count_le_one {p : α → Bool} {f : Fin N → α} (h : count p f ≤ 1) {t u : Fin N}
    (ht : p (f t) = true) (hu : p (f u) = true) : t = u := by
  by_contra hne
  have : 1 < count p f := by
    rw [count_eq_card]
    exact Finset.one_lt_card.2 ⟨t, by simpa using ht, u, by simpa using hu, hne⟩
  omega

end Count

/-! ## Reader sections -/

/-- `c` when the latest recorded reader section ended, `0` before any. -/
def lastHi : List (Nat × Nat × Nat) → Nat
  | [] => 0
  | r :: _ => r.2.2

/-- A thread's records `(lo, r, hi)` of its reader sections, latest first, when the counter
is `c`: each read a value between `c` at its start and `c` at its end, ended before the
next one started, and the latest has ended by now. -/
def ReadLog : List (Nat × Nat × Nat) → Nat → Prop
  | [], _ => True
  | (lo, r, hi) :: rest, c => lo ≤ r ∧ r ≤ hi ∧ hi ≤ c ∧ ReadLog rest lo

namespace ReadLog

theorem nil (c : Nat) : ReadLog [] c := trivial

theorem last :
    ∀ {reads : List (Nat × Nat × Nat)} {c : Nat}, ReadLog reads c → lastHi reads ≤ c
  | [], _, _ => Nat.zero_le _
  | (_, _, _) :: _, _, h => h.2.2.1

/-- Only the latest record's end is bounded by `c`. -/
theorem of_lastHi_le : ∀ {reads : List (Nat × Nat × Nat)} {c c' : Nat}, ReadLog reads c →
    lastHi reads ≤ c' → ReadLog reads c'
  | [], _, _, _, _ => trivial
  | (_, _, _) :: _, _, _, h, hc => ⟨h.1, h.2.1, hc, h.2.2.2⟩

theorem mono {reads : List (Nat × Nat × Nat)} {c c' : Nat} (h : ReadLog reads c)
    (hc : c ≤ c') : ReadLog reads c' :=
  h.of_lastHi_le (h.last.trans hc)

/-- A section that started after the latest record and read `v` in range is recorded. -/
theorem record {reads : List (Nat × Nat × Nat)} {c lo v : Nat} (h : ReadLog reads c)
    (hlo : lastHi reads ≤ lo) (hv : lo ≤ v) (hvc : v ≤ c) : ReadLog ((lo, v, c) :: reads) c :=
  ⟨hv, hvc, le_rfl, h.of_lastHi_le hlo⟩

/-- Every record read in its own range and ended by now. -/
theorem mem : ∀ {reads : List (Nat × Nat × Nat)} {c : Nat}, ReadLog reads c →
    ∀ x ∈ reads, x.1 ≤ x.2.1 ∧ x.2.1 ≤ x.2.2 ∧ x.2.2 ≤ c
  | [], _, _, _, hx => absurd hx (List.not_mem_nil _)
  | (lo, r, hi) :: _, _, ⟨h1, h2, h3, h4⟩, x, hx => by
    rcases List.mem_cons.1 hx with rfl | hx
    · exact ⟨h1, h2, h3⟩
    · have := mem h4 x hx
      exact ⟨this.1, this.2.1, by omega⟩

/-- The values a thread reads never decrease: each is at least every one read before. -/
theorem reads_antitone : ∀ {reads : List (Nat × Nat × Nat)} {c : Nat}, ReadLog reads c →
    (reads.map fun x => x.2.1).Pairwise (· ≥ ·)
  | [], _, _ => List.Pairwise.nil
  | (_, _, _) :: _, _, ⟨h1, _, _, h4⟩ => by
    refine List.Pairwise.cons (fun y hy => ?_) (reads_antitone h4)
    obtain ⟨x, hx, rfl⟩ := List.mem_map.1 hy
    have := mem h4 x hx
    dsimp only
    omega

end ReadLog

/-- A thread's reader sections when the counter is `c`: the log of the closed ones, and the
open one (`inReader`), which started at `lo`, after the latest record, and whose load `v`,
once done (`loaded`), is in range. -/
structure ReadsOk (reads : List (Nat × Nat × Nat)) (lo v : Nat) (inReader loaded : Bool)
    (c : Nat) : Prop where
  log : ReadLog reads c
  opened : inReader = true → lastHi reads ≤ lo ∧ lo ≤ c
  loaded : loaded = true → lo ≤ v ∧ v ≤ c

namespace ReadsOk

variable {reads : List (Nat × Nat × Nat)} {lo v v' : Nat} {i i' l l' : Bool} {c : Nat}

theorem mono {c' : Nat} (h : ReadsOk reads lo v i l c) (hc : c ≤ c') :
    ReadsOk reads lo v i l c' :=
  ⟨h.log.mono hc, fun hr => ⟨(h.opened hr).1, le_trans (h.opened hr).2 hc⟩,
    fun hl => ⟨(h.loaded hl).1, le_trans (h.loaded hl).2 hc⟩⟩

/-- A section opens at the current value of the counter. -/
theorem start (h : ReadsOk reads lo v i l c) (v' : Nat) : ReadsOk reads c v' true false c :=
  ⟨h.log, fun _ => ⟨h.log.last, le_rfl⟩, by simp⟩

/-- A step inside the open section, or out of every section, that loads in range. -/
theorem of_open (h : ReadsOk reads lo v i l c) (hi : i' = true → i = true)
    (hl : l' = true → lo ≤ v' ∧ v' ≤ c) : ReadsOk reads lo v' i' l' c :=
  ⟨h.log, fun hi' => h.opened (hi hi'), hl⟩

/-- The end of the open section records its load. -/
theorem record (h : ReadsOk reads lo v true true c) (lo' v' : Nat) :
    ReadsOk ((lo, v, c) :: reads) lo' v' false false c :=
  ⟨h.log.record (h.opened rfl).1 (h.loaded rfl).1 (h.loaded rfl).2, by simp, by simp⟩

end ReadsOk

end LibTle
