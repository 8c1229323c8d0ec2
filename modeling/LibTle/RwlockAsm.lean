import LibTle.Rwlock

/-!
# The hand-written lock loops

On x86-64 and AArch64 `rwlock.h` and `spinlock.h` do not compile their portable C11
loops: each lock operation is an inline `asm` block. This module gives the blocks an
instruction-level semantics, one atomic memory access per instruction, with the lock
word as the only memory and the other threads' stores as interference between
instructions.

* x86-64: `lock cmpxchg %2, %0` compares the word with `%eax`, which is none of the
  operands of `libtle_rwlock_write_lock`'s block. Only when the compiler puts the
  snapshot `%1` in `%eax` does the instruction compare with the snapshot.
* AArch64: `stlxr %w0, %w0, %1` in `libtle_rwlock_read_lock` and in the pending-bit
  store of `libtle_rwlock_write_lock` names one register as both the status and the
  data register, for which the architecture leaves the stored value UNKNOWN.
-/

namespace LibTle

/-! ## x86-64 -/

/-- The general-purpose registers an `"r"` operand may be given. -/
inductive X86Reg
  | rax | rbx | rcx | rdx | rsi | rdi | rbp
  | r8 | r9 | r10 | r11 | r12 | r13 | r14 | r15
  deriving DecidableEq, Repr

/-- The instructions of the x86-64 blocks; the memory operand is always the lock word. -/
inductive X86Insn
  /-- `mov $imm, %r` -/
  | movImm (imm : Nat) (r : X86Reg)
  /-- `mov %0, %r`: load the word -/
  | load (r : X86Reg)
  /-- `testl $imm, %r` -/
  | testl (imm : Nat) (r : X86Reg)
  /-- `testb $imm, %b r`: the low byte of `r` -/
  | testb (imm : Nat) (r : X86Reg)
  | je (target : Nat)
  | jne (target : Nat)
  | jmp (target : Nat)
  | pause
  /-- `lock ; orl $imm, %0` -/
  | lockOr (imm : Nat)
  /-- `lock ; cmpxchg %r, %0`: compares the word with `%eax` -/
  | lockCmpxchg (r : X86Reg)
  /-- `lock ; xadd %r, %0` -/
  | lockXadd (r : X86Reg)
  /-- `lock ; subl $imm, %0` -/
  | lockSub (imm : Nat)
  deriving Repr

/-- The registers and the zero flag of one thread, and its instruction index. -/
structure X86Cpu where
  pc : Nat
  reg : X86Reg → Nat
  zf : Bool

/-- Execute one instruction on the word `w`: the new word and the new state. -/
def X86Insn.exec (w : Nat) (c : X86Cpu) : X86Insn → Nat × X86Cpu
  | .movImm imm r => (w, { c with pc := c.pc + 1, reg := Function.update c.reg r imm })
  | .load r => (w, { c with pc := c.pc + 1, reg := Function.update c.reg r w })
  | .testl imm r => (w, { c with pc := c.pc + 1, zf := decide (c.reg r &&& imm = 0) })
  | .testb imm r => (w, { c with pc := c.pc + 1, zf := decide (c.reg r % 256 &&& imm = 0) })
  | .je l => (w, { c with pc := if c.zf then l else c.pc + 1 })
  | .jne l => (w, { c with pc := if c.zf then c.pc + 1 else l })
  | .jmp l => (w, { c with pc := l })
  | .pause => (w, { c with pc := c.pc + 1 })
  | .lockOr imm => (w ||| imm, { c with pc := c.pc + 1, zf := decide (w ||| imm = 0) })
  | .lockCmpxchg r =>
    if c.reg .rax = w then (c.reg r, { c with pc := c.pc + 1, zf := true })
    else (w, { c with pc := c.pc + 1, reg := Function.update c.reg .rax w, zf := false })
  | .lockXadd r =>
    let w' := wrapAdd w (c.reg r)
    (w', { pc := c.pc + 1, reg := Function.update c.reg r w, zf := decide (w' = 0) })
  | .lockSub imm => (wrapSub w imm, { c with pc := c.pc + 1, zf := decide (wrapSub w imm = 0) })

/-- `libtle_rwlock_write_lock` on x86-64, with `%1` (`tmp`) and `%2` (`one`) bound to the
registers `tmp` and `one`. The block ends at index `11`. -/
def x86WriteLockAsm (tmp one : X86Reg) : List X86Insn :=
  [ .movImm 1 one,             -- mov $0x1, %2
    .load tmp,                 -- 1: mov %0, %1
    .testl 0xfffffffd tmp,     -- testl $0xfffffffd, %1
    .je 9,                     -- je 3f
    .testb 2 tmp,              -- testb $0x2, %b1
    .jne 7,                    -- jne 2f
    .lockOr 2,                 -- lock ; orl $0x2, %0
    .pause,                    -- 2: pause
    .jmp 1,                    -- jmp 1b
    .lockCmpxchg one,          -- 3: lock ; cmpxchg %2, %0
    .jne 7 ]                   -- jne 2b

/-- `libtle_rwlock_read_lock` on x86-64, with `%1` bound to `tmp`. The block ends at
index `10`. -/
def x86ReadLockAsm (tmp : X86Reg) : List X86Insn :=
  [ .load tmp,                 -- 1: mov %0, %1
    .testb 3 tmp,              -- testb $0x3, %b1
    .jne 8,                    -- jne 2f
    .movImm 4 tmp,             -- mov $0x4, %1
    .lockXadd tmp,             -- lock ; xadd %1, %0
    .testb 1 tmp,              -- testb $0x1, %b1
    .je 10,                    -- je 3f
    .lockSub 4,                -- lock ; subl $0x4, %0
    .pause,                    -- 2: pause
    .jmp 0 ]                   -- jmp 1b

/-- One instruction of `prog`; a thread past the end has left the block. -/
def x86Step (prog : List X86Insn) (w : Nat) (c : X86Cpu) : Nat × X86Cpu :=
  match prog[c.pc]? with
  | some i => i.exec w c
  | none => (w, c)

/-- Run a thread's instructions (`none`) interleaved with stores of other threads
(`some v`). -/
def x86Run (prog : List X86Insn) : List (Option Nat) → Nat × X86Cpu → Nat × X86Cpu
  | [], s => s
  | none :: l, (w, c) => x86Run prog l (x86Step prog w c)
  | some v :: l, (_, c) => x86Run prog l (v, c)

/-- A thread entering a block, with every register at `0`. -/
def x86Entry : X86Cpu := ⟨0, fun _ => 0, false⟩

/-- With `%2` in `%eax` and `%1` in `%ecx`, a thread loads the snapshot `0` and takes the
branch to `lock cmpxchg`; another writer then takes the lock (the word becomes `1`).
`lock cmpxchg` compares the word with `%eax`, which holds `1`, stores `%2 = 1` and
falls through: the block returns although the word is not the snapshot, while the
portable compare-and-swap from the snapshot `0` fails on the word `1` and loops. -/
theorem x86_write_lock_cmpxchg_ignores_snapshot :
    ∃ c : X86Cpu, x86Run (x86WriteLockAsm .rcx .rax) [none, none, none, none, some 1, none, none]
        (0, x86Entry) = (1, c) ∧ c.pc = (x86WriteLockAsm .rcx .rax).length ∧ c.reg .rcx = 0 ∧
      rwlockLockStep 1 (.writeCas 0) = (1, .writeLoad) :=
  ⟨_, rfl, by decide, by decide, by decide⟩

/-! ## AArch64 -/

/-- The two registers of the AArch64 blocks: `%w0` (`tmp`, an early-clobber output) and
the input that holds the constant `1` (`%w2` or `%w3`), which is another register. -/
inductive A64Reg
  | tmp
  | val
  deriving DecidableEq, Repr

/-- The instructions of the AArch64 blocks; the memory operand is always the lock word. -/
inductive A64Insn
  | sevl
  | prfm
  | wfe
  /-- `ldaxr %w0, %1`: load the word and open the exclusive monitor -/
  | ldaxr
  /-- `tst %w0, #imm` -/
  | tst (imm : Nat)
  | bne (target : Nat)
  | beq (target : Nat)
  | b (target : Nat)
  /-- `tbnz %w0, #bit, target` -/
  | tbnz (bit target : Nat)
  /-- `cbnz %w0, target` -/
  | cbnz (target : Nat)
  /-- `add %w0, %w0, #imm` -/
  | add (imm : Nat)
  /-- `orr %w0, %w0, #imm` -/
  | orr (imm : Nat)
  /-- `stxr`/`stlxr %w s, %w t, %1`: status register `s`, data register `t` -/
  | stxr (s t : A64Reg)
  deriving Repr

/-- One thread: its instruction index, registers, `Z` flag and exclusive monitor. -/
structure A64Cpu where
  pc : Nat
  tmp : Nat
  val : Nat
  z : Bool
  mon : Bool

def A64Cpu.get (c : A64Cpu) : A64Reg → Nat
  | .tmp => c.tmp
  | .val => c.val

def A64Cpu.set (c : A64Cpu) : A64Reg → Nat → A64Cpu
  | .tmp, v => { c with tmp := v }
  | .val, v => { c with val := v }

/-- Execute one instruction on the word `w`. `u` is the value an UNKNOWN store writes: a
store-exclusive whose status and data registers are one register stores an UNKNOWN
value. A store-exclusive stores only while the monitor is open, and then reports `0`. -/
def A64Insn.exec (w u : Nat) (c : A64Cpu) : A64Insn → Nat × A64Cpu
  | .sevl | .prfm | .wfe => (w, { c with pc := c.pc + 1 })
  | .ldaxr => (w, { c with pc := c.pc + 1, tmp := w, mon := true })
  | .tst imm => (w, { c with pc := c.pc + 1, z := decide (c.tmp &&& imm = 0) })
  | .bne l => (w, { c with pc := if c.z then c.pc + 1 else l })
  | .beq l => (w, { c with pc := if c.z then l else c.pc + 1 })
  | .b l => (w, { c with pc := l })
  | .tbnz bit l => (w, { c with pc := if c.tmp.testBit bit then l else c.pc + 1 })
  | .cbnz l => (w, { c with pc := if c.tmp = 0 then c.pc + 1 else l })
  | .add imm => (w, { c with pc := c.pc + 1, tmp := wrapAdd c.tmp imm })
  | .orr imm => (w, { c with pc := c.pc + 1, tmp := c.tmp ||| imm })
  | .stxr s t =>
    if c.mon then
      ((if s = t then u else c.get t), { c.set s 0 with pc := c.pc + 1, mon := false })
    else (w, { c.set s 1 with pc := c.pc + 1 })

/-- `libtle_rwlock_read_lock` on AArch64; the block ends at index `9`. -/
def a64ReadLockAsm : List A64Insn :=
  [ .sevl,                     -- sevl
    .prfm,                     -- prfm pstl1strm, %1
    .wfe,                      -- 1: wfe
    .ldaxr,                    -- 2: ldaxr %w0, %1
    .tst 3,                    -- tst %w0, #0x3
    .bne 2,                    -- b.ne 1b
    .add 4,                    -- add %w0, %w0, #0x4
    .stxr .tmp .tmp,           -- stlxr %w0, %w0, %1
    .cbnz 3 ]                  -- cbnz %w0, 2b

/-- `libtle_rwlock_write_lock` on AArch64; the block ends at index `12`. -/
def a64WriteLockAsm : List A64Insn :=
  [ .sevl,                     -- sevl
    .prfm,                     -- prfm pstl1strm, %1
    .wfe,                      -- 1: wfe
    .ldaxr,                    -- 2: ldaxr %w0, %1
    .tst 0xfffffffd,           -- tst %w0, #0xfffffffd
    .beq 10,                   -- b.eq 3f
    .tbnz 1 2,                 -- tbnz %w0, #1, 1b
    .orr 2,                    -- orr %w0, %w0, #0x2
    .stxr .tmp .tmp,           -- stlxr %w0, %w0, %1
    .b 3,                      -- b 2b
    .stxr .tmp .val,           -- 3: stlxr %w0, %w2, %1
    .cbnz 3 ]                  -- cbnz %w0, 2b

/-- `libtle_spinlock_lock` on AArch64; the block ends at index `7`. -/
def a64SpinlockLockAsm : List A64Insn :=
  [ .sevl,                     -- sevl
    .prfm,                     -- prfm pstl1strm, %1
    .wfe,                      -- 1: wfe
    .ldaxr,                    -- 2: ldaxr %w0, %2
    .cbnz 2,                   -- cbnz %w0, 1b
    .stxr .tmp .val,           -- stxr %w0, %w3, %1
    .cbnz 3 ]                  -- cbnz %w0, 2b

/-- A thread entering a block: `val` holds the constant `1`, the monitor is closed. -/
def a64Entry : A64Cpu := ⟨0, 0, 1, false, false⟩

/-- An event of a schedule: an instruction of the thread, with the value an UNKNOWN store
would write, or a store of another thread, which closes the monitor. -/
inductive A64Event
  | insn (u : Nat)
  | store (v : Nat)

def a64Step (prog : List A64Insn) (w u : Nat) (c : A64Cpu) : Nat × A64Cpu :=
  match prog[c.pc]? with
  | some i => i.exec w u c
  | none => (w, c)

def a64Run (prog : List A64Insn) : List A64Event → Nat × A64Cpu → Nat × A64Cpu
  | [], s => s
  | .insn u :: l, (w, c) => a64Run prog l (a64Step prog w u c)
  | .store v :: l, (_, c) => a64Run prog l (v, { c with mon := false })

/-- A second reader enters while one reader holds the lock (word `4`): `ldaxr` loads `4`,
bits 0 and 1 are clear, `add` makes `8`, and `stlxr %w0, %w0` stores an UNKNOWN value,
here `0`, and reports success: the block returns with the word at `0`, where the
portable `fetch_add(&lock, 4u)` makes it `8`. -/
theorem a64_read_lock_stores_unknown :
    ∃ c : A64Cpu, a64Run a64ReadLockAsm (List.replicate 9 (.insn 0)) (4, a64Entry) = (0, c) ∧
      c.pc = a64ReadLockAsm.length ∧ rwlockLockStep 4 .readAdd = (8, .reading) :=
  ⟨_, rfl, by decide, by decide⟩

end LibTle
