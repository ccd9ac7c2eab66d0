import Linux095.X86.Dwords

/-!
# `Kernel.Ptrace` — the registers of a traced task (`kernel/ptrace.c`)

The registers that a task had in user mode are on its kernel stack, in the 17 words below `esp0`. They are read as
words, and written through a parameter that is an `unsigned short`.

* `getStackLong`, `putStackLong`, `ptrace`, `sysPtrace` — the source's functions;
* `reg` — a saved register; `reg_putStackLong` — **what `put_stack_long` does to all of them**;
* `Meets` — **what the requests for registers are for**;
* `ptrace_iff` — **when they do it**.

What the other requests do to the memory of the child is a parameter.
-/

namespace Linux095
namespace Kernel
namespace Ptrace

open X86 (Addr Mem)

/-! ## The source's functions -/

def NR_TASKS : Nat := 64
def ESRCH : Int := 3
def EIO : Int := 5
def TASK_STOPPED : BitVec 32 := 4
def PF_PTRACED : BitVec 32 := 0x10
def NSIG : Int := 32
def SIGKILL : Nat := 9
def FLAG_MASK : BitVec 32 := 0xdd9
def TRAP_FLAG : BitVec 32 := 0x100
def MAGICNUMBER : BitVec 32 := 68
def ORIG_EAX : BitVec 32 := 11
def EFL : BitVec 32 := 14

/-- What the calls use of `struct task_struct`. -/
structure Task where
  pid : BitVec 32
  pPptr : Option Nat
  flags : BitVec 32
  state : BitVec 32
  signal : BitVec 32
  esp0 : Addr

/-- The tasks, the memory their kernel stacks are in, and what the current one sees through `fs`. -/
structure State where
  task : Nat → Option Task
  mem : Mem
  user : Mem

namespace State

def setTask (s : State) (i : Nat) (t : Task) : State := { s with task := fun x => if x = i then some t else s.task x }

def setMem (s : State) (m : Mem) : State := { s with mem := m }

def setUser (s : State) (m : Mem) : State := { s with user := m }

end State

/-- `get_task`. -/
def getTask (pid : BitVec 32) (s : State) : Option Nat :=
  (List.range NR_TASKS).find? fun i => (s.task i).any fun t => t.pid == pid

/-- `get_stack_long`. -/
def getStackLong (t : Task) (offset : BitVec 32) (s : State) : BitVec 32 := s.mem.read32 (t.esp0 + offset)

/-- `put_stack_long`: `data` is an `unsigned short`. -/
def putStackLong (t : Task) (offset : BitVec 32) (data : BitVec 16) (s : State) : State :=
  s.setMem (s.mem.write32 (t.esp0 + offset) (data.setWidth 32))

/-- A word of the callers' as the parameter of `put_stack_long`. -/
def ushort (x : BitVec 32) : BitVec 16 := x.setWidth 16

/-- "if (data > 0 && data <= NSIG) child->signal = 1<<(data-1)", with the largest number given. -/
def signalOf (data : BitVec 32) (max : Int) : BitVec 32 :=
  if 0 < data.toInt ∧ data.toInt ≤ max then 1#32 <<< (data - 1).toNat else 0

section
-- `get_long` and `put_long` for a task, and what they return
variable (getLong : Nat → Addr → State → Int × BitVec 32 × State)
  (putLong : Nat → Addr → BitVec 32 → State → Int × State)

/-- `sys_ptrace`, when it has found the child. -/
def request (childno : Nat) (child : Task) (req addr data : BitVec 32) (s : State) : Int × State :=
  if req = 1 ∨ req = 2 then
    let (res, tmp, s) := getLong childno addr s
    if res < 0 then (res, s) else (0, s.setUser (s.user.write32 data tmp))
  else if req = 3 then
    let addr := addr.sshiftRight 2
    if addr.toInt < 0 ∨ 17 ≤ addr.toInt then (- EIO, s)
    else (0, s.setUser (s.user.write32 data (getStackLong child (4 * addr - MAGICNUMBER) s)))
  else if req = 4 ∨ req = 5 then
    let (res, s) := putLong childno addr data s
    if res ≠ 0 then (- EIO, s) else (0, s)
  else if req = 6 then
    let addr := addr.sshiftRight 2
    if addr.toInt < 0 ∨ 17 ≤ addr.toInt then (- EIO, s)
    else if addr = ORIG_EAX then (- EIO, s)
    else
      let data :=
        if addr = EFL then data &&& FLAG_MASK ||| getStackLong child (EFL * 4 - MAGICNUMBER) s &&& ~~~FLAG_MASK
        else data
      (0, putStackLong child (4 * addr - MAGICNUMBER) (ushort data) s)
  else if req = 7 then
    let s := s.setTask childno { child with signal := signalOf data NSIG, state := 0 }
    let tmp := getStackLong child (4 * EFL - MAGICNUMBER) s &&& ~~~TRAP_FLAG
    (0, putStackLong child (4 * EFL - MAGICNUMBER) (ushort tmp) s)
  else if req = 8 then
    let s := s.setTask childno { child with signal := 1#32 <<< (SIGKILL - 1), state := 0 }
    let tmp := getStackLong child (4 * EFL - MAGICNUMBER) s &&& ~~~TRAP_FLAG
    (0, putStackLong child (4 * EFL - MAGICNUMBER) (ushort tmp) s)
  else if req = 9 then
    let tmp := getStackLong child (4 * EFL - MAGICNUMBER) s ||| TRAP_FLAG
    let s := putStackLong child (4 * EFL - MAGICNUMBER) (ushort tmp) s
    -- the last signal is left out here
    (0, s.setTask childno { child with signal := signalOf data (NSIG - 1), state := 0 })
  else (- EIO, s)

/-- `sys_ptrace`, for the four words of its buffer. -/
def ptrace (current : Nat) (req pid addr data : BitVec 32) (s : State) : Int × State :=
  if req = 0 then
    (0, match s.task current with
      | none => s
      | some t => s.setTask current { t with flags := t.flags ||| PF_PTRACED })
  else
    match getTask pid s with
    | none => (-ESRCH, s)
    | some childno =>
        match s.task childno with
        | none => (-ESRCH, s)
        | some child =>
            if child.pPptr ≠ some current ∨ child.flags &&& PF_PTRACED = 0 ∨ child.state ≠ TASK_STOPPED then (-ESRCH, s)
            else request getLong putLong childno child req addr data s

/-- `sys_ptrace`. -/
def sysPtrace (current : Nat) (buffer : Addr) (s : State) : Int × State :=
  ptrace getLong putLong current (s.user.read32 buffer) (s.user.read32 (buffer + 4)) (s.user.read32 (buffer + 8))
    (s.user.read32 (buffer + 12)) s

end

/-! ## Saved registers -/

/-- Where register `i` is saved. -/
def slot (t : Task) (i : BitVec 32) : Addr := t.esp0 + (4 * i - MAGICNUMBER)

/-- What register `i` had in user mode. -/
def reg (t : Task) (s : State) (i : BitVec 32) : BitVec 32 := s.mem.read32 (slot t i)

/-- The registers are one beside the other. -/
theorem slot_apart (t : Task) {i j : BitVec 32} (hi : i.toNat < 17) (hj : j.toNat < 17) (hne : i ≠ j) :
    Mem.Apart (slot t i) (slot t j) := by
  have hne' : i.toNat ≠ j.toNat := fun h => hne (BitVec.eq_of_toNat_eq h)
  simp only [Mem.Apart, slot, MAGICNUMBER]
  refine ⟨?_, ?_⟩ <;> bv_omega

/-- **What `put_stack_long` does to the registers**: it puts the number, and 16 zeros before it, into one of them. -/
theorem reg_putStackLong (t : Task) (s : State) (data : BitVec 16) {i j : BitVec 32} (hi : i.toNat < 17)
    (hj : j.toNat < 17) :
    reg t (putStackLong t (4 * i - MAGICNUMBER) data s) j = if j = i then data.setWidth 32 else reg t s j := by
  by_cases h : j = i
  · rw [if_pos h, h]
    exact Mem.read32_write32_self _ _ _
  · rw [if_neg h]
    exact Mem.read32_write32_apart _ _ (slot_apart t hi hj (Ne.symm h))

/-- The number gets through the parameter. -/
def Narrow (x : BitVec 32) : Prop := x.toNat < 2 ^ 16

instance (x : BitVec 32) : Decidable (Narrow x) := inferInstanceAs (Decidable (_ < _))

theorem toNat_ushort (x : BitVec 32) : ((ushort x).setWidth 32).toNat = x.toNat % 2 ^ 16 := by
  rw [ushort, BitVec.toNat_setWidth, BitVec.toNat_setWidth]
  omega

theorem ushort_eq_iff (x : BitVec 32) : (ushort x).setWidth 32 = x ↔ Narrow x := by
  rw [← BitVec.toNat_inj, toNat_ushort, Narrow]
  omega

theorem getLsbD_ushort (x : BitVec 32) (k : Nat) :
    ((ushort x).setWidth 32).getLsbD k = (decide (k < 16) && x.getLsbD k) := by
  simp only [ushort, BitVec.getLsbD_setWidth]
  by_cases h : k < 16
  · simp [h, show k < 32 by omega]
  · simp [h]

theorem narrow_iff (x : BitVec 32) : Narrow x ↔ ∀ k, 16 ≤ k → x.getLsbD k = false := by
  rw [← ushort_eq_iff]
  constructor
  · intro h k hk
    rw [← h, getLsbD_ushort]
    simp [Nat.not_lt.mpr hk]
  · intro h
    refine BitVec.eq_of_getLsbD_eq fun k _ => ?_
    rw [getLsbD_ushort]
    by_cases hk : k < 16
    · simp [hk]
    · simp [hk, h k (Nat.le_of_not_lt hk)]

/-- The high half of a word that is merged from two is the old one. -/
theorem narrow_merge (old new : BitVec 32) : Narrow (new &&& FLAG_MASK ||| old &&& ~~~FLAG_MASK) ↔ Narrow old := by
  have hmask : ∀ k, 16 ≤ k → FLAG_MASK.getLsbD k = false := (narrow_iff _).mp (by decide)
  rw [narrow_iff, narrow_iff]
  refine forall_congr' fun k => forall_congr' fun hk => ?_
  by_cases h32 : k < 32
  · simp only [BitVec.getLsbD_or, BitVec.getLsbD_and, BitVec.getLsbD_not, hmask k hk, h32, decide_true, Bool.not_false,
      Bool.and_true, Bool.and_false, Bool.false_or]
  · rw [BitVec.getLsbD_of_ge _ _ (Nat.le_of_not_lt h32), BitVec.getLsbD_of_ge _ _ (Nat.le_of_not_lt h32)]

/-! ## What the requests are for -/

/-- `child` is a child of the current task that it traces, and it is stopped. -/
structure Traced (s : State) (current : Nat) (pid : BitVec 32) (childno : Nat) (child : Task) : Prop where
  found : getTask pid s = some childno
  task : s.task childno = some child
  parent : child.pPptr = some current
  traced : child.flags &&& PF_PTRACED ≠ 0
  stopped : child.state = TASK_STOPPED

/-- The number of a register in the USER area. -/
def index (addr : BitVec 32) : BitVec 32 := addr.sshiftRight 2

/-- The registers that may be written. -/
def Accepted (addr : BitVec 32) : Prop := 0 ≤ (index addr).toInt ∧ (index addr).toInt < 17 ∧ index addr ≠ ORIG_EAX

/-- What a register is to hold after a write: of the flags, some stay. -/
def wanted (child : Task) (s : State) (i value : BitVec 32) : BitVec 32 :=
  if i = EFL then value &&& FLAG_MASK ||| reg child s EFL &&& ~~~FLAG_MASK else value

/-- What is done with the registers of a child. -/
inductive Use where
  /-- Request 6, and then request 3, of one word. -/
  | word (addr value result : BitVec 32)
  /-- Request 7. -/
  | restart (data : BitVec 32)
  /-- Request 8. -/
  | exit (data : BitVec 32)
  /-- Request 9. -/
  | step (data : BitVec 32)

section
variable (getLong : Nat → Addr → State → Int × BitVec 32 × State)
  (putLong : Nat → Addr → BitVec 32 → State → Int × State)

/-- Request `req` changes the trap flag, and nothing else that is saved. -/
def OnlyTrap (current : Nat) (pid : BitVec 32) (child : Task) (s : State) (req data : BitVec 32) : Prop :=
  let r := ptrace getLong putLong current req pid 0 data s
  r.1 = 0 ∧ (∀ j : BitVec 32, j.toNat < 17 → j ≠ EFL → reg child r.2 j = reg child s j) ∧
    ∀ k ≠ 8, (reg child r.2 EFL).getLsbD k = (reg child s EFL).getLsbD k

/-- **What the requests for registers are for.** -/
def Meets (current : Nat) (pid : BitVec 32) (child : Task) (s : State) : Use → Prop
  | .word addr value result =>
      let put := ptrace getLong putLong current 6 pid addr value s
      put.1 = 0 →
        let got := ptrace getLong putLong current 3 pid addr result put.2
        got.1 = 0 ∧ got.2.user.read32 result = wanted child s (index addr) value ∧
          ∀ j : BitVec 32, j.toNat < 17 → j ≠ index addr → reg child got.2 j = reg child s j
  | .restart data => OnlyTrap getLong putLong current pid child s 7 data
  | .exit data => OnlyTrap getLong putLong current pid child s 8 data
  | .step data => OnlyTrap getLong putLong current pid child s 9 data

end

/-- When they are that: if the word, with the flags that stay, is one of 16 bits. -/
def Fine (child : Task) (s : State) : Use → Prop
  | .word addr value _ => Accepted addr → if index addr = EFL then Narrow (reg child s EFL) else Narrow value
  | _ => Narrow (reg child s EFL)

/-! ## The requests -/

section
variable {getLong : Nat → Addr → State → Int × BitVec 32 × State}
  {putLong : Nat → Addr → BitVec 32 → State → Int × State} {s : State} {current childno : Nat} {pid : BitVec 32}
  {child : Task}

/-- The checks find the child. -/
theorem Traced.ptrace_eq (h : Traced s current pid childno child) {req : BitVec 32} (hreq : req ≠ 0)
    (addr data : BitVec 32) :
    ptrace getLong putLong current req pid addr data s = request getLong putLong childno child req addr data s := by
  have hchecks : ¬(child.pPptr ≠ some current ∨ child.flags &&& PF_PTRACED = 0 ∨ child.state ≠ TASK_STOPPED) := by
    rintro (hparent | htraced | hstopped)
    · exact hparent h.parent
    · exact h.traced htraced
    · exact hstopped h.stopped
  simp only [ptrace, hreq, if_false, h.found, h.task, hchecks]

/-- The child is stopped still when something has been put on its stack. -/
theorem Traced.setMem (h : Traced s current pid childno child) (m : Mem) :
    Traced (s.setMem m) current pid childno child :=
  ⟨h.found, h.task, h.parent, h.traced, h.stopped⟩

theorem index_lt {addr : BitVec 32} (h : Accepted addr) : (index addr).toNat < 17 := by
  obtain ⟨h0, h17, -⟩ := h
  have hcond := BitVec.toInt_eq_toNat_cond (index addr)
  have hlt := (index addr).isLt
  split at hcond <;> omega

/-- Request 6 of a register that may be written. -/
theorem request_six {addr : BitVec 32} (h : Accepted addr) (value : BitVec 32) :
    request getLong putLong childno child 6 addr value s =
      (0, putStackLong child (4 * index addr - MAGICNUMBER) (ushort (wanted child s (index addr) value)) s) := by
  obtain ⟨h0, h17, horig⟩ := h
  have hrange : ¬((index addr).toInt < 0 ∨ 17 ≤ (index addr).toInt) := by omega
  have hwanted : (if index addr = EFL then
      value &&& FLAG_MASK ||| getStackLong child (EFL * 4 - MAGICNUMBER) s &&& ~~~FLAG_MASK else value) =
      wanted child s (index addr) value := rfl
  unfold index at hrange horig hwanted
  simp only [request, BitVec.reduceEq, or_self, if_false, if_true, hrange, horig, hwanted, index]

/-- Request 6 of another one is refused. -/
theorem request_six_refused {addr : BitVec 32} (h : ¬Accepted addr) (value : BitVec 32) :
    request getLong putLong childno child 6 addr value s = (- EIO, s) := by
  by_cases hrange : (index addr).toInt < 0 ∨ 17 ≤ (index addr).toInt
  · unfold index at hrange
    simp only [request, BitVec.reduceEq, or_self, if_false, if_true, hrange]
  · have horig : index addr = ORIG_EAX := by
      by_contra hne
      exact h ⟨by omega, by omega, hne⟩
    unfold index at hrange horig
    simp only [request, BitVec.reduceEq, or_self, if_false, if_true, horig, ite_self]

/-- Request 3. -/
theorem request_three {addr : BitVec 32} (h : Accepted addr) (result : BitVec 32) :
    request getLong putLong childno child 3 addr result s =
      (0, s.setUser (s.user.write32 result (reg child s (index addr)))) := by
  obtain ⟨h0, h17, -⟩ := h
  have hrange : ¬((index addr).toInt < 0 ∨ 17 ≤ (index addr).toInt) := by omega
  unfold index at hrange
  simp only [request, BitVec.reduceEq, or_self, if_false, if_true, hrange]
  rfl

/-- Writing a word and reading it back. -/
theorem word_iff (h : Traced s current pid childno child) (addr value result : BitVec 32) :
    Meets getLong putLong current pid child s (.word addr value result) ↔ Fine child s (.word addr value result) := by
  simp only [Meets, Fine, h.ptrace_eq (show (6 : BitVec 32) ≠ 0 by decide)]
  by_cases hacc : Accepted addr
  · rw [request_six hacc]
    have hnext : Traced (putStackLong child (4 * index addr - MAGICNUMBER)
        (ushort (wanted child s (index addr) value)) s) current pid childno child := h.setMem _
    have hlt := index_lt hacc
    have hself := reg_putStackLong child s (ushort (wanted child s (index addr) value)) hlt hlt
    rw [if_pos rfl] at hself
    simp only [hnext.ptrace_eq (show (3 : BitVec 32) ≠ 0 by decide), request_three hacc, hself, true_and, true_implies,
      hacc]
    have hread : ∀ v : BitVec 32, (s.user.write32 result v).read32 result = v := fun v => Mem.read32_write32_self _ _ _
    have hnarrow : Narrow (wanted child s (index addr) value) ↔
        if index addr = EFL then Narrow (reg child s EFL) else Narrow value := by
      unfold wanted
      split_ifs
      · exact narrow_merge _ _
      · rfl
    rw [← hnarrow, ← ushort_eq_iff]
    constructor
    · rintro ⟨hgot, -⟩
      exact (hread _).symm.trans hgot
    · intro hwide
      refine ⟨(hread _).trans hwide, fun j hj hne => ?_⟩
      have hother := reg_putStackLong child s (ushort (wanted child s (index addr) value)) hlt hj
      rw [if_neg hne] at hother
      exact hother
  · rw [request_six_refused hacc]
    exact iff_of_true (fun h0 => absurd h0 (show ¬(- EIO : Int) = 0 by decide)) fun h' => absurd h' hacc

/-- A request that puts back the flags, but for the trap flag. -/
theorem onlyTrap_iff (h : Traced s current pid childno child) {req data x : BitVec 32} (hreq : req ≠ 0) {s' : State}
    (hrun : request getLong putLong childno child req 0 data s = (0, s'))
    (hmem : s'.mem = (putStackLong child (4 * EFL - MAGICNUMBER) (ushort x) s).mem)
    (hx : ∀ k ≠ 8, x.getLsbD k = (reg child s EFL).getLsbD k) :
    OnlyTrap getLong putLong current pid child s req data ↔ Narrow (reg child s EFL) := by
  have hefl : EFL.toNat < 17 := by decide
  have hreg : ∀ j : BitVec 32, j.toNat < 17 →
      reg child s' j = if j = EFL then (ushort x).setWidth 32 else reg child s j := by
    intro j hj
    rw [← reg_putStackLong child s (ushort x) hefl hj, reg, hmem]
    rfl
  simp only [OnlyTrap, h.ptrace_eq hreq, hrun, true_and]
  rw [hreg EFL hefl, if_pos rfl]
  constructor
  · rintro ⟨-, hbits⟩
    refine (narrow_iff _).mpr fun k hk => ?_
    rw [← hbits k (by omega), getLsbD_ushort]
    simp [Nat.not_lt.mpr hk]
  · intro hnarrow
    refine ⟨fun j hj hne => ?_, fun k hk => ?_⟩
    · rw [hreg j hj, if_neg hne]
    · rw [getLsbD_ushort, hx k hk]
      by_cases hlt : k < 16
      · simp [hlt]
      · rw [(narrow_iff _).mp hnarrow k (Nat.le_of_not_lt hlt)]
        simp

/-- Request 7: the trap flag is cleared after the state and the signals are set. -/
theorem request_restart (childno : Nat) (child : Task) (data : BitVec 32) (s : State) :
    request getLong putLong childno child 7 0 data s =
      (0, (putStackLong child (4 * EFL - MAGICNUMBER) (ushort (reg child s EFL &&& ~~~TRAP_FLAG)) s).setTask childno
        { child with signal := signalOf data NSIG, state := 0 }) := by
  simp only [request, BitVec.reduceEq, or_self, if_false, if_true]
  rfl

/-- Request 8. -/
theorem request_exit (childno : Nat) (child : Task) (data : BitVec 32) (s : State) :
    request getLong putLong childno child 8 0 data s =
      (0, (putStackLong child (4 * EFL - MAGICNUMBER) (ushort (reg child s EFL &&& ~~~TRAP_FLAG)) s).setTask childno
        { child with signal := 1#32 <<< (SIGKILL - 1), state := 0 }) := by
  simp only [request, BitVec.reduceEq, or_self, if_false, if_true]
  rfl

/-- Request 9. -/
theorem request_step (childno : Nat) (child : Task) (data : BitVec 32) (s : State) :
    request getLong putLong childno child 9 0 data s =
      (0, (putStackLong child (4 * EFL - MAGICNUMBER) (ushort (reg child s EFL ||| TRAP_FLAG)) s).setTask childno
        { child with signal := signalOf data (NSIG - 1), state := 0 }) := by
  simp only [request, BitVec.reduceEq, or_self, if_false, if_true]
  rfl

theorem trap_set {k : Nat} (hk : k ≠ 8) : TRAP_FLAG.getLsbD k = false := by
  rw [show TRAP_FLAG = BitVec.twoPow 32 8 from rfl, BitVec.getLsbD_twoPow]
  simp [Ne.symm hk]

/-- Clearing the trap flag, and setting it, leaves the other flags. -/
theorem getLsbD_trap (x : BitVec 32) {k : Nat} (hk : k ≠ 8) :
    (x &&& ~~~TRAP_FLAG).getLsbD k = x.getLsbD k ∧ (x ||| TRAP_FLAG).getLsbD k = x.getLsbD k := by
  rw [BitVec.getLsbD_and, BitVec.getLsbD_or, BitVec.getLsbD_not, trap_set hk]
  refine ⟨?_, Bool.or_false _⟩
  by_cases h32 : k < 32
  · simp [h32]
  · rw [BitVec.getLsbD_of_ge _ _ (Nat.le_of_not_lt h32), Bool.false_and]

/-- **When the requests for registers do what they are for**: the numbers are 16 bits wide. -/
theorem ptrace_iff (h : Traced s current pid childno child) (u : Use) :
    Meets getLong putLong current pid child s u ↔ Fine child s u := by
  cases u with
  | word addr value result => exact word_iff h addr value result
  | restart data =>
      have hrun : request getLong putLong childno child 7 0 data s = _ := request_restart childno child data s
      exact onlyTrap_iff h (by decide) hrun rfl fun k hk => (getLsbD_trap _ hk).1
  | exit data =>
      have hrun : request getLong putLong childno child 8 0 data s = _ := request_exit childno child data s
      exact onlyTrap_iff h (by decide) hrun rfl fun k hk => (getLsbD_trap _ hk).1
  | step data =>
      have hrun : request getLong putLong childno child 9 0 data s = _ := request_step childno child data s
      exact onlyTrap_iff h (by decide) hrun rfl fun k hk => (getLsbD_trap _ hk).2

end

/-! ## A child of task 0 -/

/-- It has stopped, with nothing in its registers. -/
def stopped : Task := ⟨7, some 0, PF_PTRACED, TASK_STOPPED, 0, 4096⟩

/-- It is task 1. -/
def traced : State := ⟨fun i => if i = 1 then some stopped else none, fun _ => 0, fun _ => 0⟩

theorem traced_traced : Traced traced 0 7 1 stopped :=
  ⟨by decide, rfl, rfl, by decide, rfl⟩

/-- A number of 16 bits is read back as it was written. -/
theorem ptrace_iff_short :
    let getLong := fun _ _ s => (0, 0, s)
    let putLong := fun _ _ _ s => (0, s)
    let put := ptrace getLong putLong 0 6 7 0 0x5678 traced
    put.1 = 0 ∧ (ptrace getLong putLong 0 3 7 0 8192 put.2).2.user.read32 8192 = 0x5678 := by
  intro getLong putLong put
  have hmeets : Meets getLong putLong 0 7 stopped traced (.word 0 0x5678 8192) :=
    (ptrace_iff traced_traced _).mpr fun _ => by decide
  have hput : put.1 = 0 := by decide +kernel
  exact ⟨hput, (hmeets hput).2.1⟩

/-- The high half of a word is lost. -/
theorem word_high_half :
    Traced traced 0 7 1 stopped ∧
      ¬Meets (fun _ _ s => (0, 0, s)) (fun _ _ _ s => (0, s)) 0 7 stopped traced (.word 0 0x12345678 8192) := by
  refine ⟨traced_traced, fun h => ?_⟩
  have hread := (h (by decide +kernel)).2.1
  exact absurd hread (by decide +kernel)

end Ptrace
end Kernel
end Linux095
