import Linux095.Kernel.Credentials
import Linux095.X86.Dwords

/-!
# `Kernel.TimeOfDay` — the time of day (`kernel/sys.c`)

The time is kept as two offsets to the number of clock ticks since the start: `startup_time` in seconds and
`jiffies_offset` in ticks.

* `Clock`, `sysTime`, `sysStime`, `sysGettimeofday`, `sysSettimeofday` — the source's functions;
* `Timeval`, `roundDown`, `tickOn` — **a clock that ticks**: what setting the time is for;
* `Shows`, `Shows.tick` — the two offsets show a time, and go on to the next tick;
* `settimeofday_runs`, `stime_runs` — **a clock that has been set shows the time that has passed since**.
-/

namespace Linux095
namespace Kernel
namespace TimeOfDay

open X86 (Addr Mem)
open Credentials (Ids suser EPERM)

/-! ## The source's functions -/

def HZ : BitVec 32 := 100

/-- `struct timezone`. -/
structure Timezone where
  tzMinuteswest : BitVec 32
  tzDsttime : BitVec 32

/-- What the calls have to do with; `firsttime` is a static variable of `sys_settimeofday`. -/
structure Clock where
  jiffies : BitVec 32
  startupTime : BitVec 32
  jiffiesOffset : BitVec 32
  sysTz : Timezone
  firsttime : Bool

/-- `CT_TO_SECS`. -/
def ctToSecs (x : BitVec 32) : BitVec 32 := x / HZ

/-- `CT_TO_USECS`. -/
def ctToUsecs (x : BitVec 32) : BitVec 32 := x % HZ * 1000000 / HZ

/-- `CURRENT_TIME`. -/
def currentTime (c : Clock) : BitVec 32 := c.startupTime + (c.jiffies + c.jiffiesOffset) / HZ

/-- The timer interrupt. -/
def Clock.tick (c : Clock) : Clock := { c with jiffies := c.jiffies + 1 }

/-- `adjust_clock`. -/
def adjustClock (c : Clock) : Clock := { c with startupTime := c.startupTime + c.sysTz.tzMinuteswest * 60 }

/-- `sys_time`. -/
def sysTime (tloc : Addr) (m : Mem) (c : Clock) : BitVec 32 × Mem :=
  let i := currentTime c
  (i, if tloc ≠ 0 then m.write32 tloc i else m)

/-- `sys_stime`. -/
def sysStime (ids : Ids) (tptr : Addr) (m : Mem) (c : Clock) : Int × Clock :=
  if suser ids then (0, { c with startupTime := m.read32 tptr - c.jiffies / HZ, jiffiesOffset := 0 })
  else (-EPERM, c)

/-- `sys_gettimeofday`. -/
def sysGettimeofday (tv tz : Addr) (m : Mem) (c : Clock) : Int × Mem :=
  let m :=
    if tv ≠ 0 then
      (m.write32 tv (c.startupTime + ctToSecs (c.jiffies + c.jiffiesOffset))).write32 (tv + 4)
        (ctToUsecs (c.jiffies + c.jiffiesOffset))
    else m
  (0, if tz ≠ 0 then (m.write32 tz c.sysTz.tzMinuteswest).write32 (tz + 4) c.sysTz.tzDsttime else m)

/-- The first half of `sys_settimeofday`: the time zone. -/
def setTimezone (tv tz : Addr) (m : Mem) (c : Clock) : Clock :=
  if tz ≠ 0 then
    let c := { c with sysTz := ⟨m.read32 tz, m.read32 (tz + 4)⟩ }
    if c.firsttime then
      let c := { c with firsttime := false }
      if tv = 0 then adjustClock c else c
    else c
  else c

/-- `sys_settimeofday`. The quotient of `usec` is that of an `int`, the remainder of `jiffies` is unsigned. -/
def sysSettimeofday (ids : Ids) (tv tz : Addr) (m : Mem) (c : Clock) : Int × Clock :=
  if suser ids then
    let c := setTimezone tv tz m c
    if tv ≠ 0 then
      let sec := m.read32 tv
      let usec := m.read32 (tv + 4)
      (0, { c with
        startupTime := sec - c.jiffies / HZ
        jiffiesOffset := (usec * HZ).sdiv 1000000 - c.jiffies % HZ })
    else (0, c)
  else (-EPERM, c)

/-! ## A clock that ticks -/

/-- A time: seconds, and millionths of one. -/
structure Timeval where
  sec : Int
  usec : Nat
  deriving DecidableEq

namespace Timeval

/-- A tick is the hundredth part of a second. -/
def roundDown (t : Timeval) : Timeval := { t with usec := t.usec / 10000 * 10000 }

/-- One tick later. -/
def tickOn (t : Timeval) : Timeval :=
  if t.usec + 10000 < 1000000 then { t with usec := t.usec + 10000 } else ⟨t.sec + 1, t.usec + 10000 - 1000000⟩

/-- The ticks since the second 0. -/
def ticks (t : Timeval) : Int := t.sec * 100 + t.usec / 10000

theorem ticks_tickOn (t : Timeval) : t.tickOn.ticks = t.ticks + 1 := by
  unfold tickOn
  split_ifs with hin
  · simp only [ticks]
    omega
  · simp only [ticks]
    omega

/-- What `n` ticks do is to add `n` to the number of ticks. -/
theorem ticks_iterate (n : Nat) (t : Timeval) : (tickOn^[n] t).ticks = t.ticks + n := by
  induction n with
  | zero => simp
  | succ n ih =>
      rw [Function.iterate_succ_apply', ticks_tickOn, ih]
      omega

theorem usec_tickOn {t : Timeval} (h : t.usec < 1000000) : t.tickOn.usec < 1000000 := by
  unfold tickOn
  split_ifs with hin
  · exact hin
  · dsimp only
    omega

theorem usec_iterate (n : Nat) {t : Timeval} (h : t.usec < 1000000) : (tickOn^[n] t).usec < 1000000 := by
  induction n with
  | zero => exact h
  | succ n ih =>
      rw [Function.iterate_succ_apply']
      exact usec_tickOn ih

end Timeval

/-- The time of day is `t`, as `gettimeofday` tells it. -/
structure Shows (c : Clock) (t : Timeval) : Prop where
  sec : c.startupTime + ctToSecs (c.jiffies + c.jiffiesOffset) = BitVec.ofInt 32 t.sec
  usec : (ctToUsecs (c.jiffies + c.jiffiesOffset)).toNat = t.usec

/-- The time in microseconds is within a second. -/
theorem ctToUsecs_toNat (x : BitVec 32) : (ctToUsecs x).toNat = x.toNat % 100 * 10000 := by
  have hlt := Nat.mod_lt x.toNat (show 0 < 100 by decide)
  have hmul : (x % HZ * 1000000).toNat = x.toNat % 100 * 10000 * 100 := by
    rw [BitVec.toNat_mul, BitVec.toNat_umod, show HZ.toNat = 100 from rfl,
      show (1000000 : BitVec 32).toNat = 10000 * 100 from rfl, ← Nat.mul_assoc, Nat.mod_eq_of_lt (by omega)]
  rw [ctToUsecs, BitVec.toNat_udiv, hmul, show HZ.toNat = 100 from rfl, Nat.mul_div_cancel _ (by decide)]

theorem ctToSecs_toNat (x : BitVec 32) : (ctToSecs x).toNat = x.toNat / 100 := by
  simp only [ctToSecs, BitVec.toNat_udiv]
  rfl

theorem toNat_succ {x : BitVec 32} (h : x.toNat + 1 < 2 ^ 32) : (x + 1).toNat = x.toNat + 1 := by
  rw [BitVec.toNat_add, show BitVec.toNat (1 : BitVec 32) = 1 from rfl, Nat.mod_eq_of_lt h]

/-- A second is over after every hundredth tick. -/
theorem ctToSecs_succ {x : BitVec 32} (h : x.toNat + 1 < 2 ^ 32) :
    ctToSecs (x + 1) = if (x.toNat + 1) % 100 = 0 then ctToSecs x + 1 else ctToSecs x := by
  have hone : BitVec.toNat (1 : BitVec 32) = 1 := rfl
  split_ifs with hmod
  · apply BitVec.eq_of_toNat_eq
    rw [BitVec.toNat_add, ctToSecs_toNat, ctToSecs_toNat, toNat_succ h, hone]
    omega
  · apply BitVec.eq_of_toNat_eq
    rw [ctToSecs_toNat, ctToSecs_toNat, toNat_succ h]
    omega

/-- The ticks within a second go up by one. -/
theorem usec_within {x u : Nat} (h : x % 100 * 10000 = u) (hin : u + 10000 < 1000000) :
    (x + 1) % 100 * 10000 = u + 10000 := by
  have hnext : (x + 1) % 100 = x % 100 + 1 := by omega
  rw [hnext, ← h, Nat.add_mul]

/-- And then they begin again. -/
theorem usec_over {x u : Nat} (h : x % 100 * 10000 = u) (hover : ¬u + 10000 < 1000000) :
    (x + 1) % 100 * 10000 = u + 10000 - 1000000 := by
  have hlt := Nat.mod_lt x (show 0 < 100 by decide)
  have hlast : x % 100 = 99 := by omega
  have hnext : (x + 1) % 100 = 0 := by omega
  rw [hnext, ← h, hlast]

/-- **A tick of the clock is a tick of the time it shows.** -/
theorem Shows.tick {c : Clock} {t : Timeval} (h : Shows c t) (hj : (c.jiffies + c.jiffiesOffset).toNat + 1 < 2 ^ 32) :
    Shows c.tick t.tickOn := by
  obtain ⟨hsec, husec⟩ := h
  have hsum : c.tick.jiffies + c.tick.jiffiesOffset = c.jiffies + c.jiffiesOffset + 1 := by
    rw [Clock.tick, BitVec.add_assoc, BitVec.add_comm 1, ← BitVec.add_assoc]
  have hmod := Nat.mod_lt (c.jiffies + c.jiffiesOffset).toNat (show 0 < 100 by decide)
  rw [ctToUsecs_toNat] at husec
  have hcarry : (c.jiffies + c.jiffiesOffset).toNat % 100 < 99 ↔ t.usec + 10000 < 1000000 := by omega
  unfold Timeval.tickOn
  by_cases hin : t.usec + 10000 < 1000000
  · rw [if_pos hin]
    refine ⟨?_, ?_⟩
    · rw [hsum, ctToSecs_succ hj, if_neg (by omega)]
      exact hsec
    · rw [hsum, ctToUsecs_toNat, toNat_succ hj]
      exact usec_within husec hin
  · rw [if_neg hin]
    refine ⟨?_, ?_⟩
    · rw [hsum, ctToSecs_succ hj, if_pos (by omega), ← BitVec.add_assoc]
      rw [show c.tick.startupTime = c.startupTime from rfl, hsec, BitVec.ofInt_add]
      rfl
    · rw [hsum, ctToUsecs_toNat, toNat_succ hj]
      exact usec_over husec hin

/-- The same for many ticks, as long as `jiffies` does not come around. -/
theorem Shows.iterate {c : Clock} {t : Timeval} (n : Nat) (h : Shows c t)
    (hj : (c.jiffies + c.jiffiesOffset).toNat + n < 2 ^ 32) : Shows (Clock.tick^[n] c) (Timeval.tickOn^[n] t) := by
  induction n generalizing c t with
  | zero => exact h
  | succ n ih =>
      rw [Function.iterate_succ_apply, Function.iterate_succ_apply]
      have hsum : c.tick.jiffies + c.tick.jiffiesOffset = c.jiffies + c.jiffiesOffset + 1 := by
        rw [Clock.tick, BitVec.add_assoc, BitVec.add_comm 1, ← BitVec.add_assoc]
      refine ih (h.tick (by omega)) ?_
      rw [hsum, toNat_succ (by omega)]
      omega

/-! ## Setting the clock -/

/-- "usec * HZ / 1000000" is the number of whole ticks. -/
theorem usec_ticks {u : BitVec 32} (hu : u.toNat < 1000000) :
    ((u * HZ).sdiv 1000000).toNat = u.toNat / 10000 := by
  have hmul : (u * HZ).toNat = u.toNat * 100 := by
    rw [BitVec.toNat_mul, show HZ.toNat = 100 from rfl, Nat.mod_eq_of_lt (by omega)]
  have hmsb : (u * HZ).msb = false := by
    rw [BitVec.msb_eq_false_iff_two_mul_lt, hmul]
    omega
  have hmsb' : (1000000 : BitVec 32).msb = false := rfl
  simp only [BitVec.sdiv_eq, hmsb, hmsb', BitVec.udiv_eq, BitVec.toNat_udiv, hmul,
    show (1000000 : BitVec 32).toNat = 1000000 from rfl]
  omega

/-- The offset brings `jiffies` to the beginning of its second, and then to the ticks wanted. -/
theorem offset_toNat {j u : BitVec 32} (hu : u.toNat < 100) (hj : j.toNat < 2 ^ 32 - 100) :
    (j + (u - j % HZ)).toNat = j.toNat / 100 * 100 + u.toNat := by
  have hmod : (j % HZ).toNat = j.toNat % 100 := rfl
  have hlt := Nat.mod_lt j.toNat (show 0 < 100 by decide)
  have hdiv := Nat.div_add_mod j.toNat 100
  rw [BitVec.toNat_add, BitVec.toNat_sub, hmod]
  omega

/-- The time zone is another matter. -/
theorem setTimezone_jiffies (tv tz : Addr) (m : Mem) (c : Clock) : (setTimezone tv tz m c).jiffies = c.jiffies := by
  simp only [setTimezone, adjustClock]
  split_ifs <;> rfl

/-- The two offsets, set from a time, show it. -/
theorem shows_of_offsets {c : Clock} {sec usec : BitVec 32} (husec : usec.toNat < 1000000)
    (hj : c.jiffies.toNat < 2 ^ 32 - 100) (hsec : c.startupTime = sec - c.jiffies / HZ)
    (hoff : c.jiffiesOffset = (usec * HZ).sdiv 1000000 - c.jiffies % HZ) :
    Shows c (Timeval.roundDown ⟨sec.toInt, usec.toNat⟩) ∧
      (c.jiffies + c.jiffiesOffset).toNat = c.jiffies.toNat / 100 * 100 + usec.toNat / 10000 := by
  have hticks := usec_ticks husec
  have hsum : (c.jiffies + c.jiffiesOffset).toNat = c.jiffies.toNat / 100 * 100 + usec.toNat / 10000 := by
    rw [hoff, offset_toNat (by omega) hj, hticks]
  have hsecs : ctToSecs (c.jiffies + c.jiffiesOffset) = c.jiffies / HZ := by
    apply BitVec.eq_of_toNat_eq
    rw [ctToSecs_toNat, hsum, show (c.jiffies / HZ).toNat = c.jiffies.toNat / 100 from rfl]
    omega
  refine ⟨⟨?_, ?_⟩, hsum⟩
  · rw [hsecs, hsec, BitVec.sub_add_cancel]
    exact (BitVec.ofInt_toInt).symm
  · rw [ctToUsecs_toNat, hsum, show c.jiffies.toNat / 100 * 100 + usec.toNat / 10000
      = usec.toNat / 10000 + 100 * (c.jiffies.toNat / 100) by omega, Nat.add_mul_mod_self_left,
      Nat.mod_eq_of_lt (by omega)]
    rfl

theorem sysSettimeofday_shows {ids : Ids} {c : Clock} {m : Mem} {tv tz : Addr} (hroot : suser ids = true)
    (htv : tv ≠ 0) (husec : (m.read32 (tv + 4)).toNat < 1000000) (hj : c.jiffies.toNat < 2 ^ 32 - 100) :
    (sysSettimeofday ids tv tz m c).1 = 0 ∧
      Shows (sysSettimeofday ids tv tz m c).2
        (Timeval.roundDown ⟨(m.read32 tv).toInt, (m.read32 (tv + 4)).toNat⟩) ∧
      ((sysSettimeofday ids tv tz m c).2.jiffies + (sysSettimeofday ids tv tz m c).2.jiffiesOffset).toNat
        ≤ c.jiffies.toNat + 99 := by
  have hjiffies := setTimezone_jiffies tv tz m c
  have heq : sysSettimeofday ids tv tz m c = (0, { setTimezone tv tz m c with
      startupTime := m.read32 tv - (setTimezone tv tz m c).jiffies / HZ
      jiffiesOffset := (m.read32 (tv + 4) * HZ).sdiv 1000000 - (setTimezone tv tz m c).jiffies % HZ }) := by
    simp only [sysSettimeofday, hroot, if_true, ne_eq, htv, not_false_eq_true]
  rw [heq]
  obtain ⟨hshows, hsum⟩ := shows_of_offsets
    (c := { setTimezone tv tz m c with
      startupTime := m.read32 tv - (setTimezone tv tz m c).jiffies / HZ
      jiffiesOffset := (m.read32 (tv + 4) * HZ).sdiv 1000000 - (setTimezone tv tz m c).jiffies % HZ })
    husec (by rw [hjiffies]; exact hj) rfl rfl
  refine ⟨rfl, hshows, ?_⟩
  rw [hsum]
  dsimp only
  rw [hjiffies]
  omega

/-! ## Reading the clock -/

/-- The results of `gettimeofday` have room each. -/
def Disjoint (tv tz : Addr) : Prop := tz = 0 ∨ (8 ≤ (tz - tv).toNat ∧ 8 ≤ (tv - tz).toNat)

/-- `gettimeofday` tells the time the clock shows. -/
theorem sysGettimeofday_reads {c : Clock} {t : Timeval} {m : Mem} {tv tz : Addr} (h : Shows c t) (htv : tv ≠ 0)
    (hdisj : Disjoint tv tz) :
    (sysGettimeofday tv tz m c).1 = 0 ∧
      (sysGettimeofday tv tz m c).2.read32 tv = BitVec.ofInt 32 t.sec ∧
      ((sysGettimeofday tv tz m c).2.read32 (tv + 4)).toNat = t.usec := by
  obtain ⟨hsec, husec⟩ := h
  have hpair : Mem.Apart (tv + 4) tv := (Mem.apart_add (by decide) (by decide)).symm
  refine ⟨rfl, ?_⟩
  by_cases htz : tz = 0
  · simp only [sysGettimeofday, ne_eq, htv, htz, not_false_eq_true, not_true_eq_false, if_true, if_false,
      Mem.read32_write32_self]
    rw [Mem.read32_write32_apart _ _ hpair, Mem.read32_write32_self]
    exact ⟨hsec, husec⟩
  · obtain ⟨hforth, hback⟩ := hdisj.resolve_left htz
    have happart : ∀ d e : Addr, d = 0 ∨ d = 4 → e = 0 ∨ e = 4 → Mem.Apart (tz + d) (tv + e) := by
      rintro d e (rfl | rfl) (rfl | rfl)
      all_goals exact ⟨by bv_omega, by bv_omega⟩
    have h00 : Mem.Apart tz tv := by simpa using happart 0 0 (Or.inl rfl) (Or.inl rfl)
    have h04 : Mem.Apart tz (tv + 4) := by simpa using happart 0 4 (Or.inl rfl) (Or.inr rfl)
    have h40 : Mem.Apart (tz + 4) tv := by simpa using happart 4 0 (Or.inr rfl) (Or.inl rfl)
    have h44 := happart 4 4 (Or.inr rfl) (Or.inr rfl)
    simp only [sysGettimeofday, ne_eq, htv, htz, not_false_eq_true, if_true]
    rw [Mem.read32_write32_apart _ _ h40, Mem.read32_write32_apart _ _ h00, Mem.read32_write32_apart _ _ hpair,
      Mem.read32_write32_self, Mem.read32_write32_apart _ _ h44, Mem.read32_write32_apart _ _ h04,
      Mem.read32_write32_self]
    exact ⟨hsec, husec⟩

/-- `CURRENT_TIME` is the same. -/
theorem currentTime_eq (c : Clock) : currentTime c = c.startupTime + ctToSecs (c.jiffies + c.jiffiesOffset) :=
  rfl

/-- `stime` sets the seconds, and the time goes on within its second. -/
theorem sysStime_shows {ids : Ids} (c : Clock) (m : Mem) (tptr : Addr) (hroot : suser ids = true) :
    (sysStime ids tptr m c).1 = 0 ∧
      Shows (sysStime ids tptr m c).2 ⟨(m.read32 tptr).toInt, c.jiffies.toNat % 100 * 10000⟩ := by
  have heq : sysStime ids tptr m c
      = (0, { c with startupTime := m.read32 tptr - c.jiffies / HZ, jiffiesOffset := 0 }) := by
    simp only [sysStime, hroot, if_true]
  have hsum : c.jiffies + 0 = c.jiffies := BitVec.add_zero _
  rw [heq]
  refine ⟨rfl, ?_, ?_⟩
  · dsimp only
    rw [hsum, ctToSecs, BitVec.sub_add_cancel]
    exact (BitVec.ofInt_toInt).symm
  · dsimp only
    rw [hsum, ctToUsecs_toNat]

/-- **A clock that has been set shows the time set, and what has ticked since.** The seconds are those of the time as a
    word, and as a number if the offset is one that an unsigned word holds; `stime` sets the seconds. -/
theorem clock_set {ids : Ids} {c : Clock} {m m' : Mem} {tv tz tv' tz' : Addr} {k : Nat} (hroot : suser ids = true)
    (htv : tv ≠ 0) (husec : (m.read32 (tv + 4)).toNat < 1000000) (hj : c.jiffies.toNat + k < 2 ^ 32 - 100)
    (htv' : tv' ≠ 0) (hdisj : Disjoint tv' tz') :
    (let set := sysSettimeofday ids tv tz m c
     let now := Clock.tick^[k] set.2
     let t := Timeval.tickOn^[k] (Timeval.roundDown ⟨(m.read32 tv).toInt, (m.read32 (tv + 4)).toNat⟩)
     let got := sysGettimeofday tv' tz' m' now
     set.1 = 0 ∧ got.1 = 0 ∧
       got.2.read32 tv' = BitVec.ofInt 32 t.sec ∧ (got.2.read32 (tv' + 4)).toNat = t.usec ∧ t.usec < 1000000 ∧
       got.2.read32 tv' = currentTime now ∧
       (0 ≤ (m.read32 tv).toInt - (c.jiffies / HZ).toNat → ((got.2.read32 tv').toNat : Int) = t.sec)) ∧
    ∀ (c : Clock) (m m' : Mem) (tptr tloc : Addr),
      let set := sysStime ids tptr m c
      set.1 = 0 ∧ (sysTime tloc m' set.2).1 = m.read32 tptr ∧
        (sysGettimeofday tv' tz' m' set.2).2.read32 tv' = m.read32 tptr := by
  refine ⟨?_, ?_⟩
  · obtain ⟨hret, hshows, hsum⟩ := @sysSettimeofday_shows ids c m tv tz hroot htv husec (by omega)
    have hnow := hshows.iterate k (by omega)
    obtain ⟨hgot, hsec, husec'⟩ := sysGettimeofday_reads (m := m') hnow htv' hdisj
    refine ⟨hret, hgot, hsec, husec', Timeval.usec_iterate k ?_, ?_, ?_⟩
    · simp only [Timeval.roundDown]
      omega
    · rw [hsec, currentTime_eq, hnow.sec]
    · intro hrep
      -- the ticks are counted in a word, so that the seconds stay within one
      have hticks := Timeval.ticks_iterate k (Timeval.roundDown ⟨(m.read32 tv).toInt, (m.read32 (tv + 4)).toNat⟩)
      have husecs := Timeval.usec_iterate k
        (t := Timeval.roundDown ⟨(m.read32 tv).toInt, (m.read32 (tv + 4)).toNat⟩)
        (by simp only [Timeval.roundDown]; omega)
      have hmax := BitVec.toInt_lt (x := m.read32 tv)
      generalize Timeval.tickOn^[k] _ = t at *
      simp only [Timeval.ticks, Timeval.roundDown] at hticks
      rw [hsec, BitVec.toNat_ofInt]
      omega
  · intro c m m' tptr tloc
    obtain ⟨hret, hshows⟩ := sysStime_shows c m tptr hroot
    obtain ⟨-, hsec, -⟩ := sysGettimeofday_reads (m := m') hshows htv' hdisj
    have hnow : currentTime (sysStime ids tptr m c).2 = m.read32 tptr := by
      rw [currentTime_eq, hshows.sec]
      exact BitVec.ofInt_toInt
    exact ⟨hret, hnow, hsec.trans BitVec.ofInt_toInt⟩

/-- The clock is set to 700000000 seconds and 123456 microseconds in the middle of a second, and read two and a half
    seconds later. -/
theorem clock_set_later :
    let ids : Ids := ⟨0, 0, 0, 0, 0, 0⟩
    let m : Mem := (Mem.write32 (fun _ => 0) 4096 700000000).write32 4100 123456
    let now := Clock.tick^[250] (sysSettimeofday ids 4096 0 m ⟨12345, 0, 0, ⟨0, 0⟩, true⟩).2
    (sysGettimeofday 4096 0 m now).2.read32 4096 = 700000002 ∧
      ((sysGettimeofday 4096 0 m now).2.read32 4100).toNat = 620000 := by
  intro ids m now
  have h := (@clock_set ids ⟨12345, 0, 0, ⟨0, 0⟩, true⟩ m m 4096 0 4096 0 250 rfl (by decide) (by decide) (by decide)
    (by decide) (Or.inl rfl)).1
  have ht : Timeval.tickOn^[250] (Timeval.roundDown ⟨(m.read32 4096).toInt, (m.read32 4100).toNat⟩)
      = ⟨700000002, 620000⟩ := by decide +kernel
  obtain ⟨-, -, hsec, husec, -⟩ := h
  rw [show (4096 : Addr) + 4 = 4100 from rfl, ht] at hsec husec
  exact ⟨hsec, husec⟩

end TimeOfDay
end Kernel
end Linux095
