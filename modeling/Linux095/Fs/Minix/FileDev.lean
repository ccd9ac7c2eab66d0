import Linux095.Fs.Minix.Bmap

/-!
# `Fs.Minix.FileDev` — reading and writing files (`fs/minix/file_dev.c`)

* `minixFileWrite`, `minixFileRead` — the source's loops over the blocks of the file;
* `Contents` — what a file is for: bytes at positions, zeros where nothing was written, and a size;
* `serve_refines` — one call does to the `Contents` what its answer says;
* `file_refines` — **any sequence of calls refines `Contents`**, and a call on positions that can be mapped always
  returns.
-/

namespace Linux095
namespace Fs
namespace Minix
namespace FileDev

open Zones

def ENOSPC : Int := 28

/-- The first position that no block of a file holds. -/
def maxPos : Nat := maxBlock * BLOCK_SIZE

/-- A file system with the sizes of its inodes. -/
structure Files where
  vol : Volume
  iSize : Nat → Nat

/-- What a call uses of a `struct file`. -/
structure Filp where
  fPos : Nat
  /-- `f_flags & O_APPEND`. -/
  append : Bool
  deriving DecidableEq

/-- `*(p++) = get_fs_byte(buf++)` for the bytes `data`. -/
def store (s : Volume) (z off : Nat) (data : List Byte) : Volume :=
  s.setBlock z fun o => if off ≤ o ∧ o < off + data.length then data.getD (o - off) 0 else s.block z o

def setSize (s : Files) (ino n : Nat) : Files := { s with iSize := fun i => if i = ino then n else s.iSize i }

/-- The loop of `minix_file_write`; `buf` is what is left to write, and each turn writes at least a byte. -/
def writeLoop (ino : Nat) : Nat → Int → Nat → List Byte → Files → Option (Int × Nat × Files)
  | 0, written, pos, _, s => some (written, pos, s)
  | fuel + 1, written, pos, buf, s =>
      if buf = [] then some (written, pos, s)
      else
        match s.vol.bmap true ino (pos / BLOCK_SIZE) with
        | none => none
        | some (block, vol) =>
            if block = 0 then some (if written = 0 then -ENOSPC else written, pos, { s with vol := vol })
            else
              let c := min (BLOCK_SIZE - pos % BLOCK_SIZE) buf.length
              let s1 : Files := { s with vol := store vol block (pos % BLOCK_SIZE) (buf.take c) }
              let s2 := if s.iSize ino < pos + c then setSize s1 ino (pos + c) else s1
              writeLoop ino fuel (written + c) (pos + c) (buf.drop c) s2

/-- `minix_file_write`. -/
def minixFileWrite (ino : Nat) (filp : Filp) (buf : List Byte) (s : Files) : Option (Int × Filp × Files) :=
  let pos := if filp.append then s.iSize ino else filp.fPos
  match writeLoop ino buf.length 0 pos buf s with
  | none => none
  | some (written, pos', s') =>
      some (written, if filp.append then filp else { filp with fPos := pos' }, s')

/-- The loop of `minix_file_read`; `out` is what `put_fs_byte` has stored so far. -/
def readLoop (ino : Nat) : Nat → Nat → Nat → List Byte → Files → Option (Nat × List Byte)
  | 0, fPos, _, out, _ => some (fPos, out)
  | fuel + 1, fPos, left, out, s =>
      if left = 0 then some (fPos, out)
      else
        match s.vol.bmap false ino (fPos / BLOCK_SIZE) with
        | none => none
        | some (nr, vol) =>
            let chars := min (BLOCK_SIZE - fPos % BLOCK_SIZE) left
            let bytes := (List.range chars).map fun i => if nr = 0 then 0 else vol.block nr (fPos % BLOCK_SIZE + i)
            readLoop ino fuel (fPos + chars) (left - chars) (out ++ bytes) s

/-- `minix_file_read`. -/
def minixFileRead (ino : Nat) (filp : Filp) (count : Nat) (s : Files) : Option (Int × List Byte × Filp) :=
  let left := if s.iSize ino < filp.fPos then 0 else s.iSize ino - filp.fPos
  let left := min left count
  match readLoop ino left filp.fPos left [] s with
  | none => none
  | some (fPos, out) => some (out.length, out, { filp with fPos := fPos })

/-! ## What a file is for -/

/-- A file: its bytes, those of the holes and those past the end too, and where it ends. -/
structure Contents where
  byte : Nat → Byte
  size : Nat

namespace Contents

/-- A file nothing was written to. -/
def empty : Contents := ⟨fun _ => 0, 0⟩

def put (c : Contents) (pos : Nat) (data : List Byte) : Contents where
  byte i := if pos ≤ i ∧ i < pos + data.length then data.getD (i - pos) 0 else c.byte i
  size := if data = [] then c.size else max c.size (pos + data.length)

def get (c : Contents) (pos count : Nat) : List Byte :=
  (List.range (min (c.size - pos) count)).map fun i => c.byte (pos + i)

end Contents

inductive Call where
  | read (ino : Nat) (filp : Filp) (count : Nat)
  | write (ino : Nat) (filp : Filp) (buf : List Byte)

structure Reply where
  ret : Int
  out : List Byte
  filp : Filp
  deriving DecidableEq

/-- What an answer says about the files. -/
inductive Answers : (Nat → Contents) → Call → Reply → (Nat → Contents) → Prop
  /-- A read returns the bytes up to the end of the file. -/
  | read (fs : Nat → Contents) (ino : Nat) (filp : Filp) (count : Nat) :
      Answers fs (.read ino filp count)
        ⟨((fs ino).get filp.fPos count).length, (fs ino).get filp.fPos count,
          { filp with fPos := filp.fPos + ((fs ino).get filp.fPos count).length }⟩ fs
  /-- A write has written the first `k` bytes, and all of them or none when it says so. -/
  | write (fs : Nat → Contents) (ino : Nat) (filp : Filp) (buf : List Byte) (k : Nat) (hk : k ≤ buf.length) :
      Answers fs (.write ino filp buf)
        ⟨if k = 0 ∧ buf ≠ [] then -ENOSPC else k, [],
          if filp.append then filp else { filp with fPos := filp.fPos + k }⟩
        (Function.update fs ino ((fs ino).put (if filp.append then (fs ino).size else filp.fPos) (buf.take k)))

/-- The code's answer. -/
def serve : Call → Files → Option (Reply × Files)
  | .read ino filp count, s => (minixFileRead ino filp count s).map fun r => (⟨r.1, r.2.1, r.2.2⟩, s)
  | .write ino filp buf, s => (minixFileWrite ino filp buf s).map fun r => (⟨r.1, [], r.2.1⟩, r.2.2)

/-- The files of a file system. -/
def contentsOf (s : Files) (ino : Nat) : Contents where
  byte i := if i < maxPos then blockByte s.vol ino (i / BLOCK_SIZE) (i % BLOCK_SIZE) else 0
  size := s.iSize ino

/-- A file system whose files end where they can. -/
structure Wf (s : Files) : Prop where
  owned : Owned s.vol
  size : ∀ ino, s.iSize ino ≤ maxPos

/-! ## `Contents` -/

namespace Contents

theorem eq_of {c c' : Contents} (hb : ∀ i, c.byte i = c'.byte i) (hs : c.size = c'.size) : c = c' := by
  obtain ⟨f, n⟩ := c
  obtain ⟨g, m⟩ := c'
  obtain rfl : f = g := funext hb
  obtain rfl : n = m := hs
  rfl

theorem put_nil (c : Contents) (pos : Nat) : c.put pos [] = c := by
  refine eq_of (fun i => if_neg ?_) ?_
  · simp only [List.length_nil]
    omega
  · simp [put]

theorem put_put (c : Contents) (pos : Nat) (a b : List Byte) :
    (c.put pos a).put (pos + a.length) b = c.put pos (a ++ b) := by
  refine eq_of (fun i => ?_) ?_
  · unfold put
    dsimp only
    rw [List.length_append]
    by_cases hb : pos + a.length ≤ i ∧ i < pos + a.length + b.length
    · rw [if_pos hb, if_pos (by omega), List.getD_append_right _ _ _ _ (by omega)]
      congr 1
      omega
    · rw [if_neg hb]
      by_cases ha : pos ≤ i ∧ i < pos + a.length
      · rw [if_pos ha, if_pos (by omega), List.getD_append _ _ _ _ (by omega)]
      · rw [if_neg ha, if_neg (by omega)]
  · unfold put
    dsimp only
    rw [List.length_append]
    cases b with
    | nil => simp
    | cons y b =>
        cases a with
        | nil => simp
        | cons x a =>
            simp only [reduceCtorEq, if_false, List.cons_append, List.length_cons]
            omega

end Contents

/-! ## One turn of the loop of `minix_file_write` -/

/-- The zone of a block holds data, so that writing to it changes no slot. -/
theorem store_vals {s : Volume} (h : Owned s) {ino b : Nat} (hb : b < maxBlock) (h0 : blockZone s ino b ≠ 0)
    (off : Nat) (data : List Byte) (sl : Slot) (d : Nat) (hl : Live s sl d) :
    (store s (blockZone s ino b) off data).val sl = s.val sl :=
  val_setBlock (fun _ _ => not_entry_zoneAt h (slotPath_ok hb) h0) _ sl d hl

theorem store_owned {s : Volume} (h : Owned s) {ino b : Nat} (hb : b < maxBlock) (h0 : blockZone s ino b ≠ 0)
    (off : Nat) (data : List Byte) : Owned (store s (blockZone s ino b) off data) :=
  h.setBlock (fun _ _ => not_entry_zoneAt h (slotPath_ok hb) h0) _

/-- Writing to the zone of a block writes to that block of that file. -/
theorem blockByte_store {s : Volume} (h : Owned s) {ino b : Nat} (hb : b < maxBlock) (h0 : blockZone s ino b ≠ 0)
    (off : Nat) (data : List Byte) {ino' b' : Nat} (hb' : b' < maxBlock) (o : Nat) :
    blockByte (store s (blockZone s ino b) off data) ino' b' o =
      if ino' = ino ∧ b' = b ∧ off ≤ o ∧ o < off + data.length then data.getD (o - off) 0
      else blockByte s ino' b' o := by
  have hz : blockZone (store s (blockZone s ino b) off data) ino' b' = blockZone s ino' b' :=
    zoneAt_of_vals (store_vals h hb h0 off data) (slotPath_ok hb')
  unfold blockByte
  rw [hz]
  by_cases h0' : blockZone s ino' b' = 0
  · rw [if_pos h0', if_pos h0', if_neg]
    rintro ⟨rfl, rfl, -⟩
    exact h0 h0'
  · rw [if_neg h0', if_neg h0']
    by_cases he : blockZone s ino' b' = blockZone s ino b
    · obtain ⟨rfl, rfl⟩ := blockZone_inj h hb' hb h0' he
      unfold store Volume.setBlock
      simp only [if_true, true_and]
    · unfold store Volume.setBlock
      dsimp only
      rw [if_neg he, if_neg]
      rintro ⟨rfl, rfl, -⟩
      exact he rfl

/-- The same by positions in the file, for bytes that lie in one block. -/
theorem byte_store {s : Volume} (h : Owned s) {ino pos : Nat} (hb : pos / BLOCK_SIZE < maxBlock)
    (h0 : blockZone s ino (pos / BLOCK_SIZE) ≠ 0) {data : List Byte}
    (hfit : pos % BLOCK_SIZE + data.length ≤ BLOCK_SIZE) (ino' : Nat) {x : Nat} (hx : x < maxPos) :
    blockByte (store s (blockZone s ino (pos / BLOCK_SIZE)) (pos % BLOCK_SIZE) data) ino' (x / BLOCK_SIZE)
        (x % BLOCK_SIZE) =
      if ino' = ino ∧ pos ≤ x ∧ x < pos + data.length then data.getD (x - pos) 0
      else blockByte s ino' (x / BLOCK_SIZE) (x % BLOCK_SIZE) := by
  have hxb : x / BLOCK_SIZE < maxBlock := by
    unfold maxPos BLOCK_SIZE at *
    omega
  rw [blockByte_store h hb h0 _ _ hxb]
  unfold BLOCK_SIZE at *
  by_cases hin : ino' = ino ∧ pos ≤ x ∧ x < pos + data.length
  · rw [if_pos hin, if_pos ⟨hin.1, by omega, by omega, by omega⟩]
    congr 1
    omega
  · rw [if_neg hin, if_neg]
    rintro ⟨hi, hblk, hlo, hhi⟩
    exact hin ⟨hi, by omega, by omega⟩

/-- What `_bmap` found for the block, and the bytes of the turn stored there. -/
theorem turn {s : Files} (h : Wf s) {ino pos block : Nat} {vol : Volume} (hb : pos / BLOCK_SIZE < maxBlock)
    (hm : Mapped true ino (pos / BLOCK_SIZE) s.vol block vol) (h0 : block ≠ 0) {data : List Byte}
    (hd : data ≠ []) (hfit : pos % BLOCK_SIZE + data.length ≤ BLOCK_SIZE) :
    let s1 : Files := { s with vol := store vol block (pos % BLOCK_SIZE) data }
    let s2 := if s.iSize ino < pos + data.length then setSize s1 ino (pos + data.length) else s1
    Wf s2 ∧ contentsOf s2 = Function.update (contentsOf s) ino ((contentsOf s ino).put pos data) := by
  intro s1 s2
  have hg := hm.grows
  obtain rfl := hm.zone
  have hvol : s2.vol = store vol (blockZone vol ino (pos / BLOCK_SIZE)) (pos % BLOCK_SIZE) data := by
    show (if _ then _ else _ : Files).vol = _
    split <;> rfl
  have hend : pos + data.length ≤ maxPos := by
    unfold maxPos BLOCK_SIZE at *
    omega
  have hsize : ∀ i, s2.iSize i = if i = ino then max (s.iSize ino) (pos + data.length) else s.iSize i := by
    intro i
    show (if _ then _ else _ : Files).iSize i = _
    by_cases hlt : s.iSize ino < pos + data.length
    · rw [if_pos hlt, max_eq_right (by omega)]
      rfl
    · rw [if_neg hlt, max_eq_left (by omega)]
      split <;> simp_all [s1]
  refine ⟨⟨?_, ?_⟩, ?_⟩
  · rw [hvol]
    exact store_owned hg.owned hb h0 _ _
  · intro i
    rw [hsize]
    have := h.size i
    have := h.size ino
    split <;> omega
  · funext i
    refine Contents.eq_of (fun x => ?_) ?_
    · unfold contentsOf
      dsimp only
      rw [hvol]
      by_cases hx : x < maxPos
      · have hxb : x / BLOCK_SIZE < maxBlock := by
          unfold maxPos BLOCK_SIZE at *
          omega
        rw [if_pos hx, byte_store hg.owned hb h0 hfit i hx, hg.bytes _ _ _ hxb]
        by_cases hi : i = ino
        · subst hi
          rw [Function.update_self]
          unfold Contents.put
          dsimp only
          rw [if_pos hx]
          simp only [true_and]
        · rw [Function.update_of_ne hi, if_neg (fun hc => hi hc.1)]
          exact (if_pos hx).symm
      · rw [if_neg hx]
        by_cases hi : i = ino
        · subst hi
          rw [Function.update_self]
          unfold Contents.put
          dsimp only
          rw [if_neg (by omega), if_neg hx]
        · rw [Function.update_of_ne hi]
          exact (if_neg hx).symm
    · show s2.iSize i = _
      rw [hsize]
      by_cases hi : i = ino
      · subst hi
        rw [if_pos rfl, Function.update_self]
        exact (if_neg hd).symm
      · rw [if_neg hi, Function.update_of_ne hi]
        rfl

/-- **The loop of `minix_file_write`** writes a prefix of the bytes, and the whole of them unless no zone is free. -/
theorem writeLoop_spec {ino fuel written pos : Nat} {buf : List Byte} {s s' : Files} {w : Int} {pos' : Nat}
    (h : Wf s) (hfuel : buf.length ≤ fuel) (hrun : writeLoop ino fuel written pos buf s = some (w, pos', s')) :
    ∃ k ≤ buf.length, Wf s' ∧ pos' = pos + k ∧
      w = (if written + k = 0 ∧ buf ≠ [] then -ENOSPC else (written + k : Nat)) ∧
      contentsOf s' = Function.update (contentsOf s) ino ((contentsOf s ino).put pos (buf.take k)) ∧
      (k < buf.length → Full s'.vol) := by
  induction fuel generalizing written pos buf s with
  | zero =>
      obtain rfl : buf = [] := List.eq_nil_of_length_eq_zero (by omega)
      obtain ⟨rfl, rfl, rfl⟩ : (written : Int) = w ∧ pos = pos' ∧ s = s' := by simpa [writeLoop] using hrun
      exact ⟨0, by simp, h, rfl, by simp, by simp [Contents.put_nil], by simp⟩
  | succ fuel ih =>
      unfold writeLoop at hrun
      by_cases hnil : buf = []
      · subst hnil
        obtain ⟨rfl, rfl, rfl⟩ : (written : Int) = w ∧ pos = pos' ∧ s = s' := by simpa using hrun
        exact ⟨0, by simp, h, rfl, by simp, by simp [Contents.put_nil], by simp⟩
      · rw [if_neg hnil] at hrun
        have hpos := List.length_pos_of_ne_nil hnil
        by_cases hb : pos / BLOCK_SIZE < maxBlock
        · obtain ⟨block, vol, hmap, hm⟩ := bmap_grows h.owned true ino hb
          rw [hmap] at hrun
          dsimp only at hrun
          by_cases h0 : block = 0
          · rw [if_pos h0] at hrun
            obtain ⟨rfl, rfl, rfl⟩ : (if (written : Int) = 0 then -ENOSPC else written) = w ∧ pos = pos' ∧
                ({ s with vol := vol } : Files) = s' := by simpa using hrun
            refine ⟨0, Nat.zero_le _, ⟨hm.grows.owned, h.size⟩, rfl, by simp [hnil], ?_, fun _ => hm.full rfl h0⟩
            rw [List.take_zero, Contents.put_nil, Function.update_eq_self]
            funext i
            refine Contents.eq_of (fun x => ?_) rfl
            unfold contentsOf
            dsimp only
            by_cases hx : x < maxPos
            · rw [if_pos hx, if_pos hx]
              refine hm.grows.bytes _ _ _ ?_
              unfold maxPos BLOCK_SIZE at *
              omega
            · rw [if_neg hx, if_neg hx]
          · rw [if_neg h0] at hrun
            -- the bytes of this turn, and the rest by induction
            have hlt : pos % BLOCK_SIZE < BLOCK_SIZE := Nat.mod_lt _ (by decide)
            obtain ⟨c, hcdef⟩ : ∃ c, c = min (BLOCK_SIZE - pos % BLOCK_SIZE) buf.length := ⟨_, rfl⟩
            rw [← hcdef] at hrun
            have hclen : (buf.take c).length = c := by
              rw [List.length_take]
              omega
            have hne : buf.take c ≠ [] := by
              intro he
              rw [he] at hclen
              simp only [List.length_nil] at hclen
              omega
            obtain ⟨hwf, hput⟩ := turn h hb hm h0 hne (by rw [hclen]; omega)
            rw [hclen] at hwf hput
            obtain ⟨k, hk, hwf', hpos', hw, hcont, hfull⟩ := ih hwf (by rw [List.length_drop]; omega) hrun
            rw [List.length_drop] at hk hfull
            refine ⟨c + k, by omega, hwf', by omega, ?_, ?_, fun hlt => hfull (by omega)⟩
            · rw [hw, if_neg (by omega), if_neg (by omega)]
              push_cast
              ring
            · rw [hcont, hput, Function.update_self, Function.update_idem, List.take_add]
              have := Contents.put_put (contentsOf s ino) pos (buf.take c) ((buf.drop c).take k)
              rw [hclen] at this
              rw [this]
        · have hnone : s.vol.bmap true ino (pos / BLOCK_SIZE) = none := if_pos (by unfold maxBlock at hb; omega)
          rw [hnone] at hrun
          cases hrun

/-- A write below the last position that can be mapped returns. -/
theorem writeLoop_returns (ino fuel : Nat) {pos : Nat} (written : Int) {buf : List Byte} {s : Files} (h : Wf s)
    (hfit : pos + buf.length ≤ maxPos) : ∃ r, writeLoop ino fuel written pos buf s = some r := by
  induction fuel generalizing written pos buf s with
  | zero => exact ⟨_, rfl⟩
  | succ fuel ih =>
      unfold writeLoop
      by_cases hnil : buf = []
      · rw [if_pos hnil]
        exact ⟨_, rfl⟩
      · rw [if_neg hnil]
        have hpos := List.length_pos_of_ne_nil hnil
        have hb : pos / BLOCK_SIZE < maxBlock := by
          unfold maxPos BLOCK_SIZE at *
          omega
        obtain ⟨block, vol, hmap, hm⟩ := bmap_grows h.owned true ino hb
        rw [hmap]
        dsimp only
        by_cases h0 : block = 0
        · rw [if_pos h0]
          exact ⟨_, rfl⟩
        · rw [if_neg h0]
          have hlt : pos % BLOCK_SIZE < BLOCK_SIZE := Nat.mod_lt _ (by decide)
          obtain ⟨c, hcdef⟩ : ∃ c, c = min (BLOCK_SIZE - pos % BLOCK_SIZE) buf.length := ⟨_, rfl⟩
          rw [← hcdef]
          have hclen : (buf.take c).length = c := by
            rw [List.length_take]
            omega
          have hne : buf.take c ≠ [] := by
            intro he
            rw [he] at hclen
            simp only [List.length_nil] at hclen
            omega
          obtain ⟨hwf, -⟩ := turn h hb hm h0 hne (by rw [hclen]; omega)
          rw [hclen] at hwf
          exact ih _ hwf (by rw [List.length_drop]; omega)

/-! ## The loop of `minix_file_read` -/

/-- **The loop of `minix_file_read`** returns the bytes of the file. -/
theorem readLoop_spec {ino fuel fPos left : Nat} {out : List Byte} {s : Files} (hfuel : left ≤ fuel)
    (hfit : fPos + left ≤ maxPos) :
    readLoop ino fuel fPos left out s =
      some (fPos + left, out ++ (List.range left).map fun i => (contentsOf s ino).byte (fPos + i)) := by
  induction fuel generalizing fPos left out with
  | zero =>
      obtain rfl : left = 0 := by omega
      simp [readLoop]
  | succ fuel ih =>
      unfold readLoop
      by_cases h0 : left = 0
      · subst h0
        simp
      · rw [if_neg h0]
        have hb : fPos / BLOCK_SIZE < maxBlock := by
          unfold maxPos BLOCK_SIZE at *
          omega
        rw [bmap_false ino hb]
        dsimp only
        have hlt : fPos % BLOCK_SIZE < BLOCK_SIZE := Nat.mod_lt _ (by decide)
        obtain ⟨c, hc⟩ : ∃ c, c = min (BLOCK_SIZE - fPos % BLOCK_SIZE) left := ⟨_, rfl⟩
        obtain ⟨m, rfl⟩ : ∃ m, left = c + m := ⟨left - c, by omega⟩
        rw [← hc, ih (by omega) (by omega), List.range_add, List.map_append, List.append_assoc]
        congr 2
        · omega
        · congr 1
          have hbytes : ∀ i ∈ List.range c, (if blockZone s.vol ino (fPos / BLOCK_SIZE) = 0 then 0 else
              s.vol.block (blockZone s.vol ino (fPos / BLOCK_SIZE)) (fPos % BLOCK_SIZE + i)) =
              (contentsOf s ino).byte (fPos + i) := by
            intro i hi
            rw [List.mem_range] at hi
            unfold contentsOf blockByte
            have hdiv : (fPos + i) / BLOCK_SIZE = fPos / BLOCK_SIZE := by
              unfold BLOCK_SIZE at *
              omega
            have hmod : (fPos + i) % BLOCK_SIZE = fPos % BLOCK_SIZE + i := by
              unfold BLOCK_SIZE at *
              omega
            have hx : fPos + i < maxPos := by omega
            dsimp only
            rw [if_pos hx, hdiv, hmod]
          rw [List.map_congr_left hbytes, List.map_map]
          congr 2
          · funext i
            simp only [Function.comp_apply]
            congr 1
            omega
          · congr 1
            omega

/-! ## One call, and any sequence of calls -/

/-- **One call** does to the files what its answer says, and a write is short only when no zone is free. -/
theorem serve_refines {s s' : Files} (h : Wf s) {call : Call} {reply : Reply}
    (hserve : serve call s = some (reply, s')) :
    Wf s' ∧ Answers (contentsOf s) call reply (contentsOf s') ∧
      ∀ ino filp buf, call = .write ino filp buf → reply.ret < (buf.length : Int) → Full s'.vol := by
  cases call with
  | read ino filp count =>
      obtain ⟨left, hleft⟩ :
          ∃ left, left = min (if s.iSize ino < filp.fPos then 0 else s.iSize ino - filp.fPos) count :=
        ⟨_, rfl⟩
      have hmin : left = min (s.iSize ino - filp.fPos) count := by
        rw [hleft]
        congr 1
        split <;> omega
      have hsize := h.size ino
      unfold serve minixFileRead at hserve
      simp only [← hleft] at hserve
      by_cases h0 : left = 0
      · rw [h0] at hserve hmin
        obtain ⟨rfl, rfl⟩ := Prod.mk.inj (Option.some.inj hserve)
        refine ⟨h, ?_, fun ino filp buf hc => by cases hc⟩
        have := Answers.read (contentsOf s) ino filp count
        unfold Contents.get at this
        have hz : min ((contentsOf s ino).size - filp.fPos) count = 0 := hmin.symm
        rw [hz] at this
        simpa using this
      · rw [readLoop_spec le_rfl (by omega)] at hserve
        obtain ⟨rfl, rfl⟩ := Prod.mk.inj (Option.some.inj hserve)
        refine ⟨h, ?_, fun ino filp buf hc => by cases hc⟩
        have := Answers.read (contentsOf s) ino filp count
        unfold Contents.get at this
        have hz : min ((contentsOf s ino).size - filp.fPos) count = left := hmin.symm
        rw [hz] at this
        simpa using this
  | write ino filp buf =>
      unfold serve minixFileWrite at hserve
      cases hl : writeLoop ino buf.length 0 (if filp.append then s.iSize ino else filp.fPos) buf s with
      | none =>
          simp only [hl] at hserve
          cases hserve
      | some r =>
          obtain ⟨w, pos', s1⟩ := r
          simp only [hl] at hserve
          obtain ⟨rfl, rfl⟩ := Prod.mk.inj (Option.some.inj hserve)
          change writeLoop ino buf.length ((0 : Nat) : Int) _ buf s = some (w, pos', s1) at hl
          obtain ⟨k, hk, hwf, hpos', hw, hcont, hfull⟩ := writeLoop_spec h le_rfl hl
          refine ⟨hwf, ?_, ?_⟩
          · have ha := Answers.write (contentsOf s) ino filp buf k hk
            have hpos : (if filp.append then (contentsOf s ino).size else filp.fPos) =
                (if filp.append then s.iSize ino else filp.fPos) := rfl
            rw [hpos, ← hcont] at ha
            have hret : w = (if k = 0 ∧ buf ≠ [] then -ENOSPC else (k : Int)) := by
              rw [hw]
              simp
            have hfilp : (if filp.append then filp else { filp with fPos := pos' }) =
                (if filp.append then filp else { filp with fPos := filp.fPos + k }) := by
              by_cases ha : filp.append = true
              · rw [if_pos ha, if_pos ha]
              · rw [if_neg ha] at hpos'
                rw [if_neg ha, if_neg ha, hpos']
            rw [hret, hfilp]
            exact ha
          · intro ino' filp' buf' hc hlt
            cases hc
            refine hfull ?_
            rw [hw] at hlt
            dsimp only at hlt
            split at hlt
            · have := List.length_pos_of_ne_nil (‹_ ∧ _›.2)
              omega
            · omega

/-- Calls one after the other, with their answers. -/
inductive Trace : Files → List (Call × Reply) → Files → Prop
  | nil (s : Files) : Trace s [] s
  | snoc {s s' s'' : Files} {calls : List (Call × Reply)} {call : Call} {reply : Reply} (ht : Trace s calls s')
      (hserve : serve call s' = some (reply, s'')) : Trace s (calls ++ [(call, reply)]) s''

/-- The same for the files the calls are about. -/
inductive AnswersAll : (Nat → Contents) → List (Call × Reply) → (Nat → Contents) → Prop
  | nil (fs : Nat → Contents) : AnswersAll fs [] fs
  | snoc {fs fs' fs'' : Nat → Contents} {calls : List (Call × Reply)} {call : Call} {reply : Reply}
      (ht : AnswersAll fs calls fs') (ha : Answers fs' call reply fs'') :
      AnswersAll fs (calls ++ [(call, reply)]) fs''

/-- The positions a write is for can be mapped; a read never goes past the end of the file. -/
def Fits (s : Files) : Call → Prop
  | .read _ _ _ => True
  | .write ino filp buf => (if filp.append then s.iSize ino else filp.fPos) + buf.length ≤ maxPos

theorem serve_returns {s : Files} (h : Wf s) {call : Call} (hfit : Fits s call) : ∃ r, serve call s = some r := by
  cases call with
  | read ino filp count =>
      unfold serve minixFileRead
      dsimp only
      obtain ⟨left, hleft⟩ :
          ∃ left, left = min (if s.iSize ino < filp.fPos then 0 else s.iSize ino - filp.fPos) count :=
        ⟨_, rfl⟩
      rw [← hleft]
      have hsize := h.size ino
      by_cases h0 : left = 0
      · rw [h0]
        exact ⟨_, rfl⟩
      · have : filp.fPos + left ≤ maxPos := by
          split at hleft <;> omega
        rw [readLoop_spec le_rfl this]
        exact ⟨_, rfl⟩
  | write ino filp buf =>
      unfold serve minixFileWrite
      obtain ⟨r, hr⟩ := writeLoop_returns ino buf.length 0 h hfit
      dsimp only
      rw [hr]
      exact ⟨_, rfl⟩

/-- A file with no zones that ends at 0. -/
def Fresh (s : Files) (ino : Nat) : Prop := s.iSize ino = 0 ∧ ∀ k < 9, s.vol.iData ino k = 0

/-- A fresh file is empty. -/
theorem contentsOf_fresh {s : Files} {ino : Nat} (h : Fresh s ino) : contentsOf s ino = Contents.empty := by
  refine Contents.eq_of (fun i => ?_) h.1
  show (if i < maxPos then _ else _) = (0 : Byte)
  by_cases hi : i < maxPos
  · have hzero : blockZone s.vol ino (i / BLOCK_SIZE) = 0 := by
      have h7 := h.2 7 (by omega)
      have h8 := h.2 8 (by omega)
      unfold blockZone slotPath
      split
      · exact h.2 _ (by omega)
      · split
        · simp [zoneAt, Volume.val, h7]
        · simp [zoneAt, Volume.val, h8]
    rw [if_pos hi]
    exact if_pos hzero
  · rw [if_neg hi]

theorem Trace.wf {s s' : Files} {calls : List (Call × Reply)} (h : Wf s) (ht : Trace s calls s') : Wf s' := by
  induction ht with
  | nil => exact h
  | snoc _ hserve ih => exact (serve_refines ih hserve).1

/-- **Any sequence of reads and writes refines `Contents`**: the answers are those of byte sequences with holes, a
    fresh file being the empty one; calls on positions that can be mapped return; and a write that is short found
    no free zone. -/
theorem file_refines {s s' : Files} (h : Wf s) {calls : List (Call × Reply)} (ht : Trace s calls s') :
    AnswersAll (contentsOf s) calls (contentsOf s') ∧
      (∀ ino, Fresh s ino → contentsOf s ino = Contents.empty) ∧
      (∀ call, Fits s' call → ∃ reply s'', serve call s' = some (reply, s'')) ∧
      (∀ ino filp buf reply s'', serve (.write ino filp buf) s' = some (reply, s'') →
        reply.ret < (buf.length : Int) → Full s''.vol) := by
  refine ⟨?_, fun _ hf => contentsOf_fresh hf, ?_, ?_⟩
  · induction ht with
    | nil => exact .nil _
    | snoc ht hserve ih => exact .snoc ih (serve_refines (ht.wf h) hserve).2.1
  · intro call hfit
    obtain ⟨r, hr⟩ := serve_returns (ht.wf h) hfit
    exact ⟨r.1, r.2, hr⟩
  · intro ino filp buf reply s'' hserve hlt
    exact (serve_refines (ht.wf h) hserve).2.2 ino filp buf rfl hlt

/-- The files of a file system with nothing allocated. -/
def newFiles : Files := ⟨newVolume, fun _ => 0⟩

theorem newFiles_wf : Wf newFiles := ⟨newVolume_owned, fun _ => Nat.zero_le _⟩

/-- Three bytes written across the end of the direct blocks. -/
theorem file_refines_write : ∃ s', Trace newFiles [(.write 1 ⟨7167, false⟩ [1, 2, 3], ⟨3, [], ⟨7170, false⟩⟩)] s' ∧
    AnswersAll (contentsOf newFiles) [(.write 1 ⟨7167, false⟩ [1, 2, 3], ⟨3, [], ⟨7170, false⟩⟩)] (contentsOf s') := by
  have hserve : (serve (.write 1 ⟨7167, false⟩ [1, 2, 3]) newFiles).map Prod.fst = some ⟨3, [], ⟨7170, false⟩⟩ := by
    decide +kernel
  obtain ⟨⟨reply, s'⟩, hs, rfl⟩ := Option.map_eq_some_iff.mp hserve
  have ht : Trace newFiles [(.write 1 ⟨7167, false⟩ [1, 2, 3], _)] s' := .snoc (.nil _) hs
  exact ⟨s', ht, (file_refines newFiles_wf ht).1⟩

end FileDev
end Minix
end Fs
end Linux095
