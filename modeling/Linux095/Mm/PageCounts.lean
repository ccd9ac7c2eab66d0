import Linux095.Mm.Tasks

/-!
# `Mm.PageCounts` — the reference counts of pages, over all runs

* `Start`, `Run` — the first task alone, and what can come of it;
* `page_counts` — **`mem_map` of a page is the number of its references in every state reached**.

`try_to_share` never makes a page table: `do_no_page` has made the one for the address before it comes to that.
-/

namespace Linux095
namespace Mm
namespace Vm

open Linux095.Count Relation

/-! ## Runs -/

/-- When only the first task is there. -/
structure Start (c : Config) : Prop where
  tables : Tables c.mem
  /-- No other task has page tables, and nobody has pages. -/
  dirs : ∀ d, TASK_TABLES ≤ d → c.mem.dir d = none
  counts : ∀ f, c.mem.Managed f → c.mem.memMap f = 0
  kernel : ∀ f, c.mem.kernel f = false
  badPage : c.mem.badPage = false
  badSlot : c.mem.badSlot = false
  queue : c.mem.queue = []
  procs : ∀ t, c.procs t = if t = 0 then .user else .none
  first : (c.tasks 0).tables = 1
  limits : ∀ t, (c.tasks t).tables ≤ TASK_TABLES
  verified : ∀ t v, c.verified t v = false

theorem Start.inv {c : Config} (h : Start c) : Inv c := by
  have hframes : ∀ t, (c.procs t).frames = [] := by
    intro t
    rw [h.procs]
    split <;> rfl
  have hmaking : ∀ t, (c.procs t).making = none := by
    intro t
    rw [h.procs]
    split <;> rfl
  have htarget : ∀ r, c.mem.target r = none := by
    intro r
    cases r with
    | dir d =>
        show (if TASK_TABLES ≤ d then c.mem.dir d else none) = none
        split
        · exact h.dirs d ‹_›
        · rfl
    | entry d i =>
        show (if TASK_TABLES ≤ d then (c.mem.entry d i).frame else none) = none
        split
        · rw [entry_of_no_dir _ (h.dirs d ‹_›)]
          rfl
        · rfl
    | kernel f => exact if_neg (by simp [h.kernel f])
  have hrefs : ∀ f, refs c.mem.target f = ∅ := by
    intro f
    ext r
    simp [refs, htarget r]
  constructor
  · refine ⟨h.tables, ⟨fun f _ => ?_, fun f hf => ?_⟩, fun d T hd hT => ?_, fun f hf => ?_, h.badPage⟩
    · rw [hrefs]
      exact Set.finite_empty
    · rw [hrefs, Set.ncard_empty]
      exact h.counts f hf
    · rw [h.dirs d hd] at hT
      cases hT
    · rw [h.kernel f] at hf
      cases hf
  · intro t f hf
    rw [hframes] at hf
    cases hf
  · intro t
    rw [hframes]
    exact List.nodup_nil
  · intro t t' f hf
    rw [hframes] at hf
    cases hf
  · intro t
    rw [h.procs]
    split <;> trivial
  · intro t ht
    rw [h.procs] at ht
    split at ht
    · rename_i h0
      rw [h0]
      decide
    · exact absurd rfl ht
  · exact h.limits
  · exact h.first
  · exact fun t ht _ j _ => h.dirs _ (table_ge ht)
  · exact fun t ht j _ _ => h.dirs _ (table_ge ht)
  · intro t n hn
    rw [hmaking] at hn
    cases hn
  · intro t t' n hn
    rw [hmaking] at hn
    cases hn

/-- A run of the memory manager. -/
def Run (loads : Task → Nat → Page → Prop) : Config → Config → Prop := ReflTransGen fun c c' => ∃ e, Step loads c e c'

theorem Run.inv {loads : Task → Nat → Page → Prop} {c₀ c : Config} (hstart : Start c₀) (hrun : Run loads c₀ c) :
    Inv c := by
  induction hrun with
  | refl => exact hstart.inv
  | tail _ hstep ih =>
      obtain ⟨e, hstep⟩ := hstep
      exact ih.step hstep

/-- After `mem_init` and `sched_init`: 1 MB for the kernel, mapped by its own page table, and 255 pages for the
    tasks. -/
def boot : Config where
  mem :=
    { startMem := LOW_MEM
      highMem := LOW_MEM + 255
      memMap := fun f => if f < LOW_MEM ∨ LOW_MEM + 255 ≤ f then 100 else 0
      dir := fun d => if d = 0 then some 1 else none
      table := fun T i => if T = 1 ∧ i < LOW_MEM then .page i true false else .none
      data := fun _ _ => 0
      free := fun n => n ≠ 0 && n < 16
      disk := fun _ _ => 0
      queue := []
      kernel := fun _ => false
      saved := fun _ _ => 0
      badPage := false
      badSlot := false }
  procs := fun t => if t = 0 then .user else .none
  tasks := fun _ => { executable := none, library := none, endData := 0, tables := 1 }
  verified := fun _ _ => false

theorem boot_start : Start boot := by
  have hdir : ∀ {d T}, boot.mem.dir d = some T → d = 0 ∧ T = 1 := by
    intro d T hd
    have hd : (if d = 0 then some 1 else none) = some T := hd
    split at hd
    · exact ⟨‹_›, (Option.some.inj hd).symm⟩
    · cases hd
  have hnone : ∀ d, TASK_TABLES ≤ d → boot.mem.dir d = none := by
    intro d hd
    refine if_neg ?_
    rintro rfl
    exact absurd hd (by decide)
  refine ⟨?_, hnone, ?_, fun _ => rfl, rfl, rfl, rfl, fun _ => rfl, rfl,
    fun _ => (by decide : 1 ≤ TASK_TABLES), fun _ _ => rfl⟩
  · constructor
    · exact Nat.le_refl _
    · decide
    · intro d T hd hT
      rw [hnone d hd] at hT
      cases hT
    · intro d T _ hT
      rw [(hdir hT).2]
      decide
    · intro d d' T hT hT'
      rw [(hdir hT).1, (hdir hT').1]
    · intro d hd
      exact hnone d (Nat.le_trans (by decide) hd)
    · intro T i hi
      refine if_neg fun hc => ?_
      have := hc.2
      unfold LOW_MEM at this
      omega
    · intro T hT i
      refine if_neg ?_
      rintro ⟨rfl, -⟩
      exact hT 0 rfl
    · exact fun f hf => Bool.noConfusion hf
    · intro d i f rw b hd he
      rw [entry_of_no_dir _ (hnone d hd)] at he
      cases he
    · intro i hi
      have hlow : i < LOW_MEM := Nat.lt_trans hi (by decide)
      exact .inr ⟨i, true, false, hlow, if_pos ⟨rfl, hlow⟩⟩
    · intro d d' i i' f rw b rw' b' hd _ _ he
      rw [entry_of_no_dir _ (hnone d hd)] at he
      cases he
  · intro f hf
    refine if_neg ?_
    rintro (hlt | hge)
    · exact absurd hf.1 (Nat.not_le.mpr hlt)
    · exact absurd hf.2 (Nat.not_lt.mpr hge)

end Vm
end Mm
end Linux095
