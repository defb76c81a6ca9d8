import LarvaOS.Kernel.Reaping

/-!
# The memory in system calls on files

The operations on files write to free pages, which they give back, to the user page of
the current process, and to its kernel stack.  So they keep the pages apart, provided
that they find a free page and that their buffers lie in the user page.
-/

namespace LarvaOS

variable {image : Image} {k k' : Kernel} {q : Queues} {L : Layout} {xs ys : List ℕ} {a : ℕ}

/-- A free page at the head of the free list. -/
theorem Free.exists_cons {m : Memory} (h : Free image m xs) (hhead : m.freePageHead ≠ 0) :
  ∃ a ys, xs = a :: ys
  := by
  cases xs with
  | nil => exact absurd h.list hhead
  | cons a ys => exact ⟨a, ys, rfl⟩

theorem OnlyFiles.samePages (h : OnlyFiles k.scheduler k'.scheduler) (i : Slot) :
  Owned.SamePages k k' i
  where
  live := by
    have hstate := h.state i
    unfold Kernel.Live Process.Live Kernel.process
    rw [hstate]
  pageMap _ := h.pageMap i
  stack _ := h.stack i
  tf _ := h.tf i

namespace Owned

/-- Data and the files of processes change. -/
theorem of_files {ps : List ℕ} (h : Owned image k xs L) (hc : Changes ps k.memory k'.memory)
    (hps : ∀ p ∈ ps, Data L k xs p) (hfree : Free image k'.memory ys)
    (hcount : ∀ a, ys.count a ≤ xs.count a) (hv : FileSystem.SameDisk k.files k'.files)
    (hs : OnlyFiles k.scheduler k'.scheduler) :
  Owned image k' ys L
  := by
  have hmemory := h.of_memory hc hps hfree hcount
  apply hmemory.of_scheduler
  · rfl
  · exact hv
  · exact fun i => OnlyFiles.samePages (k := { k with memory := k'.memory }) hs i

/-- The page map in use is the one of the current process. -/
theorem pageMapRegister (h : Owned image k xs L)
    (hq : Queued k.scheduler q (some k.currentProc) none) (hidle : k.currentProc ≠ idleSlot) :
  k.scheduler.cr3 = virToPhy (L.space k.currentProc).map
  := by
  rw [← h.pageMap k.currentProc (hq.live_current hidle)]
  exact hq.pageMapRegister

/-- The pages of an address space and the free pages are different. -/
theorem space_nodup {i : Slot} (h : Owned image k xs L) (hi : k.Live i) :
  ((L.space i).pages ++ xs).Nodup
  := by
  apply (h.slot_nodup i).of_count_le
  intro x
  rw [slotPages_of_live hi]
  simp only [List.count_append, List.count_cons]
  omega

theorem data_user {i : Slot} (hi : k.Live i) :
  Data L k xs (L.space i).page
  := Or.inr ⟨i, hi, Or.inr rfl⟩

theorem data_free (ha : a ∈ xs) :
  Data L k xs a
  := Or.inl ha

/-! ### Open, Close, Read and Lstat -/

section
variable {proc : Slot}

theorem openFile_memory {fileName : List UInt8} {ret : Int} (h : Owned image k (a :: xs) L)
    (hrun : LarvaOS.openFile image proc fileName k = some (ret, k')) :
  Changes [a] k.memory k'.memory ∧ Free image k'.memory (a :: xs)
    ∧ FileSystem.SameDisk k.files k'.files
  := by
  obtain ⟨m, hfind, hfree, hchange⟩ := FileSystem.findFileInRootDir_spec h.sector h.free fileName
  rcases openFile_cases hrun with ⟨_, rfl⟩ | ⟨found, m', hfind', hcases⟩
  · exact ⟨Changes.refl _ _, h.free, FileSystem.SameDisk.refl _⟩
  · obtain ⟨rfl, rfl⟩ := Prod.mk.inj (Option.some.inj (hfind.symm.trans hfind'))
    rcases hcases with ⟨_, rfl⟩ | ⟨fd, d, c, entry, _, _, _, _, _, rfl⟩
    · exact ⟨hchange, hfree, FileSystem.SameDisk.refl _⟩
    · refine ⟨hchange, hfree, ?_⟩
      exact (FileSystem.SameDisk.setFCB _ _ _).trans (FileSystem.SameDisk.setFD _ _ _)

theorem openFile {fileName : List UInt8} {ret : Int} (h : Owned image k (a :: xs) L)
    (hproc : (k.process proc).state ≠ .unused)
    (hrun : LarvaOS.openFile image proc fileName k = some (ret, k')) :
  Owned image k' (a :: xs) L
  := by
  obtain ⟨hchange, hfree, hv⟩ := h.openFile_memory hrun
  apply h.of_files hchange _ hfree (fun _ => le_rfl) hv (openFile_onlyFiles hproc hrun)
  intro p hp
  exact data_free (List.mem_singleton.mp hp ▸ List.mem_cons_self)

theorem closeFile {fd : Int} (h : Owned image k xs L) (hproc : (k.process proc).state ≠ .unused)
    (hrun : LarvaOS.closeFile proc fd k = some k') :
  Owned image k' xs L
  := by
  have hmemory : k'.memory = k.memory ∧ FileSystem.SameDisk k.files k'.files := by
    rcases closeFile_cases hrun with rfl | ⟨i, d, files, _, _, hdrop, rfl⟩
    · exact ⟨rfl, FileSystem.SameDisk.refl _⟩
    · exact ⟨rfl, FileSystem.SameDisk.dropReference hdrop⟩
  apply h.of_scheduler hmemory.1 hmemory.2
  exact fun i => (closeFile_onlyFiles hproc hrun).samePages i

theorem readFile_memory {fd size ret : Int} {buffer : ℕ} (h : Owned image k (a :: xs) L)
    (hq : Queued k.scheduler q (some k.currentProc) none) (hidle : k.currentProc ≠ idleSlot)
    (hfits : ReadFits k.currentProc fd buffer size k)
    (hrun : LarvaOS.readFile image k.currentProc fd buffer size k = some (ret, k')) :
  Changes [a, (L.space k.currentProc).page] k.memory k'.memory
    ∧ Free image k'.memory (a :: xs) ∧ FileSystem.SameDisk k.files k'.files
  := by
  have hlive := hq.live_current hidle
  rcases readFile_cases hrun with ⟨rfl, _⟩ | ⟨i, d, c, m, hi, hd, hc, hread, _, rfl⟩
  · exact ⟨Changes.refl _ _, h.free, FileSystem.SameDisk.refl _⟩
  · obtain ⟨hfit, hlo, hhi⟩ := hfits i d c hi hd hc
    rw [h.pageMapRegister hq hidle] at hread
    obtain ⟨m', hread', hfree, hchange, _⟩ := FileSystem.readRawData_spec
      (h.space k.currentProc hlive) h.kernelEnd.le (h.space_isPage hlive) (h.space_nodup hlive)
      h.free (FileSystem.readRawData_readable hread) hfit hlo hhi
    obtain rfl := Option.some.inj (hread'.symm.trans hread)
    exact ⟨hchange, hfree, FileSystem.SameDisk.setFD _ _ _⟩

theorem data_transfer (hlive : k.Live k.currentProc) :
  ∀ p ∈ [a, (L.space k.currentProc).page], Data L k (a :: xs) p
  := by
  intro p hp
  simp only [List.mem_cons, List.not_mem_nil, or_false] at hp
  rcases hp with rfl | rfl
  · exact data_free List.mem_cons_self
  · exact data_user hlive

/-- `Read` in the current process. -/
theorem readFile {fd size ret : Int} {buffer : ℕ} (h : Owned image k (a :: xs) L)
    (hq : Queued k.scheduler q (some k.currentProc) none) (hidle : k.currentProc ≠ idleSlot)
    (hfits : ReadFits k.currentProc fd buffer size k)
    (hrun : LarvaOS.readFile image k.currentProc fd buffer size k = some (ret, k')) :
  Owned image k' (a :: xs) L
  := by
  obtain ⟨hchange, hfree, hv⟩ := h.readFile_memory hq hidle hfits hrun
  apply h.of_files hchange (data_transfer (hq.live_current hidle)) hfree (fun _ => le_rfl) hv
  rw [readFile_scheduler hrun]
  exact OnlyFiles.refl _

theorem lstat_memory {statbuf : ℕ} {ret : Int} (h : Owned image k (a :: xs) L)
    (hq : Queued k.scheduler q (some k.currentProc) none) (hidle : k.currentProc ≠ idleSlot)
    (hlo : userVirtualAddressBase ≤ statbuf)
    (hhi : statbuf + sizeofDirEntry * k.files.rootEntries.length
      ≤ userVirtualAddressBase + pageSize)
    (hrun : LarvaOS.lstat image statbuf k = some (ret, k')) :
  ∃ m, k' = { k with memory := m } ∧ Changes [a, (L.space k.currentProc).page] k.memory m
    ∧ Free image m (a :: xs)
  := by
  have hlive := hq.live_current hidle
  obtain ⟨⟨total, m⟩, hlstat, hrun⟩ := Option.bind_eq_some_iff.mp hrun
  obtain ⟨rfl, rfl⟩ := Prod.mk.inj (Option.some.inj hrun)
  rw [h.pageMapRegister hq hidle] at hlstat
  obtain ⟨m', hlstat', hfree, hchange, _⟩ := FileSystem.lstat_spec
    (h.space k.currentProc hlive) h.kernelEnd.le (h.space_isPage hlive) (h.space_nodup hlive)
    h.free h.sector hlo hhi
  obtain ⟨_, rfl⟩ := Prod.mk.inj (Option.some.inj (hlstat'.symm.trans hlstat))
  exact ⟨m', rfl, hchange, hfree⟩

/-- `Lstat` in the current process. -/
theorem lstat {statbuf : ℕ} {ret : Int} (h : Owned image k (a :: xs) L)
    (hq : Queued k.scheduler q (some k.currentProc) none) (hidle : k.currentProc ≠ idleSlot)
    (hlo : userVirtualAddressBase ≤ statbuf)
    (hhi : statbuf + sizeofDirEntry * k.files.rootEntries.length
      ≤ userVirtualAddressBase + pageSize)
    (hrun : LarvaOS.lstat image statbuf k = some (ret, k')) :
  Owned image k' (a :: xs) L
  := by
  obtain ⟨m, rfl, hchange, hfree⟩ := h.lstat_memory hq hidle hlo hhi hrun
  exact h.of_memory hchange (data_transfer (hq.live_current hidle)) hfree (fun _ => le_rfl)

end

/-! ### Exec -/

/-- `Exit` keeps the pages apart. -/
theorem exit (h : Owned image k xs L) (hq : Queued k.scheduler q (some k.currentProc) none)
    (hidle : k.currentProc ≠ idleSlot) (hrun : k.exit = some k') :
  Owned image k' xs L
  := by
  obtain ⟨s, hexit, rfl⟩ := Kernel.exit_eq_some.mp hrun
  obtain ⟨s', hexit', _, hres, _⟩ := hq.exit hidle
  obtain rfl := Option.some.inj (hexit'.symm.trans hexit)
  exact h.schedule hres

/-- Bytes of the kernel stack or of the user page of a process change. -/
theorem change_live {m : Memory} {i : Slot} {p : ℕ} (h : Owned image k xs L) (hi : k.Live i)
    (hp : p = (k.process i).stack ∨ p = (L.space i).page) (hc : Changes [p] k.memory m)
    (hhead : m.freePageHead = k.memory.freePageHead) :
  Owned image { k with memory := m } xs L
  := by
  have hmem : p ∈ (k.process i).stack :: (L.space i).pages := by
    rcases hp with rfl | rfl
    · exact List.mem_cons_self
    · exact List.mem_cons_of_mem _ List.mem_cons_self
  apply h.of_memory hc _ _ (fun _ => le_rfl)
  · intro x hx
    rw [List.mem_singleton.mp hx]
    exact Or.inr ⟨i, hi, hp⟩
  · apply h.free.changes hc hhead
    · intro x hx
      rw [List.mem_singleton.mp hx]
      exact (h.isPage p (mem_held_of_live hi hmem)).aligned
    · intro x hx hfree
      rw [List.mem_singleton.mp hx] at hfree
      exact h.not_mem_held hfree (mem_held_of_live hi hmem)

theorem clearUser_memory {m : Memory} (h : Owned image k xs L)
    (hq : Queued k.scheduler q (some k.currentProc) none) (hidle : k.currentProc ≠ idleSlot)
    (hrun : memsetVirtual k.scheduler.cr3 userVirtualAddressBase 0 pageSize k.memory = some m) :
  Changes [(L.space k.currentProc).page] k.memory m ∧ m.freePageHead = k.memory.freePageHead
  := by
  have hlive := hq.live_current hidle
  rw [h.pageMapRegister hq hidle] at hrun
  obtain ⟨m', hrun', hchange, hhead⟩ := (h.space k.currentProc hlive).memsetVirtual (c := 0)
    h.kernelEnd.le (h.space_isPage hlive)
    (List.nodup_append.mp (h.space_nodup hlive)).1 le_rfl le_rfl
  obtain rfl := Option.some.inj (hrun'.symm.trans hrun)
  exact ⟨hchange, hhead⟩

/-- The user page is cleared. -/
theorem clearUser {m : Memory} (h : Owned image k xs L)
    (hq : Queued k.scheduler q (some k.currentProc) none) (hidle : k.currentProc ≠ idleSlot)
    (hrun : memsetVirtual k.scheduler.cr3 userVirtualAddressBase 0 pageSize k.memory = some m) :
  Owned image { k with memory := m } xs L
  := by
  obtain ⟨hchange, hhead⟩ := h.clearUser_memory hq hidle hrun
  exact h.change_live (hq.live_current hidle) (Or.inr rfl) hchange hhead

/-- The last part of `Exec` changes the kernel stack only. -/
theorem startExec_changes {i : Slot} (htf : (k.process i).tf = trapFrameAddress (k.process i).stack) :
  Changes [(k.process i).stack] k.memory (LarvaOS.startExec i k).memory
  := by
  have haddr := trapFrameAddress_eq (k.process i).stack
  have hframe : sizeofTrapFrame = 176 := rfl
  have hclear : Changes [(k.process i).stack] k.memory { k.memory with
      bytes := memset k.memory.bytes (trapFrameAddress (k.process i).stack) 0 sizeofTrapFrame } := by
    apply Changes.of_page
    intro x hx
    apply memset_of_outside
    unfold InPage at hx
    rw [pageSize_eq] at hx
    omega
  unfold LarvaOS.startExec
  rw [htf]
  exact hclear.trans (Memory.changes_startTrapFrame _ _)

/-- The last part of `Exec` keeps the pages apart. -/
theorem startExec {i : Slot} (h : Owned image k xs L) (hi : k.Live i) :
  Owned image (LarvaOS.startExec i k) xs L
  := h.change_live hi (Or.inl rfl) (startExec_changes (h.tf i hi)) rfl

/-- `Exec` up to its last part changes files, a free page and the user page. -/
theorem exec_memory {filename : List UInt8} (h : Owned image k (a :: xs) L)
    (hq : Queued k.scheduler q (some k.currentProc) none) (hidle : k.currentProc ≠ idleSlot)
    (hfits : ∀ fd size k₁, LarvaOS.openFile image k.currentProc filename k = some (fd, k₁) →
      getFileSize k.currentProc fd k₁ = some size →
      ReadFits k.currentProc fd userVirtualAddressBase size k₁)
    (hrun : LarvaOS.exec image k.currentProc filename k = some k') :
  ∃ k₁, Owned image k₁ (a :: xs) L
    ∧ Changes [a, (L.space k.currentProc).page] k.memory k₁.memory
    ∧ OnlyFiles k.scheduler k₁.scheduler
    ∧ (k₁.exit = some k' ∨ k' = LarvaOS.startExec k.currentProc k₁)
  := by
  have hproc := hq.current_used
  obtain ⟨fd, k₁, hopen, hcases⟩ := exec_cases hrun
  have h₁ := h.openFile hproc hopen
  have hfiles₁ := openFile_onlyFiles hproc hopen
  have hchange₁ : Changes [a, (L.space k.currentProc).page] k.memory k₁.memory :=
    (h.openFile_memory hopen).1.mono (by simp)
  rcases hcases with ⟨_, hexit⟩ | ⟨m, size, ret, k₂, hset, hsize, hread, hcases⟩
  · exact ⟨k₁, h₁, hchange₁, hfiles₁, Or.inl hexit⟩
  have hq₁ := hfiles₁.queued hq
  have hcurrent : k₁.currentProc = k.currentProc := hfiles₁.currentProc
  have hfits₁ := hfits fd size k₁ hopen hsize
  rw [← hcurrent] at hq₁ hidle hread hfits₁
  have hclear := (h₁.clearUser_memory hq₁ hidle hset).1
  have h₂ := (h₁.clearUser hq₁ hidle hset).readFile hq₁ hidle hfits₁ hread
  have htransfer := ((h₁.clearUser hq₁ hidle hset).readFile_memory hq₁ hidle hfits₁ hread).1
  have hfiles₂ : OnlyFiles k.scheduler k₂.scheduler := by
    rw [readFile_scheduler hread]
    exact hfiles₁
  have hchange₂ : Changes [a, (L.space k.currentProc).page] k.memory k₂.memory := by
    rw [← hcurrent] at hchange₁ ⊢
    exact (hchange₁.trans (hclear.mono (by simp))).trans htransfer
  rcases hcases with ⟨_, hexit⟩ | ⟨k₃, hclose, rfl⟩
  · exact ⟨k₂, h₂, hchange₂, hfiles₂, Or.inl hexit⟩
  have hproc₂ : (k₂.process k.currentProc).state ≠ .unused := by
    rw [Kernel.process, hfiles₂.state]
    exact hproc
  have hmemory : k₃.memory = k₂.memory := by
    rcases closeFile_cases hclose with rfl | ⟨i, d, files, _, _, _, rfl⟩
    · rfl
    · rfl
  refine ⟨k₃, h₂.closeFile hproc₂ hclose, ?_, hfiles₂.trans (closeFile_onlyFiles hproc₂ hclose),
    Or.inr rfl⟩
  rw [hmemory]
  exact hchange₂

/-- `Exec` in the current process. -/
theorem exec {filename : List UInt8} (h : Owned image k (a :: xs) L)
    (hq : Queued k.scheduler q (some k.currentProc) none) (hidle : k.currentProc ≠ idleSlot)
    (hfits : ∀ fd size k₁, LarvaOS.openFile image k.currentProc filename k = some (fd, k₁) →
      getFileSize k.currentProc fd k₁ = some size →
      ReadFits k.currentProc fd userVirtualAddressBase size k₁)
    (hrun : LarvaOS.exec image k.currentProc filename k = some k') :
  Owned image k' (a :: xs) L
  := by
  obtain ⟨k₁, h₁, _, hfiles, hexit | rfl⟩ := h.exec_memory hq hidle hfits hrun
  · have hq₁ := hfiles.queued hq
    have hcurrent : k₁.currentProc = k.currentProc := hfiles.currentProc
    rw [← hcurrent] at hq₁ hidle
    exact h₁.exit hq₁ hidle hexit
  · exact h₁.startExec ((hfiles.samePages _).live.mpr (hq.live_current hidle))

/-! ### Stores of programs -/

/-- A program stores to its user page only. -/
theorem store {v : ℕ} {c : UInt8} (h : Owned image k xs L)
    (hq : Queued k.scheduler q (some k.currentProc) none) (hidle : k.currentProc ≠ idleSlot)
    (hrun : k.store v c = some k') :
  Owned image k' xs L
  := by
  have hlive := hq.live_current hidle
  unfold Kernel.store at hrun
  rw [h.pageMapRegister hq hidle] at hrun
  split at hrun
  case h_1 m hstore =>
    obtain rfl := Option.some.inj hrun
    obtain ⟨hv, rfl⟩ := (h.space k.currentProc hlive).storeUser h.kernelEnd.le
      (h.space_isPage hlive) hstore
    exact h.change_live hlive (Or.inr rfl) (UserSpace.changes_store hv c) rfl
  case h_2 => exact h.exit hq hidle hrun

/-- A byte stored on the kernel stack. -/
theorem push {offset : ℕ} {c : UInt8} (h : Owned image k xs L)
    (hq : Queued k.scheduler q (some k.currentProc) none) (hidle : k.currentProc ≠ idleSlot)
    (hrun : k.push offset c = some k') :
  Owned image k' xs L
  := by
  unfold Kernel.push at hrun
  split at hrun
  case isFalse => cases hrun
  case isTrue hoffset =>
    obtain rfl := Option.some.inj hrun
    apply h.change_live (hq.live_current hidle) (Or.inl rfl)
    · apply Changes.of_page
      intro x hx
      apply Function.update_of_ne
      rintro rfl
      exact hx ⟨Nat.le_add_right _ _, Nat.add_lt_add_left hoffset _⟩
    · rfl

/-! ### Steps -/

/-- The operations of the scheduler keep the pages apart. -/
theorem scheduled {run : Scheduler → Option Scheduler} {s : Scheduler} (h : Owned image k xs L)
    (hs : run k.scheduler = some s) (hres : SameResources k.scheduler s)
    (hrun : k.schedule run = some k') :
  Owned image k' xs L
  := by
  obtain ⟨s', hs', rfl⟩ := Kernel.schedule_eq_some.mp hrun
  obtain rfl := Option.some.inj (hs.symm.trans hs')
  exact h.schedule hres

/-- Every step keeps the pages apart, and the address spaces of the processes. -/
theorem step {op : Operation} (h : Owned image k xs L) (hq : Consistent k.scheduler)
    (hallowed : Allowed op k) (hfits : Fits image op k) (hrun : k.step image op = some k') :
  ∃ ys L', Owned image k' ys L' ∧ ∀ j, k.Live j → L'.space j = L.space j
  := by
  obtain ⟨q, hq⟩ := hq
  cases op with
  | yield =>
      by_cases hready : q .readyProcList = []
      · exact ⟨xs, L, h.scheduled (hq.yield_nil hready) (SameResources.refl _) hrun, fun _ _ => rfl⟩
      · obtain ⟨s, hs, _, hres, _⟩ := hq.yield_cons hready
        exact ⟨xs, L, h.scheduled hs hres hrun, fun _ _ => rfl⟩
  | sleep waitId =>
      obtain ⟨s, hs, _, hres, _⟩ := hq.sleep (hallowed rfl) waitId
      exact ⟨xs, L, h.scheduled hs hres hrun, fun _ _ => rfl⟩
  | wakeup waitId =>
      obtain ⟨s, hs, _, hres, _⟩ := hq.wakeup waitId
      exact ⟨xs, L, h.scheduled hs hres hrun, fun _ _ => rfl⟩
  | exit => exact ⟨xs, L, h.exit hq (hallowed rfl) hrun, fun _ _ => rfl⟩
  | wait pid =>
      obtain ⟨ys, hys⟩ := h.wait hq (hallowed rfl) hrun
      exact ⟨ys, L, hys, fun _ _ => rfl⟩
  | fork =>
      obtain ⟨⟨ret, k₁⟩, hfork, rfl⟩ := Option.map_eq_some_iff.mp hrun
      exact h.fork hq (hallowed rfl) hfork
  | openFile fileName =>
      obtain ⟨⟨ret, k₁⟩, hopen, rfl⟩ := Option.map_eq_some_iff.mp hrun
      obtain ⟨a, ys, rfl⟩ := h.free.exists_cons hfits
      exact ⟨_, L, h.openFile hq.current_used hopen, fun _ _ => rfl⟩
  | closeFile fd => exact ⟨xs, L, h.closeFile hq.current_used hrun, fun _ _ => rfl⟩
  | readFile fd buffer size =>
      obtain ⟨⟨ret, k₁⟩, hread, rfl⟩ := Option.map_eq_some_iff.mp hrun
      obtain ⟨a, ys, rfl⟩ := h.free.exists_cons hfits.1
      exact ⟨_, L, h.readFile hq (hallowed rfl) hfits.2 hread, fun _ _ => rfl⟩
  | lstat statbuf =>
      obtain ⟨⟨ret, k₁⟩, hlstat, rfl⟩ := Option.map_eq_some_iff.mp hrun
      obtain ⟨a, ys, rfl⟩ := h.free.exists_cons hfits.1
      exact ⟨_, L, h.lstat hq (hallowed rfl) hfits.2.1 hfits.2.2 hlstat, fun _ _ => rfl⟩
  | exec filename =>
      obtain ⟨a, ys, rfl⟩ := h.free.exists_cons hfits.1
      exact ⟨_, L, h.exec hq (hallowed rfl) hfits.2 hrun, fun _ _ => rfl⟩
  | store v c => exact ⟨xs, L, h.store hq (hallowed rfl) hrun, fun _ _ => rfl⟩
  | push offset c => exact ⟨xs, L, h.push hq (hallowed rfl) hrun, fun _ _ => rfl⟩

end Owned

/-- In every reachable state the pages are apart. -/
theorem Reachable.owned {Ok : Operation → Kernel → Prop} {k₀ : Kernel}
    (hok : ∀ op k, Ok op k → Allowed op k ∧ Fits image op k) (hq : Consistent k₀.scheduler)
    (h : Owned image k₀ xs L) (hreach : Reachable (Kernel.step image) Ok k₀ k) :
  ∃ ys L', Owned image k ys L'
  := by
  have hinv : Consistent k.scheduler ∧ ∃ ys L', Owned image k ys L' := by
    apply hreach.invariant (P := fun k => Consistent k.scheduler ∧ ∃ ys L', Owned image k ys L')
    · rintro op k₁ k₂ ⟨hq₁, ys, L', howned⟩ hop hrun
      obtain ⟨hallowed, hfits⟩ := hok op k₁ hop
      obtain ⟨q, hq₁'⟩ := hq₁
      obtain ⟨zs, L₂, howned', _⟩ := howned.step ⟨q, hq₁'⟩ hallowed hfits hrun
      exact ⟨(Kernel.step_cases hq₁'.current_used hallowed hrun).consistent ⟨q, hq₁'⟩,
        zs, L₂, howned'⟩
    · exact ⟨hq, xs, L, h⟩
  exact hinv.2

end LarvaOS
