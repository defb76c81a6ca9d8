import LarvaOS.Kernel.Access

/-!
# Booting

`KMain` takes twelve pages from the free list: three for the first page map, which IDLE
keeps, two for the tables of open files, and seven for the shell.  When it succeeds, the
pages are apart, and the scheduler is consistent.
-/

namespace LarvaOS

variable {image : Image} {m m' : Memory} {xs ys : List ℕ} {k k' : Kernel}

/-! ### InitMemory -/

/-- The end of the free memory, when it is above the kernel base. -/
theorem Free.kernelEnd {a : ℕ} (hfree : Free image m (a :: xs))
    (hend : m.freeMemoryEndAddress = (m.freePageHead + pageSize) % 2 ^ 64)
    (hlt : kernelVirtualAddressBase < m.freeMemoryEndAddress) :
  ∃ n, KernelEnd m n
  := by
  have ha := hfree.isPage a List.mem_cons_self
  have hhead : m.freePageHead = a := hfree.list.1
  have haligned : a % pageSize = 0 := ha.aligned
  have hupper := ha.upper
  have hlower := ha.kernel
  rw [hhead] at hend
  rw [← hend] at hupper
  rw [kernelVirtualAddressBase_eq] at hlower hlt
  rw [pageSize_eq] at haligned hend
  rw [virtualAddressEnd_eq] at hupper
  have hn : totalTableEntries = 512 := rfl
  refine ⟨(m.freeMemoryEndAddress - kernelVirtualAddressBase) / 2097152, ?_, ?_, ?_⟩
  · rw [pageSize_eq, kernelVirtualAddressBase_eq]
    omega
  · rw [kernelVirtualAddressBase_eq]
    omega
  · rw [kernelVirtualAddressBase_eq, hn]
    omega

/-- A page map is only set up when the free memory ends above the kernel base. -/
theorem setupKVM_end {map : ℕ} (hrun : setupKVM image m = some (map, m')) (hmap : map ≠ 0) :
  ∃ page m₁, kalloc image m = some (page, m₁) ∧ page ≠ 0
    ∧ kernelVirtualAddressBase < m₁.freeMemoryEndAddress
  := by
  obtain ⟨⟨page, m₁⟩, hkalloc, hrun⟩ := Option.bind_eq_some_iff.mp hrun
  dsimp only at hrun
  by_cases hpage : page ≠ 0
  · rw [if_pos hpage] at hrun
    obtain ⟨⟨status, m₂⟩, hpages, _⟩ := Option.bind_eq_some_iff.mp hrun
    obtain ⟨_, hlt, _⟩ := Option.bind_eq_some_iff.mp hpages
    exact ⟨page, m₁, hkalloc, hpage, assert_eq_some.mp hlt⟩
  · rw [if_neg hpage] at hrun
    obtain ⟨rfl, _⟩ := Prod.mk.inj (Option.some.inj hrun)
    exact absurd rfl hmap

/-- `InitMemory` on a free list with three pages. -/
theorem initMemory_cons {n a b c : ℕ} (hend : KernelEnd k.memory n)
    (hfree : Free image k.memory (a :: b :: c :: xs)) :
  ∃ m', initMemory image k = some { k with
      memory := m', scheduler := { k.scheduler with cr3 := switchVM a } }
    ∧ Free image m' xs ∧ Changes [a, b, c] k.memory m' ∧ KernelSpace m' n a b c
  := by
  obtain ⟨m', hrun, hfree', hchange, hspace⟩ := setupKVM_cons hend hfree
  have ha := hfree.isPage a List.mem_cons_self
  refine ⟨m', ?_, hfree', hchange, hspace⟩
  unfold initMemory
  simp only [Option.bind_eq_bind]
  rw [hrun, Option.bind_some]
  dsimp only
  rw [assert_of ha.ne_zero, Option.bind_some]

/-- `InitMemory` succeeds only with three pages and an end above the kernel base. -/
theorem initMemory_pages (hfree : Free image k.memory xs)
    (hend : k.memory.freeMemoryEndAddress = (k.memory.freePageHead + pageSize) % 2 ^ 64)
    (hrun : initMemory image k = some k') :
  ∃ n a b c ys, KernelEnd k.memory n ∧ xs = a :: b :: c :: ys
  := by
  obtain ⟨⟨map, m₁⟩, hsetup, hrun⟩ := Option.bind_eq_some_iff.mp hrun
  obtain ⟨_, hmap, _⟩ := Option.bind_eq_some_iff.mp hrun
  have hmap' := assert_eq_some.mp hmap
  obtain ⟨page, m₂, hkalloc, hpage, hlt⟩ := setupKVM_end hsetup hmap'
  cases xs with
  | nil =>
      rw [hfree.kalloc_nil] at hkalloc
      obtain ⟨rfl, _⟩ := Prod.mk.inj (Option.some.inj hkalloc)
      exact absurd rfl hpage
  | cons a xs =>
      obtain ⟨m₃, hkalloc', _, _, hchange⟩ := hfree.kalloc_cons
      obtain ⟨_, rfl⟩ := Prod.mk.inj (Option.some.inj (hkalloc'.symm.trans hkalloc))
      rw [hchange.freeMemoryEndAddress] at hlt
      obtain ⟨n, hn⟩ := hfree.kernelEnd hend hlt
      rcases xs with _ | ⟨b, _ | ⟨c, ys⟩⟩
      · obtain ⟨_, _, hfail, _⟩ := setupKVM_fail hn hfree (by simp)
        rw [hfail] at hsetup
        cases hsetup
        exact absurd rfl hmap'
      · obtain ⟨_, _, hfail, _⟩ := setupKVM_fail hn hfree (by simp)
        rw [hfail] at hsetup
        cases hsetup
        exact absurd rfl hmap'
      · exact ⟨n, a, b, c, ys, hn, rfl⟩

/-! ### InitFileSystem -/

/-- The assertions of `InitFileSystem` on the first sector of the disk. -/
structure Bootable (disk : ℕ → UInt8) : Prop where
  boot : disk 510 = 0x55 ∧ disk 511 = 0xAA
  signature : (BPB.load disk 0).signature = 0x29
  sector : (BPB.load disk 0).bytesPerSector ≠ 0

/-- The parameter block depends on its bytes. -/
theorem BPB.load_congr {b b' : Bytes} {a a' : ℕ} (h : ∀ o, o < sectorSize → b' (a' + o) = b (a + o)) :
  BPB.load b' a' = BPB.load b a
  := by
  have hsize := sectorSize_eq
  have hread : ∀ n o, o + n ≤ sectorSize → Bytes.read n b' (a' + o) = Bytes.read n b (a + o) :=
    fun n o ho => Bytes.read_inside h ho
  unfold BPB.load
  rw [hread 2 11 (by omega), hread 1 13 (by omega), hread 2 14 (by omega), hread 1 16 (by omega),
    hread 2 17 (by omega), hread 2 22 (by omega), hread 1 38 (by omega)]

theorem BPB.load_bytesPerSector_lt (b : Bytes) (a : ℕ) :
  (BPB.load b a).bytesPerSector < 65536
  := Bytes.read_lt 2 b (a + 11)

/-- The first sector, read to the page `p`. -/
theorem load_firstSector (disk : ℕ → UInt8) (p : ℕ) (m : Memory) :
  BPB.load (diskReadSectors disk 0 1 p m).bytes p = BPB.load disk 0
    ∧ (diskReadSectors disk 0 1 p m).bytes (p + 510) = disk 510
    ∧ (diskReadSectors disk 0 1 p m).bytes (p + 511) = disk 511
  := by
  have hsize := sectorSize_eq
  have hbyte : ∀ o, o < sectorSize → (diskReadSectors disk 0 1 p m).bytes (p + o) = disk o := by
    intro o ho
    unfold diskReadSectors
    dsimp only
    rw [if_pos ⟨by omega, by omega⟩, Nat.add_sub_cancel_left]
    congr 1
    omega
  refine ⟨?_, hbyte 510 (by omega), hbyte 511 (by omega)⟩
  apply BPB.load_congr
  intro o ho
  rw [hbyte o ho, Nat.zero_add]

theorem changes_diskReadSectors {disk : ℕ → UInt8} {lba sectors p : ℕ}
    (hfit : sectors * sectorSize ≤ pageSize) (m : Memory) :
  Changes [p] m (diskReadSectors disk lba sectors p m)
  := by
  apply Changes.of_page
  intro x hx
  unfold InPage at hx
  rw [if_neg (by omega)]

/-- The file system after `InitFileSystem` with the tables in the pages `p` and `p'`. -/
def FileSystem.booted (disk : ℕ → UInt8) (p p' : ℕ) : FileSystem where
  disk := disk
  bpb := BPB.load disk 0
  fcbTable _ := FCB.zero
  fdTable _ := FD.zero
  fcbTableAddress := p
  fdTableAddress := p'

/-- `InitFileSystem` on a free list with two pages. -/
theorem initFileSystem_cons {files : FileSystem} {p p' : ℕ} (hfree : Free image m (p :: p' :: xs))
    (hdisk : Bootable files.disk) :
  ∃ m', initFileSystem image files m = some (FileSystem.booted files.disk p p', m')
    ∧ Free image m' xs ∧ Changes [p, p'] m m'
  := by
  have hp := hfree.isPage p List.mem_cons_self
  have hp' := hfree.isPage p' (by simp)
  obtain ⟨hmem, hnodup⟩ := List.nodup_cons.mp hfree.nodup
  have haligned : ∀ q ∈ [p], addrIsAligned q := by
    intro q hq
    rw [List.mem_singleton.mp hq]
    exact hp.aligned
  obtain ⟨m₁, hrun₁, hfree₁, _, hchange₁⟩ := hfree.kalloc_cons
  obtain ⟨hload, h510, h511⟩ := load_firstSector files.disk p m₁
  have hread : Changes [p] m₁ (diskReadSectors files.disk 0 1 p m₁) := by
    apply changes_diskReadSectors
    rw [pageSize_eq, sectorSize_eq]
    omega
  have hfree₂ : Free image (diskReadSectors files.disk 0 1 p m₁) (p' :: xs) := by
    apply hfree₁.changes hread rfl haligned
    intro q hq
    rwa [List.mem_singleton.mp hq]
  obtain ⟨m₂, hrun₂, hfree₃, hchange₂⟩ := hfree₂.kfree hp hmem
  obtain ⟨m₃, hrun₃, hfree₄, hchange₃, _⟩ := kalloc_clear hfree₃
  obtain ⟨m₄, hrun₄, hfree₅, hchange₄, _⟩ := kalloc_clear hfree₄
  refine ⟨m₄.clear p', ?_, hfree₅, ?_⟩
  · unfold initFileSystem
    simp only [Option.bind_eq_bind]
    rw [hrun₁, Option.bind_some]
    dsimp only
    rw [assert_of hp.ne_zero, Option.bind_some, h510, h511, assert_of hdisk.boot, Option.bind_some,
      hload, assert_of hdisk.signature, Option.bind_some, hrun₂, Option.bind_some,
      assert_of hdisk.sector, Option.bind_some, hrun₃, Option.bind_some]
    dsimp only
    rw [assert_of hp.ne_zero, Option.bind_some, hrun₄, Option.bind_some]
    dsimp only
    rw [assert_of hp'.ne_zero, Option.bind_some]
    rfl
  · apply Changes.trans _ (hchange₄.mono (by simp))
    apply Changes.trans _ (hchange₃.mono (by simp))
    apply Changes.trans _ (hchange₂.mono (by simp))
    exact (hchange₁.mono (List.nil_subset _)).trans (hread.mono (by simp))

/-- `InitFileSystem` succeeds only with a bootable disk and two pages. -/
theorem initFileSystem_pages {files files' : FileSystem} (hfree : Free image m xs)
    (hrun : initFileSystem image files m = some (files', m')) :
  Bootable files.disk ∧ ∃ p p' ys, xs = p :: p' :: ys
  := by
  obtain ⟨⟨p, m₁⟩, hrun₁, h⟩ := Option.bind_eq_some_iff.mp hrun
  obtain ⟨_, hp, h⟩ := Option.bind_eq_some_iff.mp h
  obtain ⟨_, hboot, h⟩ := Option.bind_eq_some_iff.mp h
  obtain ⟨_, hsignature, h⟩ := Option.bind_eq_some_iff.mp h
  obtain ⟨m₂, hkfree, h⟩ := Option.bind_eq_some_iff.mp h
  obtain ⟨_, hsector, h⟩ := Option.bind_eq_some_iff.mp h
  obtain ⟨⟨q, m₃⟩, hrun₃, h⟩ := Option.bind_eq_some_iff.mp h
  obtain ⟨_, hq, h⟩ := Option.bind_eq_some_iff.mp h
  obtain ⟨⟨q', m₄⟩, hrun₄, h⟩ := Option.bind_eq_some_iff.mp h
  obtain ⟨_, hq', h⟩ := Option.bind_eq_some_iff.mp h
  have hp := assert_eq_some.mp hp
  have hboot := assert_eq_some.mp hboot
  have hsignature := assert_eq_some.mp hsignature
  have hsector := assert_eq_some.mp hsector
  have hq' := assert_eq_some.mp hq'
  obtain ⟨hload, h510, h511⟩ := load_firstSector files.disk p m₁
  rw [h510, h511] at hboot
  dsimp only at hsignature hsector
  rw [hload] at hsignature hsector
  refine ⟨⟨hboot, hsignature, hsector⟩, ?_⟩
  rcases xs with _ | ⟨a, _ | ⟨b, ys⟩⟩
  · rw [hfree.kalloc_nil] at hrun₁
    obtain ⟨rfl, _⟩ := Prod.mk.inj (Option.some.inj hrun₁)
    exact absurd rfl hp
  · obtain ⟨m₅, hrun₅, hfree₅, _, hchange₅⟩ := hfree.kalloc_cons
    obtain ⟨rfl, rfl⟩ := Prod.mk.inj (Option.some.inj (hrun₅.symm.trans hrun₁))
    have ha := hfree.isPage a List.mem_cons_self
    have hfree₆ : Free image (diskReadSectors files.disk 0 1 a m₅) [] := ⟨hfree₅.list, by simp, by simp⟩
    obtain ⟨m₆, hrun₆, hfree₇, _⟩ := hfree₆.kfree ha (by simp)
    obtain rfl := Option.some.inj (hrun₆.symm.trans hkfree)
    obtain ⟨m₇, hrun₇, hfree₈, _, _⟩ := hfree₇.kalloc_cons
    obtain ⟨rfl, rfl⟩ := Prod.mk.inj (Option.some.inj (hrun₇.symm.trans hrun₃))
    have hfree₉ : Free image (m₇.clear a) [] := ⟨hfree₈.list, by simp, by simp⟩
    rw [hfree₉.kalloc_nil] at hrun₄
    obtain ⟨rfl, _⟩ := Prod.mk.inj (Option.some.inj hrun₄)
    exact absurd rfl hq'
  · exact ⟨a, b, ys, rfl⟩

/-! ### InitProcess -/

/-- The pages when IDLE is the only process. -/
theorem owned_idle {files : FileSystem} {cr3 : Fin (2 ^ 64)} {n a b c : ℕ}
    (hfree : Free image m xs) (hend : KernelEnd m n) (hspace : KernelSpace m n a b c)
    (hcr3 : phyToVir cr3 = a) (hsector : files.bpb.bytesPerSector ≤ pageSize)
    (hpages : ∀ p ∈ [files.fcbTableAddress, files.fdTableAddress, c, b, a], IsPage image p)
    (hnodup : (xs ++ [files.fcbTableAddress, files.fdTableAddress, c, b, a]).Nodup) :
  Owned image ⟨m, files, Scheduler.idle cr3⟩ xs ⟨n, b, c, fun _ => ⟨0, 0, 0, 0, 0, 0⟩⟩
  := by
  have hlive : ∀ i, ¬ Kernel.Live ⟨m, files, Scheduler.idle cr3⟩ i := by
    rintro i ⟨hi, hunused, _⟩
    apply hunused
    rw [Kernel.process, idle_process_of_ne cr3 hi]
    rfl
  have hslots : Layout.slotPages ⟨n, b, c, fun _ => ⟨0, 0, 0, 0, 0, 0⟩⟩
      ⟨m, files, Scheduler.idle cr3⟩ = fun _ => [] := by
    funext i
    exact if_neg (hlive i)
  have hmap : (Kernel.process ⟨m, files, Scheduler.idle cr3⟩ idleSlot).pageMap = a := by
    rw [Kernel.process, idle_process_self]
    exact hcr3
  have hheld : Layout.held ⟨n, b, c, fun _ => ⟨0, 0, 0, 0, 0, 0⟩⟩
      ⟨m, files, Scheduler.idle cr3⟩
      = [files.fcbTableAddress, files.fdTableAddress, c, b, a] := by
    unfold Layout.held Layout.kernelPages
    rw [hslots]
    simp [hmap]
  constructor
  · exact hfree
  · exact hend
  · exact hsector
  · rw [hheld]
    exact hpages
  · rw [hheld]
    exact hnodup
  · rw [hmap]
    exact hspace
  · exact fun i hi => absurd hi (hlive i)
  · exact fun i hi => absurd hi (hlive i)
  · exact fun i hi => absurd hi (hlive i)

/-- The first unused slot when IDLE is the only process. -/
theorem findFreeProcessSlot_idle (cr3 : Fin (2 ^ 64)) :
  findFreeProcessSlot (Scheduler.idle cr3) = some 1
  := rfl

/-- The shell's process, when its user page is set up. -/
theorem initShellProcess_eq {k₁ : Kernel} {i : Slot} {s : Scheduler}
    (hcreate : createNewProcess image k = some (some i, k₁))
    (hsetup : setupUVM image (k₁.process i).pageMap (phyToVir userInitProcessAddressBase)
      sizeOfInitProccess k₁.memory = some (true, m))
    (hpush : (k₁.scheduler.setState i .ready).pushReady i = some s) :
  initShellProcess image k = some { k₁ with memory := m, scheduler := s }
  := by
  unfold initShellProcess
  simp only [Option.bind_eq_bind]
  rw [hcreate, Option.bind_some]
  dsimp only
  rw [Option.bind_some, hsetup, Option.bind_some]
  dsimp only
  rw [assert_of rfl, Option.bind_some, hpush, Option.bind_some]

/-- `InitShellProcess` with seven free pages makes a process. -/
theorem Owned.initShellProcess_cons {q : Queues} {L : Layout} {a b c d p e f : ℕ} {i : Slot}
    (h : Owned image k (a :: b :: c :: d :: p :: e :: f :: xs) L)
    (hq : Queued k.scheduler q (some k.currentProc) none)
    (hfind : findFreeProcessSlot k.scheduler = some i) :
  ∃ k', initShellProcess image k = some k' ∧ Owned image k' xs (L.setSpace i ⟨b, c, d, e, f, p⟩)
    ∧ k'.currentProc = k.currentProc ∧ k'.files = k.files
    ∧ k'.process i = { (k.scheduler.newProcess i a b).process i with state := .ready }
    ∧ (∀ j, j ≠ i → k'.process j = k.process j)
    ∧ k'.scheduler.pidNum = int32 (k.scheduler.pidNum + 1)
    ∧ k'.scheduler.created = k.scheduler.created + 1
    ∧ Queued k'.scheduler (q.push .readyProcList i) (some k.currentProc) none
    ∧ StartedStack image k'.memory a
  := by
  obtain ⟨hunused, _, hi, hne⟩ := hq.free_slot hfind
  obtain ⟨m, hcreate, hmemory, hspace, hnodup, hpages, hchange, hstarted⟩ :=
    h.fork_create hq hfind
  obtain ⟨_, _, hq', _⟩ := hq.createNewProcess hcreate
  have hsize : sizeOfInitProccess ≤ pageSize := by
    rw [pageSize_eq]
    decide
  have hnodup' : ([b, c, d] ++ p :: e :: f :: xs).Nodup := by
    apply hnodup.of_count_le
    intro x
    simp only [List.count_append]
    omega
  obtain ⟨m', hsetup, hfree', hchange', hspace'⟩ :=
    @setupUVM_cons image m L.size xs b c d p e f (phyToVir userInitProcessAddressBase) _
      hspace hmemory.free hsize hpages hnodup'
  have hset := hq'.setProcess (p := { (k.scheduler.newProcess i a b).process i with
    state := .ready }) (Or.inr hne)
  obtain ⟨s, hpush, hprocess, hres, hcurrent, hqueued⟩ := hset.attach_ready
    (congrArg Process.state (Scheduler.setProcess_self _ _ _))
  have hrun := initShellProcess_eq hcreate (m := m') (s := s) (by
    rw [Kernel.process, newProcess_process]
    exact hsetup) hpush
  have hself : s.process i = { (k.scheduler.newProcess i a b).process i with state := .ready } :=
    (congrFun hprocess i).trans (Scheduler.setProcess_self _ _ _)
  have hothers : ∀ j, j ≠ i → s.process j = k.process j := by
    intro j hj
    apply (congrFun hprocess j).trans
    exact (Scheduler.setProcess_of_ne hj _ _).trans (newProcess_of_ne hj _ _ _)
  have hstarted' : StartedStack image m' a := by
    apply hstarted.changes hchange' h.free
    intro x hx
    simp only [List.mem_cons, List.not_mem_nil, or_false] at hx
    rcases hx with hx | hx | hx | hx <;> simp [hx]
  refine ⟨_, hrun, ?_, hcurrent, rfl, hself, hothers, hres.pidNum, hres.created, hqueued, hstarted'⟩
  apply h.grow hi (not_live_of_unused hunused)
  · refine ⟨hi, ?_, ?_⟩
    · rw [Kernel.process, hself]
      simp
    · rw [Kernel.process, hself]
      simp
  · exact FileSystem.SameDisk.refl _
  · exact fun j hj => SamePages.of_process (hothers j hj)
  · apply (hchange.mono _).trans (hchange'.mono _)
    · exact [a, b, c, d, p, e, f]
    · simp
    · simp
  · intro x hx
    simp only [List.mem_cons, List.not_mem_nil, or_false] at hx ⊢
    tauto
  · exact hfree'
  · intro x
    rw [Kernel.process, hself, newProcess_process]
    simp only [Space.pages, Space.tables, List.count_cons, List.count_nil]
    omega
  · exact hspace'
  · rw [Kernel.process, hself, newProcess_process]
  · rw [Kernel.process, hself, newProcess_process]

/-- `SetupUVM` succeeds only with three pages. -/
theorem setupUVM_pages {n map pdpt pd start size : ℕ} (h : KernelSpace m n map pdpt pd)
    (hfree : Free image m xs) (hpages : ∀ q ∈ [map, pdpt, pd], IsPage image q)
    (hnodup : ([map, pdpt, pd] ++ xs).Nodup)
    (hrun : setupUVM image map start size m = some (true, m')) :
  ∃ p d e ys, xs = p :: d :: e :: ys
  := by
  obtain ⟨⟨page, m₁⟩, hkalloc, hrun⟩ := Option.bind_eq_some_iff.mp hrun
  dsimp only at hrun
  cases xs with
  | nil =>
      rw [hfree.kalloc_nil] at hkalloc
      obtain ⟨rfl, _⟩ := Prod.mk.inj (Option.some.inj hkalloc)
      cases hrun
  | cons p xs =>
      have hp := hfree.isPage p List.mem_cons_self
      obtain ⟨m₂, hkalloc', hfree₁, hchange, _⟩ := kalloc_clear hfree
      obtain ⟨rfl, rfl⟩ := Prod.mk.inj (Option.some.inj (hkalloc'.symm.trans hkalloc))
      rw [if_neg hp.ne_zero] at hrun
      obtain ⟨⟨status, m₃⟩, hmap, hrun⟩ := Option.bind_eq_some_iff.mp hrun
      have hspace : KernelSpace (m₂.clear p) n map pdpt pd := by
        apply h.changes hchange
        · intro q hq
          rw [List.mem_singleton.mp hq]
          exact hp.aligned
        · exact fun q hq => (hpages q hq).aligned
        · intro q hq hmem
          rw [List.mem_singleton.mp hmem] at hq
          exact (List.nodup_append.mp hnodup).2.2 p hq p List.mem_cons_self rfl
      by_cases hlen : xs.length < 2
      · obtain ⟨_, m₄, m₅, _, hfail, hkfree, hvm, _⟩ := mapUser_fail hspace hfree₁ hlen hp hpages (by
          apply hnodup.of_count_le
          intro x
          simp only [List.count_append, List.count_cons]
          omega)
        rw [hmap] at hfail
        obtain ⟨rfl, rfl⟩ := Prod.mk.inj (Option.some.inj hfail)
        dsimp only at hrun
        rw [if_neg (by simp)] at hrun
        obtain ⟨m₆, _, hrun⟩ := Option.bind_eq_some_iff.mp hrun
        obtain ⟨m₇, _, hrun⟩ := Option.bind_eq_some_iff.mp hrun
        cases hrun
      · rcases xs with _ | ⟨d, _ | ⟨e, ys⟩⟩
        · simp at hlen
        · simp at hlen
        · exact ⟨p, d, e, ys, rfl⟩

/-- `InitShellProcess` succeeds only with seven pages. -/
theorem Owned.initShellProcess_pages {q : Queues} {L : Layout} {i : Slot}
    (h : Owned image k xs L) (hq : Queued k.scheduler q (some k.currentProc) none)
    (hfind : findFreeProcessSlot k.scheduler = some i)
    (hrun : initShellProcess image k = some k') :
  ∃ a b c d p e f ys, xs = a :: b :: c :: d :: p :: e :: f :: ys
  := by
  obtain ⟨j, k₁, m, s, hcreate, hsetup, _⟩ := initShellProcess_cases hrun
  cases xs with
  | nil =>
      rw [createNewProcess_nil hfind h.free] at hcreate
      cases hcreate
  | cons a xs =>
      by_cases hlen : xs.length < 3
      · obtain ⟨_, _, hfail, _⟩ := createNewProcess_fail hfind h.kernelEnd h.free hlen
        rw [hfail] at hcreate
        cases hcreate
      · obtain ⟨b, c, d, xs, rfl⟩ : ∃ b c d zs, xs = b :: c :: d :: zs := by
          rcases xs with _ | ⟨b, _ | ⟨c, _ | ⟨d, zs⟩⟩⟩
          · simp at hlen
          · simp at hlen
          · simp at hlen
          · exact ⟨b, c, d, zs, rfl⟩
        obtain ⟨m₁, hcreate', hmemory, hspace, hnodup, hpages, _⟩ := h.fork_create hq hfind
        obtain ⟨hij, rfl⟩ := Prod.mk.inj (Option.some.inj (hcreate'.symm.trans hcreate))
        obtain rfl := Option.some.inj hij
        rw [Kernel.process, newProcess_process] at hsetup
        obtain ⟨p, e, f, ys, rfl⟩ := setupUVM_pages hspace hmemory.free hpages (by
          apply hnodup.of_count_le
          intro x
          simp only [List.count_append]
          omega) hsetup
        exact ⟨a, b, c, d, p, e, f, ys, rfl⟩

/-! ### KMain -/

/-- The state after `KMain`: IDLE runs, and the shell is ready in the first slot. -/
structure Booted (image : Image) (disk : ℕ → UInt8) (k : Kernel) (xs : List ℕ) (L : Layout) :
    Prop where
  owned : Owned image k xs L
  queued : Queued k.scheduler (Queues.push (fun _ => []) .readyProcList 1) (some idleSlot) none
  currentProc : k.currentProc = idleSlot
  files : ∃ p p', k.files = FileSystem.booted disk p p'
  shell : (k.process 1).pid = 1 ∧ (k.process 1).file = fun _ => none
  idle : (k.process idleSlot).file = fun _ => none
  others : ∀ j, j ≠ idleSlot → j ≠ 1 → k.process j = Process.zero
  pidNum : k.scheduler.pidNum = 2
  created : k.scheduler.created = 1

/-- The process of a slot has not run. -/
def NotRun (image : Image) (k : Kernel) (i : Slot) : Prop :=
  (k.process i).context = contextAddress (k.process i).stack
    ∧ StartedStack image k.memory (k.process i).stack

theorem Booted.consistent {disk : ℕ → UInt8} {L : Layout} (h : Booted image disk k xs L) :
  Consistent k.scheduler
  := h.queued.consistent (congrArg some h.currentProc.symm)

/-- `InitMemory` and `InitFileSystem` prepare the state in which only IDLE runs. -/
theorem owned_initProcess (disk : ℕ → UInt8) {n a b c : ℕ} {cr3 : Fin (2 ^ 64)} {p p' : ℕ}
    {m₁ : Memory} (hend : KernelEnd m n) (hspace : KernelSpace m n a b c) (hcr3 : phyToVir cr3 = a)
    (hpages : ∀ q ∈ [a, b, c], IsPage image q) (hnodup : ([a, b, c] ++ p :: p' :: xs).Nodup)
    (hfree : Free image m (p :: p' :: xs)) (hfree₁ : Free image m₁ xs) (hc : Changes [p, p'] m m₁) :
  Owned image ⟨m₁, FileSystem.booted disk p p', Scheduler.idle cr3⟩ xs
    ⟨n, b, c, fun _ => ⟨0, 0, 0, 0, 0, 0⟩⟩
  := by
  have hp := hfree.isPage p List.mem_cons_self
  have hp' := hfree.isPage p' (by simp)
  apply owned_idle hfree₁ (hend.changes hc) _ hcr3
  · have hlt := BPB.load_bytesPerSector_lt disk 0
    rw [pageSize_eq]
    exact (Nat.le_of_lt hlt).trans (by decide)
  · intro q hq
    simp only [FileSystem.booted, List.mem_cons, List.not_mem_nil, or_false] at hq
    rcases hq with rfl | rfl | rfl | rfl | rfl
    · exact hp
    · exact hp'
    · exact hpages _ (by simp)
    · exact hpages _ (by simp)
    · exact hpages _ (by simp)
  · apply hnodup.of_count_le
    intro x
    simp only [FileSystem.booted, List.count_append, List.count_cons, List.count_nil]
    omega
  · apply hspace.changes hc
    · intro q hq
      simp only [List.mem_cons, List.not_mem_nil, or_false] at hq
      rcases hq with rfl | rfl
      · exact hp.aligned
      · exact hp'.aligned
    · exact fun q hq => (hpages q hq).aligned
    · intro q hq hmem
      apply (List.nodup_append.mp hnodup).2.2 q hq q _ rfl
      simp only [List.mem_cons, List.not_mem_nil, or_false] at hmem ⊢
      tauto

/-- `InitProcess` with seven free pages. -/
theorem initProcess_cons {cr3 : Fin (2 ^ 64)} {files : FileSystem} {disk : ℕ → UInt8}
    {p p' : ℕ} {L : Layout} {a b c d e f g : ℕ} (hfiles : files = FileSystem.booted disk p p')
    (h : Owned image ⟨m, files, Scheduler.idle cr3⟩ (a :: b :: c :: d :: e :: f :: g :: xs) L) :
  ∃ k L', initProcess image ⟨m, files, Scheduler.initial cr3⟩ = some k ∧ Booted image disk k xs L'
    ∧ NotRun image k 1 ∧ (k.process 1).stack = a ∧ L'.size = L.size
    ∧ k.files = FileSystem.booted disk p p'
  := by
  obtain ⟨k, hrun, howned, hcurrent, hfiles', hself, hothers, hpid, hcreated, hqueued, hstarted⟩ :=
    h.initShellProcess_cons (queued_idle cr3) (findFreeProcessSlot_idle cr3)
  have hshell : NotRun image k 1 := by
    unfold NotRun
    rw [hself, newProcess_process]
    exact ⟨rfl, hstarted⟩
  refine ⟨k, _, ?_, ⟨howned, hqueued, hcurrent, ⟨p, p', hfiles'.trans hfiles⟩, ?_, ?_, ?_, ?_, ?_⟩,
    hshell, ?_, rfl, hfiles'.trans hfiles⟩
  · unfold initProcess
    rw [initIDLEProcess_eq, Option.bind_eq_bind, Option.bind_some]
    exact hrun
  · rw [hself, newProcess_process]
    exact ⟨rfl, rfl⟩
  · rw [hothers idleSlot (by decide)]
    exact congrArg Process.file (idle_process_self cr3)
  · intro j hj hj'
    rw [hothers j hj']
    exact idle_process_of_ne cr3 hj
  · exact hpid
  · exact hcreated
  · rw [hself, newProcess_process]

theorem switchVM_lt (a : ℕ) :
  switchVM a < 2 ^ 64
  := Nat.mod_lt _ (Nat.two_pow_pos 64)

/-- The page map register for a page map. -/
def pageMapRegister (a : ℕ) : Fin (2 ^ 64) := ⟨switchVM a, switchVM_lt a⟩

/-- `KMain` on a bootable disk, when `RetrieveMemoryInfo` frees twelve pages. -/
theorem kMain_cons {machine : Machine} {n a b c p p' s d e f g h l : ℕ}
    (hmemory : retrieveMemoryInfo image machine.memMap (Kernel.initial machine).memory = some m)
    (hend : KernelEnd m n) (hdisk : Bootable machine.disk)
    (hfree : Free image m (a :: b :: c :: p :: p' :: s :: d :: e :: f :: g :: h :: l :: xs)) :
  ∃ k L, kMain image machine = some k ∧ Booted image machine.disk k xs L ∧ NotRun image k 1
    ∧ (k.process 1).stack = s ∧ L.size = n ∧ k.files = FileSystem.booted machine.disk p p'
  := by
  have ha := hfree.isPage a List.mem_cons_self
  have hpages : ∀ q ∈ [a, b, c], IsPage image q := by
    intro q hq
    apply hfree.isPage
    simp only [List.mem_cons, List.not_mem_nil, or_false] at hq ⊢
    tauto
  obtain ⟨m₁, hinit, hfree₁, hchange₁, hspace⟩ :=
    initMemory_cons (k := { Kernel.initial machine with memory := m }) hend hfree
  have hdisk' : Bootable (Kernel.initial machine).files.disk := hdisk
  obtain ⟨m₂, hfiles, hfree₂, hchange₂⟩ := initFileSystem_cons hfree₁ hdisk'
  have hcr3 : phyToVir (pageMapRegister a) = a := phyToVir_virToPhy ha.word
  have howned := owned_initProcess machine.disk (hend.changes hchange₁) hspace hcr3 hpages
    hfree.nodup hfree₁ hfree₂ hchange₂
  obtain ⟨k, L, hrun, hbooted⟩ := initProcess_cons rfl howned
  refine ⟨k, L, ?_, hbooted⟩
  unfold kMain
  simp only [Option.bind_eq_bind]
  rw [hmemory, Option.bind_some, hinit, Option.bind_some]
  dsimp only
  rw [hfiles, Option.bind_some]
  exact hrun

/-- When `KMain` succeeds, the free pages and the held pages are apart, and the shell has not
run. -/
theorem kMain_started {machine : Machine} (hmap : DisjointRegions machine.memMap)
    (hrun : kMain image machine = some k) :
  ∃ xs L, Booted image machine.disk k xs L ∧ NotRun image k 1
  := by
  obtain ⟨m, hmemory, hrun'⟩ := Option.bind_eq_some_iff.mp hrun
  obtain ⟨k₁, hinit, hrun'⟩ := Option.bind_eq_some_iff.mp hrun'
  obtain ⟨⟨files, m₂⟩, hfiles, hrun'⟩ := Option.bind_eq_some_iff.mp hrun'
  obtain ⟨xs, hfree, haddress⟩ := retrieveMemoryInfo_spec rfl hmap hmemory
  obtain ⟨n, a, b, c, xs, hend, rfl⟩ := initMemory_pages hfree haddress hinit
  obtain ⟨m₁, hinit', hfree₁, hchange₁, hspace⟩ :=
    initMemory_cons (k := { Kernel.initial machine with memory := m }) hend hfree
  obtain rfl := Option.some.inj (hinit'.symm.trans hinit)
  obtain ⟨hdisk, p, p', xs, rfl⟩ := initFileSystem_pages hfree₁ hfiles
  obtain ⟨m₃, hfiles', hfree₂, hchange₂⟩ := initFileSystem_cons hfree₁ hdisk
  obtain ⟨rfl, rfl⟩ := Prod.mk.inj (Option.some.inj (hfiles'.symm.trans hfiles))
  have ha := hfree.isPage a List.mem_cons_self
  have hpages : ∀ q ∈ [a, b, c], IsPage image q := by
    intro q hq
    apply hfree.isPage
    simp only [List.mem_cons, List.not_mem_nil, or_false] at hq ⊢
    tauto
  have hcr3 : phyToVir (pageMapRegister a) = a := phyToVir_virToPhy ha.word
  have howned := owned_initProcess machine.disk (hend.changes hchange₁) hspace hcr3 hpages
    hfree.nodup hfree₁ hfree₂ hchange₂
  have hshell : initProcess image ⟨m₃, FileSystem.booted machine.disk p p',
      Scheduler.initial (pageMapRegister a)⟩ = some k := hrun'
  unfold initProcess at hshell
  rw [initIDLEProcess_eq, Option.bind_eq_bind, Option.bind_some] at hshell
  obtain ⟨s, d, e, f, g, h, l, ys, rfl⟩ := howned.initShellProcess_pages
    (queued_idle (pageMapRegister a)) (findFreeProcessSlot_idle (pageMapRegister a)) hshell
  obtain ⟨k', L, hrun'', hbooted, hnotRun, _⟩ := kMain_cons hmemory hend hdisk hfree
  obtain rfl := Option.some.inj (hrun''.symm.trans hrun)
  exact ⟨ys, L, hbooted, hnotRun⟩

/-- When `KMain` succeeds, the free pages and the held pages are apart. -/
theorem kMain_spec {machine : Machine} (hmap : DisjointRegions machine.memMap)
    (hrun : kMain image machine = some k) :
  ∃ xs L, Booted image machine.disk k xs L
  := by
  obtain ⟨xs, L, hbooted, _⟩ := kMain_started hmap hrun
  exact ⟨xs, L, hbooted⟩

/-- `KMain` on a machine with one usable region of whole pages above the kernel. -/
theorem kMain_pages {machine : Machine} {start : ℕ} {n : Fin (2 ^ 43)}
    (hmap : machine.memMap = [E820.pages start n]) (hdisk : Bootable machine.disk)
    (haligned : start % 2097152 = 0) (hlower : image.lKernelEnd < start)
    (hupper : start + n * pageSize ≤ virtualAddressEnd) (hn : 12 ≤ n.val) :
  ∃ k L, kMain image machine = some k
    ∧ Booted image machine.disk k (regionPages start (n.val - 12)) L
    ∧ (k.process 1).stack + pageSize ≤ k.memory.freeMemoryEndAddress
    ∧ k.files.fdTableAddress + pageSize ≤ k.memory.freeMemoryEndAddress
  := by
  obtain ⟨m, hmemory, hfree, haddress⟩ := retrieveMemoryInfo_pages
    (m := (Kernel.initial machine).memory) rfl haligned hlower hupper (by omega)
  rw [← hmap] at hmemory
  have hbase := image.lower
  have hend : KernelEnd m ((start - kernelVirtualAddressBase) / 2097152 + n) := by
    have hn' : totalTableEntries = 512 := rfl
    rw [kernelVirtualAddressBase_eq] at hbase ⊢
    rw [virtualAddressEnd_eq, pageSize_eq] at hupper
    refine ⟨?_, ?_, ?_⟩
    · rw [haddress, kernelVirtualAddressBase_eq, pageSize_eq]
      omega
    · omega
    · rw [hn']
      omega
  obtain ⟨j, hj⟩ : ∃ j, n.val = j + 12 := ⟨n.val - 12, by omega⟩
  rw [hj] at hfree
  rw [hj, Nat.add_sub_cancel]
  simp only [regionPages_succ] at hfree
  obtain ⟨k, L, hrun, hbooted, _, hstack, hsize, hfiles⟩ := kMain_cons hmemory hend hdisk hfree
  refine ⟨k, L, hrun, hbooted, ?_, ?_⟩
  · rw [hbooted.owned.kernelEnd.address, hsize, ← hend.address, haddress, hstack, pageSize_eq]
    omega
  · have htable : k.files.fdTableAddress = start + (j + 7) * pageSize :=
      congrArg FileSystem.fdTableAddress hfiles
    rw [hbooted.owned.kernelEnd.address, hsize, ← hend.address, haddress, htable, pageSize_eq]
    omega

/-- The last step of `KMain` is `InitProcess`. -/
theorem kMain_initProcess {machine : Machine} (hrun : kMain image machine = some k) :
  ∃ m files cr3, initProcess image ⟨m, files, Scheduler.initial cr3⟩ = some k
  := by
  obtain ⟨m, _, hrun⟩ := Option.bind_eq_some_iff.mp hrun
  obtain ⟨k₁, hinit, hrun⟩ := Option.bind_eq_some_iff.mp hrun
  obtain ⟨⟨files, m₂⟩, _, hrun⟩ := Option.bind_eq_some_iff.mp hrun
  obtain ⟨⟨map, m₁⟩, _, hinit⟩ := Option.bind_eq_some_iff.mp hinit
  obtain ⟨_, _, hinit⟩ := Option.bind_eq_some_iff.mp hinit
  obtain rfl := Option.some.inj hinit
  exact ⟨m₂, files, pageMapRegister map, hrun⟩

/-! ### A small machine -/

/-- The parameter block of a volume with clusters of one sector: its reserved sector, its
table, one sector of root directory, and the data from the third sector on. -/
def smallVolume : List (ℕ × UInt8) :=
  [(12, 2), (13, 1), (14, 1), (16, 1), (17, 16), (22, 1), (38, 0x29), (510, 0x55), (511, 0xAA)]

/-- The root directory of the volume: the file `A` of 1024 bytes in the clusters 2 and 3. -/
def smallDirectory : List (ℕ × UInt8) :=
  [(1024, 0x41), (1025, 0x20), (1032, 0x20), (1035, 0x20), (1050, 2), (1053, 4)]

/-- A disk with one file, whose bytes are one in the first and two in the second cluster. -/
def smallDisk (o : ℕ) : UInt8 :=
  if 1536 ≤ o ∧ o < 2048 then 1
  else if 2048 ≤ o ∧ o < 2560 then 2
  else ((smallVolume ++ smallDirectory).lookup o).getD 0

/-- A machine with one usable region of `n` pages, four megabytes above the kernel base. -/
def smallMachine (n : Fin (2 ^ 43)) : Machine where
  bytes _ := 0
  memMap := [E820.pages (kernelVirtualAddressBase + 0x400000) n]
  disk := smallDisk
  cr3 := 0

theorem smallMachine_disjoint (n : Fin (2 ^ 43)) :
  DisjointRegions (smallMachine n).memMap
  := List.pairwise_singleton _ _

theorem smallDisk_bootable :
  Bootable smallDisk
  where
  boot := by decide
  signature := by decide
  sector := by decide

/-- The kernel stack of the shell and the table of file descriptors lie before the end of the
memory. -/
theorem kMain_smallMachine_end {n : Fin (2 ^ 43)} (hlo : 12 ≤ n.val) (hhi : n.val ≤ 510) :
  ∃ k L, kMain smallImage (smallMachine n) = some k
    ∧ Booted smallImage smallDisk k
      (regionPages (kernelVirtualAddressBase + 0x400000) (n.val - 12)) L
    ∧ (k.process 1).stack + pageSize ≤ k.memory.freeMemoryEndAddress
    ∧ k.files.fdTableAddress + pageSize ≤ k.memory.freeMemoryEndAddress
  := by
  apply kMain_pages rfl smallDisk_bootable _ _ _ hlo
  · rw [kernelVirtualAddressBase_eq]
  · exact Nat.add_lt_add_left (by decide) _
  · rw [virtualAddressEnd_eq, kernelVirtualAddressBase_eq, pageSize_eq]
    omega

/-- The small machine boots when it has twelve pages. -/
theorem kMain_smallMachine {n : Fin (2 ^ 43)} (hlo : 12 ≤ n.val) (hhi : n.val ≤ 510) :
  ∃ k L, kMain smallImage (smallMachine n) = some k
    ∧ Booted smallImage smallDisk k
      (regionPages (kernelVirtualAddressBase + 0x400000) (n.val - 12)) L
  := by
  obtain ⟨k, L, hrun, hbooted, _⟩ := kMain_smallMachine_end hlo hhi
  exact ⟨k, L, hrun, hbooted⟩

/-- The timer interrupt dispatches the shell. -/
theorem Booted.yield {disk : ℕ → UInt8} {L : Layout} (h : Booted image disk k xs L) :
  ∃ k', k.step image .yield = some k' ∧ k'.currentProc = 1 ∧ Owned image k' xs L
    ∧ SameResources k.scheduler k'.scheduler ∧ k'.files = k.files ∧ k'.memory = k.memory
    ∧ Queued k'.scheduler (fun _ => []) (some 1) none
  := by
  have hq : Queued k.scheduler (Queues.push (fun _ => []) .readyProcList 1)
      (some k.scheduler.currentProc) none := by
    have hcurrent : k.scheduler.currentProc = idleSlot := h.currentProc
    rw [hcurrent]
    exact h.queued
  obtain ⟨s, hrun, hcurrent, hres, _, hq'⟩ := hq.yield_cons (by simp)
  have hpid : (k.scheduler.process k.scheduler.currentProc).pid = idleProcessPid := by
    have hcurrent : k.scheduler.currentProc = idleSlot := h.currentProc
    rw [hcurrent]
    exact h.queued.idlePid
  have hqueues : Queued.yielded k.scheduler (Queues.push (fun _ => []) .readyProcList 1)
      = Queues.push (fun _ => []) .readyProcList 1 := if_pos hpid
  have htail : (Queues.push (fun _ => []) .readyProcList (1 : Slot)).tail = fun _ => [] := by
    funext list
    cases list <;> rfl
  rw [hqueues] at hcurrent hq'
  rw [htail] at hq'
  refine ⟨{ k with scheduler := s }, ?_, hcurrent, h.owned.schedule hres, hres, rfl, rfl, hq'⟩
  rw [Kernel.step, Kernel.schedule, hrun, Option.map_some]

end LarvaOS
