import LarvaOS.Boot.Entry
import LarvaOS.Boot.Image
import LarvaOS.Memory.Coverage
import LarvaOS.Kernel.Preemption

/-!
# From the disk image to the first process

While it starts, the kernel stores nothing below the end of its image but its own variables, so
the shell is still where the loader has put it when `InitProcess` copies it to the user page of
the first process.  When that process is dispatched for the first time, it finds at
`USER_VIRTUAL_ADDRESS_BASE` the program that the Makefile has put on the disk.
-/

namespace LarvaOS

variable {image : Image} {m m' : Memory} {k k' : Kernel} {xs : List ℕ}

/-! ### The memory below the end of the kernel -/

/-- The bytes below the end of the kernel are the same. -/
def KernelSame (image : Image) (m m' : Memory) : Prop :=
  ∀ x, x < image.lKernelEnd → m'.bytes x = m.bytes x

namespace KernelSame

theorem refl (m : Memory) :
  KernelSame image m m
  := fun _ _ => rfl

theorem trans {m'' : Memory} (h : KernelSame image m m') (h' : KernelSame image m' m'') :
  KernelSame image m m''
  := fun x hx => (h' x hx).trans (h x hx)

/-- Pages are above the end of the kernel. -/
theorem of_changes {ps : List ℕ} (h : Changes ps m m') (hps : ∀ p ∈ ps, IsPage image p) :
  KernelSame image m m'
  := by
  intro x hx
  apply h.bytes
  rintro ⟨p, hp, hpage⟩
  have hlower := (hps p hp).lower
  have hle := hpage.1
  omega

theorem of_kfree {p : ℕ} (h : kfree image p m = some m') :
  KernelSame image m m'
  := by
  intro x hx
  have hlower : image.lKernelEnd ≤ p := by
    unfold kfree at h
    simp only [Option.bind_eq_bind, assert_bind_eq_some] at h
    exact h.2.1
  rw [kfree_bytes h]
  apply Bytes.writeWord_of_outside
  omega

theorem of_freeRegionLoop {vEnd n start : ℕ} (h : freeRegionLoop image vEnd n start m = some m') :
  KernelSame image m m'
  := by
  induction n generalizing start m with
  | zero => cases h
  | succ n ih =>
      rw [freeRegionLoop] at h
      split at h
      case isTrue =>
        obtain ⟨m₁, hpage, h⟩ := Option.bind_eq_some_iff.mp h
        refine trans ?_ (ih h)
        unfold freeRegionPage at hpage
        split at hpage
        case isTrue => exact of_kfree hpage
        case isFalse =>
          obtain rfl := Option.some.inj hpage
          exact refl m
      case isFalse =>
        obtain rfl := Option.some.inj h
        exact refl m

theorem of_freeUsables {rs : List E820} (h : freeUsables image rs m = some m') :
  KernelSame image m m'
  := by
  induction rs generalizing m with
  | nil =>
      obtain rfl := Option.some.inj h
      exact refl m
  | cons r rs ih =>
      obtain ⟨m₁, hregion, h⟩ := Option.bind_eq_some_iff.mp h
      refine trans ?_ (ih h)
      unfold freeUsable at hregion
      dsimp only at hregion
      split at hregion
      case isTrue => exact of_freeRegionLoop hregion
      case isFalse =>
        split at hregion
        case isTrue => exact of_freeRegionLoop hregion
        case isFalse =>
          obtain rfl := Option.some.inj hregion
          exact refl m

/-- `RetrieveMemoryInfo` stores in free pages only. -/
theorem of_retrieveMemoryInfo {memMap : List E820}
    (h : retrieveMemoryInfo image memMap m = some m') :
  KernelSame image m m'
  := by
  obtain ⟨_, _, h⟩ := Option.bind_eq_some_iff.mp h
  obtain ⟨m₁, hfree, h⟩ := Option.bind_eq_some_iff.mp h
  obtain rfl := Option.some.inj h
  intro x hx
  exact of_freeUsables hfree x hx

end KernelSame

/-! ### The user page of the shell -/

/-- `SetupUVM` copies a program that is below the end of the kernel to a page of zeros. -/
theorem setupUVM_bytes {n map pdpt pd p d e start size : ℕ} (h : KernelSpace m n map pdpt pd)
    (hfree : Free image m (p :: d :: e :: xs)) (hpages : ∀ q ∈ [map, pdpt, pd], IsPage image q)
    (hnodup : ([map, pdpt, pd] ++ p :: d :: e :: xs).Nodup)
    (hstart : start + size ≤ image.lKernelEnd)
    (hrun : setupUVM image map start size m = some (true, m')) :
  (∀ o, o < size → m'.bytes (p + o) = m.bytes (start + o))
    ∧ ∀ o, size ≤ o → o < pageSize → m'.bytes (p + o) = 0
  := by
  have hp := hfree.isPage p (by simp)
  obtain ⟨hpmem, _⟩ := List.nodup_cons.mp hfree.nodup
  have hmem : p ∉ [map, pdpt, pd] := by
    intro hmem
    exact (List.nodup_append.mp hnodup).2.2 p hmem p List.mem_cons_self rfl
  simp only [List.mem_cons, List.not_mem_nil, or_false, not_or] at hpmem hmem
  obtain ⟨m₁, hrun₁, hfree₁, hchange₁, _⟩ := kalloc_clear hfree
  have hspace₁ : KernelSpace (m₁.clear p) n map pdpt pd := by
    apply h.changes hchange₁
    · intro q hq
      rw [List.mem_singleton.mp hq]
      exact hp.aligned
    · exact fun q hq => (hpages q hq).aligned
    · intro q hq hmem'
      rw [List.mem_singleton.mp hmem'] at hq
      simp only [List.mem_cons, List.not_mem_nil, or_false] at hq
      tauto
  obtain ⟨m₂, hrun₂, _, hchange₂, _⟩ := mapUser_cons hspace₁ hfree₁ hp hpages (by
    apply hnodup.of_count_le
    intro x
    simp only [List.count_append, List.count_cons]
    omega)
  obtain ⟨_, rfl⟩ := Prod.mk.inj (Option.some.inj (hrun.symm.trans
    (setupUVM_eq hrun₁ hp.ne_zero hrun₂)))
  have hpages₂ : ∀ q ∈ [map, d, e], IsPage image q := by
    intro q hq
    simp only [List.mem_cons, List.not_mem_nil, or_false] at hq
    rcases hq with rfl | rfl | rfl
    · exact hpages _ (by simp)
    · exact hfree.isPage _ (by simp)
    · exact hfree.isPage _ (by simp)
  have hsame : KernelSame image m m₂ := by
    apply (KernelSame.of_changes hchange₁ _).trans (KernelSame.of_changes hchange₂ hpages₂)
    intro q hq
    rw [List.mem_singleton.mp hq]
    exact hp
  have hlower := hp.lower
  constructor
  · intro o ho
    rw [← hsame (start + o) (by omega)]
    exact memcpy_of_inside (Or.inr (by omega)) ho
  · intro o hlo hhi
    have hcopy : (m₂.copy p start size).bytes (p + o) = m₂.bytes (p + o) :=
      memcpy_of_outside (by omega)
    have hmapped : m₂.bytes (p + o) = (m₁.clear p).bytes (p + o) := by
      apply hchange₂.byte (fun q hq => (hpages₂ q hq).aligned) hp.aligned
      · simp only [List.mem_cons, List.not_mem_nil, or_false]
        tauto
      · exact ⟨by omega, by omega⟩
    rw [hcopy, hmapped]
    exact memset_of_inside (by omega) (by omega)

/-- The process `i` has in its user page the program that was at the address `start`, and then
zeros. -/
structure HasProgram (m : Memory) (start size : ℕ) (k : Kernel) (i : Slot) : Prop where
  program : ∃ page, k.userPage i = some page
    ∧ (∀ o, o < size → k.memory.bytes (page + o) = m.bytes (start + o))
    ∧ ∀ o, size ≤ o → o < pageSize → k.memory.bytes (page + o) = 0

/-- `InitShellProcess` gives the new process the program at `USER_INIT_PROCESS_ADDRESS_BASE`. -/
theorem Owned.initShellProcess_program {q : Queues} {L : Layout} {a b c d p e f : ℕ} {i : Slot}
    (h : Owned image k (a :: b :: c :: d :: p :: e :: f :: xs) L)
    (hq : Queued k.scheduler q (some k.currentProc) none)
    (hfind : findFreeProcessSlot k.scheduler = some i)
    (hrun : initShellProcess image k = some k') :
  HasProgram k.memory (phyToVir userInitProcessAddressBase) sizeOfInitProccess k' i
    ∧ KernelSame image k.memory k'.memory
  := by
  obtain ⟨_, _, hi, _⟩ := hq.free_slot hfind
  obtain ⟨k'', hrun', howned, _, _, hself, _⟩ := h.initShellProcess_cons hq hfind
  obtain rfl := Option.some.inj (hrun'.symm.trans hrun)
  obtain ⟨m, hcreate, hmemory, hspace, hnodup, hpages, hchange, _⟩ := h.fork_create hq hfind
  obtain ⟨j, k₁, m', s, hcreate', hsetup, _, rfl⟩ := initShellProcess_cases hrun
  obtain ⟨hij, rfl⟩ := Prod.mk.inj (Option.some.inj (hcreate.symm.trans hcreate'))
  obtain rfl := Option.some.inj hij
  have hlive : Kernel.Live { k with memory := m', scheduler := s } i := by
    refine ⟨hi, ?_, ?_⟩
    · rw [hself]
      simp
    · rw [hself]
      simp
  have hpage := howned.userPage hlive
  have hspace' : ((L.setSpace i ⟨b, c, d, e, f, p⟩).space i).page = p := by
    rw [Layout.setSpace_self]
  have hpages' : ∀ x ∈ [a, b, c, d], IsPage image x := by
    intro x hx
    apply h.free.isPage
    simp only [List.mem_cons, List.not_mem_nil, or_false] at hx ⊢
    tauto
  have hsame : KernelSame image k.memory m := KernelSame.of_changes hchange hpages'
  have hmap : (Kernel.process { k with memory := m, scheduler := k.scheduler.newProcess i a b }
      i).pageMap = b := by
    rw [Kernel.process, newProcess_process]
  have hbelow : phyToVir userInitProcessAddressBase + sizeOfInitProccess ≤ image.lKernelEnd := by
    have hlower := image.lower
    rw [kernelVirtualAddressBase_eq] at hlower
    unfold phyToVir userInitProcessAddressBase sizeOfInitProccess
    rw [kernelVirtualAddressBase_eq]
    omega
  have hnodup' : ([b, c, d] ++ p :: e :: f :: xs).Nodup := by
    apply hnodup.of_count_le
    intro x
    simp only [List.count_append]
    omega
  rw [hmap] at hsetup
  obtain ⟨hprogram, hzero⟩ :=
    setupUVM_bytes hspace hmemory.free hpages hnodup' hbelow hsetup
  obtain ⟨m'', hsetup', _, hchange', _⟩ := @setupUVM_cons image m L.size xs b c d p e f
    (phyToVir userInitProcessAddressBase) sizeOfInitProccess hspace hmemory.free (by
      rw [pageSize_eq]
      decide) hpages hnodup'
  obtain ⟨_, rfl⟩ := Prod.mk.inj (Option.some.inj (hsetup'.symm.trans hsetup))
  refine ⟨⟨p, hpage.trans (congrArg some hspace'), ?_, hzero⟩, hsame.trans ?_⟩
  · intro o ho
    rw [← hsame _ (by omega)]
    exact hprogram o ho
  · apply KernelSame.of_changes hchange'
    intro x hx
    simp only [List.mem_cons, List.not_mem_nil, or_false] at hx
    rcases hx with rfl | rfl | rfl | rfl
    · exact hpages _ (by simp)
    · exact hmemory.free.isPage _ (by simp)
    · exact hmemory.free.isPage _ (by simp)
    · exact hmemory.free.isPage _ (by simp)

/-! ### KMain -/

/-- `KMain` leaves what the loader has put below the end of the kernel, and the shell is in the
user page of the first process. -/
theorem kMain_program {machine : Machine} (hmap : DisjointRegions machine.memMap)
    (hrun : kMain image machine = some k) :
  HasProgram (Kernel.initial machine).memory (phyToVir userInitProcessAddressBase)
      sizeOfInitProccess k 1
    ∧ KernelSame image (Kernel.initial machine).memory k.memory
  := by
  obtain ⟨m, hmemory, hrun'⟩ := Option.bind_eq_some_iff.mp hrun
  obtain ⟨k₁, hinit, hrun'⟩ := Option.bind_eq_some_iff.mp hrun'
  obtain ⟨⟨files, m₂⟩, hfiles, hrun'⟩ := Option.bind_eq_some_iff.mp hrun'
  obtain ⟨xs, hfree, haddress⟩ := retrieveMemoryInfo_spec rfl hmap hmemory
  obtain ⟨n, a, b, c, xs, hend, rfl⟩ := initMemory_pages hfree haddress hinit
  obtain ⟨m₁, hinit', hfree₁, hchange₁, hspace⟩ :=
    initMemory_cons (k := { Kernel.initial machine with memory := m }) hend hfree
  obtain rfl := Option.some.inj (hinit'.symm.trans hinit)
  obtain ⟨hdisk, p, p', xs, rfl⟩ := initFileSystem_pages hfree₁ hfiles
  obtain ⟨m₃, hfiles', hfree₂, hchange₂⟩ := initFileSystem_cons hfree₁ hdisk
  obtain ⟨rfl, rfl⟩ := Prod.mk.inj (Option.some.inj (hfiles'.symm.trans hfiles))
  have ha := hfree.isPage a List.mem_cons_self
  have hpages : ∀ q ∈ [a, b, c], IsPage image q := by
    intro q hq
    apply hfree.isPage
    simp only [List.mem_cons, List.not_mem_nil, or_false] at hq ⊢
    tauto
  have hpages' : ∀ q ∈ [p, p'], IsPage image q := by
    intro q hq
    apply hfree₁.isPage
    simp only [List.mem_cons, List.not_mem_nil, or_false] at hq ⊢
    tauto
  have hcr3 : phyToVir (pageMapRegister a) = a := phyToVir_virToPhy ha.word
  have howned := owned_initProcess machine.disk (hend.changes hchange₁) hspace hcr3 hpages
    hfree.nodup hfree₁ hfree₂ hchange₂
  have hshell : initProcess image ⟨m₃, FileSystem.booted machine.disk p p',
      Scheduler.initial (pageMapRegister a)⟩ = some k := hrun'
  unfold initProcess at hshell
  rw [initIDLEProcess_eq, Option.bind_eq_bind, Option.bind_some] at hshell
  obtain ⟨s, d, e, f, g, h, l, ys, rfl⟩ := howned.initShellProcess_pages
    (queued_idle (pageMapRegister a)) (findFreeProcessSlot_idle (pageMapRegister a)) hshell
  obtain ⟨⟨page, hpage, hprogram, hzero⟩, hsame⟩ := howned.initShellProcess_program
    (queued_idle (pageMapRegister a)) (findFreeProcessSlot_idle (pageMapRegister a)) hshell
  have hsame₃ : KernelSame image (Kernel.initial machine).memory m₃ :=
    ((KernelSame.of_retrieveMemoryInfo hmemory).trans
      (KernelSame.of_changes hchange₁ hpages)).trans (KernelSame.of_changes hchange₂ hpages')
  have hlower := image.lower
  rw [kernelVirtualAddressBase_eq] at hlower
  refine ⟨⟨page, hpage, ?_, hzero⟩, hsame₃.trans hsame⟩
  intro o ho
  rw [hprogram o ho]
  apply hsame₃
  unfold phyToVir userInitProcessAddressBase
  rw [kernelVirtualAddressBase_eq]
  unfold sizeOfInitProccess at ho
  omega

/-! ### The first process -/

/-- A program that stores and loads finds the byte `c` at an address. -/
def Kernel.Finds (k : Kernel) (i : Slot) (v : ℕ) (c : UInt8) : Prop :=
  ∃ t, walk k.memory (switchVM (k.process i).pageMap) v = some t ∧ t.writable ∧ t.user
    ∧ k.memory.bytes (phyToVir t.physical) = c

/-- Nothing clears `.bss`: the static variables that are not in the file of the kernel start at zero
when the 100 sectors on the disk are zero behind the file, and the memory behind the 51200 bytes of
the kernel is zero. -/
structure ZeroBss (image : Image) (files : Binaries) (old b : Bytes) : Prop where
  disk : ∀ i, files.kernel.length ≤ i → i < 100 * sectorSize → old (6 * sectorSize + i) = 0
  memory : ∀ i, 100 * sectorSize ≤ i → phyToVir 0x200000 + i < image.lKernelEnd →
    b (0x200000 + i) = 0

/-- The kernel that was started from the files on the disk: the first process waits to start at
the beginning of the shell, and the kernel has kept its image and what is behind its file. -/
structure StartedFrom (image : Image) (files : Binaries) (k : Kernel) : Prop where
  volume : k.files.bpb = BPB.larvaOS
  ready : (k.process 1).state = .ready
  frame : TrapFrame.load k.memory.bytes (k.process 1).tf = TrapFrame.user
  shell : ∀ i c, files.shell[i]? = some c → i < 20 * sectorSize →
    k.Finds 1 (userVirtualAddressBase + i) c
  zeros : ∀ i, 20 * sectorSize ≤ i → i < pageSize → k.Finds 1 (userVirtualAddressBase + i) 0
  kernel : ∀ i c, files.kernel[i]? = some c → i < 100 * sectorSize →
    phyToVir 0x200000 + i < image.lKernelEnd → k.memory.bytes (phyToVir 0x200000 + i) = c
  bss : ∀ i, files.kernel.length ≤ i → phyToVir 0x200000 + i < image.lKernelEnd →
    k.memory.bytes (phyToVir 0x200000 + i) = 0

/-- The byte that a program finds in its user page. -/
theorem Owned.finds {L : Layout} {i : Slot} {page o : ℕ} (h : Owned image k xs L) (hi : k.Live i)
    (hpage : k.userPage i = some page) (ho : o < pageSize) :
  k.Finds i (userVirtualAddressBase + o) (k.memory.bytes (page + o))
  := by
  obtain rfl := Option.some.inj (hpage.symm.trans (h.userPage hi))
  have huser : InUserPage (userVirtualAddressBase + o) := ⟨by omega, by omega⟩
  have hphys := UserSpace.phyToVir_user (h.space_isPage hi) huser
  have hlt : userVirtualAddressBase + o < 2 ^ 64 := by
    rw [userVirtualAddressBase_eq]
    rw [pageSize_eq] at ho
    omega
  refine ⟨_, (h.walk_eq hi hlt).trans (if_pos huser), rfl, rfl, ?_⟩
  rw [hphys, Nat.add_sub_cancel_left]

/-- The first processes are IDLE, which has no user page, and the shell. -/
theorem Booted.live {disk : ℕ → UInt8} {L : Layout} (h : Booted image disk k xs L) :
  k.Live 1
  := by
  have hstate : (k.process 1).state = .ready := by
    apply h.queued.state .readyProcList 1 _ (by simp)
    simp [Queues.push]
  refine ⟨by decide, ?_, ?_⟩
  · rw [hstate]
    simp
  · rw [hstate]
    simp

/-- The page map of the kernel, in its gigabyte up to the end of the free memory. -/
theorem Booted.walk_kernel {disk : ℕ → UInt8} {L : Layout} {v : ℕ}
    (h : Booted image disk k xs L) (hlo : kernelVirtualAddressBase ≤ v)
    (hhi : v < k.memory.freeMemoryEndAddress) :
  v < kernelVirtualAddressBase + 2 ^ 30
    ∧ walk k.memory k.scheduler.cr3 v = some ⟨v - kernelVirtualAddressBase, true, false⟩
  := by
  have hend := h.owned.kernelEnd
  have hle := hend.le
  have hentries : totalTableEntries = 512 := rfl
  rw [hend.address] at hhi
  have hlt : v < kernelVirtualAddressBase + 2 ^ 30 := by
    rw [pageSize_eq] at hhi
    omega
  have hpages : ∀ q ∈ [(k.process idleSlot).pageMap, L.idlePdpt, L.idlePd], IsPage image q := by
    intro q hq
    apply h.owned.isPage
    apply Owned.mem_held_of_kernel
    unfold Layout.kernelPages
    simp only [List.mem_cons, List.not_mem_nil, or_false] at hq ⊢
    rcases hq with hq | hq | hq <;> simp only [hq, true_or, or_true]
  have hcr3 : (k.scheduler.cr3 : ℕ) = virToPhy (k.process idleSlot).pageMap := by
    have hcurrent : k.scheduler.currentProc = idleSlot := h.currentProc
    rw [h.queued.pageMapRegister, hcurrent]
    rfl
  have hvir : virToPhy v = v - kernelVirtualAddressBase := by
    apply virToPhy_of_kernel hlo
    rw [kernelVirtualAddressBase_eq] at hlt
    omega
  refine ⟨hlt, ?_⟩
  rw [hcr3, h.owned.idle.walk_eq hle (hpages _ (by simp)) (hpages _ (by simp))
    (hpages _ (by simp)) hlo hhi, hvir]

variable {bios : Bios} {files : Binaries} {old b b' : Bytes} {n : ℕ}
  {answers : List (ℕ → UInt8)}

/-- The kernel finds zeros behind its file. -/
theorem ZeroBss.started (h : ZeroBss image files old b) (hdisk : Carries bios.disk files old)
    (hentered : Entered bios answers b b') {i : ℕ} (hlength : files.kernel.length ≤ i)
    (hend : phyToVir 0x200000 + i < image.lKernelEnd) :
  (Machine.started bios b').bytes (phyToVir 0x200000 + i) = 0
  := by
  have hsector : sectorSize = 512 := rfl
  have haddress : phyToVir 0x200000 + i = phyToVir 0 + (0x200000 + i) := by
    unfold phyToVir
    rw [kernelVirtualAddressBase_eq]
    omega
  by_cases hi : i < 100 * sectorSize
  · rw [haddress, hentered.kernel i hi, hdisk.behind_kernel hlength hi]
    exact h.disk i hlength hi
  · have hupper := image.upper
    have hlt : 0x200000 + i < 2 ^ 32 := by
      unfold phyToVir at hend
      rw [kernelVirtualAddressBase_eq] at hend
      rw [virtualAddressEnd_eq] at hupper
      omega
    rw [haddress, started_bytes hlt, hentered.behind _ (by rw [hsector] at hi; omega)]
    exact h.memory i (Nat.not_lt.mp hi) hend

/-- When the boot code and `KMain` run to their ends, the shell of the disk image is the program that
the first process will run, the files of the disk are found by the parameters of the boot sector,
and setting the page map of the kernel has not moved the kernel. -/
theorem boot_shell (hdisk : Carries bios.disk files old) (hboot : BootSector files.boot)
    (hmap : MemoryMapIs bios answers) (hn : answers.length ≤ n)
    (hfits : memoryRegionStructuresBaseAddr + sizeofE820 * answers.length ≤ 2 ^ 16)
    (hdisjoint : DisjointRegions (answers.map (fun answer => E820.load answer 0)))
    (hbss : ZeroBss image files old b) (hload : bootCode bios n b = some b')
    (hrun : kMain image (Machine.started bios b') = some k) :
  StartedFrom image files k
    ∧ ∀ v, kernelVirtualAddressBase ≤ v → v < k.memory.freeMemoryEndAddress →
      walk k.memory k.scheduler.cr3 v
        = walk (Kernel.initial (Machine.started bios b')).memory (Machine.started bios b').cr3 v
  := by
  have hentered := (bootCode_entered hmap hn hfits hload).2
  obtain ⟨hmemMap, hkernel, hshell, htranslation, _⟩ := id hentered
  rw [← hmemMap] at hdisjoint
  obtain ⟨xs, L, hbooted, hnotRun⟩ := kMain_started hdisjoint hrun
  obtain ⟨⟨page, hpage, hprogram, hzero⟩, hsame⟩ := kMain_program hdisjoint hrun
  have hsector : sectorSize = 512 := rfl
  have hlive := hbooted.live
  have hsize : sizeOfInitProccess = 20 * sectorSize := rfl
  constructor
  · constructor
    · obtain ⟨p, p', hfiles⟩ := hbooted.files
      rw [hfiles]
      exact hboot.load hdisk
    · apply hbooted.queued.state .readyProcList 1 _ (by simp)
      simp [Queues.push]
    · rw [hbooted.owned.tf 1 hlive]
      exact hnotRun.2.frame
    · intro i c hfile hi
      have hbyte : k.memory.bytes (page + i) = c := by
        rw [hprogram i (by rwa [hsize])]
        rw [hsector] at hi
        have haddress : phyToVir userInitProcessAddressBase + i = phyToVir 0 + (0x20000 + i) := by
          unfold phyToVir userInitProcessAddressBase
          rw [kernelVirtualAddressBase_eq]
          omega
        rw [haddress]
        exact (hshell i (by rwa [hsector])).trans (hdisk.bytes.2.2.2 hfile (by rwa [hsector]))
      rw [← hbyte]
      apply hbooted.owned.finds hlive hpage
      rw [hsector] at hi
      rw [pageSize_eq]
      omega
    · intro i hlo hhi
      rw [← hzero i (by rwa [hsize]) hhi]
      exact hbooted.owned.finds hlive hpage hhi
    · intro i c hfile hi hend
      rw [hsame _ hend]
      rw [hsector] at hi
      have haddress : phyToVir 0x200000 + i = phyToVir 0 + (0x200000 + i) := by
        unfold phyToVir
        rw [kernelVirtualAddressBase_eq]
        omega
      rw [haddress]
      exact (hkernel i (by rwa [hsector])).trans (hdisk.bytes.2.2.1 hfile (by rwa [hsector]))
    · exact fun i hlength hend =>
        (hsame _ hend).trans (hbss.started hdisk hentered hlength hend)
  · intro v hlo hhi
    obtain ⟨hlt, hwalk⟩ := hbooted.walk_kernel hlo hhi
    have hhigh : ¬ v < 2 ^ 30 := by
      rw [kernelVirtualAddressBase_eq] at hlo
      omega
    have hword : v < 2 ^ 64 := by
      rw [kernelVirtualAddressBase_eq] at hlt
      omega
    rw [hwalk, htranslation v hword, if_neg hhigh, if_pos ⟨hlo, hlt⟩]

/-! ### A small disk -/

/-- A boot sector without code, and a shell that halts. -/
def smallFiles : Binaries where
  boot := [0xEB, 0x3C, 0x90] ++ parameterBlock ++ List.replicate 448 0 ++ [0x55, 0xAA]
  loader := []
  kernel := []
  shell := [0xF4]

/-- The disk that is made of the small files. -/
def smallDiskImage : Bytes := makeAll smallFiles (fun _ => 0)

theorem smallFiles_boot :
  BootSector smallFiles.boot
  where
  parameters i c h := by
    obtain ⟨hlt, -⟩ := List.getElem?_eq_some_iff.mp h
    have hboot : smallFiles.boot = [0xEB, 0x3C, 0x90]
        ++ (parameterBlock ++ (List.replicate 448 0 ++ [0x55, 0xAA])) := by
      unfold smallFiles
      simp only [List.append_assoc]
    rw [hboot, List.getElem?_append_right (by simp), List.length_cons, List.length_cons,
      List.length_cons, List.length_nil, Nat.add_sub_cancel_left,
      List.getElem?_append_left hlt, h]
  signature := by
    have hlength : ([0xEB, 0x3C, 0x90] ++ parameterBlock ++ List.replicate 448 0).length = 510 := by
      rw [List.length_append, List.length_append, List.length_replicate]
      rfl
    unfold smallFiles
    dsimp only
    constructor
    · rw [List.getElem?_append_right (Nat.le_of_eq hlength), hlength]
      rfl
    · rw [List.getElem?_append_right (Nat.le_succ_of_le (Nat.le_of_eq hlength)), hlength]
      rfl

theorem smallAnswer_load :
  E820.load smallAnswer 0 = E820.pages (kernelVirtualAddressBase + 0x400000) 64
  := by
  have haddress : Bytes.read 8 smallAnswer 0 = 0x400000 := by decide
  have hlength : Bytes.read 8 smallAnswer (0 + 8) = 64 * 0x200000 := by decide
  have htype : Bytes.read 4 smallAnswer (0 + 16) = 1 := by decide
  have hstart : virToPhy (kernelVirtualAddressBase + 0x400000) = 0x400000 := by
    rw [virToPhy_of_kernel (Nat.le_add_right _ _), Nat.add_sub_cancel_left]
    rw [kernelVirtualAddressBase_eq]
    decide
  unfold E820.load E820.pages
  simp only [haddress, hlength, htype, hstart, pageSize_eq]
  rfl

/-- The small disk boots: the first process finds the program of the shell. -/
theorem boot_shell_small :
  ∃ (b' : Bytes) (k : Kernel), bootCode (smallBios smallDiskImage) 1 (fun _ => 0) = some b'
    ∧ kMain smallImage (Machine.started (smallBios smallDiskImage) b') = some k
    ∧ StartedFrom smallImage smallFiles k ∧ k.Finds 1 userVirtualAddressBase 0xF4
  := by
  have hcarries : Carries (smallBios smallDiskImage).disk smallFiles (fun _ => 0) := fun _ _ => rfl
  have hmap := smallBios_memoryMap smallDiskImage
  obtain ⟨b', hload⟩ := smallBios_runs smallDiskImage
  have hentered := (bootCode_entered hmap (by decide) (by decide) hload).2
  have hmemMap : (Machine.started (smallBios smallDiskImage) b').memMap
      = [E820.pages (kernelVirtualAddressBase + 0x400000) 64] := by
    rw [hentered.memMap, List.map_cons, List.map_nil, smallAnswer_load]
  obtain ⟨k, L, hrun, _⟩ := @kMain_pages smallImage _ _ 64 hmemMap
    (smallFiles_boot.bootable hcarries) (by rw [kernelVirtualAddressBase_eq])
    (Nat.add_lt_add_left (by decide) _) (by
      rw [virtualAddressEnd_eq, kernelVirtualAddressBase_eq, pageSize_eq]
      decide) (by decide)
  have hdisjoint : DisjointRegions ([smallAnswer].map (fun answer => E820.load answer 0)) :=
    List.pairwise_singleton _ _
  obtain ⟨hstarted, _⟩ := boot_shell hcarries smallFiles_boot hmap (by decide) (by decide)
    hdisjoint ⟨fun _ _ _ => rfl, fun _ _ _ => rfl⟩ hload hrun
  exact ⟨b', k, hload, hrun, hstarted, hstarted.shell 0 0xF4 rfl (by decide)⟩

end LarvaOS
