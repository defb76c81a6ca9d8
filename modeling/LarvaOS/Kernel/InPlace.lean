import LarvaOS.File.Entries
import LarvaOS.Kernel.Descriptors
import LarvaOS.Kernel.Opening
import LarvaOS.Kernel.Pointers
import LarvaOS.Kernel.Stacks

/-!
# The tables of open files in memory

`Read` and `Lstat` store to the address that the program passes, and the kernel half is mapped
writable.  So a program can overwrite the tables of open files, which lie in two pages of the
kernel's memory.  `stepInPlace` is the step of the system on this memory: what a function of the
kernel stores to the tables is read back.  When the transfers stay in bounds the tables are never
overwritten, and the counters agree with the files of the processes in every run.
-/

namespace LarvaOS

/-- The address is in the image of the kernel, from `Start` to `l_kernel_end`. -/
def InImage (image : Image) (x : ℕ) : Prop :=
  kernelVirtualAddressBase + 0x200000 ≤ x ∧ x < image.lKernelEnd

/-- The image of the kernel is the same. -/
def ImageSame (image : Image) (b b' : Bytes) : Prop := ∀ x, InImage image x → b' x = b x

instance (image : Image) (b b' : Bytes) : Decidable (ImageSame image b b') :=
  decidable_of_iff
    (∀ x < image.lKernelEnd, kernelVirtualAddressBase + 0x200000 ≤ x → b' x = b x)
    ⟨fun h x hx => h x hx.2 hx.1, fun h x hhi hlo => h x ⟨hlo, hhi⟩⟩

variable (image : Image)

namespace Kernel

/-- The memory holds the tables of open files. -/
def inPlace (k : Kernel) : Kernel :=
  { k with memory := { k.memory with bytes := k.files.storeTables k.memory.bytes } }

/-- The state after a function of the kernel that began in the state `before`: what it has stored
to the tables of open files is read back. The static variables are no part of the memory, so a
function that overwrites the image of the kernel is no step of the model. -/
def settle (before k : Kernel) : Option Kernel := do
  assert (ImageSame image before.memory.bytes k.memory.bytes)
  let files ← k.files.reloadTables before.memory.bytes k.memory.bytes
  some ({ k with files := files }).inPlace

end Kernel

/-- `Read`. The position moves in the entry that is in memory after the transfer. -/
def readFileInPlace (proc : Slot) (fd : Int) (buffer : ℕ) (size : Int) (k : Kernel) :
    Option (Int × Kernel) := do
  let i ← fileIndex fd
  match (k.process proc).file i with
  | none => some (-ebadf, k)
  | some d => do
      let entry := k.files.fdTable d
      let c ← entry.fcb
      let fcb := k.files.fcbTable c
      let readSize := unsigned 32 (clipSize entry.position fcb.fileSize size)
      let m ← k.files.readRawData image k.scheduler.cr3 fcb.startCluster buffer entry.position
        readSize k.memory
      let k ← k.settle image { k with memory := m }
      let entry := k.files.fdTable d
      let files := k.files.setFD d { entry with position := (entry.position + readSize) % 2 ^ 32 }
      some (int32 readSize, ({ k with files := files }).inPlace)

/-- `Exec`, with `Read` on the tables in memory. -/
def execInPlace (proc : Slot) (filename : List UInt8) (k : Kernel) : Option Kernel := do
  let (fd, k₁) ← openFile image proc filename k
  let k ← k.settle image k₁
  if fd < 0 then
    k.exit
  else do
    let m ← memsetVirtual k.scheduler.cr3 userVirtualAddressBase 0 pageSize k.memory
    let k ← k.settle image { k with memory := m }
    let size ← getFileSize proc fd k
    let (programSize, k) ← readFileInPlace image proc fd userVirtualAddressBase size k
    if programSize < 0 then
      k.exit
    else do
      let k ← closeFile proc fd k
      k.settle image (startExec proc k)

/-- A step of the system whose tables of open files lie in memory. -/
def Kernel.stepInPlace (op : Operation) (k : Kernel) : Option Kernel :=
  match op with
  | .readFile fd buffer size =>
      (readFileInPlace image k.currentProc fd buffer size k).map Prod.snd
  | .exec filename => execInPlace image k.currentProc filename k
  | op => (k.step image op).bind (k.settle image)

variable {image} {k k' k₁ : Kernel} {q : Queues} {xs ps : List ℕ} {L : Layout} {op : Operation}
  {m : Memory} {a p : ℕ}

/-- The position moves in the entry in memory. -/
theorem Kernel.inPlace_advance (k : Kernel) (d size : ℕ) :
  (k.inPlace.advance d size k.inPlace.memory).inPlace = (k.advance d size k.memory).inPlace
  := by
  have hbytes := FileSystem.storeTables_storeTables k.files (k.advance d size k.memory).files rfl
    rfl k.memory.bytes
  exact congrArg (fun b => ({ k.advance d size k.memory with
    memory := { k.memory with bytes := b } } : Kernel)) hbytes

/-- A position that moves leaves the counters. -/
theorem Kernel.advance_openCount (k : Kernel) (d size : ℕ) (m : Memory) (d' : ℕ) :
  ((k.advance d size m).files.fdTable d').openCount = (k.files.fdTable d').openCount
  := by
  by_cases heq : d' = d
  · unfold Kernel.advance FileSystem.setFD
    dsimp only
    rw [heq, Function.update_self]
  · unfold Kernel.advance FileSystem.setFD
    dsimp only
    rw [Function.update_of_ne heq]

/-- `Read` on an open file. -/
theorem readFileInPlace_eq {proc : Slot} {fd size : Int} {buffer d c : ℕ}
    {i : Fin processMaximumFileDescriptor} (hi : fileIndex fd = some i)
    (hd : (k.process proc).file i = some d) (hc : (k.files.fdTable d).fcb = some c) :
  readFileInPlace image proc fd buffer size k
    = (k.files.readRawData image k.scheduler.cr3 (k.files.fcbTable c).startCluster buffer
        (k.files.fdTable d).position (k.readSize d c size) k.memory).bind
      (fun m => (k.settle image { k with memory := m }).map
        (fun k₁ => (int32 (k.readSize d c size),
          (k₁.advance d (k.readSize d c size) k₁.memory).inPlace)))
  := by
  unfold readFileInPlace Kernel.advance
  rw [hi, Option.bind_eq_bind, Option.bind_some]
  dsimp only
  rw [hd]
  dsimp only
  rw [hc, Option.bind_eq_bind, Option.bind_some]
  simp only [Option.map_eq_bind]
  rfl

/-! ### The pages that change -/

namespace Owned

/-- A page that is free, or that a process holds. -/
def Ordinary (L : Layout) (k : Kernel) (xs : List ℕ) (p : ℕ) : Prop :=
  p ∈ xs ∨ ∃ i, p ∈ L.slotPages k i

theorem ordinary_live {i : Slot} (hi : k.Live i)
    (hp : p ∈ (k.process i).stack :: (L.space i).pages) :
  Ordinary L k xs p
  := Or.inr ⟨i, (slotPages_of_live hi).symm ▸ hp⟩

theorem ordinary_isPage (h : Owned image k xs L) (hp : Ordinary L k xs p) :
  IsPage image p
  := by
  rcases hp with hp | ⟨i, hp⟩
  · exact h.free.isPage p hp
  · apply h.isPage p
    exact List.mem_append_right _ (List.mem_flatMap.mpr ⟨i, List.mem_finRange i, hp⟩)

theorem ordinary_not_kernel (h : Owned image k xs L) (hp : Ordinary L k xs p) :
  p ∉ L.kernelPages k
  := by
  intro hkernel
  rcases hp with hp | ⟨i, hp⟩
  · exact h.not_mem_held hp (mem_held_of_kernel hkernel)
  · have hnodup : (L.held k).Nodup := (List.nodup_append.mp h.nodup).2.1
    apply (List.nodup_append.mp hnodup).2.2 p hkernel p _ rfl
    exact List.mem_flatMap.mpr ⟨i, List.mem_finRange i, hp⟩

/-- Only ordinary pages change. -/
def OrdinaryChange (L : Layout) (k : Kernel) (xs : List ℕ) (m : Memory) : Prop :=
  ∃ ps, (∀ p ∈ ps, Ordinary L k xs p) ∧ Changes ps k.memory m

theorem ordinaryChange_of_memory (h : m = k.memory) :
  OrdinaryChange L k xs m
  := ⟨[], fun _ hp => absurd hp List.not_mem_nil, h ▸ Changes.refl _ _⟩

/-- A page of the free list changes, and pages of the current process. -/
theorem ordinaryChange_transfer (hlive : k.Live k.currentProc)
    (hps : ∀ p ∈ ps, p = a ∨ p = (L.space k.currentProc).page ∨ p = (k.process k.currentProc).stack)
    (hc : Changes ps k.memory m) :
  OrdinaryChange L k (a :: xs) m
  := by
  refine ⟨ps, fun p hp => ?_, hc⟩
  rcases hps p hp with rfl | rfl | rfl
  · exact Or.inl List.mem_cons_self
  · exact ordinary_live hlive (List.mem_cons_of_mem _ List.mem_cons_self)
  · exact ordinary_live hlive List.mem_cons_self

/-- `Exec` changes files, a free page, and the kernel stack and the user page of the process. -/
theorem exec_changes {filename : List UInt8} (h : Owned image k (a :: xs) L)
    (hq : Queued k.scheduler q (some k.currentProc) none) (hidle : k.currentProc ≠ idleSlot)
    (hfits : ∀ fd size k₁, LarvaOS.openFile image k.currentProc filename k = some (fd, k₁) →
      getFileSize k.currentProc fd k₁ = some size →
      ReadFits k.currentProc fd userVirtualAddressBase size k₁)
    (hrun : LarvaOS.exec image k.currentProc filename k = some k') :
  Changes [a, (L.space k.currentProc).page, (k.process k.currentProc).stack] k.memory k'.memory
    ∧ ∀ j, k'.Live j ↔ k.Live j
  := by
  obtain ⟨k₁, h₁, hchange, hfiles, hexit | rfl⟩ := h.exec_memory hq hidle hfits hrun
  · have hq₁ := hfiles.queued hq
    have hcurrent : k₁.currentProc = k.currentProc := hfiles.currentProc
    rw [← hcurrent] at hq₁ hidle
    obtain ⟨s, hs, rfl⟩ := Kernel.exit_eq_some.mp hexit
    obtain ⟨s', hs', _, hres, _⟩ := hq₁.exit hidle
    obtain rfl := Option.some.inj (hs'.symm.trans hs)
    refine ⟨hchange.mono (by simp), ?_⟩
    exact fun j => (SameResources.samePages hres j).live.trans (hfiles.samePages j).live
  · have hlive := (hfiles.samePages k.currentProc).live.mpr (hq.live_current hidle)
    have hstack : (k₁.process k.currentProc).stack = (k.process k.currentProc).stack :=
      hfiles.stack k.currentProc
    have hstart := startExec_changes (h₁.tf k.currentProc hlive)
    rw [hstack] at hstart
    refine ⟨(hchange.mono (by simp)).trans (hstart.mono (by simp)), ?_⟩
    exact fun j => (hfiles.samePages j).live

theorem openFile_ordinary {proc : Slot} {fileName : List UInt8} {ret : Int}
    (h : Owned image k xs L) (hrun : LarvaOS.openFile image proc fileName k = some (ret, k')) :
  OrdinaryChange L k xs k'.memory
  := by
  cases xs with
  | nil =>
      obtain ⟨_, rfl⟩ := openFile_withoutPages h.free.list hrun
      exact ordinaryChange_of_memory rfl
  | cons a ys =>
      refine ⟨[a], fun p hp => ?_, (h.openFile_memory hrun).1⟩
      rw [List.mem_singleton.mp hp]
      exact Or.inl List.mem_cons_self

theorem readFile_ordinary {fd size ret : Int} {buffer : ℕ} (h : Owned image k xs L)
    (hq : Queued k.scheduler q (some k.currentProc) none) (hidle : k.currentProc ≠ idleSlot)
    (hfits : Confined image (.readFile fd buffer size) k)
    (hrun : LarvaOS.readFile image k.currentProc fd buffer size k = some (ret, k')) :
  OrdinaryChange L k xs k'.memory
  := by
  cases xs with
  | nil =>
      obtain rfl := readFile_withoutPages h.free.list hrun
      exact ordinaryChange_of_memory rfl
  | cons a ys =>
      apply ordinaryChange_transfer (hq.live_current hidle) _
        (h.readFile_memory hq hidle (hfits (head_ne_zero h.free)).2 hrun).1
      simp

theorem lstat_ordinary {statbuf : ℕ} {ret : Int} (h : Owned image k xs L)
    (hq : Queued k.scheduler q (some k.currentProc) none) (hidle : k.currentProc ≠ idleSlot)
    (hfits : Confined image (.lstat statbuf) k)
    (hrun : LarvaOS.lstat image statbuf k = some (ret, k')) :
  OrdinaryChange L k xs k'.memory
  := by
  cases xs with
  | nil =>
      have hsame := @lstat_withoutPages image k h.free.list statbuf
      obtain ⟨_, rfl⟩ := Prod.mk.inj (Option.some.inj (hsame.symm.trans hrun))
      exact ordinaryChange_of_memory rfl
  | cons a ys =>
      obtain ⟨hlo, hhi⟩ := (hfits (head_ne_zero h.free)).2
      obtain ⟨m, rfl, hchange, _⟩ := h.lstat_memory hq hidle hlo hhi hrun
      apply ordinaryChange_transfer (hq.live_current hidle) _ hchange
      simp

theorem exec_ordinary {filename : List UInt8} (h : Owned image k xs L)
    (hq : Queued k.scheduler q (some k.currentProc) none) (hidle : k.currentProc ≠ idleSlot)
    (hfits : Confined image (.exec filename) k)
    (hrun : LarvaOS.exec image k.currentProc filename k = some k') :
  OrdinaryChange L k xs k'.memory
  := by
  cases xs with
  | nil =>
      obtain ⟨s, _, rfl⟩ := Kernel.exit_eq_some.mp (exec_withoutPages h.free.list hrun)
      exact ordinaryChange_of_memory rfl
  | cons a ys =>
      apply ordinaryChange_transfer (hq.live_current hidle) _
        (h.exec_changes hq hidle (hfits (head_ne_zero h.free)).2 hrun).1
      simp

theorem store_ordinary {v : ℕ} {c : UInt8} (h : Owned image k xs L)
    (hq : Queued k.scheduler q (some k.currentProc) none) (hidle : k.currentProc ≠ idleSlot)
    (hrun : k.store v c = some k') :
  OrdinaryChange L k xs k'.memory
  := by
  have hlive := hq.live_current hidle
  rw [Kernel.store, h.pageMapRegister hq hidle] at hrun
  split at hrun
  case h_1 m hstore =>
    obtain rfl := Option.some.inj hrun
    obtain ⟨hv, rfl⟩ := (h.space k.currentProc hlive).storeUser h.kernelEnd.le
      (h.space_isPage hlive) hstore
    refine ⟨_, fun p hp => ?_, UserSpace.changes_store hv c⟩
    rw [List.mem_singleton.mp hp]
    exact ordinary_live hlive (List.mem_cons_of_mem _ List.mem_cons_self)
  case h_2 =>
    obtain ⟨s, _, rfl⟩ := Kernel.exit_eq_some.mp hrun
    exact ordinaryChange_of_memory rfl

/-- A step in bounds changes ordinary pages only. -/
theorem step_changes (h : Owned image k xs L)
    (hq : Queued k.scheduler q (some k.currentProc) none) (hbounds : InBounds image op k)
    (hrun : k.step image op = some k') :
  OrdinaryChange L k xs k'.memory
  := by
  obtain ⟨hallowed, hfits⟩ := hbounds
  have hschedule {run : Scheduler → Option Scheduler} (hrun : k.schedule run = some k') :
      k'.memory = k.memory := by
    obtain ⟨s, _, rfl⟩ := Kernel.schedule_eq_some.mp hrun
    rfl
  cases op with
  | yield => exact ordinaryChange_of_memory (hschedule hrun)
  | sleep waitId => exact ordinaryChange_of_memory (hschedule hrun)
  | wakeup waitId => exact ordinaryChange_of_memory (hschedule hrun)
  | exit =>
      obtain ⟨s, _, rfl⟩ := Kernel.exit_eq_some.mp hrun
      exact ordinaryChange_of_memory rfl
  | wait pid =>
      obtain ⟨ys, _, hmemory | ⟨j, hj, _, hchange⟩⟩ := h.wait_changes hq (hallowed rfl) hrun
      · exact ordinaryChange_of_memory hmemory
      · exact ⟨_, fun p hp => ordinary_live hj hp, hchange⟩
  | fork =>
      obtain ⟨⟨ret, k₁⟩, hfork, rfl⟩ := Option.map_eq_some_iff.mp hrun
      exact ⟨xs, fun p hp => Or.inl hp, (h.fork_changes hq (hallowed rfl) hfork).1⟩
  | openFile fileName =>
      obtain ⟨⟨ret, k₁⟩, hopen, rfl⟩ := Option.map_eq_some_iff.mp hrun
      exact h.openFile_ordinary hopen
  | closeFile fd =>
      apply ordinaryChange_of_memory
      rcases closeFile_cases hrun with rfl | ⟨_, _, _, _, _, _, rfl⟩
      · rfl
      · rfl
  | readFile fd buffer size =>
      obtain ⟨⟨ret, k₁⟩, hread, rfl⟩ := Option.map_eq_some_iff.mp hrun
      exact h.readFile_ordinary hq (hallowed rfl) hfits hread
  | lstat statbuf =>
      obtain ⟨⟨ret, k₁⟩, hlstat, rfl⟩ := Option.map_eq_some_iff.mp hrun
      exact h.lstat_ordinary hq (hallowed rfl) hfits hlstat
  | exec filename => exact h.exec_ordinary hq (hallowed rfl) hfits hrun
  | store v c => exact h.store_ordinary hq (hallowed rfl) hrun
  | push offset c =>
      have hlive := hq.live_current (hallowed rfl)
      rw [Kernel.step, Kernel.push] at hrun
      split at hrun
      case isFalse => cases hrun
      case isTrue hoffset =>
        obtain rfl := Option.some.inj hrun
        refine ⟨[(k.process k.currentProc).stack], fun p hp => ?_, ?_⟩
        · rw [List.mem_singleton.mp hp]
          exact ordinary_live hlive List.mem_cons_self
        · apply Changes.of_page
          intro x hx
          apply Function.update_of_ne
          rintro rfl
          exact hx ⟨Nat.le_add_right _ _, Nat.add_lt_add_left hoffset _⟩

/-! ### Tables that are not overwritten -/

/-- Ordinary pages lie behind the image of the kernel. -/
theorem imageSame (h : Owned image k xs L) (hc : OrdinaryChange L k xs m) :
  ImageSame image k.memory.bytes m.bytes
  := by
  obtain ⟨ps, hps, hc⟩ := hc
  rintro x ⟨_, hhi⟩
  apply hc.bytes x
  rintro ⟨p, hp, hpage⟩
  have hlower := (h.ordinary_isPage (hps p hp)).lower
  exact absurd (hlower.trans hpage.1) (Nat.not_le.mpr hhi)

/-- The bytes of a page of the kernel. -/
theorem kernelPage_byte (h : Owned image k xs L) (hc : OrdinaryChange L k xs m)
    (hp : p ∈ L.kernelPages k) {x : ℕ} (hx : InPage p x) :
  m.bytes x = k.memory.bytes x
  := by
  obtain ⟨ps, hps, hc⟩ := hc
  apply hc.byte _ (h.isPage p (mem_held_of_kernel hp)).aligned _ hx
  · exact fun q hq => (h.ordinary_isPage (hps q hq)).aligned
  · exact fun hmem => h.ordinary_not_kernel (hps p hmem) hp

/-- A function of the kernel that changes ordinary pages does not overwrite the tables. -/
theorem settle_eq (h : Owned image k xs L) (hc : OrdinaryChange L k xs k'.memory)
    (hv : FileSystem.SameDisk k.files k'.files) :
  k.settle image k' = some k'.inPlace
  := by
  have hreload : k'.files.reloadTables k.memory.bytes k'.memory.bytes = some k'.files := by
    apply FileSystem.reloadTables_of_same
    · rw [hv.fcbTableAddress]
      exact fun x hx => h.kernelPage_byte hc List.mem_cons_self hx
    · rw [hv.fdTableAddress]
      exact fun x hx =>
        h.kernelPage_byte hc (List.mem_cons_of_mem _ List.mem_cons_self) hx
  rw [Kernel.settle, assert_of (h.imageSame hc), Option.bind_eq_bind, Option.bind_some, hreload,
    Option.bind_eq_bind, Option.bind_some]

/-- A free page and a page of the kernel have no byte in common. -/
theorem free_apart (h : Owned image k xs L) (ha : a ∈ xs) (hp : p ∈ L.kernelPages k) {x : ℕ}
    (hx : InPage p x) :
  ¬ InPage a x
  := by
  intro hx'
  have hp' := h.isPage p (mem_held_of_kernel hp)
  obtain rfl := InPage.unique hp'.aligned (h.free.isPage a ha).aligned hx hx'
  exact h.not_mem_held ha (mem_held_of_kernel hp)

/-- The tables have a page each. -/
theorem tables_ne (h : Owned image k xs L) :
  k.files.fcbTableAddress ≠ k.files.fdTableAddress
  := by
  intro heq
  have hnodup : (L.kernelPages k).Nodup :=
    (List.nodup_append.mp (List.nodup_append.mp h.nodup).2.1).1
  simp [Layout.kernelPages, heq] at hnodup

/-- The tables may be stored to their pages. -/
theorem inPlace (h : Owned image k xs L) :
  Owned image k.inPlace xs L
  := by
  have hkernel : ∀ p ∈ [k.files.fcbTableAddress, k.files.fdTableAddress], p ∈ L.kernelPages k := by
    intro p hp
    simp only [Layout.kernelPages, List.mem_cons, List.not_mem_nil, or_false] at hp ⊢
    tauto
  have haligned : ∀ p ∈ [k.files.fcbTableAddress, k.files.fdTableAddress], addrIsAligned p :=
    fun p hp => (h.isPage p (mem_held_of_kernel (hkernel p hp))).aligned
  have hc : Changes [k.files.fcbTableAddress, k.files.fdTableAddress] k.memory
      k.inPlace.memory := by
    refine ⟨fun x hx => FileSystem.storeTables_of_outside ?_ ?_, rfl, rfl⟩
    · exact fun hpage => hx ⟨_, List.mem_cons_self, hpage⟩
    · exact fun hpage => hx ⟨_, List.mem_cons_of_mem _ List.mem_cons_self, hpage⟩
  have hnodup : (L.kernelPages k).Nodup :=
    (List.nodup_append.mp (List.nodup_append.mp h.nodup).2.1).1
  apply h.of_outside hc rfl haligned
  · exact fun p hp hmem => h.not_mem_held hp (mem_held_of_kernel (hkernel p hmem))
  · intro p hp hmem
    simp only [Layout.kernelPages, List.nodup_cons, List.mem_cons, List.not_mem_nil, or_false]
      at hnodup hp hmem
    rcases hmem with rfl | rfl
    · tauto
    · tauto
  · intro i hi p hp hmem
    have hordinary : Ordinary L k xs p :=
      ordinary_live hi (List.mem_cons_of_mem _ (List.mem_cons_of_mem _ hp))
    exact h.ordinary_not_kernel hordinary (hkernel p hmem)

end Owned

/-! ### Steps in bounds -/

/-- The queues are consistent, the counters agree with the references, and every page has one
holder. -/
structure Settled (image : Image) (k : Kernel) : Prop where
  consistent : Consistent k.scheduler
  referenced : Referenced k
  owned : ∃ xs L, Owned image k xs L

namespace Settled

theorem inPlace (h : Settled image k) :
  Settled image k.inPlace
  where
  consistent := h.consistent
  referenced := h.referenced.congr rfl (fun _ => rfl)
  owned := by
    obtain ⟨xs, L, howned⟩ := h.owned
    exact ⟨xs, L, howned.inPlace⟩

/-- A step on tables that are no bytes. -/
theorem step (h : Settled image k) (hbounds : InBounds image op k)
    (hrun : k.step image op = some k') :
  Settled image k'
  := by
  obtain ⟨q, hq⟩ := h.consistent
  obtain ⟨xs, L, howned⟩ := h.owned
  refine ⟨(Kernel.step_cases hq.current_used hbounds.1 hrun).consistent h.consistent,
    h.referenced.step h.consistent hbounds.1 hrun, ?_⟩
  by_cases hop : op.entersKernel = true
  · exact (howned.step_stacks hq hop hbounds.1 hbounds.2 hrun).1
  · have hfits : Fits image op k := by
      cases op with
      | store v c => trivial
      | push offset c => trivial
      | _ => exact absurd rfl hop
    obtain ⟨ys, L', howned', _⟩ := howned.step h.consistent hbounds.1 hfits hrun
    exact ⟨ys, L', howned'⟩

/-- A step in bounds does not overwrite the tables. -/
theorem settle_eq (h : Settled image k) (hbounds : InBounds image op k)
    (hrun : k.step image op = some k') :
  k.settle image k' = some k'.inPlace
  := by
  obtain ⟨q, hq⟩ := h.consistent
  obtain ⟨xs, L, howned⟩ := h.owned
  apply howned.settle_eq (howned.step_changes hq hbounds hrun)
  exact (h.referenced.step_keeps h.consistent howned.sector hrun).disk

/-- In bounds, `Read` on the tables in memory is `Read`. -/
theorem readFileInPlace {fd size ret : Int} {buffer : ℕ} (h : Settled image k)
    (hbounds : InBounds image (.readFile fd buffer size) k)
    (hrun : LarvaOS.readFileInPlace image k.currentProc fd buffer size k = some (ret, k')) :
  ∃ k₁, readFile image k.currentProc fd buffer size k = some (ret, k₁)
    ∧ (k' = k₁ ∨ k' = k₁.inPlace)
  := by
  obtain ⟨i, hi, hbody⟩ := Option.bind_eq_some_iff.mp hrun
  cases hfile : (k.process k.currentProc).file i with
  | none =>
      rw [hfile] at hbody
      refine ⟨k', ?_, Or.inl rfl⟩
      rw [readFile, hi, Option.bind_eq_bind, Option.bind_some, hfile]
      exact hbody
  | some d =>
      rw [hfile] at hbody
      obtain ⟨c, hc, _⟩ := Option.bind_eq_some_iff.mp hbody
      rw [readFileInPlace_eq hi hfile hc] at hrun
      obtain ⟨m, hread, hrun⟩ := Option.bind_eq_some_iff.mp hrun
      obtain ⟨k₂, hsettle, hrun⟩ := Option.map_eq_some_iff.mp hrun
      obtain ⟨rfl, rfl⟩ := Prod.mk.inj hrun
      have hplain : readFile image k.currentProc fd buffer size k
          = some (int32 (k.readSize d c size), k.advance d (k.readSize d c size) m) := by
        rw [readFile_eq hi hfile hc, hread, Option.map_some]
      have hstep : k.step image (.readFile fd buffer size) = some _ :=
        congrArg (Option.map Prod.snd) hplain
      obtain ⟨q, hq⟩ := h.consistent
      obtain ⟨xs, L, howned⟩ := h.owned
      have hchange : Owned.OrdinaryChange L k xs m := howned.step_changes hq hbounds hstep
      have hsame : k.settle image { k with memory := m } = some _ :=
        howned.settle_eq hchange (FileSystem.SameDisk.refl _)
      obtain rfl := Option.some.inj (hsame.symm.trans hsettle)
      refine ⟨_, hplain, Or.inr ?_⟩
      exact Kernel.inPlace_advance { k with memory := m } d _

/-- `Exit` in a process. -/
theorem exit (h : Settled image k) (hidle : k.currentProc ≠ idleSlot) (hrun : k.exit = some k') :
  Settled image k'
  := @step image k k' .exit h ⟨fun _ => hidle, fun _ => trivial⟩ hrun

/-- `Open` finds a file only when there is a free page. -/
theorem openFile_head {proc : Slot} {fileName : List UInt8} {fd : Int} (hfd : 0 ≤ fd)
    (hrun : openFile image proc fileName k = some (fd, k')) :
  k.memory.freePageHead ≠ 0
  := by
  intro hempty
  exact Int.not_lt.mpr hfd (openFile_withoutPages hempty hrun).1

/-- Only ordinary pages change. -/
theorem settle_memory (h : Settled image k) (howned : Owned image k xs L)
    (howned' : Owned image { k with memory := m } xs L) (hc : Owned.OrdinaryChange L k xs m)
    (hrun : k.settle image { k with memory := m } = some k') :
  k' = ({ k with memory := m } : Kernel).inPlace ∧ Settled image k'
  := by
  have hsettle := @Owned.settle_eq image k { k with memory := m } xs L howned hc
    (FileSystem.SameDisk.refl _)
  obtain rfl := Option.some.inj (hsettle.symm.trans hrun)
  have hsettled : Settled image { k with memory := m } :=
    ⟨h.consistent, h.referenced.congr rfl (fun _ => rfl), xs, L, howned'⟩
  exact ⟨rfl, hsettled.inPlace⟩

/-- The last part of `Exec`. -/
theorem startExec (h : Settled image k) (hidle : k.currentProc ≠ idleSlot)
    (hrun : k.settle image (LarvaOS.startExec k.currentProc k) = some k') :
  Settled image k'
  := by
  obtain ⟨q, hq⟩ := h.consistent
  obtain ⟨xs, L, howned⟩ := h.owned
  have hlive := hq.live_current hidle
  refine (h.settle_memory howned (howned.startExec hlive) ⟨_, fun p hp => ?_,
    Owned.startExec_changes (howned.tf _ hlive)⟩ hrun).2
  rw [List.mem_singleton.mp hp]
  exact Owned.ordinary_live hlive List.mem_cons_self

/-- In bounds, `Exec` on the tables in memory keeps the invariants. -/
theorem execInPlace {filename : List UInt8} (h : Settled image k)
    (hbounds : InBounds image (.exec filename) k)
    (hrun : LarvaOS.execInPlace image k.currentProc filename k = some k') :
  Settled image k'
  := by
  have hidle := hbounds.1 rfl
  obtain ⟨q, hq⟩ := h.consistent
  obtain ⟨⟨fd, k₁⟩, hopen, hrun⟩ := Option.bind_eq_some_iff.mp hrun
  obtain ⟨k₂, hsettle, hrun⟩ := Option.bind_eq_some_iff.mp hrun
  have hopened : k.step image (.openFile filename) = some k₁ := congrArg (Option.map Prod.snd) hopen
  have hfind : InBounds image (.openFile filename) k := ⟨fun _ => hidle, fun hhead => hhead⟩
  obtain rfl := Option.some.inj ((h.settle_eq hfind hopened).symm.trans hsettle)
  have h₂ := (h.step hfind hopened).inPlace
  have hcurrent₂ : k₁.inPlace.currentProc = k.currentProc :=
    (openFile_onlyFiles hq.current_used hopen).currentProc
  have hidle₂ : k₁.inPlace.currentProc ≠ idleSlot := hcurrent₂.trans_ne hidle
  dsimp only at hrun
  split at hrun
  case isTrue => exact h₂.exit hidle₂ hrun
  case isFalse hfd =>
    obtain ⟨m, hset, hrun⟩ := Option.bind_eq_some_iff.mp hrun
    obtain ⟨k₃, hsettle₃, hrun⟩ := Option.bind_eq_some_iff.mp hrun
    obtain ⟨size, hsize, hrun⟩ := Option.bind_eq_some_iff.mp hrun
    obtain ⟨⟨ret, k₄⟩, hread, hrun⟩ := Option.bind_eq_some_iff.mp hrun
    -- The user page is cleared.
    obtain ⟨q₂, hq₂⟩ := h₂.consistent
    obtain ⟨xs, L, howned₂⟩ := h₂.owned
    have hclear := (howned₂.clearUser_memory hq₂ hidle₂ hset).1
    have hlive₂ := hq₂.live_current hidle₂
    obtain ⟨hk₃, h₃⟩ := h₂.settle_memory howned₂ (howned₂.clearUser hq₂ hidle₂ hset)
      ⟨_, fun p hp => Owned.ordinary_live hlive₂ (List.mem_cons_of_mem _
        (List.mem_singleton.mp hp ▸ List.mem_cons_self)), hclear⟩ hsettle₃
    have hcurrent₃ : k₃.currentProc = k.currentProc := hk₃ ▸ hcurrent₂
    have hidle₃ : k₃.currentProc ≠ idleSlot := hcurrent₃.trans_ne hidle
    -- The program is read.
    have hhead := openFile_head (Int.not_lt.mp hfd) hopen
    have hfits : ReadFits k₃.currentProc fd userVirtualAddressBase size k₃ := by
      rw [hcurrent₃]
      subst hk₃
      exact (hbounds.2 hhead).2 fd size k₁ hopen hsize
    have hbounds₃ : InBounds image (.readFile fd userVirtualAddressBase size) k₃ :=
      ⟨fun _ => hidle₃, fun hhead => ⟨hhead, hfits⟩⟩
    rw [← hcurrent₃] at hread hrun
    obtain ⟨k₅, hplain, hk₄⟩ := h₃.readFileInPlace hbounds₃ hread
    have h₅ := h₃.step hbounds₃ (congrArg (Option.map Prod.snd) hplain)
    have hscheduler₅ : k₅.scheduler = k₃.scheduler := readFile_scheduler hplain
    have hscheduler : k₄.scheduler = k₃.scheduler := by
      rcases hk₄ with rfl | rfl
      · exact hscheduler₅
      · exact hscheduler₅
    have h₄ : Settled image k₄ := by
      rcases hk₄ with rfl | rfl
      · exact h₅
      · exact h₅.inPlace
    have hcurrent₄ : k₄.currentProc = k₃.currentProc := congrArg Scheduler.currentProc hscheduler
    have hidle₄ : k₄.currentProc ≠ idleSlot := hcurrent₄.trans_ne hidle₃
    dsimp only at hrun
    split at hrun
    case isTrue => exact h₄.exit hidle₄ hrun
    case isFalse =>
      -- The file is closed, and the trap frame starts.
      obtain ⟨k₆, hclose, hsettle₆⟩ := Option.bind_eq_some_iff.mp hrun
      rw [← hcurrent₄] at hclose hsettle₆
      have h₆ : Settled image k₆ :=
        @step image k₄ k₆ (.closeFile fd) h₄ ⟨fun _ => hidle₄, fun _ => trivial⟩ hclose
      obtain ⟨q₄, hq₄⟩ := h₄.consistent
      have hcurrent₆ : k₆.currentProc = k₄.currentProc :=
        (closeFile_onlyFiles hq₄.current_used hclose).currentProc
      rw [← hcurrent₆] at hsettle₆
      exact h₆.startExec (hcurrent₆.trans_ne hidle₄) hsettle₆

/-- A step in bounds on the tables in memory keeps the invariants. -/
theorem stepInPlace (h : Settled image k) (hbounds : InBounds image op k)
    (hrun : k.stepInPlace image op = some k') :
  Settled image k'
  := by
  have hplain (hrun : (k.step image op).bind (k.settle image) = some k') : Settled image k' := by
    obtain ⟨k₁, hstep, hsettle⟩ := Option.bind_eq_some_iff.mp hrun
    obtain rfl := Option.some.inj ((h.settle_eq hbounds hstep).symm.trans hsettle)
    exact (h.step hbounds hstep).inPlace
  cases op with
  | readFile fd buffer size =>
      obtain ⟨⟨ret, k₁⟩, hread, rfl⟩ := Option.map_eq_some_iff.mp hrun
      obtain ⟨k₂, hread, hk₁⟩ := h.readFileInPlace hbounds hread
      have h₂ := h.step hbounds (congrArg (Option.map Prod.snd) hread)
      rcases hk₁ with rfl | rfl
      · exact h₂
      · exact h₂.inPlace
  | exec filename => exact h.execInPlace hbounds hrun
  | _ => exact hplain hrun

end Settled

/-! ### Runs -/

theorem kMain_settled {machine : Machine} {k₀ : Kernel} (hmap : DisjointRegions machine.memMap)
    (h₀ : kMain image machine = some k₀) :
  Settled image k₀
  := by
  obtain ⟨xs, L, hbooted⟩ := kMain_spec hmap h₀
  exact ⟨hbooted.consistent, kMain_referenced h₀, xs, L, hbooted.owned⟩

/-- In every state of a run in bounds the counters of the open files agree with the files of the
processes. -/
theorem reachable_references {machine : Machine} {k₀ : Kernel}
    (hmap : DisjointRegions machine.memMap) (h₀ : kMain image machine = some k₀)
    (h : Reachable (Kernel.stepInPlace image) (InBounds image) k₀.inPlace k) :
  Accounted image k
  := by
  have hsettled : Settled image k :=
    h.invariant (fun _ _ _ hk hbounds hrun => hk.stepInPlace hbounds hrun)
      (kMain_settled hmap h₀).inPlace
  exact hsettled.referenced.accounted hsettled.consistent

/-! ### A shell with an open file -/

/-- The shell runs, and its descriptor 3 is the first entry of both tables, the only open file of
all processes. -/
structure OneFile (k : Kernel) : Prop where
  settled : Settled smallImage k
  owned : ∃ xs L, 7 ≤ xs.length ∧ Owned smallImage k xs L
  queued : Queued k.scheduler (fun _ => []) (some k.currentProc) none
  currentProc : k.currentProc = 1
  used : ∀ j, (k.process j).state = .unused ↔ 2 ≤ j.val
  disk : ∃ p p', FileSystem.SameDisk (FileSystem.booted smallDisk p p') k.files
  file : (k.process 1).file 3 = some 0
  only : ∀ i j, (k.process i).file j = some 0 → i = 1 ∧ j = 3
  descriptor : k.files.fdTable 0 = { fcb := some 0, position := 0, openCount := 1 }
  size : (k.files.fcbTable 0).fileSize = 1024
  cluster : (k.files.fcbTable 0).startCluster = 2
  tables : ∃ b, k.memory.bytes = k.files.storeTables b
  address : k.files.fdTableAddress + pageSize ≤ k.memory.freeMemoryEndAddress

/-- A step that only stores the tables in addition. -/
theorem Settled.stepInPlace_eq (h : Settled image k) (hbounds : InBounds image op k)
    (hop : k.stepInPlace image op = (k.step image op).bind (k.settle image))
    (hrun : k.step image op = some k') :
  k.stepInPlace image op = some k'.inPlace
  := by
  rw [hop, hrun, Option.bind_some, h.settle_eq hbounds hrun]

/-- The shell opens the file of the small disk. -/
theorem smallMachine_oneFile :
  ∃ k₀ k, kMain smallImage (smallMachine 64) = some k₀
    ∧ Run (Kernel.stepInPlace smallImage) (InBounds smallImage) k₀.inPlace
      [.yield, .openFile [0x41, 0x2E]] k
    ∧ OneFile k ∧ k.files.fdTableAddress = k₀.files.fdTableAddress
  := by
  obtain ⟨k₀, L, hboot, hbooted, _, haddress⟩ :=
    kMain_smallMachine_end (n := 64) (by decide) (by decide)
  have hbooted₀ : Booted smallImage smallDisk k₀.inPlace
      (regionPages (kernelVirtualAddressBase + 0x400000) (51 + 1)) L :=
    ⟨hbooted.owned.inPlace, hbooted.queued, hbooted.currentProc, hbooted.files, hbooted.shell,
      hbooted.idle, hbooted.others, hbooted.pidNum, hbooted.created⟩
  have h₀ : Settled smallImage k₀.inPlace :=
    (kMain_settled (smallMachine_disjoint 64) hboot).inPlace
  -- The shell is dispatched.
  obtain ⟨k₁, hyield, hcurrent, howned₁, hres, hfiles₁, hmemory₁, hq₁⟩ := hbooted₀.yield
  have hyieldBounds : InBounds smallImage .yield k₀.inPlace :=
    ⟨Bool.noConfusion, fun _ => trivial⟩
  have hstep₁ := h₀.stepInPlace_eq hyieldBounds rfl hyield
  have h₁ := h₀.stepInPlace hyieldBounds hstep₁
  have hcurrent₁ : k₁.inPlace.currentProc = 1 := hcurrent
  have hidle : (1 : Slot) ≠ idleSlot := by decide
  -- The file is opened.
  obtain ⟨p, p', hdisk⟩ := hbooted.files
  have hbooted₁ : k₁.inPlace.files = FileSystem.booted smallDisk p p' := hfiles₁.trans hdisk
  have hnone : ∀ j, (k₁.inPlace.process j).file = fun _ => none :=
    fun j => (hres.file j).trans (hbooted₀.quiet.files j)
  have howned₁' : Owned smallImage k₁.inPlace
      (regionPages (kernelVirtualAddressBase + 0x400000) (51 + 1)) L := howned₁.inPlace
  rw [regionPages_succ] at howned₁'
  obtain ⟨k₂, entry, hopen, hopened, hcluster, hsize⟩ :=
    smallDisk_opens hbooted₁ h₁.referenced howned₁'.free (congrFun (hnone 1) 3)
  have hopenBounds : InBounds smallImage (.openFile [0x41, 0x2E]) k₁.inPlace :=
    ⟨fun _ => hcurrent₁ ▸ hidle, fun hhead => hhead⟩
  have hopenStep : k₁.inPlace.step smallImage (.openFile [0x41, 0x2E]) = some k₂ := by
    rw [Kernel.step, hcurrent₁, hopen, Option.map_some]
  have hstep₂ := h₁.stepInPlace_eq hopenBounds rfl hopenStep
  have h₂ := h₁.stepInPlace hopenBounds hstep₂
  have hq₁' : Queued k₁.inPlace.scheduler (fun _ => []) (some k₁.inPlace.currentProc) none :=
    hcurrent₁.symm ▸ hq₁
  have hused : (k₁.inPlace.process k₁.inPlace.currentProc).state ≠ .unused := hq₁'.current_used
  rw [hcurrent₁] at hused
  have hfiles₂ := openFile_onlyFiles hused hopen
  obtain ⟨hchange₂, _, hsame₂⟩ := howned₁'.openFile_memory hopen
  have hcurrent₂ : k₂.inPlace.currentProc = 1 := hfiles₂.currentProc.trans hcurrent₁
  have htable : k₂.inPlace.files.fdTableAddress = k₀.files.fdTableAddress :=
    hsame₂.fdTableAddress.trans (congrArg FileSystem.fdTableAddress hfiles₁)
  refine ⟨k₀, k₂.inPlace, hboot, ?_, ⟨h₂, ?_, ?_, ?_, ?_, ?_, ?_, ?_, ?_, ?_, ?_, ?_, ?_⟩, ?_⟩
  · exact Run.cons Operation.yield hyieldBounds hstep₁
      (Run.cons (Operation.openFile [0x41, 0x2E]) hopenBounds hstep₂ (Run.nil _))
  · exact ⟨_, L, by simp [regionPages], (howned₁'.openFile hused hopen).inPlace⟩
  · rw [hcurrent₂]
    exact hfiles₂.queued hq₁
  · exact hcurrent₂
  · intro j
    have hstate : (k₂.inPlace.process j).state = (k₁.process j).state := hfiles₂.state j
    rw [hstate]
    exact (hres.unused j).trans (hbooted₀.quiet.used j)
  · exact ⟨p, p', hbooted₁ ▸ hsame₂⟩
  · exact hopened.file
  · intro i j hfile
    by_contra hne
    apply hopened.unreferenced i j
    rw [← hopened.otherFiles i j hne]
    exact hfile
  · exact hopened.descriptor
  · exact hopened.size.trans hsize
  · exact hopened.cluster.trans hcluster
  · exact ⟨_, rfl⟩
  · have hend₁ : k₁.memory.freeMemoryEndAddress = k₀.inPlace.memory.freeMemoryEndAddress := by
      rw [hmemory₁]
    have hend : k₂.inPlace.memory.freeMemoryEndAddress = k₀.memory.freeMemoryEndAddress :=
      hchange₂.freeMemoryEndAddress.trans hend₁
    rw [htable, hend]
    exact haddress
  · exact htable

/-- The shell forks when it has opened a file: two files point to the descriptor. -/
theorem reachable_references_small :
  ∃ k₀ k, kMain smallImage (smallMachine 64) = some k₀
    ∧ Run (Kernel.stepInPlace smallImage) (InBounds smallImage) k₀.inPlace
      [.yield, .openFile [0x41, 0x2E], .fork] k
    ∧ (k.process 1).file 3 = some 0 ∧ (k.process 2).file 3 = some 0
    ∧ (k.files.fdTable 0).openCount = (k.holders 0).card ∧ 1 < (k.holders 0).card
  := by
  obtain ⟨k₀, k, hboot, hrun, h, _⟩ := smallMachine_oneFile
  obtain ⟨xs, L, hlen, howned⟩ := h.owned
  have hidle : k.currentProc ≠ idleSlot := by
    rw [h.currentProc]
    decide
  obtain ⟨files, hshared⟩ := h.settled.referenced.exists_shared k.currentProc
  obtain ⟨k', _, _, _, _, hfork, _, _, _, hforked, _⟩ :=
    howned.forks h.queued hidle (n := 2) (by decide) h.used hlen hshared
  have hbounds : InBounds smallImage .fork k := ⟨fun _ => hidle, fun _ => trivial⟩
  have hplain : k.step smallImage .fork = some k' := by
    rw [Kernel.step, hfork, Option.map_some]
  have hstep := h.settled.stepInPlace_eq hbounds rfl hplain
  have hrun' := hrun.snoc Operation.fork hbounds hstep
  have haccounted := reachable_references (smallMachine_disjoint 64) hboot hrun'.reachable
  have hother : k'.inPlace.process 1 = k.process 1 := hforked.others 1 (by decide)
  have hshell : (k'.inPlace.process 1).file 3 = some 0 := hother.symm ▸ h.file
  have hnew : (k'.inPlace.process 2).file = (k.process k.currentProc).file
      ∧ (k'.inPlace.process 2).state = .ready := by
    have hself : k'.inPlace.process 2 = _ := hforked.child
    rw [hself]
    exact ⟨rfl, rfl⟩
  have hchild : (k'.inPlace.process 2).file 3 = some 0 := by
    rw [hnew.1, h.currentProc]
    exact h.file
  refine ⟨k₀, _, hboot, hrun', hshell, hchild, haccounted.count 0, ?_⟩
  apply Finset.one_lt_card.mpr
  refine ⟨(1, 3), ?_, (2, 3), ?_, by decide⟩
  · refine Finset.mem_filter.mpr ⟨Finset.mem_univ _, ?_, hshell⟩
    rw [hother, Ne, h.used 1]
    decide
  · refine Finset.mem_filter.mpr ⟨Finset.mem_univ _, ?_, hchild⟩
    rw [hnew.2]
    decide

/-- A file descriptor whose second byte of `open_count` becomes one. -/
theorem load_overwritten {table : ℕ} (hpos : 0 < table) (hhi : table + pageSize ≤ 2 ^ 64) :
  FD.load table (Function.update
      (FD.bytes table { fcb := some 0, position := 0, openCount := 1 }) 13 1)
    = some { fcb := some 0, position := 0, openCount := 257 }
  := by
  generalize hd : ({ fcb := some 0, position := 0, openCount := 1 } : FD) = d
  have hfits : d.Fits := by
    rw [← hd]
    refine ⟨?_, by decide, by decide⟩
    intro c hc
    rw [← Option.some.inj hc, getMaxEntriesOfFCBTable, pageSize_eq]
    decide
  have hpointer : Bytes.read 8 (Function.update (d.bytes table) 13 1) 0
      = fcbAddress table d.fcb := by
    rw [← FD.read_pointer hhi hfits]
    exact Bytes.read_congr fun x _ hx => Function.update_of_ne (by omega) _ _
  have hposition : Bytes.read 4 (Function.update (d.bytes table) 13 1) 8 = d.position := by
    rw [← FD.read_position table hfits]
    exact Bytes.read_congr fun x _ hx => Function.update_of_ne (by omega) _ _
  have hcount : Bytes.read 4 (Function.update (d.bytes table) 13 1) 12 = 257 := by
    rw [← hd]
    rfl
  rw [FD.load, hpointer, fcbOfAddress_fcbAddress hpos hfits.fcb, hposition, hcount, ← hd]
  rfl

/-- A request for a byte of the file of the small disk. -/
theorem smallDisk_request {files : FileSystem} {p p' : ℕ}
    (h : FileSystem.SameDisk (FileSystem.booted smallDisk p p') files) :
  files.Readable 2 0 ∧ files.readSectors 1 = 1 ∧ files.readOffset 0 = 0
    ∧ files.diskByte (files.clusterSector (files.readCluster 2 0)) 0 = 1
  := by
  have hbpb : files.bpb = BPB.load smallDisk 0 := h.bpb
  have hdisk : files.disk = smallDisk := h.disk
  refine ⟨⟨?_, ?_⟩, ?_, ?_, ?_⟩
  · rw [hbpb]
    decide
  · rw [FileSystem.readCluster, hbpb]
    decide
  · rw [FileSystem.readSectors, hbpb]
    decide
  · rw [FileSystem.readOffset, hbpb]
    decide
  · rw [FileSystem.diskByte, FileSystem.clusterSector, FileSystem.readCluster, hbpb, hdisk]
    decide

namespace OneFile

/-- A transfer that stores one to the second byte of `open_count` of the descriptor. -/
theorem settle_eq (h : OneFile k) (howned : Owned smallImage k (a :: xs) L)
    (hstored : m.bytes (k.files.fdTableAddress + 13) = 1)
    (hsame : ∀ x, ¬ InPage a x → x ≠ k.files.fdTableAddress + 13 → m.bytes x = k.memory.bytes x) :
  k.settle smallImage { k with memory := m } = some
    ({ k with
      memory := m
      files := k.files.setFD 0 { fcb := some 0, position := 0, openCount := 257 } } : Kernel).inPlace
  := by
  have hsize := pageSize_eq
  have hfcb : k.files.fcbTableAddress ∈ L.kernelPages k := by simp [Layout.kernelPages]
  have hfd : k.files.fdTableAddress ∈ L.kernelPages k := by simp [Layout.kernelPages]
  have hfcbPage := howned.isPage _ (Owned.mem_held_of_kernel hfcb)
  have hfdPage := howned.isPage _ (Owned.mem_held_of_kernel hfd)
  have ha := howned.free.isPage a List.mem_cons_self
  have hbuf : InPage k.files.fdTableAddress (k.files.fdTableAddress + 13) := by
    unfold InPage
    omega
  have hentries : 0 < getMaxEntriesOfFDTable := by
    rw [getMaxEntriesOfFDTable, hsize]
    decide
  -- The entry before the transfer.
  obtain ⟨b, hb⟩ := h.tables
  have hentry : ∀ o < sizeofFD, k.memory.bytes (k.files.fdTableAddress + sizeofFD * 0 + o)
      = FD.bytes k.files.fcbTableAddress { fcb := some 0, position := 0, openCount := 1 } o := by
    intro o ho
    rw [hb, FileSystem.storeTables_fd hentries ho, h.descriptor]
  have himage : ImageSame smallImage k.memory.bytes m.bytes := by
    rintro x ⟨_, hhi⟩
    have hlower := hfdPage.lower
    apply hsame x
    · exact fun hx => absurd (ha.lower.trans hx.1) (Nat.not_le.mpr hhi)
    · omega
  have hreload : k.files.reloadTables k.memory.bytes m.bytes
      = some (k.files.setFD 0 { fcb := some 0, position := 0, openCount := 257 }) := by
    apply FileSystem.reloadTables_of_entry hentries
    · intro x hx
      apply hsame x (howned.free_apart List.mem_cons_self hfcb hx)
      rintro rfl
      exact howned.tables_ne (InPage.unique hfcbPage.aligned hfdPage.aligned hx hbuf)
    · intro d hd hne o ho
      have hin := FileSystem.entry_inPage (a := k.files.fdTableAddress)
        FileSystem.sizeofFD_mul.le hd ho
      apply hsame _ (howned.free_apart List.mem_cons_self hfd hin)
      unfold sizeofFD at ho ⊢
      omega
    · refine ⟨13, by decide, ?_⟩
      rw [hentry 13 (by decide), Nat.mul_zero, Nat.add_zero, hstored]
      have hzero : FD.bytes k.files.fcbTableAddress
          { fcb := some 0, position := 0, openCount := 1 } 13 = 0 := rfl
      rw [hzero]
      decide
    · rw [← load_overwritten hfcbPage.ne_zero.bot_lt hfcbPage.end_le]
      apply FD.load_congr
      intro o ho
      by_cases ho' : o = 13
      · rw [ho', Function.update_self]
        exact hstored
      · rw [Function.update_of_ne ho', ← hentry o ho]
        have hin := FileSystem.entry_inPage (a := k.files.fdTableAddress)
          FileSystem.sizeofFD_mul.le hentries ho
        apply hsame _ (howned.free_apart List.mem_cons_self hfd hin)
        omega
  rw [Kernel.settle, assert_of himage, Option.bind_eq_bind, Option.bind_some]
  dsimp only
  rw [hreload, Option.bind_eq_bind, Option.bind_some]

/-- The shell reads a byte of its file to the second byte of `open_count` of its descriptor. -/
theorem overwrites (h : OneFile k) :
  ∃ k', k.stepInPlace smallImage (.readFile 3 (k.files.fdTableAddress + 13) 1) = some k'
    ∧ (k'.files.fdTable 0).openCount = 257 ∧ ∀ i, k'.process i = k.process i
  := by
  obtain ⟨xs, L, hlen, howned⟩ := h.owned
  obtain ⟨a, ys, rfl⟩ := List.exists_cons_of_length_pos (Nat.zero_lt_of_lt hlen)
  obtain ⟨p, p', hdisk⟩ := h.disk
  obtain ⟨hreadable, hsectors, hoffset, hbyte⟩ := smallDisk_request hdisk
  have hidle : k.currentProc ≠ idleSlot := by
    rw [h.currentProc]
    decide
  have hlive := h.queued.live_current hidle
  obtain ⟨hresident, hcr3, hown⟩ := howned.resident h.queued hidle
  have hfd : k.files.fdTableAddress ∈ L.kernelPages k := by simp [Layout.kernelPages]
  have hpage := howned.isPage _ (Owned.mem_held_of_kernel hfd)
  have hsize := pageSize_eq
  have hbuf : InPage k.files.fdTableAddress (k.files.fdTableAddress + 13) := by
    unfold InPage
    omega
  have hkernel : KernelAddress L.size (k.files.fdTableAddress + 13) := by
    have hlower := hpage.kernel
    have haddress := h.address
    apply (hown _).mpr
    unfold Kernel.OwnAddress
    omega
  -- The transfer stores the first byte of the file.
  obtain ⟨m, hread, hstored, hsame⟩ := hresident.readRawData_kernelByte
    (fun hmem => howned.not_mem_held List.mem_cons_self
      (Owned.mem_held_of_live hlive (List.mem_cons_of_mem _ hmem)))
    howned.free hreadable (by rw [hsectors, hsize]; decide) (by rw [hsectors, hoffset]; decide)
    hkernel hpage.aligned (fun hmem => howned.not_mem_held hmem (Owned.mem_held_of_kernel hfd)) hbuf
  rw [hoffset, hbyte] at hstored
  have hsettle := h.settle_eq howned hstored hsame
  -- `Read` on the descriptor 3.
  have hindex : fileIndex 3 = some (3 : Fin processMaximumFileDescriptor) :=
    fileIndex_eq_some.mpr rfl
  have hfile : (k.process k.currentProc).file 3 = some 0 := by
    rw [h.currentProc]
    exact h.file
  have hfcb : (k.files.fdTable 0).fcb = some 0 := by rw [h.descriptor]
  have hposition : (k.files.fdTable 0).position = 0 := by rw [h.descriptor]
  have hrequest : k.readSize 0 0 1 = 1 := by
    rw [Kernel.readSize, hposition, h.size]
    decide
  have heq := @readFileInPlace_eq smallImage k k.currentProc 3 1 (k.files.fdTableAddress + 13) 0 0 3
    hindex hfile hfcb
  rw [hposition, h.cluster, hrequest, hcr3, hread, Option.bind_some, hsettle,
    Option.map_some] at heq
  refine ⟨_, congrArg (Option.map Prod.snd) heq, ?_, fun i => rfl⟩
  refine (Kernel.advance_openCount _ 0 1 _ 0).trans ?_
  exact congrArg FD.openCount (Function.update_self 0 _ k.files.fdTable)

end OneFile

/-- A program in ring 3 overwrites a counter: the shell opens a file and reads its first byte to
the second byte of `open_count` of the descriptor. One file points to it, and the counter is 257. -/
theorem not_references_small :
  ∃ k₀ k, kMain smallImage (smallMachine 64) = some k₀
    ∧ Run (Kernel.stepInPlace smallImage) Allowed k₀.inPlace
      [.yield, .openFile [0x41, 0x2E], .readFile 3 (k₀.files.fdTableAddress + 13) 1] k
    ∧ (k.files.fdTable 0).openCount = 257 ∧ (k.holders 0).card = 1 ∧ ¬ Accounted smallImage k
  := by
  obtain ⟨k₀, k, hboot, hrun, h, haddress⟩ := smallMachine_oneFile
  obtain ⟨k', hread, hcount, hprocess⟩ := h.overwrites
  have hidle : k.currentProc ≠ idleSlot := by
    rw [h.currentProc]
    decide
  have hallowed : Allowed (.readFile 3 (k.files.fdTableAddress + 13) 1) k := fun _ => hidle
  have hrun' := (hrun.mono fun _ _ hbounds => hbounds.1).snoc _ hallowed hread
  have hholders : k'.holders 0 = {(1, 3)} := by
    ext ⟨i, j⟩
    rw [Finset.mem_singleton, Kernel.holders, Finset.mem_filter, hprocess]
    constructor
    · rintro ⟨_, _, hfile⟩
      obtain ⟨rfl, rfl⟩ := h.only i j hfile
      rfl
    · intro heq
      obtain ⟨rfl, rfl⟩ := Prod.mk.inj heq
      refine ⟨Finset.mem_univ _, ?_, h.file⟩
      rw [Ne, h.used]
      decide
  have hcard : (k'.holders 0).card = 1 := by rw [hholders, Finset.card_singleton]
  refine ⟨k₀, k', hboot, haddress ▸ hrun', hcount, hcard, fun haccounted => ?_⟩
  have heq := haccounted.count 0
  rw [hcount, hcard] at heq
  exact absurd heq (by decide)

end LarvaOS
