import LarvaOS.File.Stores
import LarvaOS.Kernel.Isolation
import LarvaOS.Kernel.Loading
import LarvaOS.Kernel.SystemCalls

/-!
# Pointers of programs

`SysRead` and `SysLstat` store through an address that the program passes, and no function
compares it with the bounds of the user page.  The kernel's memory is mapped in every page
map and writable for the kernel.  So a call stores outside of the user page if and only if it
stores anything and its buffer starts in the kernel's memory: other addresses outside of the
user page are not mapped, and the first store to one of them causes an exception.
-/

namespace LarvaOS

open FileSystem

variable {image : Image} {k : Kernel} {q : Queues} {xs : List ℕ} {L : Layout}

namespace Kernel

/-- The descriptor and the file control block to which a number leads. -/
def descriptor (k : Kernel) (fd : Int) : Option (ℕ × ℕ) := do
  let i ← fileIndex fd
  let d ← (k.process k.currentProc).file i
  let c ← (k.files.fdTable d).fcb
  some (d, c)

/-- The number of bytes that `Read` copies from an open file. -/
def readLength (k : Kernel) (d c : ℕ) (size : Int) : ℕ :=
  unsigned 32 (clipSize (k.files.fdTable d).position (k.files.fcbTable c).fileSize size)

/-- The addresses at which `Read` stores a byte through the pointer of the program. -/
def readStores (image : Image) (k : Kernel) (fd : Int) (buffer : ℕ) (size : Int) : List ℕ :=
  match k.descriptor fd with
  | none => []
  | some (d, c) =>
      k.files.readRawDataStores image k.scheduler.cr3 (k.files.fcbTable c).startCluster buffer
        (k.files.fdTable d).position (k.readLength d c size) k.memory

/-- The addresses at which the store of a key to `buffer` stores a byte. -/
def keyStores (k : Kernel) (buffer : ℕ) : List ℕ :=
  if (k.memory.store k.scheduler.cr3 buffer 0).isSome then [buffer] else []

/-- The addresses at which a function of the table of system calls stores a byte through the
pointer of the program. When `SysRead` reads keys, its loop is at the key `i`. -/
def userStores (image : Image) (k : Kernel) (handler : Handler) (arg : Arguments) (i : ℕ) :
    List ℕ :=
  match handler with
  | .sysRead =>
      if int16 (arg 0) = standardInput then
        if i < int32 (arg 2) then k.keyStores ((arg 1 + i) % 2 ^ 64) else []
      else
        k.readStores image (int16 (arg 0)) (arg 1) (int32 (arg 2))
  | .sysLstat => k.files.lstatStores image k.scheduler.cr3 (arg 1) k.memory
  | _ => []

/-- The address at which a function begins to store. -/
def storePointer (handler : Handler) (arg : Arguments) (i : ℕ) : ℕ :=
  match handler with
  | .sysRead => if int16 (arg 0) = standardInput then (arg 1 + i) % 2 ^ 64 else arg 1
  | _ => arg 1

/-- `Read` has a byte to store: the number leads to a file, there is a free page to read the
disk to, and the position is not the end of the file. -/
def HasRead (k : Kernel) (fd size : Int) : Prop :=
  ∃ d c, k.descriptor fd = some (d, c) ∧ k.memory.freePageHead ≠ 0
    ∧ k.files.Readable (k.files.fcbTable c).startCluster (k.files.fdTable d).position
    ∧ k.readLength d c size ≠ 0

/-- A function has a byte to store: a key, a byte of an open file, or an entry of the root
directory. -/
def HasStore (k : Kernel) (handler : Handler) (arg : Arguments) (i : ℕ) : Prop :=
  match handler with
  | .sysRead =>
      if int16 (arg 0) = standardInput then i < int32 (arg 2)
      else k.HasRead (int16 (arg 0)) (int32 (arg 2))
  | .sysLstat => k.memory.freePageHead ≠ 0 ∧ k.files.rootEntries ≠ []
  | _ => False

/-- The clusters that `SysRead` fetches for a file fit the temporary page. -/
def TransferFits (k : Kernel) (handler : Handler) (arg : Arguments) : Prop :=
  handler = .sysRead → ∀ d c, k.descriptor (int16 (arg 0)) = some (d, c) →
    k.files.readSectors (k.readLength d c (int32 (arg 2))) * sectorSize ≤ pageSize

/-- The address is in the memory of the kernel. -/
def OwnAddress (k : Kernel) (v : ℕ) : Prop :=
  kernelVirtualAddressBase ≤ v ∧ v < k.memory.freeMemoryEndAddress

/-- A system call is contained: it calls a function of the table or none, and the function
stores through the pointer of the program to the user page only. -/
structure Contained (image : Image) (k : Kernel) (table : SyscallTable) (rax rdi : Fin (2 ^ 64))
    (arg : Arguments) (i : ℕ) : Prop where
  known : systemCall table rax rdi ≠ .outside
  stores : ∀ handler, systemCall table rax rdi = .call handler →
    ∀ v ∈ k.userStores image handler arg i, InUserPage v

/-- The number of a system call is refused or an index of the table, and the function has
nothing to store, or its pointer is not an address of the kernel. -/
structure Harmless (k : Kernel) (table : SyscallTable) (rax rdi : Fin (2 ^ 64))
    (arg : Arguments) (i : ℕ) : Prop where
  number : int64 rdi < 0 ∨ 0 ≤ int64 rax ∧ int64 rax ≠ maximumSystemCalls
  pointer : ∀ handler, systemCall table rax rdi = .call handler → k.HasStore handler arg i →
    ¬ k.OwnAddress (storePointer handler arg i)

end Kernel

/-! ### One call -/

/-- When `Read` returns, it has stored all the bytes of an open file, from the start of the
buffer on. -/
theorem readStores_eq {fd size ret : Int} {buffer d c : ℕ} {k' : Kernel}
    (hfd : k.descriptor fd = some (d, c))
    (hrun : readFile image k.currentProc fd buffer size k = some (ret, k')) :
  k.readStores image fd buffer size = List.range' buffer (k.readLength d c size)
  := by
  obtain ⟨i, hi, hlink⟩ := Option.bind_eq_some_iff.mp hfd
  obtain ⟨d', hfile, hlink⟩ := Option.bind_eq_some_iff.mp hlink
  obtain ⟨c', hc, hlink⟩ := Option.bind_eq_some_iff.mp hlink
  obtain ⟨rfl, rfl⟩ := Prod.mk.inj (Option.some.inj hlink)
  obtain ⟨i', hi', hrun⟩ := Option.bind_eq_some_iff.mp hrun
  obtain rfl := Option.some.inj (hi.symm.trans hi')
  rw [hfile] at hrun
  obtain ⟨c, hc', hrun⟩ := Option.bind_eq_some_iff.mp hrun
  obtain rfl := Option.some.inj (hc.symm.trans hc')
  obtain ⟨m, hread, _⟩ := Option.bind_eq_some_iff.mp hrun
  rw [Kernel.readStores, hfd]
  exact readRawDataStores_eq hread

/-- The number of a call outside of the table. -/
theorem systemCall_outside {table : SyscallTable} {rax rdi : Fin (2 ^ 64)} :
  systemCall table rax rdi ≠ .outside
    ↔ int64 rdi < 0 ∨ 0 ≤ int64 rax ∧ int64 rax ≠ maximumSystemCalls
  := by
  unfold systemCall
  dsimp only
  by_cases hrefused : int64 rdi < 0 ∨ maximumSystemCalls < int64 rax
  · rw [if_pos hrefused]
    constructor
    · intro _
      rcases hrefused with hneg | hlarge
      · exact Or.inl hneg
      · right
        omega
    · intro _ h
      cases h
  rw [if_neg hrefused]
  by_cases houtside : int64 rax < 0 ∨ maximumSystemCalls ≤ int64 rax
  · rw [if_pos houtside]
    constructor
    · exact fun h => absurd rfl h
    · omega
  · rw [if_neg houtside]
    constructor
    · omega
    · intro _
      split
      · simp
      · simp

/-- The call of a function of the table. -/
theorem systemCall_call {table : SyscallTable} {rax rdi : Fin (2 ^ 64)} {handler : Handler}
    (hparam : 0 ≤ int64 rdi) (hlo : 0 ≤ int64 rax) (hhi : int64 rax < maximumSystemCalls)
    (h : table (int64 rax).toNat = some handler) :
  systemCall table rax rdi = .call handler
  := by
  unfold systemCall
  dsimp only
  rw [if_neg (by omega), if_neg (by omega), h]

/-- The address space of the current process. -/
theorem Owned.resident (h : Owned image k xs L)
    (hq : Queued k.scheduler q (some k.currentProc) none) (hidle : k.currentProc ≠ idleSlot) :
  Resident image k.memory L.size (L.space k.currentProc)
    ∧ k.scheduler.cr3 = virToPhy (L.space k.currentProc).map
    ∧ ∀ v, KernelAddress L.size v ↔ k.OwnAddress v
  := by
  have hlive := hq.live_current hidle
  refine ⟨⟨h.space _ hlive, h.kernelEnd.le, h.space_isPage hlive,
    (List.nodup_append.mp (h.space_nodup hlive)).1⟩, h.pageMapRegister hq hidle, ?_⟩
  intro v
  rw [KernelAddress, Kernel.OwnAddress, h.kernelEnd.address]

/-- The store of a key is in the user page, unless it goes to the kernel's memory. -/
theorem Resident.keyStores_iff {n v : ℕ} {S : Space} (h : Resident image k.memory n S)
    (hcr3 : k.scheduler.cr3 = virToPhy S.map) :
  (∀ x ∈ k.keyStores v, InUserPage x) ↔ ¬ KernelAddress n v
  := by
  rw [Kernel.keyStores, hcr3]
  constructor
  · intro hall hk
    obtain ⟨m, hstore⟩ := h.store_kernel hk 0
    rw [hstore, Option.isSome_some, if_pos rfl] at hall
    exact not_inUserPage hk (hall v List.mem_cons_self)
  · intro hk x hx
    by_cases hv : InUserPage v
    · split at hx
      · rwa [List.mem_singleton.mp hx]
      · cases hx
    · rw [h.store_none hv hk, Option.isSome_none, if_neg Bool.false_ne_true] at hx
      cases hx

/-- The stores of `Read` are in the user page, unless there are bytes to store and the buffer
starts in the kernel's memory. -/
theorem Owned.readStores_iff {fd size : Int} {buffer : ℕ} (h : Owned image k xs L)
    (hq : Queued k.scheduler q (some k.currentProc) none) (hidle : k.currentProc ≠ idleSlot)
    (hfits : ∀ d c, k.descriptor fd = some (d, c) →
      k.files.readSectors (k.readLength d c size) * sectorSize ≤ pageSize) :
  (∀ v ∈ k.readStores image fd buffer size, InUserPage v)
    ↔ (k.HasRead fd size → ¬ k.OwnAddress buffer)
  := by
  obtain ⟨hresident, hcr3, hown⟩ := h.resident hq hidle
  rw [Kernel.readStores, Kernel.HasRead, ← hown, hcr3]
  cases hfd : k.descriptor fd with
  | none => simp
  | some r =>
      obtain ⟨d, c⟩ := r
      dsimp only
      by_cases hready : k.memory.freePageHead ≠ 0
          ∧ k.files.Readable (k.files.fcbTable c).startCluster (k.files.fdTable d).position
      · obtain ⟨hhead, hreadable⟩ := hready
        obtain ⟨a, ys, rfl⟩ := h.free.exists_cons hhead
        have hne : a ∉ (L.space k.currentProc).pages := fun ha =>
          (List.nodup_append.mp (h.space_nodup (hq.live_current hidle))).2.2 a ha a
            List.mem_cons_self rfl
        rw [hresident.readRawData_iff hne h.free hreadable (hfits d c hfd)]
        constructor
        · rintro (hzero | hk) ⟨_, _, heq, _, _, hpos⟩
          · obtain ⟨rfl, rfl⟩ := Prod.mk.inj (Option.some.inj heq)
            exact absurd hzero hpos
          · exact hk
        · intro himp
          by_cases hzero : k.readLength d c size = 0
          · exact Or.inl hzero
          · exact Or.inr (himp ⟨d, c, rfl, hhead, hreadable, hzero⟩)
      · rw [Resident.readRawData_stopped ((not_and_or.mp hready).imp_left not_not.mp)]
        constructor
        · rintro _ ⟨_, _, heq, hhead, hreadable, _⟩
          obtain ⟨rfl, rfl⟩ := Prod.mk.inj (Option.some.inj heq)
          exact absurd ⟨hhead, hreadable⟩ hready
        · intro _ v hv
          cases hv

/-- The stores of `Lstat` are in the user page, unless there is an entry to store and the buffer
starts in the kernel's memory. -/
theorem Owned.lstatStores_iff {statbuf : ℕ} (h : Owned image k xs L)
    (hq : Queued k.scheduler q (some k.currentProc) none) (hidle : k.currentProc ≠ idleSlot) :
  (∀ v ∈ k.files.lstatStores image k.scheduler.cr3 statbuf k.memory, InUserPage v)
    ↔ (k.memory.freePageHead ≠ 0 ∧ k.files.rootEntries ≠ [] → ¬ k.OwnAddress statbuf)
  := by
  obtain ⟨hresident, hcr3, hown⟩ := h.resident hq hidle
  by_cases hhead : k.memory.freePageHead = 0
  · rw [lstatStores, kalloc, if_neg (not_not.mpr hhead)]
    simp [hhead]
  obtain ⟨a, ys, rfl⟩ := h.free.exists_cons hhead
  have hne : a ∉ (L.space k.currentProc).pages := fun ha =>
    (List.nodup_append.mp (h.space_nodup (hq.live_current hidle))).2.2 a ha a
      List.mem_cons_self rfl
  rw [hcr3, hresident.lstat_iff hne h.free h.sector, ← hown]
  constructor
  · rintro (hnil | hk) ⟨_, hentries⟩
    · exact absurd hnil hentries
    · exact hk
  · intro himp
    by_cases hnil : k.files.rootEntries = []
    · exact Or.inl hnil
    · exact Or.inr (himp ⟨hhead, hnil⟩)

/-- The stores of a function are in the user page, unless it has a byte to store and its pointer
is an address of the kernel. -/
theorem Owned.userStores_iff {handler : Handler} {arg : Arguments} {i : ℕ}
    (h : Owned image k xs L) (hq : Queued k.scheduler q (some k.currentProc) none)
    (hidle : k.currentProc ≠ idleSlot) (hfits : k.TransferFits handler arg) :
  (∀ v ∈ k.userStores image handler arg i, InUserPage v)
    ↔ (k.HasStore handler arg i → ¬ k.OwnAddress (Kernel.storePointer handler arg i))
  := by
  obtain ⟨hresident, hcr3, hown⟩ := h.resident hq hidle
  have hnothing : (∀ v ∈ ([] : List ℕ), InUserPage v) := by
    intro v hv
    cases hv
  cases handler with
  | sysRead =>
      unfold Kernel.userStores Kernel.HasStore Kernel.storePointer
      dsimp only
      by_cases hinput : int16 (arg 0) = standardInput
      · rw [if_pos hinput, if_pos hinput, if_pos hinput, ← hown]
        by_cases hi : (i : Int) < int32 (arg 2)
        · rw [if_pos hi, hresident.keyStores_iff hcr3]
          exact ⟨fun hk _ => hk, fun himp => himp hi⟩
        · rw [if_neg hi]
          exact ⟨fun _ hi' => absurd hi' hi, fun _ => hnothing⟩
      · rw [if_neg hinput, if_neg hinput, if_neg hinput]
        exact h.readStores_iff hq hidle (hfits rfl)
  | sysLstat => exact h.lstatStores_iff hq hidle
  | sysWrite => exact ⟨fun _ hstore => hstore.elim, fun _ => hnothing⟩
  | sysSleep => exact ⟨fun _ hstore => hstore.elim, fun _ => hnothing⟩
  | sysExit => exact ⟨fun _ hstore => hstore.elim, fun _ => hnothing⟩
  | sysWait => exact ⟨fun _ hstore => hstore.elim, fun _ => hnothing⟩
  | sysMemInfo => exact ⟨fun _ hstore => hstore.elim, fun _ => hnothing⟩
  | sysOpen => exact ⟨fun _ hstore => hstore.elim, fun _ => hnothing⟩
  | sysClose => exact ⟨fun _ hstore => hstore.elim, fun _ => hnothing⟩
  | sysFork => exact ⟨fun _ hstore => hstore.elim, fun _ => hnothing⟩
  | sysExec => exact ⟨fun _ hstore => hstore.elim, fun _ => hnothing⟩
  | sysClrSrc => exact ⟨fun _ hstore => hstore.elim, fun _ => hnothing⟩

/-! ### Runs -/

/-- In every state of a run, a system call is contained if and only if it is harmless. -/
theorem reachable_contained {machine : Machine} {k₀ : Kernel} {table : SyscallTable}
    {rax rdi : Fin (2 ^ 64)} {arg : Arguments} {i : ℕ}
    (hmap : DisjointRegions machine.memMap) (h₀ : kMain image machine = some k₀)
    (h : Reachable (Kernel.step image) (Admitted image) k₀ k) (hidle : k.currentProc ≠ idleSlot)
    (hfits : ∀ handler, systemCall table rax rdi = .call handler → k.TransferFits handler arg) :
  k.Contained image table rax rdi arg i ↔ k.Harmless table rax rdi arg i
  := by
  obtain ⟨⟨q, hq⟩, xs, L, howned⟩ := Reachable.apart hmap h₀ h
  constructor
  · intro hcontained
    constructor
    · exact systemCall_outside.mp hcontained.known
    · intro handler hcall
      exact (howned.userStores_iff hq hidle (hfits handler hcall)).mp
        (hcontained.stores handler hcall)
  · intro hharmless
    constructor
    · exact systemCall_outside.mpr hharmless.number
    · intro handler hcall
      exact (howned.userStores_iff hq hidle (hfits handler hcall)).mpr
        (hharmless.pointer handler hcall)

/-- The shell of the small machine, which has a file in the root directory. -/
theorem smallMachine_entries :
  ∃ k₀ k xs L, kMain smallImage (smallMachine 64) = some k₀
    ∧ Reachable (Kernel.step smallImage) (Admitted smallImage) k₀ k ∧ k.currentProc = 1
    ∧ Owned smallImage k xs L ∧ Queued k.scheduler (fun _ => []) (some k.currentProc) none
    ∧ k.memory.freePageHead ≠ 0 ∧ k.files.rootEntries ≠ []
  := by
  obtain ⟨k₀, k, L, p, p', hboot, hyield, hcurrent, howned, hq, _, hfiles, _⟩ :=
    smallMachine_shell (n := 64) (by decide) (by decide)
  have hallowed : Allowed .yield k₀ := by
    intro h
    cases h
  have hreach : Reachable (Kernel.step smallImage) (Admitted smallImage) k₀ k :=
    .step .yield .refl ⟨hallowed, trivial⟩ hyield
  refine ⟨k₀, k, _, L, hboot, hreach, hcurrent, howned, hcurrent.symm ▸ hq, ?_, ?_⟩
  · have hfree : Free smallImage k.memory
        (regionPages (kernelVirtualAddressBase + 0x400000) (51 + 1)) := howned.free
    rw [regionPages_succ] at hfree
    have hhead : k.memory.freePageHead = _ := hfree.list.1
    rw [hhead]
    exact (hfree.isPage _ List.mem_cons_self).ne_zero
  · obtain ⟨entry, hlookup, _⟩ := smallDisk_lookup p p'
    rw [← hfiles] at hlookup
    obtain ⟨e, he, _⟩ := Option.map_eq_some_iff.mp hlookup
    exact List.ne_nil_of_mem (List.mem_of_find?_eq_some he)

/-- The number 10 calls `SysLstat`. -/
theorem systemCall_lstat :
  ∃ table, initSystemCall = some table ∧ systemCall table 10 2 = .call .sysLstat
  := by
  refine ⟨_, rfl, systemCall_call (by decide) (by decide) (by decide) ?_⟩
  have hnumber : (int64 ((10 : Fin (2 ^ 64)) : ℕ)).toNat = 10 := by decide
  rw [hnumber]
  rfl

/-- `lstat` of the shell to the start of its user page is contained. -/
theorem reachable_contained_small :
  ∃ table k₀ k, initSystemCall = some table ∧ kMain smallImage (smallMachine 64) = some k₀
    ∧ Reachable (Kernel.step smallImage) (Admitted smallImage) k₀ k ∧ k.currentProc = 1
    ∧ systemCall table 10 2 = .call .sysLstat
    ∧ k.Contained smallImage table 10 2 (fun _ => 0x400000) 0
  := by
  obtain ⟨k₀, k, _, _, hboot, hreach, hcurrent, _⟩ := smallMachine_entries
  have hidle : k.currentProc ≠ idleSlot := by
    rw [hcurrent]
    decide
  obtain ⟨table, htable, hlstat⟩ := systemCall_lstat
  refine ⟨table, k₀, k, htable, hboot, hreach, hcurrent, hlstat, ?_⟩
  apply (reachable_contained (smallMachine_disjoint 64) hboot hreach hidle _).mpr
  · constructor
    · right
      decide
    · intro handler hcall _ hown
      obtain rfl : Handler.sysLstat = handler := Dispatch.call.inj (hlstat.symm.trans hcall)
      have hlo : kernelVirtualAddressBase ≤ 0x400000 := hown.1
      rw [kernelVirtualAddressBase_eq] at hlo
      omega
  · intro handler hcall hread
    obtain rfl : Handler.sysLstat = handler := Dispatch.call.inj (hlstat.symm.trans hcall)
    cases hread

/-- `lstat` of the shell to an address of the kernel stores there. -/
theorem not_contained_small :
  ∃ table k₀ k, initSystemCall = some table ∧ kMain smallImage (smallMachine 64) = some k₀
    ∧ Reachable (Kernel.step smallImage) (Admitted smallImage) k₀ k ∧ k.currentProc = 1
    ∧ systemCall table 10 2 = .call .sysLstat
    ∧ ¬ k.Contained smallImage table 10 2 (fun _ => 0xFFFF800000000000) 0
  := by
  obtain ⟨k₀, k, xs, L, hboot, hreach, hcurrent, howned, hq, hhead, hentries⟩ :=
    smallMachine_entries
  have hidle : k.currentProc ≠ idleSlot := by
    rw [hcurrent]
    decide
  obtain ⟨table, htable, hlstat⟩ := systemCall_lstat
  refine ⟨table, k₀, k, htable, hboot, hreach, hcurrent, hlstat, ?_⟩
  intro hcontained
  have hstores := hcontained.stores .sysLstat hlstat
  apply (howned.lstatStores_iff hq hidle).mp hstores ⟨hhead, hentries⟩
  constructor
  · rw [kernelVirtualAddressBase_eq]
    decide
  · have hpos := howned.kernelEnd.pos
    rw [howned.kernelEnd.address, kernelVirtualAddressBase_eq, pageSize_eq]
    have hvalue : ((0xFFFF800000000000 : Fin (2 ^ 64)) : ℕ) = 18446603336221196288 := by decide
    rw [hvalue]
    omega

end LarvaOS
