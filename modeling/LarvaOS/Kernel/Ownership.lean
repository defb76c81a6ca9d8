import LarvaOS.Kernel.Start

/-!
# Who owns which page

The pages of the machine are on the free list, or they are held: by the tables of open
files, by the page map of IDLE, and by the processes, each of which holds a kernel stack
and the pages of its address space.  `Owned image k xs L` says that the free list is
`xs`, that the address spaces have the shape `L`, and that no page occurs twice among
the free pages and the held pages.
-/

namespace LarvaOS

variable {image : Image}

/-- A process that owns a kernel stack and an address space of its own. -/
def Process.Live (p : Process) : Prop := p.state ≠ .unused ∧ p.state ≠ .initialized

instance (p : Process) : Decidable p.Live :=
  inferInstanceAs (Decidable (p.state ≠ .unused ∧ p.state ≠ .initialized))

/-- The slot of a process other than IDLE that is ready, running, sleeping or killed. -/
def Kernel.Live (k : Kernel) (i : Slot) : Prop := i ≠ idleSlot ∧ (k.process i).Live

instance (k : Kernel) (i : Slot) : Decidable (k.Live i) :=
  inferInstanceAs (Decidable (i ≠ idleSlot ∧ (k.process i).Live))

/-- The shapes of the address spaces: the number of pages in the kernel gigabyte, the
tables of IDLE, and the address spaces of the processes. -/
structure Layout where
  size : ℕ
  idlePdpt : ℕ
  idlePd : ℕ
  space : Slot → Space

/-- The shapes when the process of a slot gets another address space. -/
def Layout.setSpace (L : Layout) (i : Slot) (S : Space) : Layout :=
  { L with space := Function.update L.space i S }

@[simp]
theorem Layout.setSpace_self (L : Layout) (i : Slot) (S : Space) :
  (L.setSpace i S).space i = S
  := Function.update_self _ _ _

@[simp]
theorem Layout.setSpace_of_ne (L : Layout) {i j : Slot} (h : j ≠ i) (S : Space) :
  (L.setSpace i S).space j = L.space j
  := Function.update_of_ne h _ _

/-- The pages of the process of a slot. -/
def Layout.slotPages (L : Layout) (k : Kernel) (i : Slot) : List ℕ :=
  if k.Live i then (k.process i).stack :: (L.space i).pages else []

/-- The pages that are held apart from those of the processes. -/
def Layout.kernelPages (L : Layout) (k : Kernel) : List ℕ :=
  [k.files.fcbTableAddress, k.files.fdTableAddress, L.idlePd, L.idlePdpt,
    (k.process idleSlot).pageMap]

/-- All pages that are held. -/
def Layout.held (L : Layout) (k : Kernel) : List ℕ :=
  L.kernelPages k ++ (List.finRange maximumNumberOfProcess).flatMap (L.slotPages k)

/-- The free list is `xs`, the address spaces have the shape `L`, and every page has one
holder. -/
structure Owned (image : Image) (k : Kernel) (xs : List ℕ) (L : Layout) : Prop where
  free : Free image k.memory xs
  kernelEnd : KernelEnd k.memory L.size
  sector : k.files.bpb.bytesPerSector ≤ pageSize
  isPage : ∀ p ∈ L.held k, IsPage image p
  nodup : (xs ++ L.held k).Nodup
  idle : KernelSpace k.memory L.size (k.process idleSlot).pageMap L.idlePdpt L.idlePd
  space : ∀ i, k.Live i → UserSpace k.memory L.size (L.space i)
  pageMap : ∀ i, k.Live i → (k.process i).pageMap = (L.space i).map
  tf : ∀ i, k.Live i → (k.process i).tf = trapFrameAddress (k.process i).stack

namespace Owned

variable {k k' : Kernel} {xs ys : List ℕ} {L : Layout} {i : Slot} {p : ℕ}

theorem mem_held_of_kernel (hp : p ∈ L.kernelPages k) :
  p ∈ L.held k
  := List.mem_append_left _ hp

theorem slotPages_of_live (hi : k.Live i) :
  L.slotPages k i = (k.process i).stack :: (L.space i).pages
  := if_pos hi

theorem mem_held_of_live (hi : k.Live i) (hp : p ∈ (k.process i).stack :: (L.space i).pages) :
  p ∈ L.held k
  := by
  apply List.mem_append_right
  apply List.mem_flatMap.mpr
  use i, List.mem_finRange i
  rwa [slotPages_of_live hi]

/-- The pages of an address space are pages. -/
theorem space_isPage (h : Owned image k xs L) (hi : k.Live i) :
  ∀ q ∈ (L.space i).pages, IsPage image q
  := fun q hq => h.isPage q (mem_held_of_live hi (List.mem_cons_of_mem _ hq))

theorem stack_isPage (h : Owned image k xs L) (hi : k.Live i) :
  IsPage image (k.process i).stack
  := h.isPage _ (mem_held_of_live hi List.mem_cons_self)

/-- A free page is not held. -/
theorem not_mem_held (h : Owned image k xs L) (hp : p ∈ xs) :
  p ∉ L.held k
  := fun hmem => (List.nodup_append.mp h.nodup).2.2 p hp p hmem rfl

/-- The occurrences of pages when the pages of one slot change. -/
theorem count_held {L' : Layout} (hkernel : L'.kernelPages k' = L.kernelPages k)
    (hother : ∀ j, j ≠ i → L'.slotPages k' j = L.slotPages k j) (a : ℕ) :
  (L'.held k').count a + (L.slotPages k i).count a
    = (L.held k).count a + (L'.slotPages k' i).count a
  := by
  have hcount := List.count_flatMap_update a (List.nodup_finRange maximumNumberOfProcess)
    (List.mem_finRange i) hother
  rw [Layout.held, Layout.held, List.count_append, List.count_append, hkernel]
  omega

/-- The pages of a slot are held. -/
theorem count_slot_le (L : Layout) (k : Kernel) (i : Slot) (a : ℕ) :
  (L.slotPages k i).count a ≤ (L.held k).count a
  := by
  have hcount := List.count_flatMap_update (f := L.slotPages k)
    (g := Function.update (L.slotPages k) i []) a (List.nodup_finRange maximumNumberOfProcess)
    (List.mem_finRange i) (fun j hj => Function.update_of_ne hj _ _)
  rw [Function.update_self, List.count_nil] at hcount
  rw [Layout.held, List.count_append]
  omega

/-- The pages of one slot occur once, apart from the free pages and the kernel's. -/
theorem slot_nodup (h : Owned image k xs L) (i : Slot) :
  (L.slotPages k i ++ (xs ++ L.kernelPages k)).Nodup
  := by
  apply h.nodup.of_count_le
  intro a
  have hcount := List.count_flatMap_update (f := L.slotPages k)
    (g := Function.update (L.slotPages k) i []) a (List.nodup_finRange maximumNumberOfProcess)
    (List.mem_finRange i) (fun j hj => Function.update_of_ne hj _ _)
  rw [Function.update_self, List.count_nil] at hcount
  simp only [Layout.held, List.count_append]
  omega

/-- The pages of two processes are different. -/
theorem slots_nodup (h : Owned image k xs L) {j : Slot} (hij : i ≠ j) :
  (L.slotPages k i ++ L.slotPages k j).Nodup
  := by
  apply h.nodup.of_count_le
  intro a
  have hcount := List.count_flatMap_update (f := L.slotPages k)
    (g := Function.update (L.slotPages k) i []) a (List.nodup_finRange maximumNumberOfProcess)
    (List.mem_finRange i) (fun j hj => Function.update_of_ne hj _ _)
  have hcount' := List.count_flatMap_update (f := Function.update (L.slotPages k) i [])
    (g := Function.update (Function.update (L.slotPages k) i []) j []) a
    (List.nodup_finRange maximumNumberOfProcess) (List.mem_finRange j)
    (fun j hj => Function.update_of_ne hj _ _)
  rw [Function.update_self, List.count_nil] at hcount hcount'
  rw [Function.update_of_ne (Ne.symm hij)] at hcount'
  simp only [Layout.held, List.count_append]
  omega

/-- Two live processes with a page in common are the same. -/
theorem slot_unique (h : Owned image k xs L) {j : Slot} (hi : p ∈ L.slotPages k i)
    (hj : p ∈ L.slotPages k j) :
  i = j
  := by
  by_contra hij
  exact (List.nodup_append.mp (h.slots_nodup hij)).2.2 p hi p hj rfl

/-! ### Steps that move no page -/

/-- The pages of a slot are the same in two states. -/
structure SamePages (k k' : Kernel) (i : Slot) : Prop where
  live : k'.Live i ↔ k.Live i
  pageMap : k.Live i ∨ i = idleSlot → (k'.process i).pageMap = (k.process i).pageMap
  stack : k.Live i → (k'.process i).stack = (k.process i).stack
  tf : k.Live i → (k'.process i).tf = (k.process i).tf

theorem SamePages.slotPages {L' : Layout} (h : SamePages k k' i) (hspace : L'.space i = L.space i) :
  L'.slotPages k' i = L.slotPages k i
  := by
  unfold Layout.slotPages
  rw [hspace]
  by_cases hi : k.Live i
  · rw [if_pos hi, if_pos (h.live.mpr hi), h.stack hi]
  · rw [if_neg hi, if_neg (fun hi' => hi (h.live.mp hi'))]

theorem SamePages.kernelPages {L' : Layout} (h : SamePages k k' idleSlot) (hv : FileSystem.SameDisk k.files k'.files)
    (hpdpt : L'.idlePdpt = L.idlePdpt) (hpd : L'.idlePd = L.idlePd) :
  L'.kernelPages k' = L.kernelPages k
  := by
  unfold Layout.kernelPages
  rw [hv.fcbTableAddress, hv.fdTableAddress, h.pageMap (Or.inr rfl), hpdpt, hpd]

/-- The scheduler changes, but not the pages of the processes. -/
theorem of_scheduler (h : Owned image k xs L) (hmemory : k'.memory = k.memory)
    (hv : FileSystem.SameDisk k.files k'.files) (hsame : ∀ i, SamePages k k' i) :
  Owned image k' xs L
  := by
  have hslot : L.slotPages k' = L.slotPages k := by
    funext i
    exact (hsame i).slotPages rfl
  have hheld : L.held k' = L.held k := by
    unfold Layout.held
    rw [hslot, (hsame idleSlot).kernelPages hv rfl rfl]
  constructor
  · rw [hmemory]
    exact h.free
  · rw [hmemory]
    exact h.kernelEnd
  · rw [hv.bpb]
    exact h.sector
  · rw [hheld]
    exact h.isPage
  · rw [hheld]
    exact h.nodup
  · rw [hmemory, (hsame idleSlot).pageMap (Or.inr rfl)]
    exact h.idle
  · intro i hi
    rw [hmemory]
    exact h.space i ((hsame i).live.mp hi)
  · intro i hi
    have hi' := (hsame i).live.mp hi
    rw [(hsame i).pageMap (Or.inl hi')]
    exact h.pageMap i hi'
  · intro i hi
    have hi' := (hsame i).live.mp hi
    rw [(hsame i).tf hi', (hsame i).stack hi']
    exact h.tf i hi'

/-- A page that may be written without changing a table: a free page, a kernel stack, or
a user page. -/
def Data (L : Layout) (k : Kernel) (xs : List ℕ) (p : ℕ) : Prop :=
  p ∈ xs ∨ ∃ i, k.Live i ∧ (p = (k.process i).stack ∨ p = (L.space i).page)

theorem data_isPage (h : Owned image k xs L) (hp : Data L k xs p) :
  IsPage image p
  := by
  rcases hp with hp | ⟨i, hi, rfl | rfl⟩
  · exact h.free.isPage p hp
  · exact h.stack_isPage hi
  · exact h.space_isPage hi _ List.mem_cons_self

/-- A page of data is not one of the kernel's pages. -/
theorem data_not_kernel (h : Owned image k xs L) (hp : Data L k xs p) :
  p ∉ L.kernelPages k
  := by
  rcases hp with hp | ⟨i, hi, hp⟩
  · exact fun hmem => h.not_mem_held hp (mem_held_of_kernel hmem)
  · have hmem : p ∈ L.slotPages k i := by
      rw [slotPages_of_live hi]
      rcases hp with rfl | rfl
      · exact List.mem_cons_self
      · exact List.mem_cons_of_mem _ List.mem_cons_self
    intro hkernel
    exact (List.nodup_append.mp (h.slot_nodup i)).2.2 p hmem p (List.mem_append_right _ hkernel) rfl

/-- A page of data is not a table of a process. -/
theorem data_not_table (h : Owned image k xs L) (hp : Data L k xs p) (hi : k.Live i) :
  p ∉ (L.space i).tables
  := by
  intro htable
  have hmem : p ∈ L.slotPages k i := by
    rw [slotPages_of_live hi]
    exact List.mem_cons_of_mem _ (List.mem_cons_of_mem _ htable)
  rcases hp with hp | ⟨j, hj, hp⟩
  · apply h.not_mem_held hp
    apply mem_held_of_live hi
    exact List.mem_cons_of_mem _ (List.mem_cons_of_mem _ htable)
  · have hmem' : p ∈ L.slotPages k j := by
      rw [slotPages_of_live hj]
      rcases hp with rfl | rfl
      · exact List.mem_cons_self
      · exact List.mem_cons_of_mem _ List.mem_cons_self
    obtain rfl := h.slot_unique hmem hmem'
    have hnodup := (List.nodup_append.mp (h.slot_nodup i)).1
    rw [slotPages_of_live hi, Space.pages] at hnodup
    obtain ⟨hstack, hnodup⟩ := List.nodup_cons.mp hnodup
    obtain ⟨hpage, _⟩ := List.nodup_cons.mp hnodup
    rcases hp with rfl | rfl
    · exact hstack (List.mem_cons_of_mem _ htable)
    · exact hpage htable

/-- The tables of IDLE are pages of the kernel. -/
theorem idle_kernelPages :
  ∀ q ∈ [(k.process idleSlot).pageMap, L.idlePdpt, L.idlePd], q ∈ L.kernelPages k
  := by
  intro q hq
  simp only [Layout.kernelPages, List.mem_cons, List.not_mem_nil, or_false] at hq ⊢
  rcases hq with hq | hq | hq <;> simp only [hq, true_or, or_true]

/-- Changes outside the tables of IDLE keep them. -/
theorem idle_outside {m : Memory} {ps : List ℕ} (h : Owned image k xs L)
    (hc : Changes ps k.memory m) (haligned : ∀ p ∈ ps, addrIsAligned p)
    (hidle : ∀ q ∈ [(k.process idleSlot).pageMap, L.idlePdpt, L.idlePd], q ∉ ps) :
  KernelSpace m L.size (k.process idleSlot).pageMap L.idlePdpt L.idlePd
  := by
  apply h.idle.changes hc haligned _ hidle
  exact fun q hq => (h.isPage q (mem_held_of_kernel (idle_kernelPages q hq))).aligned

/-- Changes outside the tables of a process keep them. -/
theorem space_outside {m : Memory} {ps : List ℕ} (h : Owned image k xs L)
    (hc : Changes ps k.memory m) (haligned : ∀ p ∈ ps, addrIsAligned p) (hi : k.Live i)
    (htables : ∀ q ∈ (L.space i).tables, q ∉ ps) :
  UserSpace m L.size (L.space i)
  := by
  apply (h.space i hi).changes hc haligned _ htables
  exact fun q hq => (h.space_isPage hi q (List.mem_cons_of_mem _ hq)).aligned

/-- Pages that are neither free nor tables change. -/
theorem of_outside {m : Memory} {ps : List ℕ} (h : Owned image k xs L)
    (hc : Changes ps k.memory m) (hhead : m.freePageHead = k.memory.freePageHead)
    (haligned : ∀ p ∈ ps, addrIsAligned p) (hfree : ∀ q ∈ xs, q ∉ ps)
    (hidle : ∀ q ∈ [(k.process idleSlot).pageMap, L.idlePdpt, L.idlePd], q ∉ ps)
    (htables : ∀ i, k.Live i → ∀ q ∈ (L.space i).tables, q ∉ ps) :
  Owned image { k with memory := m } xs L
  where
  free := h.free.changes hc hhead haligned (fun p hp hmem => hfree p hmem hp)
  kernelEnd := h.kernelEnd.changes hc
  sector := h.sector
  isPage := h.isPage
  nodup := h.nodup
  idle := h.idle_outside hc haligned hidle
  space i hi := h.space_outside hc haligned hi (htables i hi)
  pageMap := h.pageMap
  tf := h.tf

/-- Changes of data keep the tables of IDLE. -/
theorem idle_changes {m : Memory} {ps : List ℕ} (h : Owned image k xs L)
    (hc : Changes ps k.memory m) (hps : ∀ p ∈ ps, Data L k xs p) :
  KernelSpace m L.size (k.process idleSlot).pageMap L.idlePdpt L.idlePd
  := by
  apply h.idle_outside hc
  · exact fun q hq => (h.data_isPage (hps q hq)).aligned
  · exact fun q hq hq' => h.data_not_kernel (hps q hq') (idle_kernelPages q hq)

/-- Changes of data keep the tables of a process. -/
theorem space_changes {m : Memory} {ps : List ℕ} (h : Owned image k xs L)
    (hc : Changes ps k.memory m) (hps : ∀ p ∈ ps, Data L k xs p) (hi : k.Live i) :
  UserSpace m L.size (L.space i)
  := by
  apply h.space_outside hc _ hi
  · exact fun q hq hmem => h.data_not_table (hps q hmem) hi hq
  · exact fun q hq => (h.data_isPage (hps q hq)).aligned

/-- Pages of data change, and the free list gets no new page. -/
theorem of_memory {m : Memory} {ps : List ℕ} (h : Owned image k xs L)
    (hc : Changes ps k.memory m) (hps : ∀ p ∈ ps, Data L k xs p) (hfree : Free image m ys)
    (hcount : ∀ a, ys.count a ≤ xs.count a) :
  Owned image { k with memory := m } ys L
  where
  free := hfree
  kernelEnd := h.kernelEnd.changes hc
  sector := h.sector
  isPage := h.isPage
  nodup := by
    apply h.nodup.of_count_le
    intro a
    have hle := hcount a
    have hheld : L.held { k with memory := m } = L.held k := rfl
    rw [List.count_append, List.count_append, hheld]
    omega
  idle := h.idle_changes hc hps
  space _ hi := h.space_changes hc hps hi
  pageMap := h.pageMap
  tf := h.tf

/-! ### Steps that move pages -/

/-- A slot becomes a process, with pages from the free list. -/
theorem grow {S : Space} {ps : List ℕ} (h : Owned image k xs L) (hidle : i ≠ idleSlot)
    (hi : ¬ k.Live i) (hi' : k'.Live i) (hv : FileSystem.SameDisk k.files k'.files)
    (hsame : ∀ j, j ≠ i → SamePages k k' j) (hc : Changes ps k.memory k'.memory)
    (hps : ∀ p ∈ ps, p ∈ xs) (hfree : Free image k'.memory ys)
    (hcount : ∀ a, ys.count a + ((k'.process i).stack :: S.pages).count a ≤ xs.count a)
    (hspace : UserSpace k'.memory L.size S) (hmap : (k'.process i).pageMap = S.map)
    (htf : (k'.process i).tf = trapFrameAddress (k'.process i).stack) :
  Owned image k' ys (L.setSpace i S)
  := by
  have hother : ∀ j, j ≠ i →
      (L.setSpace i S).slotPages k' j = L.slotPages k j := by
    intro j hj
    exact (hsame j hj).slotPages (L.setSpace_of_ne hj S)
  have hkernel : (L.setSpace i S).kernelPages k'
      = L.kernelPages k := (hsame idleSlot (Ne.symm hidle)).kernelPages hv rfl rfl
  have hself : (L.setSpace i S).slotPages k' i
      = (k'.process i).stack :: S.pages := by
    unfold Layout.slotPages
    rw [if_pos hi', L.setSpace_self]
  have hheld : ∀ a, ((L.setSpace i S).held k').count a
      = (L.held k).count a + ((k'.process i).stack :: S.pages).count a := by
    intro a
    have hcount' := count_held hkernel hother a
    rw [hself, Layout.slotPages, if_neg hi, List.count_nil] at hcount'
    omega
  have hps' : ∀ p ∈ ps, Data L k xs p := fun p hp => Or.inl (hps p hp)
  constructor
  · exact hfree
  · exact h.kernelEnd.changes hc
  · rw [hv.bpb]
    exact h.sector
  · intro p hp
    have hpos := List.count_pos_iff.mpr hp
    rw [hheld] at hpos
    by_cases hmem : p ∈ L.held k
    · exact h.isPage p hmem
    · apply h.free.isPage p
      apply List.count_pos_iff.mp
      have hle := hcount p
      rw [List.count_eq_zero_of_not_mem hmem] at hpos
      omega
  · apply h.nodup.of_count_le
    intro a
    have hle := hcount a
    rw [List.count_append, List.count_append, hheld]
    omega
  · rw [(hsame idleSlot (Ne.symm hidle)).pageMap (Or.inr rfl)]
    exact h.idle_changes hc hps'
  · intro j hj
    by_cases e : j = i
    · subst e
      rwa [L.setSpace_self]
    · rw [L.setSpace_of_ne e]
      exact h.space_changes hc hps' ((hsame j e).live.mp hj)
  · intro j hj
    by_cases e : j = i
    · subst e
      rwa [L.setSpace_self]
    · have hj' := (hsame j e).live.mp hj
      rw [L.setSpace_of_ne e, (hsame j e).pageMap (Or.inl hj')]
      exact h.pageMap j hj'
  · intro j hj
    by_cases e : j = i
    · rw [e]
      exact htf
    · have hj' := (hsame j e).live.mp hj
      rw [(hsame j e).tf hj', (hsame j e).stack hj']
      exact h.tf j hj'

/-- A process gives its pages to the free list. -/
theorem shrink (h : Owned image k xs L) (hi : k.Live i) (hi' : ¬ k'.Live i)
    (hv : FileSystem.SameDisk k.files k'.files) (hsame : ∀ j, j ≠ i → SamePages k k' j)
    (hc : Changes ((k.process i).stack :: (L.space i).pages) k.memory k'.memory)
    (hfree : Free image k'.memory ys)
    (hperm : ys.Perm ((k.process i).stack :: (L.space i).pages ++ xs)) :
  Owned image k' ys L
  := by
  have hother : ∀ j, j ≠ i → L.slotPages k' j = L.slotPages k j :=
    fun j hj => (hsame j hj).slotPages rfl
  have hkernel : L.kernelPages k' = L.kernelPages k :=
    (hsame idleSlot (Ne.symm hi.1)).kernelPages hv rfl rfl
  have hheld : ∀ a, (L.held k').count a + ((k.process i).stack :: (L.space i).pages).count a
      = (L.held k).count a := by
    intro a
    have hcount := count_held hkernel hother a
    have hnil : L.slotPages k' i = [] := if_neg hi'
    rw [slotPages_of_live hi, hnil, List.count_nil] at hcount
    omega
  have haligned : ∀ q ∈ (k.process i).stack :: (L.space i).pages, addrIsAligned q :=
    fun q hq => (h.isPage q (mem_held_of_live hi hq)).aligned
  have hslot : ∀ q ∈ (k.process i).stack :: (L.space i).pages, q ∈ L.slotPages k i := by
    intro q hq
    rwa [slotPages_of_live hi]
  constructor
  · exact hfree
  · exact h.kernelEnd.changes hc
  · rw [hv.bpb]
    exact h.sector
  · intro p hp
    apply h.isPage p
    apply List.count_pos_iff.mp
    have hpos := List.count_pos_iff.mpr hp
    have hcount := hheld p
    omega
  · apply h.nodup.of_count_le
    intro a
    have hcount := hheld a
    rw [List.count_append, List.count_append, hperm.count_eq, List.count_append]
    omega
  · rw [(hsame idleSlot (Ne.symm hi.1)).pageMap (Or.inr rfl)]
    apply h.idle_outside hc haligned
    intro q hq hq'
    have hnodup := h.slot_nodup i
    exact (List.nodup_append.mp hnodup).2.2 q (hslot q hq') q
      (List.mem_append_right _ (idle_kernelPages q hq)) rfl
  · intro j hj
    have e : j ≠ i := fun e => hi' (e ▸ hj)
    have hj' := (hsame j e).live.mp hj
    apply h.space_outside hc haligned hj'
    intro q hq hq'
    apply e
    apply h.slot_unique _ (hslot q hq')
    rw [slotPages_of_live hj']
    exact List.mem_cons_of_mem _ (List.mem_cons_of_mem _ hq)
  · intro j hj
    have e : j ≠ i := fun e => hi' (e ▸ hj)
    have hj' := (hsame j e).live.mp hj
    rw [(hsame j e).pageMap (Or.inl hj')]
    exact h.pageMap j hj'
  · intro j hj
    have e : j ≠ i := fun e => hi' (e ▸ hj)
    have hj' := (hsame j e).live.mp hj
    rw [(hsame j e).tf hj', (hsame j e).stack hj']
    exact h.tf j hj'

end Owned

end LarvaOS
