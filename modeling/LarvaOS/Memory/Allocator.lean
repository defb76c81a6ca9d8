import LarvaOS.Library.Bytes
import LarvaOS.Common
import LarvaOS.Memory.Address

/-!
# The page allocator

`kalloc` and `kfree` of `kernel/memory.c`.  The kernel sees all of physical memory from
`KERNEL_VIRTUAL_ADDRESS_BASE` on, and `Memory` holds the byte at every such address.
The static data of the kernel, and the tables of open files, are values of their own
and not part of these bytes.  Free pages are linked through their first words.

`Free image m xs` says that the free list of `m` is the sequence `xs` of distinct pages,
and `Changes ps m m'` says that from `m` to `m'` only bytes of the pages `ps`, and the
head of the free list, have changed.
-/

namespace LarvaOS

/-- The addresses that the linker assigns: the symbols `l_kernel_end`, above the start
of the kernel text, and `TrapReturn`. -/
structure Image where
  lKernelEnd : ℕ
  trapReturn : ℕ
  lower : kernelVirtualAddressBase + 0x200000 ≤ lKernelEnd
  upper : lKernelEnd ≤ virtualAddressEnd
  word : trapReturn < 2 ^ 64

/-- The memory, and the static data of `memory.c`. -/
structure Memory where
  bytes : Bytes
  freePageHead : ℕ
  freeMemoryEndAddress : ℕ
  totalMem : ℕ

variable (image : Image)

/-- `kfree`. -/
def kfree (addr : ℕ) (m : Memory) : Option Memory := do
  assert (addrIsAligned addr)
  assert (image.lKernelEnd ≤ addr)
  assert ((addr + pageSize) % 2 ^ 64 ≤ virtualAddressEnd)
  some { m with bytes := m.bytes.writeWord addr m.freePageHead, freePageHead := addr }

/-- `kalloc`: the address of a page, or zero when there is no free page. -/
def kalloc (m : Memory) : Option (ℕ × Memory) :=
  if m.freePageHead ≠ 0 then do
    assert (addrIsAligned m.freePageHead)
    assert (image.lKernelEnd ≤ m.freePageHead)
    assert ((m.freePageHead + pageSize) % 2 ^ 64 ≤ virtualAddressEnd)
    some (m.freePageHead, { m with freePageHead := m.bytes.readWord m.freePageHead })
  else
    some (0, m)

/-! ### Pages -/

/-- An address that the assertions of `kfree` and `kalloc` accept. -/
structure IsPage (p : ℕ) : Prop where
  aligned : addrIsAligned p
  lower : image.lKernelEnd ≤ p
  upper : (p + pageSize) % 2 ^ 64 ≤ virtualAddressEnd
  word : p < 2 ^ 64

/-- The addresses of a page. -/
def InPage (p x : ℕ) : Prop := p ≤ x ∧ x < p + pageSize

variable {image} {p q : ℕ}

namespace IsPage

/-- Pages lie in the kernel half, above the start of the kernel text. -/
theorem kernel (h : IsPage image p) :
  kernelVirtualAddressBase + 0x200000 ≤ p
  := image.lower.trans h.lower

theorem ne_zero (h : IsPage image p) :
  p ≠ 0
  := by
  have := h.kernel
  rw [kernelVirtualAddressBase_eq] at this
  omega

/-- A page ends at or below the end of the address space. -/
theorem end_le (h : IsPage image p) :
  p + pageSize ≤ 2 ^ 64
  := by
  have haligned : p % pageSize = 0 := h.aligned
  have hword := h.word
  rw [pageSize_eq] at *
  omega

end IsPage

/-- Different aligned pages are disjoint. -/
theorem disjoint_of_aligned (hp : addrIsAligned p) (hq : addrIsAligned q) (hne : p ≠ q) :
  p + pageSize ≤ q ∨ q + pageSize ≤ p
  := by
  unfold addrIsAligned at hp hq
  rw [pageSize_eq] at *
  omega

/-- An address lies in at most one aligned page. -/
theorem InPage.unique {x : ℕ} (hp : addrIsAligned p) (hq : addrIsAligned q)
    (hx : InPage p x) (hx' : InPage q x) :
  p = q
  := by
  by_contra hne
  obtain ⟨hlo, hhi⟩ := hx
  obtain ⟨hlo', hhi'⟩ := hx'
  rcases disjoint_of_aligned hp hq hne with h | h
  · omega
  · omega

/-! ### Changes of memory -/

/-- From `m` to `m'` only bytes of the pages `ps`, and the head of the free list, have
changed. -/
structure Changes (ps : List ℕ) (m m' : Memory) : Prop where
  bytes : Bytes.Frame (fun x => ∃ p ∈ ps, InPage p x) m.bytes m'.bytes
  freeMemoryEndAddress : m'.freeMemoryEndAddress = m.freeMemoryEndAddress
  totalMem : m'.totalMem = m.totalMem

namespace Changes

variable {m m' m'' : Memory} {ps qs : List ℕ}

theorem refl (ps : List ℕ) (m : Memory) :
  Changes ps m m
  where
  bytes := Bytes.Frame.refl _ _
  freeMemoryEndAddress := rfl
  totalMem := rfl

theorem trans (h : Changes ps m m') (h' : Changes ps m' m'') :
  Changes ps m m''
  where
  bytes := h.bytes.trans h'.bytes
  freeMemoryEndAddress := h'.freeMemoryEndAddress.trans h.freeMemoryEndAddress
  totalMem := h'.totalMem.trans h.totalMem

theorem mono (h : Changes ps m m') (hsub : ps ⊆ qs) :
  Changes qs m m'
  where
  bytes := by
    apply h.bytes.mono
    rintro x ⟨p, hp, hx⟩
    use p, hsub hp
  freeMemoryEndAddress := h.freeMemoryEndAddress
  totalMem := h.totalMem

/-- A byte of another aligned page is unchanged. -/
theorem byte (h : Changes ps m m') (hps : ∀ q ∈ ps, addrIsAligned q) (hp : addrIsAligned p)
    (hmem : p ∉ ps) {x : ℕ} (hx : InPage p x) :
  m'.bytes x = m.bytes x
  := by
  apply h.bytes
  rintro ⟨q, hq, hx'⟩
  obtain rfl := InPage.unique hp (hps q hq) hx hx'
  exact hmem hq

/-- A word of another aligned page is unchanged. -/
theorem word (h : Changes ps m m') (hps : ∀ q ∈ ps, addrIsAligned q) (hp : addrIsAligned p)
    (hmem : p ∉ ps) (offset : ℕ) (hoffset : offset + 8 ≤ pageSize) :
  m'.bytes.readWord (p + offset) = m.bytes.readWord (p + offset)
  := by
  apply Bytes.readWord_congr
  intro x hlo hhi
  apply h.byte hps hp hmem
  constructor
  · omega
  · omega

/-- A change inside one page. -/
theorem of_page {b : Bytes} (hb : ∀ x, ¬ InPage p x → b x = m.bytes x) :
  Changes [p] m { m with bytes := b }
  where
  bytes x hx := by
    apply hb
    intro h
    apply hx
    use p
    simp [h]
  freeMemoryEndAddress := rfl
  totalMem := rfl

end Changes

/-! ### The free list -/

/-- The first words of the pages `ps` link them, from `head` on. -/
def FreeList (b : Bytes) : ℕ → List ℕ → Prop
  | head, [] => head = 0
  | head, p :: ps => head = p ∧ FreeList b (b.readWord p) ps

/-- The free list is the sequence `xs` of distinct pages. -/
structure Free (image : Image) (m : Memory) (xs : List ℕ) : Prop where
  list : FreeList m.bytes m.freePageHead xs
  isPage : ∀ p ∈ xs, IsPage image p
  nodup : xs.Nodup

/-- The bytes after a page is freed. -/
theorem kfree_bytes {m m' : Memory} {p : ℕ} (h : kfree image p m = some m') :
  m'.bytes = m.bytes.writeWord p m.freePageHead
  := by
  unfold kfree at h
  simp only [Option.bind_eq_bind, assert_bind_eq_some] at h
  obtain rfl := Option.some.inj h.2.2.2
  rfl

/-- The free list depends only on the first words of its pages. -/
theorem FreeList.congr {b b' : Bytes} :
  ∀ {head : ℕ} {ps : List ℕ}, FreeList b head ps →
    (∀ p ∈ ps, b'.readWord p = b.readWord p) → FreeList b' head ps
  | _, [], h, _ => h
  | head, p :: ps, h, hw => by
      refine ⟨h.1, ?_⟩
      rw [hw p List.mem_cons_self]
      apply FreeList.congr h.2
      intro q hq
      apply hw q (List.mem_cons_of_mem p hq)

/-- The memory determines the free list. -/
theorem FreeList.unique {b : Bytes} :
  ∀ {head : ℕ} {ps qs : List ℕ}, FreeList b head ps → FreeList b head qs →
    (∀ p ∈ ps, p ≠ 0) → (∀ q ∈ qs, q ≠ 0) → ps = qs
  | _, [], [], _, _, _, _ => rfl
  | _, [], q :: _, h, h', _, hq => absurd (h'.1.symm.trans h) (hq q List.mem_cons_self)
  | _, p :: _, [], h, h', hp, _ => absurd (h.1.symm.trans h') (hp p List.mem_cons_self)
  | _, p :: ps, q :: qs, h, h', hp, hq => by
      obtain rfl := h.1.symm.trans h'.1
      rw [FreeList.unique h.2 h'.2 (fun x hx => hp x (List.mem_cons_of_mem _ hx))
        (fun x hx => hq x (List.mem_cons_of_mem _ hx))]

namespace Free

variable {m m' : Memory} {xs ps : List ℕ}

theorem unique {ys : List ℕ} (h : Free image m xs) (h' : Free image m ys) :
  xs = ys
  := FreeList.unique h.list h'.list (fun p hp => (h.isPage p hp).ne_zero)
    (fun p hp => (h'.isPage p hp).ne_zero)

/-- Changes in pages that are not free keep the free list. -/
theorem changes (h : Free image m xs) (hc : Changes ps m m')
    (hhead : m'.freePageHead = m.freePageHead) (hps : ∀ p ∈ ps, addrIsAligned p)
    (hdisj : ∀ p ∈ ps, p ∉ xs) :
  Free image m' xs
  where
  list := by
    rw [hhead]
    apply h.list.congr
    intro p hp
    apply hc.word hps (h.isPage p hp).aligned (fun hmem => hdisj p hmem hp) 0
    rw [pageSize_eq]
    omega
  isPage := h.isPage
  nodup := h.nodup

/-- Without free pages `kalloc` gives zero. -/
theorem kalloc_nil (h : Free image m []) :
  kalloc image m = some (0, m)
  := by
  have hhead : m.freePageHead = 0 := h.list
  rw [kalloc, if_neg (not_not.mpr hhead)]

/-- `kalloc` takes the first free page. -/
theorem kalloc_cons (h : Free image m (p :: xs)) :
  ∃ m', kalloc image m = some (p, m') ∧ Free image m' xs ∧ m'.bytes = m.bytes
    ∧ Changes [] m m'
  := by
  have hhead : m.freePageHead = p := h.list.1
  have hp := h.isPage p List.mem_cons_self
  use { m with freePageHead := m.bytes.readWord p }
  constructor
  · rw [kalloc, hhead, if_pos hp.ne_zero, assert_of hp.aligned, assert_of hp.lower,
      assert_of hp.upper]
    rfl
  refine ⟨?_, rfl, ?_⟩
  · constructor
    · exact h.list.2
    · intro q hq
      apply h.isPage q (List.mem_cons_of_mem p hq)
    · exact (List.nodup_cons.mp h.nodup).2
  · constructor
    · apply Bytes.Frame.refl
    · rfl
    · rfl

/-- `kfree` puts a page in front of the free list. -/
theorem kfree (h : Free image m xs) (hp : IsPage image p) (hmem : p ∉ xs) :
  ∃ m', kfree image p m = some m' ∧ Free image m' (p :: xs) ∧ Changes [p] m m'
  := by
  use { m with bytes := m.bytes.writeWord p m.freePageHead, freePageHead := p }
  constructor
  · rw [LarvaOS.kfree, assert_of hp.aligned, assert_of hp.lower, assert_of hp.upper]
    rfl
  have hchange : Changes [p] m { m with bytes := m.bytes.writeWord p m.freePageHead } := by
    apply Changes.of_page
    intro x hx
    apply Bytes.writeWord_of_outside
    unfold InPage at hx
    rw [pageSize_eq] at hx
    omega
  have hhead : m.freePageHead < 2 ^ 64 := by
    cases xs with
    | nil =>
        have hnil : m.freePageHead = 0 := h.list
        omega
    | cons q xs =>
        have hcons : m.freePageHead = q := h.list.1
        rw [hcons]
        exact (h.isPage q List.mem_cons_self).word
  constructor
  · constructor
    · use rfl
      have hread := Bytes.readWord_writeWord_self m.bytes p hhead
      simp only [hread]
      have hfree := h.changes hchange rfl (by simp [hp.aligned]) (by simpa using hmem)
      exact hfree.list
    · intro q hq
      rcases List.mem_cons.mp hq with rfl | hq
      · exact hp
      · apply h.isPage q hq
    · apply List.nodup_cons.mpr ⟨hmem, h.nodup⟩
  · constructor
    · exact hchange.bytes
    · rfl
    · rfl

end Free

end LarvaOS
