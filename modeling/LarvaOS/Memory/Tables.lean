import LarvaOS.Memory.PageTable
import Mathlib.Data.List.Perm.Basic
import Mathlib.Data.Nat.Bitwise

/-!
# Entries and tables

What single entries point to, and how the operations on tables change them.  `link e`
is the table that an entry points to and `leaf e` the page of 2 MB, when the entry is
present.
-/

namespace LarvaOS

variable {image : Image}

/-! ### Entries -/

/-- The table an entry points to. -/
def link (e : ℕ) : Option ℕ :=
  if Present e then some (phyToVir (pageDirectoryTableAddress e)) else none

/-- The page an entry points to. -/
def leaf (e : ℕ) : Option ℕ :=
  if Present e then some (phyToVir (pageAddress e)) else none

/-- The attributes of an entry that points to a table. -/
structure IsAttribute (attr : ℕ) : Prop where
  odd : attr % 2 = 1
  small : attr < 4096

theorem present_iff (e : ℕ) :
  Present e ↔ e % 2 = 1
  := by
  unfold Present tableEntryPresentAttribute
  rw [Nat.and_one_is_mod]
  omega

@[simp]
theorem not_present_zero :
  ¬ Present 0
  := by
  rw [present_iff]
  simp

@[simp]
theorem link_zero :
  link 0 = none
  := if_neg not_present_zero

@[simp]
theorem leaf_zero :
  leaf 0 = none
  := if_neg not_present_zero

/-- Attribute bits below a multiple of the page size are added to it. -/
theorem or_attribute {x a : ℕ} (hx : x % 2097152 = 0) (ha : a < 2097152) :
  x ||| a = x + a
  := by
  have hdiv : x = 2 ^ 21 * (x / 2 ^ 21) := by omega
  have hlt : a < 2 ^ 21 := by omega
  rw [hdiv, ← Nat.two_pow_add_eq_or_of_lt hlt]

theorem tableAddress_eq (e : ℕ) :
  pageDirectoryTableAddress e = e / 4096 * 4096
  := by
  unfold pageDirectoryTableAddress
  simp only [Nat.shiftLeft_eq, Nat.shiftRight_eq_div_pow]

theorem pageAddress_eq (e : ℕ) :
  pageAddress e = e / 2097152 * 2097152
  := by
  unfold pageAddress
  simp only [Nat.shiftLeft_eq, Nat.shiftRight_eq_div_pow]

/-- The physical address of a page is a multiple of the page size below `2 ^ 47`. -/
theorem IsPage.virToPhy {p : ℕ} (h : IsPage image p) :
  virToPhy p % 2097152 = 0 ∧ virToPhy p < 2 ^ 47 ∧ phyToVir (virToPhy p) = p
  := by
  have hkernel := h.kernel
  have haligned : p % pageSize = 0 := h.aligned
  have hword := h.word
  rw [kernelVirtualAddressBase_eq] at hkernel
  rw [pageSize_eq] at haligned
  refine ⟨?_, ?_, phyToVir_virToPhy hword⟩
  · unfold LarvaOS.virToPhy
    rw [kernelVirtualAddressBase_eq]
    omega
  · unfold LarvaOS.virToPhy
    rw [kernelVirtualAddressBase_eq]
    omega

/-- An entry made for a table points to it. -/
theorem link_entry {p attr : ℕ} (hp : IsPage image p) (ha : IsAttribute attr) :
  link (virToPhy p ||| attr) = some p
  := by
  obtain ⟨haligned, _, hback⟩ := hp.virToPhy
  obtain ⟨hodd, hsmall⟩ := ha
  have hor : virToPhy p ||| attr = virToPhy p + attr := or_attribute haligned (by omega)
  have hpresent : Present (virToPhy p + attr) := by
    rw [present_iff]
    omega
  have haddr : pageDirectoryTableAddress (virToPhy p + attr) = virToPhy p := by
    rw [tableAddress_eq]
    omega
  rw [link, hor, if_pos hpresent, haddr, hback]

theorem entry_lt {p attr : ℕ} (hp : IsPage image p) (ha : IsAttribute attr) :
  virToPhy p ||| attr < 2 ^ 64
  := by
  obtain ⟨haligned, hlt, _⟩ := hp.virToPhy
  have hsmall := ha.small
  rw [or_attribute haligned (by omega)]
  omega

/-! ### Operations on tables -/

/-- A table occupies the first 4096 bytes of its page. -/
theorem entry_offset {i : ℕ} (hi : i < totalTableEntries) :
  8 * i + 8 ≤ 4096
  := by
  have hlt : i < 512 := hi
  omega

namespace Memory

variable {m : Memory} {t i : ℕ}

theorem entry_setEntry_self (m : Memory) (t i : ℕ) {v : ℕ} (hv : v < 2 ^ 64) :
  (m.setEntry t i v).entry t i = v
  := Bytes.readWord_writeWord_self _ _ hv

theorem entry_setEntry_of_ne {j v : ℕ} (hne : j ≠ i) :
  (m.setEntry t i v).entry t j = m.entry t j
  := by
  apply Bytes.readWord_writeWord_of_disjoint
  omega

theorem entry_clear (hi : i < totalTableEntries) :
  (m.clear t).entry t i = 0
  := by
  have hoffset := entry_offset hi
  apply Bytes.read_eq_zero
  intro x hlo hhi
  apply memset_of_inside
  · omega
  · rw [pageSize_eq]
    omega

theorem changes_setEntry (m : Memory) (t : ℕ) (hi : i < totalTableEntries) (v : ℕ) :
  Changes [t] m (m.setEntry t i v)
  := by
  have hoffset := entry_offset hi
  apply Changes.of_page
  intro x hx
  apply Bytes.writeWord_of_outside
  unfold InPage at hx
  rw [pageSize_eq] at hx
  omega

theorem changes_clear (m : Memory) (t : ℕ) :
  Changes [t] m (m.clear t)
  := by
  apply Changes.of_page
  intro x hx
  apply memset_of_outside
  unfold InPage at hx
  omega

theorem changes_copy (m : Memory) (dest src : ℕ) {n : ℕ} (hn : n ≤ pageSize) :
  Changes [dest] m (m.copy dest src n)
  := by
  apply Changes.of_page
  intro x hx
  apply memcpy_of_outside
  unfold InPage at hx
  omega

theorem copy_freePageHead (m : Memory) (dest src n : ℕ) :
  (m.copy dest src n).freePageHead = m.freePageHead
  := rfl

/-- A copy between disjoint ranges carries the bytes of the source over. -/
theorem copy_inside {dest src n : ℕ} (h : dest + n ≤ src ∨ src + n ≤ dest) (hi : i < n) :
  (m.copy dest src n).bytes (dest + i) = m.bytes (src + i)
  := memcpy_of_inside h hi

end Memory

/-- Entries of other tables are unchanged. -/
theorem Changes.entry {m m' : Memory} {ps : List ℕ} {t i : ℕ} (h : Changes ps m m')
    (hps : ∀ q ∈ ps, addrIsAligned q) (ht : addrIsAligned t) (hmem : t ∉ ps)
    (hi : i < totalTableEntries) :
  m'.entry t i = m.entry t i
  := by
  have hoffset := entry_offset hi
  apply h.word hps ht hmem
  rw [pageSize_eq]
  omega

/-- The entries of the table `t` are given by `f`. -/
def Table (m : Memory) (t : ℕ) (f : ℕ → ℕ) : Prop :=
  ∀ i, i < totalTableEntries → m.entry t i = f i

namespace Table

variable {m m' : Memory} {t : ℕ} {f : ℕ → ℕ}

theorem changes {ps : List ℕ} (h : Table m t f) (hc : Changes ps m m')
    (hps : ∀ q ∈ ps, addrIsAligned q) (ht : addrIsAligned t) (hmem : t ∉ ps) :
  Table m' t f
  := by
  intro i hi
  rw [hc.entry hps ht hmem hi]
  exact h i hi

theorem setEntry (h : Table m t f) (i : ℕ) {v : ℕ} (hv : v < 2 ^ 64) :
  Table (m.setEntry t i v) t (Function.update f i v)
  := by
  intro j hj
  by_cases e : j = i
  · rw [e, Function.update_self, Memory.entry_setEntry_self m t i hv]
  · rw [Function.update_of_ne e, Memory.entry_setEntry_of_ne e]
    exact h j hj

theorem clear (m : Memory) (t : ℕ) :
  Table (m.clear t) t (fun _ => 0)
  := fun _ hi => Memory.entry_clear hi

end Table

end LarvaOS
