import Mathlib.Data.Nat.Bitwise
import Mathlib.Tactic.NormNum

/-!
# Addresses

The layout constants and address macros of `kernel/memory.h`.  An address is a natural
number below `2 ^ 64`, and address arithmetic is modulo `2 ^ 64`.  The kernel sees the
physical address `p` at the virtual address `phyToVir p`.
-/

namespace LarvaOS

/-- `PAGE_SIZE`: 2 MB. -/
def pageSize : ℕ := 2 * 1024 * 1024

/-- `KERNEL_VIRTUAL_ADDRESS_BASE`. -/
def kernelVirtualAddressBase : ℕ := 0xFFFF800000000000

/-- `USER_VIRTUAL_ADDRESS_BASE`. -/
def userVirtualAddressBase : ℕ := 0x400000

/-- `PHYSICAL_MEMORY_SIZE`: 1 GB. -/
def physicalMemorySize : ℕ := 0x40000000

/-- `VIRTUAL_ADDRESS_END`. -/
def virtualAddressEnd : ℕ := kernelVirtualAddressBase + physicalMemorySize

theorem pageSize_eq :
  pageSize = 2097152
  := rfl

theorem kernelVirtualAddressBase_eq :
  kernelVirtualAddressBase = 18446603336221196288
  := rfl

theorem userVirtualAddressBase_eq :
  userVirtualAddressBase = 4194304
  := rfl

theorem virtualAddressEnd_eq :
  virtualAddressEnd = 18446603337294938112
  := rfl

attribute [irreducible] pageSize kernelVirtualAddressBase userVirtualAddressBase
  virtualAddressEnd

/-- `PAGE_ALIGN_UP(v)`. -/
def pageAlignUp (v : ℕ) : ℕ := (((v + pageSize - 1) % 2 ^ 64) >>> 21) <<< 21

/-- `PAGE_ALIGN_DOWN(v)`. -/
def pageAlignDown (v : ℕ) : ℕ := (v >>> 21) <<< 21

/-- `PHY_TO_VIR(p)`. -/
def phyToVir (p : ℕ) : ℕ := (p + kernelVirtualAddressBase) % 2 ^ 64

/-- `VIR_TO_PHY(v)`. -/
def virToPhy (v : ℕ) : ℕ := (v + (2 ^ 64 - kernelVirtualAddressBase)) % 2 ^ 64

/-- `ADDR_IS_ALIGNED(a)`. -/
def addrIsAligned (a : ℕ) : Prop := a % pageSize = 0

instance (a : ℕ) : Decidable (addrIsAligned a) :=
  inferInstanceAs (Decidable (a % pageSize = 0))

theorem pageAlignUp_eq (v : ℕ) :
  pageAlignUp v = (v + 2097151) % 2 ^ 64 / 2097152 * 2097152
  := by
  have hsub : v + 2097152 - 1 = v + 2097151 := by omega
  unfold pageAlignUp
  rw [pageSize_eq, hsub]
  simp only [Nat.shiftLeft_eq, Nat.shiftRight_eq_div_pow]

theorem pageAlignDown_eq (v : ℕ) :
  pageAlignDown v = v / 2097152 * 2097152
  := by
  unfold pageAlignDown
  simp only [Nat.shiftLeft_eq, Nat.shiftRight_eq_div_pow]

theorem phyToVir_virToPhy {v : ℕ} (hv : v < 2 ^ 64) :
  phyToVir (virToPhy v) = v
  := by
  unfold phyToVir virToPhy kernelVirtualAddressBase
  omega

/-- In the kernel half the physical address is the distance from the kernel base. -/
theorem virToPhy_of_kernel {v : ℕ} (hlo : kernelVirtualAddressBase ≤ v) (hhi : v < 2 ^ 64) :
  virToPhy v = v - kernelVirtualAddressBase
  := by
  unfold virToPhy kernelVirtualAddressBase at *
  omega

end LarvaOS
