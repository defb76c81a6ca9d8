import LarvaOS.Kernel.SystemCalls
import LarvaOS.Process.TrapFrame

/-!
# The numbers of system calls

`SystemCall` gets the trap frame of the program that makes the system call.  It stores
`-EINVAL` in `rax` of the frame, or it calls a function of the table with the pointer to the
arguments, unless the assertion stops it or the number is not an index of the table.  The
numbers for which it does one of the first two things are described exactly.
-/

namespace LarvaOS

/-- What `SystemCall` does: it returns with the memory `b`, calls a function, stops in the
assertion, or uses an element outside of the table. -/
inductive SystemCallOutcome where
  | returned (b : Bytes)
  | call (handler : Handler) (arg : ℕ)
  | stopped
  | outside

/-- The 64-bit word that holds the integer `n`. -/
def word64 (n : Int) : ℕ := (n % 2 ^ 64).toNat

/-- The offset of `rax` in a trap frame. -/
def raxOffset : ℕ := 8 * 14

/-- The register `rax` of the trap frame at `tf`. -/
def savedRax (b : Bytes) (tf : ℕ) : Fin (2 ^ 64) := ⟨b.readWord (tf + raxOffset), b.readWord_lt _⟩

/-- The register `rdi` of the trap frame at `tf`. -/
def savedRdi (b : Bytes) (tf : ℕ) : Fin (2 ^ 64) := ⟨b.readWord (tf + 8 * 9), b.readWord_lt _⟩

/-- The register `rsi` of the trap frame at `tf`. -/
def savedRsi (b : Bytes) (tf : ℕ) : Fin (2 ^ 64) := ⟨b.readWord (tf + 8 * 10), b.readWord_lt _⟩

/-- The effect of `SystemCall` on the memory `b`, with the trap frame at `tf`. -/
def Dispatch.outcome (b : Bytes) (tf : ℕ) : Dispatch → SystemCallOutcome
  | .refused => .returned (b.writeWord (tf + raxOffset) (word64 (-einval)))
  | .call handler => .call handler (savedRsi b tf)
  | .stopped => .stopped
  | .outside => .outside

/-- `SystemCall`, with the trap frame at `tf`. -/
def systemCallAt (table : SyscallTable) (b : Bytes) (tf : ℕ) : SystemCallOutcome :=
  (systemCall table (savedRax b tf) (savedRdi b tf)).outcome b tf

/-- The memory `b'` has `-EINVAL` in `rax` of the trap frame at `tf` and is `b` elsewhere. -/
structure Refused (b : Bytes) (tf : ℕ) (b' : Bytes) : Prop where
  frame : TrapFrame.load b' tf = { TrapFrame.load b tf with rax := word64 (-einval) }
  rest : b.Frame (fun x => tf + raxOffset ≤ x ∧ x < tf + raxOffset + 8) b'

/-- `SystemCall` refuses the call, or it calls a function that `InitSystemCall` registered. -/
def Dispatched (table : SyscallTable) (b : Bytes) (tf : ℕ) : Prop :=
  (∃ b', systemCallAt table b tf = .returned b' ∧ Refused b tf b')
    ∨ ∃ n handler, n < maximumSystemCalls ∧ table n = some handler
        ∧ int64 (savedRax b tf) = n
        ∧ systemCallAt table b tf = .call handler (savedRsi b tf)

variable {table : SyscallTable} {b : Bytes} {tf : ℕ}

/-! ### The table -/

/-- The functions that `InitSystemCall` registers, by number. -/
def registeredHandlers : List Handler :=
  [.sysWrite, .sysSleep, .sysExit, .sysWait, .sysRead, .sysMemInfo, .sysOpen, .sysClose, .sysFork,
    .sysExec, .sysLstat, .sysClrSrc]

/-- The elements of the table that `InitSystemCall` fills. -/
theorem initSystemCall_apply (h : initSystemCall = some table) (n : ℕ) :
  table n = registeredHandlers[n]?
  := by
  obtain rfl := Option.some.inj h
  by_cases hn : n < registeredHandlers.length
  · revert n
    decide
  · rw [List.getElem?_eq_none (Nat.not_lt.mp hn)]
    have hn : 12 ≤ n := Nat.not_lt.mp hn
    repeat rw [Function.update_of_ne (by omega)]

/-- The numbers below 12 are registered, and no others. -/
theorem registered_iff (h : initSystemCall = some table) (n : ℕ) :
  (∃ handler, table n = some handler) ↔ n < 12
  := by
  rw [initSystemCall_apply h]
  constructor
  · rintro ⟨handler, hhandler⟩
    exact (List.getElem?_eq_some_iff.mp hhandler).1
  · intro hn
    exact ⟨_, List.getElem?_eq_getElem hn⟩

/-! ### The trap frame -/

theorem word64_lt (n : Int) :
  word64 n < 2 ^ 64
  := by
  unfold word64
  omega

/-- The word `-EINVAL` in `rax` of a trap frame, and nothing else changed. -/
theorem refused_writeWord (b : Bytes) (tf : ℕ) :
  Refused b tf (b.writeWord (tf + raxOffset) (word64 (-einval)))
  := by
  constructor
  · have hword : ∀ i, i ≠ 14 →
        (b.writeWord (tf + raxOffset) (word64 (-einval))).readWord (tf + 8 * i)
          = b.readWord (tf + 8 * i) := by
      intro i hi
      apply Bytes.readWord_writeWord_of_disjoint
      unfold raxOffset
      omega
    have hrax : (b.writeWord (tf + raxOffset) (word64 (-einval))).readWord (tf + 8 * 14)
        = word64 (-einval) := Bytes.readWord_writeWord_self b (tf + raxOffset) (word64_lt _)
    unfold TrapFrame.load TrapFrame.ofWords
    simp only [TrapFrame.mk.injEq]
    refine ⟨?_, ?_, ?_, ?_, ?_, ?_, ?_, ?_, ?_, ?_, ?_, ?_, ?_, ?_, hrax, ?_, ?_, ?_, ?_, ?_, ?_, ?_⟩
    all_goals
      apply hword
      decide
  · intro x hx
    apply Bytes.writeWord_of_outside
    omega

/-- What `SystemCall` does, by the number and the count of parameters. -/
theorem systemCall_cases (h : initSystemCall = some table) (rax rdi : Fin (2 ^ 64)) :
  ((int64 rdi < 0 ∨ 20 < int64 rax) ∧ systemCall table rax rdi = .refused)
    ∨ (0 ≤ int64 rdi ∧ 0 ≤ int64 rax ∧ int64 rax < 12
      ∧ ∃ handler, table (int64 rax).toNat = some handler
        ∧ systemCall table rax rdi = .call handler)
    ∨ (0 ≤ int64 rdi ∧ 12 ≤ int64 rax ∧ int64 rax < 20 ∧ systemCall table rax rdi = .stopped)
    ∨ (0 ≤ int64 rdi ∧ (int64 rax < 0 ∨ int64 rax = 20) ∧ systemCall table rax rdi = .outside)
  := by
  have hmax : (maximumSystemCalls : Int) = 20 := rfl
  unfold systemCall
  dsimp only
  rw [hmax]
  by_cases hrefused : int64 rdi < 0 ∨ 20 < int64 rax
  · left
    rw [if_pos hrefused]
    exact ⟨hrefused, rfl⟩
  right
  rw [if_neg hrefused]
  by_cases houtside : int64 rax < 0 ∨ 20 ≤ int64 rax
  · right
    right
    rw [if_pos houtside]
    exact ⟨by omega, by omega, rfl⟩
  rw [if_neg houtside]
  by_cases hregistered : int64 rax < 12
  · left
    obtain ⟨handler, hhandler⟩ := (registered_iff h (int64 rax).toNat).mpr (by omega)
    rw [hhandler]
    exact ⟨by omega, by omega, hregistered, handler, rfl, rfl⟩
  · right
    left
    have hnone : table (int64 rax).toNat = none := by
      apply Option.eq_none_iff_forall_ne_some.mpr
      intro handler hhandler
      have hlt := (registered_iff h _).mp ⟨handler, hhandler⟩
      omega
    rw [hnone]
    exact ⟨by omega, by omega, by omega, rfl⟩

theorem systemCallAt_eq {dispatch : Dispatch}
    (h : systemCall table (savedRax b tf) (savedRdi b tf) = dispatch) :
  systemCallAt table b tf = dispatch.outcome b tf
  := by
  rw [systemCallAt, h]

/-- `SystemCall` refuses the call or calls a function that `InitSystemCall` registered, and does
not stop in the assertion or use an element outside of the table, if and only if the count of
parameters is negative or the number is above 20 or one of the numbers from 0 to 11. -/
theorem dispatched_iff (h : initSystemCall = some table) (b : Bytes) (tf : ℕ) :
  (Dispatched table b tf ∧ systemCallAt table b tf ≠ .stopped ∧ systemCallAt table b tf ≠ .outside)
    ↔ int64 (savedRdi b tf) < 0 ∨ 20 < int64 (savedRax b tf)
      ∨ (0 ≤ int64 (savedRax b tf) ∧ int64 (savedRax b tf) < 12)
  := by
  rcases systemCall_cases h (savedRax b tf) (savedRdi b tf) with ⟨hnumber, hrun⟩
    | ⟨hparam, hlo, hhi, handler, hhandler, hrun⟩ | ⟨hparam, hlo, hhi, hrun⟩
    | ⟨hparam, hnumber, hrun⟩
  · rw [systemCallAt_eq hrun]
    constructor
    · intro _
      exact hnumber.imp_right Or.inl
    · intro _
      exact ⟨Or.inl ⟨_, systemCallAt_eq hrun, refused_writeWord b tf⟩, nofun, nofun⟩
  · rw [systemCallAt_eq hrun]
    constructor
    · intro _
      exact Or.inr (Or.inr ⟨hlo, hhi⟩)
    · intro _
      refine ⟨Or.inr ⟨_, handler, ?_, hhandler, ?_, systemCallAt_eq hrun⟩, nofun, nofun⟩
      · unfold maximumSystemCalls
        omega
      · exact (Int.toNat_of_nonneg hlo).symm
  · rw [systemCallAt_eq hrun]
    constructor
    · exact fun hsafe => absurd rfl hsafe.2.1
    · omega
  · rw [systemCallAt_eq hrun]
    constructor
    · exact fun hsafe => absurd rfl hsafe.2.2
    · omega

/-- The memory with a trap frame at 0 whose registers are all zero, apart from `rax`. -/
def raxMemory (rax : ℕ) : Bytes := Bytes.writeWord (fun _ => 0) raxOffset rax

theorem savedRax_raxMemory {rax : ℕ} (h : rax < 2 ^ 64) :
  savedRax (raxMemory rax) 0 = ⟨rax, h⟩
  := by
  have hread : (raxMemory rax).readWord (0 + raxOffset) = rax := by
    rw [Nat.zero_add]
    exact Bytes.readWord_writeWord_self _ _ h
  exact Fin.ext hread

theorem savedRdi_raxMemory (rax : ℕ) :
  savedRdi (raxMemory rax) 0 = ⟨0, by decide⟩
  := by
  have hread : (raxMemory rax).readWord (0 + 8 * 9) = 0 := by
    unfold raxMemory
    rw [Bytes.readWord_writeWord_of_disjoint (Or.inl (by decide))]
    exact Bytes.read_eq_zero (fun _ _ _ => rfl)
  exact Fin.ext hread

/-- The unregistered number 12 stops the machine in the assertion, and the numbers 20 and `-1`
are used as indices of the table. -/
theorem not_dispatched :
  ∃ table, initSystemCall = some table ∧ systemCallAt table (raxMemory 12) 0 = .stopped
    ∧ systemCallAt table (raxMemory 20) 0 = .outside
    ∧ systemCallAt table (raxMemory (2 ^ 64 - 1)) 0 = .outside
  := by
  refine ⟨_, rfl, ?_⟩
  unfold systemCallAt
  rw [savedRax_raxMemory (show 12 < 2 ^ 64 by decide), savedRax_raxMemory (show 20 < 2 ^ 64 by decide),
    savedRax_raxMemory (show 2 ^ 64 - 1 < 2 ^ 64 by decide)]
  rw [savedRdi_raxMemory, savedRdi_raxMemory, savedRdi_raxMemory]
  exact ⟨rfl, rfl, rfl⟩

/-- The call of number 11 in a trap frame at 0. -/
theorem dispatched_small :
  ∃ table, initSystemCall = some table ∧ Dispatched table (raxMemory 11) 0
  := by
  obtain ⟨table, htable⟩ : ∃ table, initSystemCall = some table := ⟨_, rfl⟩
  use table, htable
  apply ((dispatched_iff htable (raxMemory 11) 0).mpr _).1
  right
  right
  rw [savedRax_raxMemory (show 11 < 2 ^ 64 by decide)]
  decide

end LarvaOS
