import LarvaOS.Kernel.Processes

/-!
# The trap frame

`TrapFrame` is the structure of `kernel/trap.h`: the registers of a process that was
interrupted, at the top of its kernel stack.  `TrapFrame.user` is the frame with which a
program starts.
-/

namespace LarvaOS

/-- `TrapFrame`. -/
structure TrapFrame where
  r15 : ℕ
  r14 : ℕ
  r13 : ℕ
  r12 : ℕ
  r11 : ℕ
  r10 : ℕ
  r9 : ℕ
  r8 : ℕ
  rbp : ℕ
  rdi : ℕ
  rsi : ℕ
  rdx : ℕ
  rcx : ℕ
  rbx : ℕ
  rax : ℕ
  trapno : ℕ
  errorCode : ℕ
  rip : ℕ
  cs : ℕ
  rflags : ℕ
  rsp : ℕ
  ss : ℕ
  deriving DecidableEq

namespace TrapFrame

/-- The trap frame whose words are `w 0`, `w 1`, ..., in order of address. -/
def ofWords (w : ℕ → ℕ) : TrapFrame where
  r15 := w 0
  r14 := w 1
  r13 := w 2
  r12 := w 3
  r11 := w 4
  r10 := w 5
  r9 := w 6
  r8 := w 7
  rbp := w 8
  rdi := w 9
  rsi := w 10
  rdx := w 11
  rcx := w 12
  rbx := w 13
  rax := w 14
  trapno := w 15
  errorCode := w 16
  rip := w 17
  cs := w 18
  rflags := w 19
  rsp := w 20
  ss := w 21

/-- The trap frame at the address `a`. -/
def load (b : Bytes) (a : ℕ) : TrapFrame := ofWords (fun i => b.readWord (a + 8 * i))

/-- The frame of a program that starts in ring 3. -/
def user : TrapFrame where
  r15 := 0
  r14 := 0
  r13 := 0
  r12 := 0
  r11 := 0
  r10 := 0
  r9 := 0
  r8 := 0
  rbp := 0
  rdi := 0
  rsi := 0
  rdx := 0
  rcx := 0
  rbx := 0
  rax := 0
  trapno := 0
  errorCode := 0
  rip := 0x400000
  cs := 0x13
  rflags := 0x202
  rsp := 0x600000
  ss := 0x1B

/-- The words of the frame of a program that starts. -/
def userWord : ℕ → ℕ
  | 17 => 0x400000
  | 18 => 0x13
  | 19 => 0x202
  | 20 => 0x600000
  | 21 => 0x1B
  | _ => 0

theorem ofWords_congr {w w' : ℕ → ℕ} (h : ∀ i, i < 22 → w i = w' i) :
  ofWords w = ofWords w'
  := by
  unfold ofWords
  simp only [mk.injEq]
  refine ⟨?_, ?_, ?_, ?_, ?_, ?_, ?_, ?_, ?_, ?_, ?_, ?_, ?_, ?_, ?_, ?_, ?_, ?_, ?_, ?_, ?_, ?_⟩
  all_goals
    apply h
    decide

/-- A frame depends only on its bytes. -/
theorem load_congr {b b' : Bytes} {a : ℕ}
    (h : ∀ x, a ≤ x → x < a + sizeofTrapFrame → b' x = b x) :
  load b' a = load b a
  := by
  apply ofWords_congr
  intro i hi
  apply Bytes.readWord_congr
  intro x hx hlt
  apply h x (by omega)
  unfold sizeofTrapFrame
  omega

/-- A word that is stored to a frame. -/
theorem readWord_storeWord (m : Memory) (a i j : ℕ) {v : ℕ} (hv : v < 2 ^ 64) :
  (m.storeWord (a + 8 * j) v).bytes.readWord (a + 8 * i)
    = if i = j then v else m.bytes.readWord (a + 8 * i)
  := by
  unfold Memory.storeWord
  split
  · rename_i hij
    rw [hij]
    exact Bytes.readWord_writeWord_self _ _ hv
  · exact Bytes.readWord_writeWord_of_disjoint (by omega)

/-- A cleared frame that is started is the frame of a program. -/
theorem load_startTrapFrame {m : Memory} {a : ℕ}
    (h : ∀ x, a ≤ x → x < a + sizeofTrapFrame → m.bytes x = 0) :
  load (m.startTrapFrame a).bytes a = user
  := by
  have huser : user = ofWords userWord := rfl
  have hbase : userVirtualAddressBase = 0x400000 := userVirtualAddressBase_eq
  have hstack : userStackStart = 0x600000 := by
    unfold userStackStart stackSize
    rw [hbase, pageSize_eq]
  rw [huser]
  apply ofWords_congr
  intro i hi
  have hzero : m.bytes.readWord (a + 8 * i) = 0 := by
    apply Bytes.read_eq_zero
    intro x hx hlt
    apply h x (by omega)
    unfold sizeofTrapFrame
    omega
  unfold Memory.startTrapFrame
  rw [hbase, hstack, readWord_storeWord _ a i 19 (by decide), readWord_storeWord _ a i 20 (by decide),
    readWord_storeWord _ a i 21 (by decide), readWord_storeWord _ a i 17 (by decide),
    readWord_storeWord _ a i 18 (by decide), hzero]
  clear hzero h
  revert i
  decide

end TrapFrame

end LarvaOS
