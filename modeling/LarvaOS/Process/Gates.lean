import LarvaOS.Library.Protection
import LarvaOS.Process.Interrupts

/-!
# The tables of the processor

`Start` in `kernel/kernel.asm` loads the global descriptor table and the task state segment, and
`InitIDT` in `kernel/trap.c` fills the interrupt descriptor table.  Through these tables every
interrupt of a program reaches a vector of `kernel/trap.asm` in ring 0, with interrupts masked
and on the kernel stack of the current process, and the processor never shuts down.

The end of the task state segment is read as the address of the I/O permission bitmap, which is
therefore the segment itself: its zero bytes open ports to the programs.
-/

namespace LarvaOS

open Protection

/-! ### The data of `kernel.asm` -/

/-- The `n` bytes of a number, least significant byte first: `db`, `dw`, `dd` and `dq`. -/
def littleEndian (n v : ℕ) : List UInt8 := (List.range n).map (fun i => UInt8.ofNat (v / 256 ^ i))

/-- `TssLen`. -/
def tssLen : ℕ := 104

/-- `GDT64`, before the base of the task state segment is set. -/
def gdt64 : List UInt8 :=
  littleEndian 8 0
    ++ littleEndian 8 0x0020980000000000
    ++ littleEndian 8 0x0020F80000000000
    ++ littleEndian 8 0x0000F20000000000
    ++ littleEndian 2 (tssLen - 1) ++ littleEndian 2 0 ++ [0, 0b10001001, 0, 0]
    ++ littleEndian 8 0

/-- `TaskStateSegment`. -/
def taskStateSegment : List UInt8 :=
  littleEndian 4 0 ++ littleEndian 8 0xFFFF800000190000 ++ List.replicate 88 0
    ++ littleEndian 4 tssLen

/-- The bytes of a list lie in memory from an address on. -/
def HoldsBytes (b : Bytes) (a : ℕ) (l : List UInt8) : Prop :=
  ∀ i, i < l.length → b (a + i) = l.getD i 0

/-- The addresses of the symbols. -/
structure Symbols where
  gdt64 : ℕ
  taskStateSegment : ℕ
  interruptEntries : ℕ
  vector : ℕ → ℕ

/-- `MAXIMUM_IRQ_NUMBER`. -/
def maximumIrqNumber : ℕ := 256

/-- The size of `IDTEntry`. -/
def sizeofIDTEntry : ℕ := 16

theorem sizeofIDTEntry_eq :
  sizeofIDTEntry = 16
  := rfl

/-- `SYSTEM_CALL_INTERRUPT_NUMBER`. -/
def systemCallInterruptNumber : ℕ := 0x80

/-- `KERNEL_CODE_SEGMENT_SELECTOR`. -/
def kernelCodeSegmentSelector : ℕ := 0x08

/-! ### Setting up the tables -/

section
variable (s : Symbols)

/-- `SetTSS` in `Start`: the base of the task state segment, in four parts. -/
def startSetTSS (b : Bytes) : Bytes :=
  let rax := s.taskStateSegment
  let rdi := s.gdt64 + 32
  (((b.write 2 (rdi + 2) rax).write 1 (rdi + 4) (rax / 2 ^ 16)).write 1 (rdi + 7)
    (rax / 2 ^ 24)).write 4 (rdi + 8) (rax / 2 ^ 32)

/-- `InitIDTEntry`. -/
def initIDTEntry (entry address attr : ℕ) (b : Bytes) : Bytes :=
  ((((b.write 2 entry address).write 2 (entry + 2) kernelCodeSegmentSelector).write 1 (entry + 5)
    attr).write 2 (entry + 6) (address / 2 ^ 16)).write 4 (entry + 8) (address / 2 ^ 32)

/-- The numbers of `Vector0` to `Vector39`, in the order of `InitIDT`. -/
def vectorNumbers : List ℕ :=
  [0, 1, 2, 3, 4, 5, 6, 7, 8, 10, 11, 12, 13, 14, 16, 17, 18, 19, 32, 33, 39]

/-- The entries that `InitIDT` initializes, with their attributes. -/
def initializedEntries : List (ℕ × ℕ) :=
  vectorNumbers.map (fun n => (n, 0x8E)) ++ [(systemCallInterruptNumber, 0xEE)]

/-- `InitIDT`, without `LoadIDT`. -/
def initIDT (b : Bytes) : Bytes :=
  initializedEntries.foldl (fun b (n, attr) =>
    initIDTEntry (s.interruptEntries + sizeofIDTEntry * n) (s.vector n) attr b) b

/-- `SetTSS` in `kernel/process.c`, where the top of the stack is `rsp0`. -/
def storeRsp0 (rsp0 : ℕ) (b : Bytes) : Bytes := b.writeWord (s.taskStateSegment + 4) rsp0

/-- What `lgdt`, `ltr` and `LoadIDT` load. -/
def loadTables (b : Bytes) : Tables where
  bytes := b
  idt := ⟨s.interruptEntries, sizeofIDTEntry * maximumIrqNumber - 1⟩
  gdt := ⟨s.gdt64, gdt64.length - 1⟩
  tss := taskArea b (s.gdt64 + 0x20)
  tr := 0x20

/-- The tables while a process runs whose kernel stack ends at `rsp0`. -/
def runningTables (rsp0 : ℕ) (b : Bytes) : Tables :=
  loadTables s (storeRsp0 s rsp0 (initIDT s (startSetTSS s b)))

end

/-- The kernel is in memory: its data are at the addresses of their symbols, and the interrupt
descriptor table is zero. -/
structure Placed (s : Symbols) (b : Bytes) : Prop where
  gdt : HoldsBytes b s.gdt64 gdt64
  tss : HoldsBytes b s.taskStateSegment taskStateSegment
  idt : ∀ x, s.interruptEntries ≤ x → x < s.interruptEntries + 4096 → b x = 0
  gdtTss : s.gdt64 + 48 ≤ s.taskStateSegment ∨ s.taskStateSegment + 104 ≤ s.gdt64
  gdtEntries : s.gdt64 + 48 ≤ s.interruptEntries ∨ s.interruptEntries + 4096 ≤ s.gdt64
  tssEntries : s.taskStateSegment + 104 ≤ s.interruptEntries
    ∨ s.interruptEntries + 4096 ≤ s.taskStateSegment
  tssAddress : s.taskStateSegment < 2 ^ 64
  vectors : ∀ n, CanonicalAddress (s.vector n)

variable {s : Symbols} {b : Bytes} {n rsp0 : ℕ}

/-! ### The interrupt descriptor table -/

/-- The gate that `InitIDTEntry` writes. -/
def gateOf (address attr : ℕ) : Gate where
  offset := address
  selector := kernelCodeSegmentSelector
  ist := 0
  kind := attr % 32
  dpl := attr / 32 % 4
  present := attr.testBit 7

/-- The gate of zero bytes. -/
def noGate : Gate := ⟨0, 0, 0, 0, 0, false⟩

/-- The entries of the table decode to these gates, and the byte that `InitIDTEntry` leaves
alone is zero. -/
def Decodes (b : Bytes) (a : ℕ) (f : ℕ → Gate) : Prop :=
  ∀ n, n < maximumIrqNumber → Gate.decode b (a + sizeofIDTEntry * n) = f n
    ∧ b (a + sizeofIDTEntry * n + 4) = 0

/-- Bytes outside of an entry are left alone. -/
theorem initIDTEntry_of_outside {entry address attr x : ℕ}
    (h : x < entry ∨ entry + 16 ≤ x) :
  initIDTEntry entry address attr b x = b x
  := by
  unfold initIDTEntry
  rw [Bytes.write_of_outside (by omega), Bytes.write_of_outside (by omega),
    Bytes.write_of_outside (by omega), Bytes.write_of_outside (by omega),
    Bytes.write_of_outside (by omega)]

theorem decode_congr {b' : Bytes} {a : ℕ} (h : ∀ x, a ≤ x → x < a + 16 → b' x = b x) :
  Gate.decode b' a = Gate.decode b a
  := by
  have hread {n o : ℕ} (hle : o + n ≤ 16) : b'.read n (a + o) = b.read n (a + o) := by
    apply Bytes.read_congr
    intro x hx hlt
    exact h x (by omega) (by omega)
  have hfirst : b'.read 2 a = b.read 2 a := hread (o := 0) (by decide)
  unfold Gate.decode
  rw [hfirst, hread (by decide), hread (by decide), hread (by decide), hread (by decide),
    hread (by decide)]

/-- `InitIDTEntry` writes a gate. -/
theorem decode_initIDTEntry {entry address attr : ℕ} (hzero : b (entry + 4) = 0)
    (haddress : address < 2 ^ 64) (hattr : attr < 256) :
  Gate.decode (initIDTEntry entry address attr b) entry = gateOf address attr
    ∧ initIDTEntry entry address attr b (entry + 4) = 0
  := by
  have hsplit : address % 256 ^ 2 + 2 ^ 16 * (address / 2 ^ 16 % 256 ^ 2)
      + 2 ^ 32 * (address / 2 ^ 32 % 256 ^ 4) = address := by omega
  have hbyte : (initIDTEntry entry address attr b) (entry + 4) = 0 := by
    unfold initIDTEntry
    rw [Bytes.write_of_outside (by omega), Bytes.write_of_outside (by omega),
      Bytes.write_of_outside (by omega), Bytes.write_of_outside (by omega),
      Bytes.write_of_outside (by omega), hzero]
  refine ⟨?_, hbyte⟩
  have hist : (initIDTEntry entry address attr b).read 1 (entry + 4) = 0 := by
    rw [Bytes.read, hbyte]
    rfl
  unfold Gate.decode
  rw [hist]
  unfold initIDTEntry
  simp (disch := omega) only [Bytes.read_write_of_disjoint, Bytes.read_write_self]
  rw [hsplit, Nat.mod_eq_of_lt (by omega : attr < 256 ^ 1)]
  rfl

/-- One more entry is initialized. -/
theorem Decodes.initIDTEntry {a address attr : ℕ} {f : ℕ → Gate} (h : Decodes b a f)
    (hn : n < maximumIrqNumber) (haddress : address < 2 ^ 64) (hattr : attr < 256) :
  Decodes (LarvaOS.initIDTEntry (a + sizeofIDTEntry * n) address attr b) a
    (Function.update f n (gateOf address attr))
  := by
  intro m hm
  by_cases e : m = n
  · subst e
    rw [Function.update_self]
    exact decode_initIDTEntry (h m hm).2 haddress hattr
  · obtain ⟨hgate, hzero⟩ := h m hm
    rw [sizeofIDTEntry_eq] at hgate hzero ⊢
    rw [Function.update_of_ne e, ← hgate, ← hzero]
    exact ⟨decode_congr fun x hx hlt => initIDTEntry_of_outside (by omega),
      initIDTEntry_of_outside (by omega)⟩

/-- Values that are filled in at some indices. -/
theorem foldl_update {α : Type} (g : ℕ → α) (m : ℕ) :
  ∀ (ns : List ℕ) (f : ℕ → α),
    ns.foldl (fun f n => Function.update f n (g n)) f m = if m ∈ ns then g m else f m
  | [], _ => rfl
  | n :: ns, f => by
      rw [List.foldl_cons, foldl_update g m ns]
      by_cases hmem : m ∈ ns
      · rw [if_pos hmem, if_pos (List.mem_cons_of_mem n hmem)]
      · rw [if_neg hmem]
        by_cases e : m = n
        · subst e
          rw [Function.update_self, if_pos List.mem_cons_self]
        · rw [Function.update_of_ne e, if_neg]
          simp [e, hmem]

/-- The gate with a number after `InitIDT`. -/
def initializedGate (s : Symbols) (n : ℕ) : Gate :=
  if n ∈ vectorNumbers then gateOf (s.vector n) 0x8E
  else if n = systemCallInterruptNumber then gateOf (s.vector n) 0xEE
  else noGate

theorem initIDT_of_outside {x : ℕ}
    (h : x < s.interruptEntries ∨ s.interruptEntries + 4096 ≤ x) :
  initIDT s b x = b x
  := by
  have hlt : ∀ entry ∈ initializedEntries, entry.1 < 256 := by decide
  unfold initIDT
  generalize initializedEntries = entries at hlt
  induction entries generalizing b with
  | nil => rfl
  | cons entry entries ih =>
      have hentry := hlt entry List.mem_cons_self
      rw [List.foldl_cons, ih (fun e he => hlt e (List.mem_cons_of_mem _ he))]
      apply initIDTEntry_of_outside
      rw [sizeofIDTEntry_eq]
      omega

/-- Entries one after the other. -/
theorem Decodes.foldl {a attr : ℕ} {f : ℕ → Gate} (hattr : attr < 256)
    (hvector : ∀ n, s.vector n < 2 ^ 64) :
  ∀ (ns : List ℕ) {b : Bytes} {f : ℕ → Gate}, Decodes b a f → (∀ n ∈ ns, n < maximumIrqNumber) →
    Decodes (ns.foldl (fun b n =>
      LarvaOS.initIDTEntry (a + sizeofIDTEntry * n) (s.vector n) attr b) b) a
      (ns.foldl (fun f n => Function.update f n (gateOf (s.vector n) attr)) f)
  | [], _, _, h, _ => h
  | n :: ns, _, _, h, hns =>
      Decodes.foldl (f := f) hattr hvector ns
        (h.initIDTEntry (hns n List.mem_cons_self) (hvector n) hattr)
        (fun m hm => hns m (List.mem_cons_of_mem n hm))

/-- `InitIDT` fills the table. -/
theorem decodes_initIDT
    (hzero : ∀ x, s.interruptEntries ≤ x → x < s.interruptEntries + 4096 → b x = 0)
    (hvector : ∀ n, s.vector n < 2 ^ 64) :
  Decodes (initIDT s b) s.interruptEntries (initializedGate s)
  := by
  have hstart : Decodes b s.interruptEntries (fun _ => noGate) := by
    intro n hn
    have hmaximum : maximumIrqNumber = 256 := rfl
    rw [sizeofIDTEntry_eq]
    have hread {m o : ℕ} (hle : o + m ≤ 16) :
        b.read m (s.interruptEntries + 16 * n + o) = 0 :=
      Bytes.read_eq_zero fun x hx hlt => hzero x (by omega) (by omega)
    have hfirst : b.read 2 (s.interruptEntries + 16 * n) = 0 := hread (o := 0) (by decide)
    refine ⟨?_, hzero _ (by omega) (by omega)⟩
    unfold Gate.decode
    rw [hfirst, hread (by decide), hread (by decide), hread (by decide), hread (by decide),
      hread (by decide)]
    rfl
  have hvectors := Decodes.foldl (f := fun _ => noGate) (by decide : 0x8E < 256) hvector
    vectorNumbers hstart (by decide)
  have hall := hvectors.initIDTEntry (n := systemCallInterruptNumber) (by decide)
    (hvector systemCallInterruptNumber) (by decide : 0xEE < 256)
  have hrun : initIDT s b = LarvaOS.initIDTEntry
      (s.interruptEntries + sizeofIDTEntry * systemCallInterruptNumber)
      (s.vector systemCallInterruptNumber) 0xEE (vectorNumbers.foldl (fun b n =>
        LarvaOS.initIDTEntry (s.interruptEntries + sizeofIDTEntry * n) (s.vector n) 0x8E b) b) := by
    unfold initIDT initializedEntries
    rw [List.foldl_append, List.foldl_map]
    rfl
  have hgates : Function.update (vectorNumbers.foldl
      (fun f n => Function.update f n (gateOf (s.vector n) 0x8E)) (fun _ => noGate))
      systemCallInterruptNumber (gateOf (s.vector systemCallInterruptNumber) 0xEE)
      = initializedGate s := by
    funext m
    unfold initializedGate
    by_cases e : m = systemCallInterruptNumber
    · subst e
      rw [Function.update_self, if_neg (by decide), if_pos rfl]
    · rw [Function.update_of_ne e, foldl_update, if_neg e]
  rw [hrun, ← hgates]
  exact hall

/-! ### Segments and the task state segment -/

/-- Numbers that are read from a list in memory. -/
theorem HoldsBytes.read {a o m : ℕ} {l : List UInt8} (h : HoldsBytes b a l)
    (hle : o + m ≤ l.length) :
  b.read m (a + o) = Bytes.read m (fun i => l.getD i 0) o
  := by
  have hread : b.read m (a + o) = Bytes.read m (fun i => l.getD i 0) (0 + o) :=
    Bytes.read_inside (fun i hi => by
      rw [h i hi]
      simp) hle
  rwa [Nat.zero_add] at hread

/-- `CodeSegDes64`. -/
def kernelCode : Segment := ⟨0, 0, 24, 0, true, true, false⟩

/-- The memory while a process runs. -/
abbrev runningBytes (s : Symbols) (rsp0 : ℕ) (b : Bytes) : Bytes :=
  storeRsp0 s rsp0 (initIDT s (startSetTSS s b))

theorem startSetTSS_of_outside {x : ℕ} (h : x < s.gdt64 + 34 ∨ s.gdt64 + 44 ≤ x) :
  startSetTSS s b x = b x
  := by
  unfold startSetTSS
  rw [Bytes.write_of_outside (by omega), Bytes.write_of_outside (by omega),
    Bytes.write_of_outside (by omega), Bytes.write_of_outside (by omega)]

theorem storeRsp0_of_outside {x : ℕ}
    (h : x < s.taskStateSegment + 4 ∨ s.taskStateSegment + 12 ≤ x) :
  storeRsp0 s rsp0 b x = b x
  := Bytes.writeWord_of_outside (by omega)

namespace Placed

/-- The global descriptor table is changed by `SetTSS` in `Start` only. -/
theorem gdt_bytes (h : Placed s b) {x : ℕ} (hlo : s.gdt64 ≤ x) (hhi : x < s.gdt64 + 48) :
  runningBytes s rsp0 b x = startSetTSS s b x
  := by
  have htss := h.gdtTss
  have hentries := h.gdtEntries
  rw [runningBytes, storeRsp0_of_outside (by omega), initIDT_of_outside (by omega)]

/-- The task state segment outside of the field `rsp0`. -/
theorem tss_bytes (h : Placed s b) {o : ℕ} (ho : o < 4 ∨ 12 ≤ o ∧ o < 104) :
  runningBytes s rsp0 b (s.taskStateSegment + o) = taskStateSegment.getD o 0
  := by
  have htss := h.gdtTss
  have hentries := h.tssEntries
  have hlength : taskStateSegment.length = 104 := by decide
  rw [runningBytes, storeRsp0_of_outside (by omega), initIDT_of_outside (by omega),
    startSetTSS_of_outside (by omega)]
  exact h.tss o (by omega)

theorem rsp0_eq (s : Symbols) (rsp0 : ℕ) (b : Bytes) :
  (runningBytes s rsp0 b).read 8 (s.taskStateSegment + 4) = rsp0 % 2 ^ 64
  := Bytes.read_write_self 8 _ _ rsp0

/-- The descriptor of the code of the kernel. -/
theorem segment_kernelCode (h : Placed s b) :
  (runningTables s rsp0 b).segment kernelCodeSegmentSelector = some kernelCode
  := by
  have hread {m o : ℕ} (hle : o + m ≤ 8) : (runningBytes s rsp0 b).read m (s.gdt64 + 8 + o)
      = Bytes.read m (fun i => gdt64.getD i 0) (8 + o) := by
    have hlength : gdt64.length = 48 := by decide
    rw [← h.gdt.read (by omega), ← Nat.add_assoc]
    apply Bytes.read_congr
    intro x hx hlt
    rw [h.gdt_bytes (by omega) (by omega), startSetTSS_of_outside (by omega)]
  have hfirst : (runningBytes s rsp0 b).read 2 (s.gdt64 + 8)
      = Bytes.read 2 (fun i => gdt64.getD i 0) 8 := hread (o := 0) (by decide)
  have hdecode : Segment.decode (runningBytes s rsp0 b) (s.gdt64 + 8) = kernelCode := by
    unfold Segment.decode
    rw [hfirst, hread (by decide), hread (by decide), hread (by decide), hread (by decide),
      hread (by decide)]
    decide
  have hlimit : ¬ (kernelCodeSegmentSelector / 4 = 0 ∨ kernelCodeSegmentSelector.testBit 2
      ∨ gdt64.length - 1 < 8 * (kernelCodeSegmentSelector / 8) + 7) := by decide
  exact (if_neg hlimit).trans (congrArg some hdecode)

/-- `ltr` finds the task state segment, wherever it is. -/
theorem tss_eq (h : Placed s b) :
  (runningTables s rsp0 b).tss = ⟨s.taskStateSegment, tssLen - 1⟩
  := by
  have haddress := h.tssAddress
  have hlength : gdt64.length = 48 := by decide
  have hsame {m o : ℕ} (hle : o + m ≤ 16) : (runningBytes s rsp0 b).read m (s.gdt64 + 0x20 + o)
      = (startSetTSS s b).read m (s.gdt64 + 0x20 + o) := by
    apply Bytes.read_congr
    intro x hx hlt
    exact h.gdt_bytes (by omega) (by omega)
  have hlimit : (runningBytes s rsp0 b).read 2 (s.gdt64 + 0x20) = tssLen - 1 := by
    have hdata := h.gdt.read (o := 0x20) (m := 2) (by omega)
    rw [show Bytes.read 2 (fun i => gdt64.getD i 0) 0x20 = tssLen - 1 by decide] at hdata
    rw [← hdata]
    apply Bytes.read_congr
    intro x hx hlt
    rw [h.gdt_bytes (by omega) (by omega), startSetTSS_of_outside (by omega)]
  have hflags : (startSetTSS s b).read 1 (s.gdt64 + 0x20 + 6) = 0 := by
    have hdata := h.gdt.read (o := 0x20 + 6) (m := 1) (by omega)
    rw [show Bytes.read 1 (fun i => gdt64.getD i 0) (0x20 + 6) = 0 by decide] at hdata
    rw [← hdata]
    unfold startSetTSS
    simp (disch := omega) only [Bytes.read_write_of_disjoint]
  have hbase : (Segment.decodeSystem (runningBytes s rsp0 b) (s.gdt64 + 0x20)).base
      = s.taskStateSegment := by
    unfold Segment.decodeSystem Segment.decode
    dsimp only
    rw [hsame (by decide), hsame (by decide), hsame (by decide), hsame (by decide)]
    unfold startSetTSS
    simp (disch := omega) only [Bytes.read_write_of_disjoint, Bytes.read_write_self]
    omega
  have hlimit' : (Segment.decodeSystem (runningBytes s rsp0 b) (s.gdt64 + 0x20)).limit
      = tssLen - 1 := by
    unfold Segment.decodeSystem Segment.decode
    dsimp only
    rw [hlimit, hsame (by decide), hflags]
    rfl
  exact congrArg₂ Area.mk hbase hlimit'

/-- The gate with a number. -/
theorem gate_eq (h : Placed s b) (n : ℕ) :
  (runningTables s rsp0 b).gate n
    = if n < maximumIrqNumber then some (initializedGate s n) else none
  := by
  have hgdt := h.gdtEntries
  have htss := h.tssEntries
  have hmaximum : maximumIrqNumber = 256 := rfl
  have hdecodes : Decodes (initIDT s (startSetTSS s b)) s.interruptEntries (initializedGate s) := by
    apply decodes_initIDT
    · intro x hx hlt
      rw [startSetTSS_of_outside (by omega)]
      exact h.idt x hx hlt
    · exact fun n => (h.vectors n).lt
  by_cases hn : n < maximumIrqNumber
  · have hlimit : ¬ sizeofIDTEntry * maximumIrqNumber - 1 < 16 * n + 15 := by
      rw [sizeofIDTEntry_eq]
      omega
    rw [if_pos hn, ← (hdecodes n hn).1]
    apply (if_neg hlimit).trans
    apply congrArg some
    rw [sizeofIDTEntry_eq]
    apply decode_congr
    intro x hx hlt
    have hlo : s.interruptEntries + 16 * n ≤ x := hx
    have hhi : x < s.interruptEntries + 16 * n + 16 := hlt
    exact storeRsp0_of_outside (by omega)
  · have hlimit : sizeofIDTEntry * maximumIrqNumber - 1 < 16 * n + 15 := by
      rw [sizeofIDTEntry_eq]
      omega
    rw [if_neg hn]
    exact if_pos hlimit

end Placed

/-! ### Interrupts -/

/-- The event goes through its own gate: its number has a vector, and a program outside of ring
0 does not raise it with `INT`, unless it is a system call. -/
def Enters (cpl : ℕ) (e : Event) : Prop :=
  (vector e.number).isSome
    ∧ (cpl = 0 ∨ e = .hardware e.number ∨ e.number = systemCallInterruptNumber)

instance (cpl : ℕ) (e : Event) : Decidable (Enters cpl e) :=
  inferInstanceAs (Decidable (_ ∧ _))

/-- The vectors are those of `InitIDT`. -/
theorem vector_isSome (n : ℕ) :
  (vector n).isSome ↔ n ∈ vectorNumbers ∨ n = systemCallInterruptNumber
  := by
  unfold vector
  split
  all_goals simp_all [vectorNumbers, systemCallInterruptNumber]

/-- The gate of a number with a vector. -/
theorem initializedGate_some (h : (vector n).isSome) :
  ∃ attr, initializedGate s n = gateOf (s.vector n) attr
    ∧ (attr = 0x8E ∧ n ≠ systemCallInterruptNumber ∨ attr = 0xEE ∧ n = systemCallInterruptNumber)
  := by
  unfold initializedGate
  rcases (vector_isSome n).mp h with hmem | rfl
  · refine ⟨0x8E, if_pos hmem, Or.inl ⟨rfl, ?_⟩⟩
    rintro rfl
    revert hmem
    decide
  · exact ⟨0xEE, rfl, Or.inr ⟨rfl, rfl⟩⟩

theorem initializedGate_none (h : ¬ (vector n).isSome) :
  initializedGate s n = noGate
  := by
  rw [vector_isSome, not_or] at h
  unfold initializedGate
  rw [if_neg h.1, if_neg h.2]

/-- Where an event through its own gate leads. -/
def ownPassage (s : Symbols) (rsp0 cpl n : ℕ) : Passage :=
  ⟨s.vector n, kernelCodeSegmentSelector, if cpl = 0 then none else some (rsp0 % 2 ^ 64), true⟩

variable {cpl : ℕ} {e : Event}

/-- An event that has a gate of its own goes through it. -/
theorem Placed.deliver_own (h : Placed s b) (hrsp0 : CanonicalAddress (rsp0 % 2 ^ 64))
    (hcpl : cpl ≤ 3) (he : Enters cpl e) :
  deliver (runningTables s rsp0 b) cpl e = .pass (ownPassage s rsp0 cpl e.number)
  := by
  obtain ⟨hvector, hdpl⟩ := he
  obtain ⟨attr, hgate, hattr⟩ := @initializedGate_some s _ hvector
  have hn : e.number < maximumIrqNumber := by
    rcases (vector_isSome _).mp hvector with hmem | hcall
    · have hlt : ∀ n ∈ vectorNumbers, n < maximumIrqNumber := by decide
      exact hlt _ hmem
    · rw [hcall]
      decide
  have hfound := @Placed.gate_eq _ _ rsp0 h e.number
  rw [if_pos hn, hgate] at hfound
  have hpassable : Passable (runningTables s rsp0 b) cpl (gateOf (s.vector e.number) attr)
      kernelCode := by
    constructor
    · rcases hattr with ⟨rfl, _⟩ | ⟨rfl, _⟩
      · rfl
      · rfl
    · rcases hattr with ⟨rfl, _⟩ | ⟨rfl, _⟩
      · rfl
      · rfl
    · rfl
    · exact h.vectors _
    · exact h.segment_kernelCode
    · decide
    · decide
    · exact Nat.zero_le _
    · rfl
    · rfl
    · rfl
  have hprivilege : e = .software e.number → cpl ≤ (gateOf (s.vector e.number) attr).dpl := by
    intro hsoftware
    rcases hdpl with rfl | hhardware | hcall
    · exact Nat.zero_le _
    · rw [hhardware] at hsoftware
      cases hsoftware
    · rcases hattr with ⟨_, hne⟩ | ⟨rfl, _⟩
      · exact absurd hcall hne
      · exact hcpl
  have hselector : kernelCodeSegmentSelector / 4 * 4 + 0 = kernelCodeSegmentSelector := by decide
  unfold ownPassage
  by_cases hring : cpl = 0
  · subst hring
    rw [if_pos rfl, hpassable.deliver_same hfound hprivilege rfl, gateOf, hselector]
  · have htss := @Placed.tss_eq _ _ rsp0 h
    have hlimit : 4 + 8 * kernelCode.dpl + 7 ≤ (runningTables s rsp0 b).tss.limit := by
      rw [htss]
      exact (by decide : 4 + 8 * kernelCode.dpl + 7 ≤ tssLen - 1)
    have hstack : (runningTables s rsp0 b).bytes.read 8
        ((runningTables s rsp0 b).tss.base + (4 + 8 * kernelCode.dpl)) = rsp0 % 2 ^ 64 := by
      rw [htss]
      exact Placed.rsp0_eq s rsp0 b
    rw [if_neg hring, hpassable.deliver_inner hfound hprivilege (Ne.symm hring) hlimit hstack hrsp0,
      gateOf, kernelCode, hselector]

/-- An event without a gate of its own raises a general protection exception. -/
theorem Placed.deliver_other (h : Placed s b) (he : ¬ Enters cpl e) :
  deliver (runningTables s rsp0 b) cpl e = .fault 13 (8 * e.number + 2 + e.ext)
  := by
  apply deliver_fault
  intro g hg
  rw [h.gate_eq] at hg
  split at hg
  case isFalse => cases hg
  case isTrue hn =>
    obtain rfl := Option.some.inj hg
    by_cases hvector : (vector e.number).isSome
    · obtain ⟨attr, hgate, hattr⟩ := @initializedGate_some s _ hvector
      have hdpl : ¬ (cpl = 0 ∨ e = .hardware e.number ∨ e.number = systemCallInterruptNumber) :=
        fun hdpl => he ⟨hvector, hdpl⟩
      rw [not_or, not_or] at hdpl
      obtain ⟨hring, hhardware, hcall⟩ := hdpl
      right
      constructor
      · cases e with
        | software n => rfl
        | hardware n => exact absurd rfl hhardware
      · rcases hattr with ⟨rfl, _⟩ | ⟨_, hcall'⟩
        · rw [hgate]
          exact Nat.pos_of_ne_zero hring
        · exact absurd hcall' hcall
    · rw [initializedGate_none hvector]
      left
      decide

/-- Page faults and double faults have gates. -/
theorem severity_of_not_enters (he : ¬ Enters cpl e) :
  e.severity = .contributory ∨ e.severity = .benign
  := by
  cases e with
  | software n => exact Or.inr rfl
  | hardware n =>
      have hnot : ¬ (vector n).isSome := fun hvector => he ⟨hvector, Or.inr (Or.inl rfl)⟩
      have hdouble : n ≠ 8 := by
        rintro rfl
        exact hnot rfl
      have hpage : n ≠ 14 := by
        rintro rfl
        exact hnot rfl
      rw [Event.severity, if_neg hdouble, if_neg hpage]
      split
      · exact Or.inl rfl
      · exact Or.inr rfl

/-- The number of the gate through which an event goes in the end. -/
def reached (cpl : ℕ) (e : Event) : ℕ :=
  if Enters cpl e then e.number
  else if e.severity = .contributory then 8
  else 13

/-- The error code at the end. -/
def reachedCode (cpl : ℕ) (e : Event) (errorCode : ℕ) : ℕ :=
  if Enters cpl e then errorCode
  else if e.severity = .contributory then 0
  else 8 * e.number + 2 + e.ext

/-- Every event arrives at a vector in ring 0, with interrupts masked and on the kernel stack of
the process. -/
theorem Placed.arrive_eq (h : Placed s b) (hrsp0 : CanonicalAddress (rsp0 % 2 ^ 64))
    (hcpl : cpl ≤ 3) (e : Event) (errorCode : ℕ) :
  arrive (runningTables s rsp0 b) cpl 3 e errorCode
    = some ⟨reached cpl e, reachedCode cpl e errorCode, ownPassage s rsp0 cpl (reached cpl e)⟩
  := by
  unfold reached reachedCode
  by_cases he : Enters cpl e
  · rw [if_pos he, if_pos he]
    exact arrive_pass (h.deliver_own hrsp0 hcpl he)
  · rw [if_neg he, if_neg he]
    have hfault := @Placed.deliver_other _ _ rsp0 _ _ h he
    have hprotection : Enters cpl (.hardware 13) := ⟨rfl, Or.inr (Or.inl rfl)⟩
    have hdouble : Enters cpl (.hardware 8) := ⟨rfl, Or.inr (Or.inl rfl)⟩
    rcases severity_of_not_enters he with hseverity | hseverity
    · have hnext : e.escalate 13 = some 8 := by
        rw [Event.escalate, hseverity]
        rfl
      rw [arrive_fault hfault hnext, arrive_pass (h.deliver_own hrsp0 hcpl hdouble),
        if_pos hseverity, if_pos hseverity]
      rfl
    · have hnext : e.escalate 13 = some 13 := by
        rw [Event.escalate, hseverity]
      have hne : ¬ e.severity = .contributory := by
        rw [hseverity]
        decide
      rw [arrive_fault hfault hnext, arrive_pass (h.deliver_own hrsp0 hcpl hprotection), if_neg hne,
        if_neg hne]
      rfl

/-- Every gate that is reached has a vector. -/
theorem vector_reached (cpl : ℕ) (e : Event) :
  (vector (reached cpl e)).isSome
  := by
  unfold reached
  split
  case isTrue he => exact he.1
  case isFalse =>
    split
    · rfl
    · rfl

/-- The tables stay when their areas are left alone. -/
theorem Placed.congr {b' : Bytes} (h : Placed s b)
    (hgdt : ∀ x, s.gdt64 ≤ x → x < s.gdt64 + 48 → b' x = b x)
    (htss : ∀ x, s.taskStateSegment ≤ x → x < s.taskStateSegment + 104 → b' x = b x)
    (hidt : ∀ x, s.interruptEntries ≤ x → x < s.interruptEntries + 4096 → b' x = b x) :
  Placed s b'
  := by
  have hgdt64 : gdt64.length = 48 := by decide
  have htaskStateSegment : taskStateSegment.length = 104 := by decide
  refine { h with gdt := ?_, tss := ?_, idt := ?_ }
  · intro i hi
    rw [hgdt _ (by omega) (by omega)]
    exact h.gdt i hi
  · intro i hi
    rw [htss _ (by omega) (by omega)]
    exact h.tss i hi
  · intro x hx hlt
    rw [hidt x hx hlt]
    exact h.idt x hx hlt

/-! ### Programs -/

/-- The processor goes through a gate: it pushes the registers of the program on the stack, and
goes on where the gate says. -/
def enterGate (p : Passage) (number : ℕ) (errorCode : UInt64) (s : Execution) : Execution :=
  let rsp := (p.stack.map UInt64.ofNat).getD s.rsp
  let t := { s with cpu := s.cpu.set .rsp (rsp - rsp % 16) }.pushAll
    (interruptWords s.cpu number errorCode)
  { t with cpu := { t.cpu with
      rip := UInt64.ofNat p.rip
      cs := UInt64.ofNat p.cs
      ss := if p.stack.isSome then 0 else s.cpu.ss
      rflags := s.cpu.rflags &&& ~~~(if p.masks then 0x34300 else 0x34100) } }

/-- From ring 3 the gates do what `interrupt` does. -/
theorem enterGate_eq (s : Symbols) (rsp0 n number : ℕ) (errorCode : UInt64) (t : Execution) :
  enterGate (ownPassage s rsp0 3 n) number errorCode t
    = { interrupt (UInt64.ofNat rsp0) number errorCode t with
        cpu := { (interrupt (UInt64.ofNat rsp0) number errorCode t).cpu with
          rip := UInt64.ofNat (s.vector n) } }
  := by
  have hword : UInt64.ofNat (rsp0 % 2 ^ 64) = UInt64.ofNat rsp0 := by
    apply UInt64.toNat_inj.mp
    rw [UInt64.toNat_ofNat', UInt64.toNat_ofNat', Nat.mod_mod]
  rw [← hword]
  rfl

/-- The instruction pointer is replaced. -/
def Execution.setRip (rip : UInt64) (t : Execution) : Execution :=
  { t with cpu := { t.cpu with rip := rip } }

/-- Instructions that leave `rip` alone. -/
theorem run_setRip {code : List Instruction}
    (h : ∀ i ∈ code, ∀ rip t, i.run (Execution.setRip rip t) = (i.run t).setRip rip)
    (rip : UInt64) (t : Execution) :
  run code (t.setRip rip) = (run code t).setRip rip
  := by
  induction code generalizing t with
  | nil => rfl
  | cons i code ih =>
      have hrun : run (i :: code) (t.setRip rip) = run code (i.run (t.setRip rip)) := rfl
      rw [hrun, h i List.mem_cons_self]
      exact ih (fun j hj => h j (List.mem_cons_of_mem i hj)) (i.run t)

/-- What a vector and `Trap` do does not depend on `rip`. -/
theorem run_trap_setRip {code : List Instruction} (hcode : vector n = some code)
    (interruptHandler trapReturn rip : UInt64) (t : Execution) :
  run (code ++ trap interruptHandler trapReturn) (t.setRip rip)
    = run (code ++ trap interruptHandler trapReturn) t
  := by
  have hpush : ∀ i ∈ code ++ trapRegisters.map .push ++ [.mov .rdi .rsp], ∀ rip t,
      i.run (Execution.setRip rip t) = (i.run t).setRip rip := by
    intro i hi rip t
    rw [vector_eq hcode] at hi
    simp only [List.mem_append, List.mem_map, List.mem_singleton] at hi
    rcases hi with (⟨v, _, rfl⟩ | ⟨r, _, rfl⟩) | rfl
    · rfl
    · rfl
    · rfl
  have hsplit : code ++ trap interruptHandler trapReturn
      = code ++ trapRegisters.map .push ++ [.mov .rdi .rsp]
        ++ [.call interruptHandler trapReturn] := by
    unfold trap
    rw [List.append_assoc, List.append_assoc]
    rfl
  generalize code ++ trapRegisters.map .push ++ [.mov .rdi .rsp] = pushes at hpush hsplit
  rw [hsplit, run_append, run_append, run_setRip hpush]
  rfl

/-! ### Ports -/

/-- The ports that a program in ring 3 may use, given the top of its kernel stack. -/
def OpenPort (rsp0 port : ℕ) : Prop :=
  port < 32 ∨ 32 ≤ port ∧ port < 96 ∧ rsp0.testBit (port - 32) = false
    ∨ 96 ≤ port ∧ port < 800
    ∨ 800 ≤ port ∧ port < 808 ∧ tssLen.testBit (port - 800) = false
    ∨ 808 ≤ port ∧ port < 824

/-- The I/O permission bitmap is the task state segment itself. -/
theorem Placed.portOpen_iff (h : Placed s b) (port : ℕ) :
  PortOpen (runningTables s rsp0 b) 3 0 port ↔ OpenPort (rsp0 % 2 ^ 64) port
  := by
  have htss := @Placed.tss_eq _ _ rsp0 h
  have hzero : ∀ o, o < 104 → o ≠ 100 → o < 4 ∨ 12 ≤ o → taskStateSegment.getD o 0 = 0 := by
    decide
  have hbyte : ∀ o, o < 104 → o ≠ 100 → o < 4 ∨ 12 ≤ o →
      runningBytes s rsp0 b (s.taskStateSegment + o) = 0 := by
    intro o ho hne hout
    rw [h.tss_bytes (by omega), hzero o ho hne hout]
  have hbitmap : (runningBytes s rsp0 b).read 2 (s.taskStateSegment + 102) = 0 := by
    apply Bytes.read_eq_zero
    intro x hx hlt
    obtain ⟨o, rfl⟩ := Nat.exists_eq_add_of_le (Nat.le_trans (Nat.le_add_right _ _) hx)
    exact hbyte o (by omega) (by omega) (by omega)
  have hopen : PortOpen (runningTables s rsp0 b) 3 0 port ↔ port / 8 + 1 ≤ 103 ∧ (runningBytes s
      rsp0 b (s.taskStateSegment + port / 8)).toNat.testBit (port % 8) = false := by
    unfold PortOpen
    rw [htss]
    dsimp only [runningTables, loadTables]
    rw [hbitmap, Nat.zero_add, Nat.add_zero]
    exact or_iff_right (by decide)
  have hclear : port / 8 < 103 → port / 8 ≠ 100 → port / 8 < 4 ∨ 12 ≤ port / 8 →
      (runningBytes s rsp0 b (s.taskStateSegment + port / 8)).toNat.testBit (port % 8) = false := by
    intro ho hne hout
    rw [hbyte _ (by omega) hne hout]
    exact Nat.zero_testBit _
  rw [hopen]
  unfold OpenPort
  -- the areas of the segment: zero, `rsp0`, zero, the byte of `TssLen`, zero
  by_cases hrsp : 32 ≤ port ∧ port < 96
  · have hword : (rsp0 % 2 ^ 64).testBit (port - 32)
        = (runningBytes s rsp0 b (s.taskStateSegment + port / 8)).toNat.testBit (port % 8) := by
      have hread := testBit_read (b := runningBytes s rsp0 b) (n := 8)
        (a := s.taskStateSegment + 4) (i := port - 32) (by omega)
      rw [Placed.rsp0_eq] at hread
      have haddress : s.taskStateSegment + 4 + (port - 32) / 8 = s.taskStateSegment + port / 8 := by
        omega
      have hbit : (port - 32) % 8 = port % 8 := by omega
      rw [hread, haddress, hbit]
    rw [← hword]
    constructor
    · rintro ⟨_, hbit⟩
      exact Or.inr (Or.inl ⟨hrsp.1, hrsp.2, hbit⟩)
    · intro hport
      refine ⟨by omega, ?_⟩
      rcases hport with hlt | ⟨_, _, hbit⟩ | hmiddle | ⟨hge, _⟩ | ⟨hge, _⟩
      · omega
      · exact hbit
      · omega
      · omega
      · omega
  · by_cases hlast : 800 ≤ port ∧ port < 808
    · have hbyte : runningBytes s rsp0 b (s.taskStateSegment + port / 8) = UInt8.ofNat tssLen := by
        have hindex : port / 8 = 100 := by omega
        rw [hindex, h.tss_bytes (Or.inr ⟨by decide, by decide⟩)]
        decide
      have hbit : port % 8 = port - 800 := by omega
      have hvalue : (UInt8.ofNat tssLen).toNat = tssLen := by decide
      rw [hbyte, hbit, hvalue]
      constructor
      · rintro ⟨_, hbit⟩
        exact Or.inr (Or.inr (Or.inr (Or.inl ⟨hlast.1, hlast.2, hbit⟩)))
      · intro hport
        refine ⟨by omega, ?_⟩
        rcases hport with hlt | ⟨_, hlt, _⟩ | hmiddle | ⟨_, _, hbit⟩ | ⟨hge, _⟩
        · omega
        · omega
        · omega
        · exact hbit
        · omega
    · constructor
      · rintro ⟨hlimit, _⟩
        omega
      · intro hport
        have hlimit : port / 8 + 1 ≤ 103 := by omega
        exact ⟨hlimit, hclear (by omega) (by omega) (by omega)⟩

end LarvaOS
