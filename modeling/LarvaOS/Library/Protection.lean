import LarvaOS.Library.Bytes
import Mathlib.Data.Nat.Bitwise

/-!
# Interrupts and ports in 64-bit mode

The processor reads four structures in memory when something interrupts the running program:
the interrupt descriptor table, whose gates say where to go on, the global descriptor table,
whose segment descriptors say with which privilege, and the task state segment, which holds the
stack pointers of the inner rings.  `deliver` is one attempt to go through a gate.  An attempt
may raise a fault, which is delivered in its place, or a double fault, and `arrive` is where the
processor goes on in the end, if it does not shut down.

The task state segment also holds the I/O permission bitmap.  `PortOpen` says which ports a
program may use.
-/

namespace Protection

/-! ### Structures in memory -/

/-- An area of memory, from its base to its limit. -/
structure Area where
  base : ℕ
  limit : ℕ

/-- A segment descriptor. `kind` holds the type and the bit `S`. -/
structure Segment where
  base : ℕ
  limit : ℕ
  kind : ℕ
  dpl : ℕ
  present : Bool
  long : Bool
  wide : Bool
  deriving DecidableEq

/-- The segment descriptor at an address. -/
def Segment.decode (b : Bytes) (a : ℕ) : Segment where
  base := b.read 2 (a + 2) + 2 ^ 16 * b.read 1 (a + 4) + 2 ^ 24 * b.read 1 (a + 7)
  limit := b.read 2 a + 2 ^ 16 * (b.read 1 (a + 6) % 16)
  kind := b.read 1 (a + 5) % 32
  dpl := b.read 1 (a + 5) / 32 % 4
  present := (b.read 1 (a + 5)).testBit 7
  long := (b.read 1 (a + 6)).testBit 5
  wide := (b.read 1 (a + 6)).testBit 6

/-- The descriptor of a system segment takes 16 bytes, its base 64 bits. -/
def Segment.decodeSystem (b : Bytes) (a : ℕ) : Segment :=
  { Segment.decode b a with
    base := (Segment.decode b a).base + 2 ^ 32 * b.read 4 (a + 8) }

/-- The segment holds code. -/
def Segment.Code (s : Segment) : Prop := 24 ≤ s.kind

instance (s : Segment) : Decidable s.Code := inferInstanceAs (Decidable (24 ≤ s.kind))

/-- Code that is executed with the privilege of its caller. -/
def Segment.conforming (s : Segment) : Bool := s.kind.testBit 2

/-- A gate of the interrupt descriptor table. `kind` holds the type and the bit `S`. -/
structure Gate where
  offset : ℕ
  selector : ℕ
  ist : ℕ
  kind : ℕ
  dpl : ℕ
  present : Bool
  deriving DecidableEq

/-- The gate at an address. -/
def Gate.decode (b : Bytes) (a : ℕ) : Gate where
  offset := b.read 2 a + 2 ^ 16 * b.read 2 (a + 6) + 2 ^ 32 * b.read 4 (a + 8)
  selector := b.read 2 (a + 2)
  ist := b.read 1 (a + 4) % 8
  kind := b.read 1 (a + 5) % 32
  dpl := b.read 1 (a + 5) / 32 % 4
  present := (b.read 1 (a + 5)).testBit 7

/-- The kinds of gates in 64-bit mode: interrupt gates, which mask interrupts, and trap gates. -/
def interruptGate : ℕ := 14

/-- A trap gate. -/
def trapGate : ℕ := 15

/-- What the registers IDTR, GDTR and TR say, and the memory. -/
structure Tables where
  bytes : Bytes
  idt : Area
  gdt : Area
  tss : Area
  tr : ℕ

/-- The task state segment that `ltr` finds through the descriptor at an address. -/
def taskArea (b : Bytes) (a : ℕ) : Area :=
  ⟨(Segment.decodeSystem b a).base, (Segment.decodeSystem b a).limit⟩

namespace Tables

/-- The descriptor of a segment that code can run in, when the selector is not null and in the
global descriptor table. -/
def segment (t : Tables) (selector : ℕ) : Option Segment :=
  if selector / 4 = 0 ∨ selector.testBit 2 ∨ t.gdt.limit < 8 * (selector / 8) + 7 then none
  else some (Segment.decode t.bytes (t.gdt.base + 8 * (selector / 8)))

/-- The number of a gate, its address in the table. -/
def gate (t : Tables) (number : ℕ) : Option Gate :=
  if t.idt.limit < 16 * number + 15 then none
  else some (Gate.decode t.bytes (t.idt.base + 16 * number))

/-- The field of the task state segment that holds the stack pointer for a ring, or the stack
pointer with a number in the interrupt stack table. -/
def stackField (ring ist : ℕ) : ℕ := if ist = 0 then 4 + 8 * ring else 28 + 8 * ist

end Tables

/-- The address is canonical. -/
def CanonicalAddress (a : ℕ) : Prop := a < 2 ^ 47 ∨ 2 ^ 64 - 2 ^ 47 ≤ a ∧ a < 2 ^ 64

instance (a : ℕ) : Decidable (CanonicalAddress a) :=
  inferInstanceAs (Decidable (a < 2 ^ 47 ∨ 2 ^ 64 - 2 ^ 47 ≤ a ∧ a < 2 ^ 64))

theorem CanonicalAddress.lt {a : ℕ} (h : CanonicalAddress a) :
  a < 2 ^ 64
  := by
  unfold CanonicalAddress at h
  omega

/-! ### The delivery of an interrupt -/

/-- What is delivered: the interrupt of an `INT` instruction, or an exception or an interrupt
of a device. -/
inductive Event where
  | software (number : ℕ)
  | hardware (number : ℕ)
  deriving DecidableEq

/-- The number of the gate. -/
def Event.number : Event → ℕ
  | software n => n
  | hardware n => n

/-- The bit `EXT` of an error code. -/
def Event.ext : Event → ℕ
  | software _ => 0
  | hardware _ => 1

/-- How bad a fault in the delivery of an event is. -/
inductive Severity where
  | benign
  | contributory
  | pageFault
  | doubleFault
  deriving DecidableEq

/-- The severity of an event. -/
def Event.severity : Event → Severity
  | software _ => .benign
  | hardware n =>
      if n = 8 then .doubleFault
      else if n = 14 then .pageFault
      else if n ∈ [0, 10, 11, 12, 13, 21, 29, 30] then .contributory
      else .benign

/-- The exception that follows when the delivery of an event raises a fault, none when the
processor shuts down. -/
def Event.escalate (e : Event) (fault : ℕ) : Option ℕ :=
  match e.severity, (hardware fault).severity with
  | .doubleFault, _ => none
  | .benign, _ => some fault
  | .contributory, .contributory => some 8
  | .contributory, _ => some fault
  | .pageFault, .benign => some fault
  | .pageFault, _ => some 8

/-- Where the processor goes on: the new `RIP` and `CS`, the stack pointer that it takes from the
task state segment, if any, and whether interrupts are masked. -/
structure Passage where
  rip : ℕ
  cs : ℕ
  stack : Option ℕ
  masks : Bool
  deriving DecidableEq

/-- An attempt to go through a gate leads to its code, or to a fault with an error code. -/
inductive Attempt where
  | pass (passage : Passage)
  | fault (number errorCode : ℕ)
  deriving DecidableEq

/-- The attempt to enter a ring, from the ring `cpl`, through a gate whose checks succeeded. -/
def enterRing (t : Tables) (cpl : ℕ) (e : Event) (g : Gate) (s : Segment) : Attempt :=
  let ring := if s.conforming then cpl else s.dpl
  let field := Tables.stackField ring g.ist
  let stack := t.bytes.read 8 (t.tss.base + field)
  let passage stack : Passage :=
    ⟨g.offset, g.selector / 4 * 4 + ring, stack, g.kind = interruptGate⟩
  if ring = cpl ∧ g.ist = 0 then .pass (passage none)
  else if t.tss.limit < field + 7 then .fault 10 (t.tr / 4 * 4 + e.ext)
  else if ¬ CanonicalAddress stack then .fault 12 e.ext
  else .pass (passage (some stack))

/-- An attempt to go through the gate of an event, from the ring `cpl`. -/
def deliver (t : Tables) (cpl : ℕ) (e : Event) : Attempt :=
  let gateCode := 8 * e.number + 2 + e.ext
  match t.gate e.number with
  | none => .fault 13 gateCode
  | some g =>
      if g.kind ≠ interruptGate ∧ g.kind ≠ trapGate then .fault 13 gateCode
      else if e = .software e.number ∧ g.dpl < cpl then .fault 13 gateCode
      else if ¬ g.present then .fault 11 gateCode
      else
        let selectorCode := g.selector / 4 * 4 + e.ext
        match t.segment g.selector with
        | none => .fault 13 selectorCode
        | some s =>
            if ¬ s.Code ∨ cpl < s.dpl then .fault 13 selectorCode
            else if ¬ s.present then .fault 11 selectorCode
            else if ¬ s.long ∨ s.wide then .fault 13 selectorCode
            else if ¬ CanonicalAddress g.offset then .fault 13 e.ext
            else enterRing t cpl e g s

/-- What the processor arrives at: the number of the gate through which it has gone, the error
code, and where it goes on. -/
structure Arrival where
  number : ℕ
  errorCode : ℕ
  passage : Passage
  deriving DecidableEq

/-- The event with the given error code and the faults in its delivery, `n` attempts at most.
There is no outcome when the processor shuts down. -/
def arrive (t : Tables) (cpl : ℕ) : ℕ → Event → ℕ → Option Arrival
  | 0, _, _ => none
  | n + 1, e, errorCode =>
      match deliver t cpl e with
      | .pass passage => some ⟨e.number, errorCode, passage⟩
      | .fault fault code => do
          let next ← e.escalate fault
          arrive t cpl n (.hardware next) (if next = fault then code else 0)

section
variable {t : Tables} {cpl : ℕ} {e : Event} {g : Gate} {s : Segment}

/-- A gate leads to a 64-bit code segment for rings that are not more privileged. -/
structure Passable (t : Tables) (cpl : ℕ) (g : Gate) (s : Segment) : Prop where
  kind : g.kind = interruptGate
  present : g.present = true
  ist : g.ist = 0
  offset : CanonicalAddress g.offset
  segment : t.segment g.selector = some s
  code : s.Code
  conforming : s.conforming = false
  dpl : s.dpl ≤ cpl
  segmentPresent : s.present = true
  long : s.long = true
  wide : s.wide = false

/-- Checks of the gate and its segment that succeed. -/
theorem Passable.deliver (h : Passable t cpl g s) (hg : t.gate e.number = some g)
    (hdpl : e = .software e.number → cpl ≤ g.dpl) :
  deliver t cpl e = enterRing t cpl e g s
  := by
  have hsoftware : ¬ (e = .software e.number ∧ g.dpl < cpl) := by
    rintro ⟨he, hlt⟩
    exact absurd (hdpl he) (Nat.not_le.mpr hlt)
  rw [Protection.deliver, hg]
  dsimp only
  rw [if_neg (by simp [h.kind]), if_neg hsoftware, if_neg (by simp [h.present]), h.segment]
  dsimp only
  rw [if_neg (by simp [h.code, Nat.not_lt.mpr h.dpl]), if_neg (by simp [h.segmentPresent]),
    if_neg (by simp [h.long, h.wide]), if_neg (not_not.mpr h.offset)]

/-- A gate to the same ring keeps the stack. -/
theorem Passable.deliver_same (h : Passable t cpl g s) (hg : t.gate e.number = some g)
    (hdpl : e = .software e.number → cpl ≤ g.dpl) (hcpl : s.dpl = cpl) :
  Protection.deliver t cpl e = .pass ⟨g.offset, g.selector / 4 * 4 + cpl, none, true⟩
  := by
  rw [h.deliver hg hdpl, enterRing]
  simp [h.conforming, hcpl, h.ist, h.kind]

/-- A gate to an inner ring takes the stack of the ring. -/
theorem Passable.deliver_inner {a : ℕ} (h : Passable t cpl g s) (hg : t.gate e.number = some g)
    (hdpl : e = .software e.number → cpl ≤ g.dpl) (hcpl : s.dpl ≠ cpl)
    (hlimit : 4 + 8 * s.dpl + 7 ≤ t.tss.limit)
    (hstack : t.bytes.read 8 (t.tss.base + (4 + 8 * s.dpl)) = a) (ha : CanonicalAddress a) :
  Protection.deliver t cpl e = .pass ⟨g.offset, g.selector / 4 * 4 + s.dpl, some a, true⟩
  := by
  have hfield : Tables.stackField s.dpl g.ist = 4 + 8 * s.dpl := if_pos h.ist
  rw [h.deliver hg hdpl, enterRing]
  simp only [h.conforming, Bool.false_eq_true, if_false, hfield, hstack, h.kind]
  rw [if_neg (fun hand => hcpl hand.1), if_neg (Nat.not_lt.mpr hlimit), if_neg (not_not.mpr ha)]
  simp

/-- A gate that is no gate, or that the program may not use, raises a general protection
exception. -/
theorem deliver_fault
    (h : ∀ g, t.gate e.number = some g → g.kind ≠ interruptGate ∧ g.kind ≠ trapGate
      ∨ e = .software e.number ∧ g.dpl < cpl) :
  deliver t cpl e = .fault 13 (8 * e.number + 2 + e.ext)
  := by
  rw [deliver]
  cases hg : t.gate e.number with
  | none => rfl
  | some g =>
      dsimp only
      by_cases hkind : g.kind ≠ interruptGate ∧ g.kind ≠ trapGate
      · rw [if_pos hkind]
      · rw [if_neg hkind, if_pos ((h g hg).resolve_left hkind)]

theorem arrive_pass {p : Passage} {n errorCode : ℕ} (h : deliver t cpl e = .pass p) :
  arrive t cpl (n + 1) e errorCode = some ⟨e.number, errorCode, p⟩
  := by
  rw [arrive, h]

theorem arrive_fault {n errorCode fault code next : ℕ} (h : deliver t cpl e = .fault fault code)
    (hnext : e.escalate fault = some next) :
  arrive t cpl (n + 1) e errorCode
    = arrive t cpl n (.hardware next) (if next = fault then code else 0)
  := by
  rw [arrive, h]
  dsimp only
  rw [hnext]
  rfl

end

/-! ### Ports -/

/-- A program in the ring `cpl` may use a port: its ring is allowed to use all ports, or the bit
of the port in the I/O permission bitmap is clear and two bytes of the bitmap are inside the
task state segment. -/
def PortOpen (t : Tables) (cpl iopl port : ℕ) : Prop :=
  let bitmap := t.bytes.read 2 (t.tss.base + 102)
  cpl ≤ iopl ∨ bitmap + port / 8 + 1 ≤ t.tss.limit
    ∧ (t.bytes (t.tss.base + bitmap + port / 8)).toNat.testBit (port % 8) = false

instance (t : Tables) (cpl iopl port : ℕ) : Decidable (PortOpen t cpl iopl port) :=
  inferInstanceAs (Decidable (_ ∨ _ ∧ _))

/-- The bits of a number in memory are those of its bytes. -/
theorem testBit_read {b : Bytes} :
  ∀ {n a i : ℕ}, i < 8 * n → (b.read n a).testBit i = (b (a + i / 8)).toNat.testBit (i % 8)
  | 0, _, _, h => by omega
  | n + 1, a, i, h => by
      have hbyte : (b a).toNat < 2 ^ 8 := (b a).toNat_lt
      rw [Bytes.read, Nat.add_comm, show 256 = 2 ^ 8 from rfl, Nat.testBit_two_pow_mul_add _ hbyte]
      split
      case isTrue hi =>
        rw [Nat.div_eq_of_lt hi, Nat.mod_eq_of_lt hi, Nat.add_zero]
      case isFalse hi =>
        have hdiv : a + 1 + (i - 8) / 8 = a + i / 8 := by omega
        have hmod : (i - 8) % 8 = i % 8 := by omega
        rw [testBit_read (by omega : i - 8 < 8 * n), hdiv, hmod]

end Protection
