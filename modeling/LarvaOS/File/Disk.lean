import LarvaOS.File.Directory

/-!
# The disk controller

`DiskReadSectors` at the level of the ports of the ATA controller.  The controller has a
sector-count register of 8 bits, in which zero stands for 256.  A command to read makes
the programmed number of sectors pending; for each of them the controller raises the bit
DRQ of its status once, after a time of its own, and lowers it when the 256 words of the
sector have been read.

The driver drains as many sectors as it was asked for, whatever the register holds.  So
the driver and the controller agree on the number of sectors for 1 to 256 sectors only.
-/

namespace LarvaOS

/-- The state of the controller: the contents of the disk, the number of times that the
status of a sector is read before the sector is ready, the registers of 8 bits, the
sectors of the last command that are not delivered, and for the first of these the number
of times that its status is still to be read, and the number of words delivered. -/
structure Controller where
  disk : ℕ → UInt8
  latency : ℕ → ℕ
  drive : ℕ
  sectorCount : ℕ
  lbaLow : ℕ
  lbaMid : ℕ
  lbaHigh : ℕ
  pending : List ℕ
  wait : ℕ
  word : ℕ

namespace Controller

/-- The first sector of a command: bits 24 to 27 are in the drive register. -/
def lba (c : Controller) : ℕ :=
  c.lbaLow + c.lbaMid * 2 ^ 8 + c.lbaHigh * 2 ^ 16 + c.drive % 2 ^ 4 * 2 ^ 24

/-- The number of sectors of a command. -/
def programmed (c : Controller) : ℕ := if c.sectorCount = 0 then 256 else c.sectorCount

/-- Make the sectors pending. -/
def start (c : Controller) (sectors : List ℕ) : Controller :=
  { c with pending := sectors, wait := c.latency (sectors.headD 0), word := 0 }

/-- `OutByte`: the controller gets 8 bits. -/
def outByte (port val : ℕ) (c : Controller) : Controller :=
  let val := val % 2 ^ 8
  if port = 0x1F2 then { c with sectorCount := val }
  else if port = 0x1F3 then { c with lbaLow := val }
  else if port = 0x1F4 then { c with lbaMid := val }
  else if port = 0x1F5 then { c with lbaHigh := val }
  else if port = 0x1F6 then { c with drive := val }
  else if port = 0x1F7 ∧ val = 0x20 then c.start (List.range' c.lba c.programmed)
  else c

/-- `InByte` of the status port: the bit DRQ is set when a sector is ready. -/
def inStatus (c : Controller) : ℕ × Controller :=
  if c.pending = [] then (0, c)
  else if c.wait = 0 then (0x08, c)
  else (0, { c with wait := c.wait - 1 })

/-- `InWord` of the data port: the next word of the sector. -/
def inWord (c : Controller) : ℕ × Controller :=
  match c.pending with
  | [] => (0, c)
  | sector :: sectors =>
      (Bytes.read 2 c.disk (sector * sectorSize + 2 * c.word),
        if c.word = 255 then c.start sectors else { c with word := c.word + 1 })

/-- The loop of `DiskReadSectors` that waits for DRQ, for a number of rounds. -/
def pollLoop : ℕ → Controller → Option Controller
  | 0, _ => none
  | fuel + 1, c =>
      let (byte, c) := c.inStatus
      if byte &&& 0x08 ≠ 0 then some c else pollLoop fuel c

/-- The loop of `DiskReadSectors` over the words of a sector. -/
def wordLoop : ℕ → ℕ → Bytes → Controller → Bytes × Controller
  | 0, _, b, c => (b, c)
  | n + 1, ptr, b, c =>
      let (word, c) := c.inWord
      wordLoop n (ptr + 2) (b.write 2 ptr word) c

/-- The loop of `DiskReadSectors` over the sectors. -/
def sectorLoop (fuel : ℕ) : ℕ → ℕ → Bytes → Controller → Option (Bytes × Controller)
  | 0, _, b, c => some (b, c)
  | s + 1, ptr, b, c => do
      let c ← pollLoop fuel c
      let words := wordLoop 256 ptr b c
      sectorLoop fuel s (ptr + sectorSize) words.1 words.2

/-- The commands that `DiskReadSectors` sends to the controller. -/
def command (lba sectors : ℕ) (c : Controller) : Controller :=
  (((((c.outByte 0x1F6 (lba >>> 24 ||| 0b11100000)).outByte 0x1F2 sectors).outByte 0x1F3
    (lba &&& 0b11111111)).outByte 0x1F4 (lba >>> 8)).outByte 0x1F5 (lba >>> 16)).outByte 0x1F7 0x20

/-- `DiskReadSectors`, where every wait for DRQ has a number of rounds. -/
def diskReadSectors (fuel lba sectors buf : ℕ) (b : Bytes) (c : Controller) :
    Option (Bytes × Controller) :=
  sectorLoop fuel sectors buf b (c.command lba sectors)

/-! ### The registers -/

variable {c : Controller} {lba n : ℕ}

/-- The bits of the sector's number in the drive register. -/
theorem driveBits {x : ℕ} (hx : x < 2 ^ 4) :
  (x ||| 0b11100000) % 2 ^ 8 % 2 ^ 4 = x
  := by
  have h : ∀ y : Fin 16, (y.val ||| 0b11100000) % 2 ^ 8 % 2 ^ 4 = y.val := by decide
  exact h ⟨x, hx⟩

/-- The controller with the registers that `DiskReadSectors` sets. -/
def registers (lba n : ℕ) (c : Controller) : Controller :=
  { c with
    drive := (lba >>> 24 ||| 0b11100000) % 2 ^ 8
    sectorCount := n % 2 ^ 8
    lbaLow := (lba &&& 0b11111111) % 2 ^ 8
    lbaMid := (lba >>> 8) % 2 ^ 8
    lbaHigh := (lba >>> 16) % 2 ^ 8 }

/-- The registers hold the number of the first sector. -/
theorem lba_registers (hlba : lba < 2 ^ 28) :
  (c.registers lba n).lba = lba
  := by
  have hdrive := driveBits (x := lba / 2 ^ 24) (by omega)
  unfold Controller.lba registers
  dsimp only
  rw [Nat.shiftRight_eq_div_pow, Nat.shiftRight_eq_div_pow, Nat.shiftRight_eq_div_pow, hdrive,
    Nat.and_two_pow_sub_one_eq_mod lba 8]
  omega

/-- The command makes the programmed number of sectors pending, from `lba` on. -/
theorem command_eq (hlba : lba < 2 ^ 28) :
  c.command lba n
    = (c.registers lba n).start (List.range' lba (c.registers lba n).programmed)
  := by
  have hrun : c.command lba n = (c.registers lba n).start
      (List.range' (c.registers lba n).lba (c.registers lba n).programmed) := rfl
  rw [hrun, lba_registers hlba]

/-! ### One sector -/

variable {b : Bytes} {fuel ptr sector : ℕ} {sectors : List ℕ}

/-- Without a pending sector the loop never ends. -/
theorem pollLoop_nil (h : c.pending = []) (fuel : ℕ) :
  pollLoop fuel c = none
  := by
  induction fuel with
  | zero => rfl
  | succ fuel ih =>
      unfold pollLoop inStatus
      rw [if_pos h]
      exact ih

/-- With a pending sector the loop ends after the controller's time. -/
theorem pollLoop_cons (h : c.pending ≠ []) (fuel : ℕ) :
  pollLoop fuel c = if c.wait < fuel then some { c with wait := 0 } else none
  := by
  induction fuel generalizing c with
  | zero => rfl
  | succ fuel ih =>
      unfold pollLoop inStatus
      rw [if_neg h]
      by_cases hwait : c.wait = 0
      · rw [if_pos hwait, if_pos (by omega)]
        have hsame : c = { c with wait := 0 } := by rw [← hwait]
        exact congrArg some hsame
      · rw [if_neg hwait]
        have hrest := ih (c := { c with wait := c.wait - 1 }) h
        dsimp only at hrest ⊢
        have hzero : ¬ (0 &&& 0x08 : ℕ) ≠ 0 := by decide
        rw [if_neg hzero, hrest]
        congr 1
        rw [eq_iff_iff]
        omega

/-- The low byte of a number in little-endian notation. -/
theorem ofNat_low (d : UInt8) (r : ℕ) :
  UInt8.ofNat (d.toNat + 256 * r) = d
  := by
  apply UInt8.toNat.inj
  rw [UInt8.toNat_ofNat', Nat.add_mul_mod_self_left]
  exact Nat.mod_eq_of_lt d.toNat_lt

/-- Storing two bytes that were read copies them. -/
theorem write_read (b d : Bytes) (ptr a x : ℕ) :
  b.write 2 ptr (Bytes.read 2 d a) x
    = if ptr ≤ x ∧ x < ptr + 2 then d (a + (x - ptr)) else b x
  := by
  by_cases hx : ptr ≤ x ∧ x < ptr + 2
  · rw [if_pos hx]
    have hdiv : ((d a).toNat + 256 * ((d (a + 1)).toNat + 256 * 0)) / 256
        = (d (a + 1)).toNat + 256 * 0 := by
      have hlt := (d a).toNat_lt
      omega
    unfold Bytes.write Bytes.write Bytes.write Bytes.read Bytes.read Bytes.read
    rw [hdiv, ofNat_low, ofNat_low]
    obtain rfl | rfl : x = ptr ∨ x = ptr + 1 := by omega
    · rw [Function.update_of_ne (by omega), Function.update_self, Nat.sub_self, Nat.add_zero]
    · rw [Function.update_self, Nat.add_sub_cancel_left]
  · rw [if_neg hx]
    exact Bytes.write_of_outside (by omega)

/-- Reading a word of a pending sector. -/
theorem inWord_cons (hpending : c.pending = sector :: sectors) :
  c.inWord = (Bytes.read 2 c.disk (sector * sectorSize + 2 * c.word),
    if c.word = 255 then c.start sectors else { c with word := c.word + 1 })
  := by
  unfold inWord
  split
  · rename_i hnil
    rw [hpending] at hnil
    contradiction
  · rename_i hcons
    obtain ⟨rfl, rfl⟩ := List.cons.inj (hpending.symm.trans hcons)
    rfl

theorem wordLoop_succ (n ptr : ℕ) (b : Bytes) (c : Controller) :
  wordLoop (n + 1) ptr b c = wordLoop n (ptr + 2) (b.write 2 ptr c.inWord.1) c.inWord.2
  := rfl

/-- The words that are left of a sector are copied. -/
theorem wordLoop_spec (hpending : c.pending = sector :: sectors) (hword : c.word < 256)
    (hn : c.word + n ≤ 256) (ptr : ℕ) (b : Bytes) :
  wordLoop n ptr b c
    = (fun x => if ptr ≤ x ∧ x < ptr + 2 * n then
          c.disk (sector * sectorSize + 2 * c.word + (x - ptr)) else b x,
        if c.word + n < 256 then { c with word := c.word + n } else c.start sectors)
  := by
  induction n generalizing c ptr b with
  | zero =>
      have hnone : ∀ x, ¬ (ptr ≤ x ∧ x < ptr + 2 * 0) := by omega
      unfold wordLoop
      simp only [hnone, if_false]
      rw [if_pos (by omega)]
      rfl
  | succ n ih =>
      rw [wordLoop_succ, inWord_cons hpending]
      dsimp only
      have hbytes : ∀ b' : Bytes, b' = b.write 2 ptr (Bytes.read 2 c.disk
            (sector * sectorSize + 2 * c.word)) → ∀ x,
          (if ptr + 2 ≤ x ∧ x < ptr + 2 + 2 * n then
            c.disk (sector * sectorSize + 2 * (c.word + 1) + (x - (ptr + 2))) else b' x)
          = if ptr ≤ x ∧ x < ptr + 2 * (n + 1) then
            c.disk (sector * sectorSize + 2 * c.word + (x - ptr)) else b x := by
        rintro b' rfl x
        rw [write_read]
        by_cases hlow : ptr ≤ x ∧ x < ptr + 2
        · rw [if_neg (by omega), if_pos hlow, if_pos (by omega)]
        · rw [if_neg hlow]
          by_cases hhigh : ptr + 2 ≤ x ∧ x < ptr + 2 + 2 * n
          · rw [if_pos hhigh, if_pos (by omega)]
            congr 1
            omega
          · rw [if_neg hhigh, if_neg (by omega)]
      by_cases hlast : c.word = 255
      · obtain rfl : n = 0 := by omega
        have hnone : ∀ x, ¬ (ptr + 2 ≤ x ∧ x < ptr + 2 + 2 * 0) := by omega
        have hstored := hbytes _ rfl
        simp only [hnone, if_false] at hstored
        rw [if_pos hlast, if_neg (by omega)]
        unfold wordLoop
        rw [funext hstored]
      · rw [if_neg hlast, ih (c := { c with word := c.word + 1 }) hpending (by dsimp only; omega)
          (by dsimp only; omega)]
        dsimp only
        rw [funext (hbytes _ rfl)]
        have hsum : c.word + 1 + n = c.word + (n + 1) := by omega
        rw [hsum]
        rfl

attribute [irreducible] wordLoop

/-! ### All sectors -/

theorem sectorLoop_succ (fuel n ptr : ℕ) (b : Bytes) (c : Controller) :
  sectorLoop fuel (n + 1) ptr b c
    = (pollLoop fuel c).bind (fun c => sectorLoop fuel n (ptr + sectorSize) (wordLoop 256 ptr b c).1
      (wordLoop 256 ptr b c).2)
  := rfl

/-- A pending sector is drained. -/
theorem sectorLoop_cons (hpending : c.pending = sector :: sectors) (hword : c.word = 0)
    (ptr : ℕ) (b : Bytes) :
  sectorLoop fuel (n + 1) ptr b c
    = if c.wait < fuel then
        sectorLoop fuel n (ptr + sectorSize)
          (fun x => if ptr ≤ x ∧ x < ptr + sectorSize then
            c.disk (sector * sectorSize + (x - ptr)) else b x)
          (c.start sectors)
      else none
  := by
  have hne : c.pending ≠ [] := by
    rw [hpending]
    exact List.cons_ne_nil _ _
  have hwords := @wordLoop_spec { c with wait := 0 } 256 sector sectors hpending
    (by dsimp only; omega) (by dsimp only; omega) ptr b
  dsimp only at hwords
  have hdouble : 2 * 256 = sectorSize := rfl
  rw [hword, if_neg (by omega), hdouble, Nat.mul_zero] at hwords
  simp only [Nat.add_zero] at hwords
  rw [sectorLoop_succ, pollLoop_cons hne]
  split
  · rw [Option.bind_some, hword, hwords]
    rfl
  · rfl

/-- The driver drains the sectors that are pending. -/
theorem sectorLoop_spec (hpending : c.pending = List.range' lba n) (hword : c.word = 0)
    (hwait : 0 < n → c.wait < fuel) (hlatency : ∀ s, lba ≤ s → s < lba + n → c.latency s < fuel)
    (ptr : ℕ) (b : Bytes) :
  ∃ c', sectorLoop fuel n ptr b c
      = some (fun x => if ptr ≤ x ∧ x < ptr + n * sectorSize then
          c.disk (lba * sectorSize + (x - ptr)) else b x, c')
    ∧ c'.pending = []
  := by
  induction n generalizing c lba ptr b with
  | zero =>
      refine ⟨c, ?_, hpending⟩
      have hnone : ∀ x, ¬ (ptr ≤ x ∧ x < ptr + 0 * sectorSize) := by omega
      unfold sectorLoop
      simp only [hnone, if_false]
  | succ n ih =>
      rw [List.range'_succ] at hpending
      have hsize := sectorSize_eq
      rw [sectorLoop_cons hpending hword, if_pos (hwait n.succ_pos)]
      have hnext : 0 < n → (c.start (List.range' (lba + 1) n)).wait < fuel := by
        intro hn
        obtain ⟨m, rfl⟩ := Nat.exists_eq_succ_of_ne_zero hn.ne'
        exact hlatency (lba + 1) (by omega) (by omega)
      obtain ⟨c', hrun, hnil⟩ := @ih (c.start (List.range' (lba + 1) n)) (lba + 1) rfl rfl hnext
        (fun s hlo hhi => hlatency s (by omega) (by omega)) (ptr + sectorSize)
        (fun x => if ptr ≤ x ∧ x < ptr + sectorSize then
          c.disk (lba * sectorSize + (x - ptr)) else b x)
      refine ⟨c', ?_, hnil⟩
      rw [hrun]
      congr 2
      funext x
      rw [Nat.add_one_mul n]
      by_cases hlow : ptr ≤ x ∧ x < ptr + sectorSize
      · rw [if_neg (by omega), if_pos hlow, if_pos (by omega)]
      · rw [if_neg hlow]
        by_cases hhigh : ptr + sectorSize ≤ x ∧ x < ptr + sectorSize + n * sectorSize
        · have hindex : (lba + 1) * sectorSize + (x - (ptr + sectorSize))
              = lba * sectorSize + (x - ptr) := by
            rw [Nat.add_one_mul]
            omega
          rw [if_pos hhigh, if_pos (by omega), hindex]
          rfl
        · rw [if_neg hhigh, if_neg (by omega)]

/-- The driver never ends when it waits for more sectors than are pending. -/
theorem sectorLoop_none (hpending : c.pending = sectors) (hn : sectors.length < n)
    (hword : c.word = 0) (ptr : ℕ) (b : Bytes) :
  sectorLoop fuel n ptr b c = none
  := by
  induction sectors generalizing c n ptr b with
  | nil =>
      obtain ⟨m, rfl⟩ := Nat.exists_eq_succ_of_ne_zero (Nat.ne_of_gt hn)
      rw [sectorLoop_succ, pollLoop_nil hpending, Option.bind_none]
  | cons sector sectors ih =>
      obtain ⟨m, rfl⟩ := Nat.exists_eq_succ_of_ne_zero (Nat.ne_of_gt (Nat.zero_lt_of_lt hn))
      rw [sectorLoop_cons hpending hword]
      split
      · exact ih rfl (Nat.lt_of_succ_lt_succ hn) rfl _ _
      · rfl

/-! ### The number of sectors -/

/-- The waits for the sectors have a bound. -/
theorem exists_latency (latency : ℕ → ℕ) (lba n : ℕ) :
  ∃ fuel, ∀ s, lba ≤ s → s < lba + n → latency s < fuel
  := by
  induction n with
  | zero => exact ⟨0, by omega⟩
  | succ n ih =>
      obtain ⟨fuel, h⟩ := ih
      use max fuel (latency (lba + n) + 1)
      intro s hlo hhi
      by_cases hlast : s = lba + n
      · rw [hlast]
        omega
      · have hlt := h s hlo (by omega)
        omega

/-- The call ends, the buffer holds the sectors, and no sector is left undelivered. -/
def Delivers (m : Memory) (c : Controller) (lba n buf : ℕ) : Prop :=
  ∃ fuel c', diskReadSectors fuel lba n buf m.bytes c
      = some ((LarvaOS.diskReadSectors c.disk lba n buf m).bytes, c') ∧ c'.pending = []

/-- The number that the controller has been told is the number that the driver drains. -/
theorem programmed_eq_iff (hn : n < 2 ^ 16) :
  (c.registers lba n).programmed = n ↔ 1 ≤ n ∧ n ≤ 256
  := by
  unfold Controller.programmed registers
  dsimp only
  split <;> omega

/-- A command that is programmed with the number of sectors delivers them. -/
theorem delivers_of_programmed (hlba : lba < 2 ^ 28) (hn : (c.registers lba n).programmed = n)
    (m : Memory) (buf : ℕ) :
  Delivers m c lba n buf
  := by
  obtain ⟨fuel, hfuel⟩ := exists_latency c.latency lba n
  have hwait : 0 < n → ((c.registers lba n).start (List.range' lba n)).wait < fuel := by
    intro hpos
    obtain ⟨k, rfl⟩ := Nat.exists_eq_succ_of_ne_zero hpos.ne'
    exact hfuel lba le_rfl (by omega)
  obtain ⟨c', hrun, hnil⟩ := @sectorLoop_spec ((c.registers lba n).start (List.range' lba n))
    lba n fuel rfl rfl hwait hfuel buf m.bytes
  refine ⟨fuel, c', ?_, hnil⟩
  unfold diskReadSectors
  rw [command_eq hlba, hn, hrun]
  unfold LarvaOS.diskReadSectors
  dsimp only
  rw [Nat.mod_eq_of_lt hlba]
  rfl

/-- Without sectors to drain, the controller is left with 256 sectors. -/
theorem not_delivers_zero (hlba : lba < 2 ^ 28) (m : Memory) (buf : ℕ) :
  ¬ Delivers m c lba 0 buf
  := by
  rintro ⟨fuel, c', hrun, hnil⟩
  unfold diskReadSectors sectorLoop at hrun
  obtain ⟨_, rfl⟩ := Prod.mk.inj (Option.some.inj hrun)
  rw [command_eq hlba] at hnil
  have hlength := congrArg List.length hnil
  unfold start registers programmed at hlength
  simp at hlength

/-- With more sectors to drain than the controller was told, the call never ends. -/
theorem not_delivers_of_lt (hlba : lba < 2 ^ 28) (hn : (c.registers lba n).programmed < n)
    (m : Memory) (buf : ℕ) :
  ¬ Delivers m c lba n buf
  := by
  rintro ⟨fuel, c', hrun, _⟩
  unfold diskReadSectors at hrun
  have hlength : (List.range' lba (c.registers lba n).programmed).length < n := by
    rwa [List.length_range']
  rw [command_eq hlba, sectorLoop_none rfl hlength rfl] at hrun
  contradiction

/-- The driver and the controller agree on the number of sectors, and the call delivers
them, if and only if there are 1 to 256 sectors. -/
theorem diskReadSectors_agrees (hlba : lba < 2 ^ 28) (hn : n < 2 ^ 16) (m : Memory)
    (c : Controller) (buf : ℕ) :
  ((c.registers lba n).programmed = n ↔ 1 ≤ n ∧ n ≤ 256)
    ∧ (Delivers m c lba n buf ↔ 1 ≤ n ∧ n ≤ 256)
  := by
  refine ⟨programmed_eq_iff hn, ?_, ?_⟩
  · intro h
    by_contra hcount
    obtain rfl | hlarge : n = 0 ∨ 256 < n := by omega
    · exact not_delivers_zero hlba m buf h
    · refine not_delivers_of_lt hlba ?_ m buf h
      unfold Controller.programmed registers
      dsimp only
      split <;> omega
  · intro h
    exact delivers_of_programmed hlba ((programmed_eq_iff hn).mpr h) m buf

/-- A controller with an empty disk that answers at once. -/
def idleController : Controller := ⟨fun _ => 0, fun _ => 0, 0, 0, 0, 0, 0, [], 0, 0⟩

/-- Two sectors are delivered. -/
theorem diskReadSectors_agrees_small :
  Delivers ⟨fun _ => 0, 0, 0, 0⟩ idleController 7 2 0x1000
  := (diskReadSectors_agrees (by decide) (by decide) ⟨fun _ => 0, 0, 0, 0⟩ idleController 0x1000).2.mpr
    ⟨by decide, by decide⟩

/-- A call for no sectors leaves 256 sectors undelivered, and a call for 257 sectors never
ends. -/
theorem diskReadSectors_disagrees :
  ¬ Delivers ⟨fun _ => 0, 0, 0, 0⟩ idleController 7 0 0x1000
    ∧ (idleController.registers 7 0).programmed = 256
    ∧ (idleController.registers 7 257).programmed = 1
    ∧ ∀ fuel, diskReadSectors fuel 7 257 0x1000 (fun _ => 0) idleController = none
  := by
  refine ⟨not_delivers_zero (by decide) _ _, rfl, rfl, ?_⟩
  intro fuel
  have hlength : (List.range' 7 (idleController.registers 7 257).programmed).length < 257 := by
    rw [List.length_range']
    decide
  unfold diskReadSectors
  rw [command_eq (by decide)]
  exact sectorLoop_none rfl hlength rfl _ _

end Controller

end LarvaOS
