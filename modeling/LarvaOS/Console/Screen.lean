import LarvaOS.Console.Numbers
import LarvaOS.Libc.Copying

/-!
# The screen as a terminal

`WriteVGA` of `kernel/printk.c` keeps 25 rows of 80 cells in the video memory, and moves them up by
one row when a byte arrives below the last row.  `Screen` is its state, with the indices of the
video memory at which it stored; the row is moved by an overlapping `memcpy`.  A `Terminal` has
rows without end, and the screen shows 25 of them, from the row `top` on.
-/

namespace LarvaOS

/-- `ROW_LENGTH`. -/
def rowLength : ℕ := 25

/-- `COLUMN_LENGTH`. -/
def columnLength : ℕ := 80

/-! ### The code -/

namespace Buffer

/-- `memcpy` inside of a buffer. -/
def memcpy : ℕ → Buffer → ℕ → ℕ → Buffer
  | 0, buffer, _, _ => buffer
  | n + 1, buffer, dest, src => memcpy n (buffer.store dest (buffer.bytes src)) (dest + 1) (src + 1)

/-- `memset` inside of a buffer. -/
def memset (buffer : Buffer) (ptr : ℕ) (c : UInt8) : ℕ → Buffer
  | 0 => buffer
  | n + 1 => (buffer.memset ptr c n).store (ptr + n) c

end Buffer

/-- `struct ScreenBuffer`, with the video memory as a buffer that records the stores. -/
structure Screen where
  buffer : Buffer
  column : ℕ
  row : ℕ

namespace Screen

/-- `ClrSrc`. -/
def clrSrc (s : Screen) : Screen where
  buffer := s.buffer.memset 0 0 (rowLength * columnLength * 2)
  column := 0
  row := 0

/-- The two calls that scroll the screen up by one line. -/
def scroll (buffer : Buffer) : Buffer :=
  (buffer.memcpy (lineSize * 24) 0 lineSize).memset (lineSize * 24) 0 lineSize

/-- The two stores of a cell. -/
def put (buffer : Buffer) (column row : ℕ) (c color : UInt8) : Buffer :=
  (buffer.store (column * 2 + row * lineSize) c).store (column * 2 + row * lineSize + 1) color

/-- The first branch of the loop of `WriteVGA`. -/
def makeRoom (s : Screen) : Screen :=
  if 25 ≤ s.row then ⟨scroll s.buffer, s.column, s.row - 1⟩ else s

/-- The body of the loop of `WriteVGA`. -/
def writeByte (s : Screen) (c : UInt8) : Screen :=
  let s := s.makeRoom
  if c = 0x0A then
    ⟨s.buffer, 0, s.row + 1⟩
  else if c = 0x08 then
    if s.column = 0 ∧ s.row = 0 then s
    else
      let row := if s.column = 0 then s.row - 1 else s.row
      let column := (if s.column = 0 then 80 else s.column) - 1
      ⟨put s.buffer column row 0 0, column, row⟩
  else
    let buffer := put s.buffer s.column s.row c defaultColor
    let column := s.column + 1
    if 80 ≤ column then ⟨buffer, 0, s.row + 1⟩ else ⟨buffer, column, s.row⟩

/-- `WriteVGA`. -/
def writeVGA (s : Screen) (bytes : List UInt8) : Screen := bytes.foldl writeByte s

end Screen

/-! ### The terminal -/

/-- A terminal without end: the first row that is shown, the place of the cursor, and the
characters of the cells with their colors. -/
structure Terminal where
  top : ℕ
  row : ℕ
  column : ℕ
  cells : ℕ → ℕ → UInt8 × UInt8

namespace Terminal

/-- A blank terminal. -/
def blank : Terminal where
  top := 0
  row := 0
  column := 0
  cells _ _ := (0, 0)

/-- Change the cell at the row `r` and the column `c`. -/
def setCell (t : Terminal) (r c : ℕ) (cell : UInt8 × UInt8) : ℕ → ℕ → UInt8 × UInt8 :=
  fun r' c' => if r' = r ∧ c' = c then cell else t.cells r' c'

/-- The rows that are shown move on by one when the cursor is below them. -/
def advance (t : Terminal) : Terminal :=
  if t.row = t.top + rowLength then { t with top := t.top + 1 } else t

/-- The cursor goes to the first column of the next row. -/
def newline (t : Terminal) : Terminal := { t with row := t.row + 1, column := 0 }

/-- The cursor goes back by one cell, which becomes blank, unless it is at the first cell that is
shown. -/
def backspace (t : Terminal) : Terminal :=
  if t.row = t.top ∧ t.column = 0 then t
  else if t.column = 0 then
    { t with row := t.row - 1, column := columnLength - 1,
             cells := t.setCell (t.row - 1) (columnLength - 1) (0, 0) }
  else
    { t with column := t.column - 1, cells := t.setCell t.row (t.column - 1) (0, 0) }

/-- A character is written with the default color, and the cursor goes to the next cell. -/
def putChar (t : Terminal) (c : UInt8) : Terminal :=
  let cells := t.setCell t.row t.column (c, defaultColor)
  if t.column + 1 = columnLength then { t with row := t.row + 1, column := 0, cells := cells }
  else { t with column := t.column + 1, cells := cells }

/-- A byte arrives. -/
def receive (t : Terminal) (c : UInt8) : Terminal :=
  if c = 0x0A then t.advance.newline
  else if c = 0x08 then t.advance.backspace
  else t.advance.putChar c

/-- The bytes arrive one after another. -/
def run (t : Terminal) (bytes : List UInt8) : Terminal := bytes.foldl receive t

end Terminal

/-- The screen shows the terminal: it stored inside of the video memory only, the cursor is at the
same place, and the video memory has the rows from `top` on. -/
structure Shows (t : Terminal) (s : Screen) : Prop where
  stores : ∀ i ∈ s.buffer.stores, i < rowLength * columnLength * 2
  columnLt : s.column < columnLength
  rowLe : s.row ≤ rowLength
  column : t.column = s.column
  row : t.row = t.top + s.row
  cells : ∀ r < rowLength, ∀ c < columnLength,
    t.cells (t.top + r) c
      = (s.buffer.bytes (c * 2 + r * lineSize), s.buffer.bytes (c * 2 + r * lineSize + 1))

/-- The rows below those that are shown are blank. -/
def BlankBelow (t : Terminal) : Prop := ∀ r, t.top + rowLength ≤ r → ∀ c, t.cells r c = (0, 0)

/-! ### The copy and the cleared row -/

namespace Buffer

theorem mem_store {buffer : Buffer} {i x : ℕ} {c : UInt8} :
  x ∈ (buffer.store i c).stores ↔ x ∈ buffer.stores ∨ x = i
  := by
  rw [store, List.mem_append, List.mem_singleton]

theorem memcpy_bytes (n : ℕ) (buffer : Buffer) (dest src : ℕ) :
  (buffer.memcpy n dest src).bytes = LarvaOS.memcpy n buffer.bytes dest src
  := by
  induction n generalizing buffer dest src with
  | zero => rw [LarvaOS.memcpy, memcpy]
  | succ n ih =>
      rw [memcpy, ih, LarvaOS.memcpy]
      rfl

theorem mem_memcpy {n : ℕ} {buffer : Buffer} {dest src x : ℕ} :
  x ∈ (buffer.memcpy n dest src).stores ↔ x ∈ buffer.stores ∨ dest ≤ x ∧ x < dest + n
  := by
  induction n generalizing buffer dest src with
  | zero =>
      rw [memcpy]
      exact (or_iff_left (by omega)).symm
  | succ n ih =>
      rw [memcpy, ih, mem_store, or_assoc]
      apply or_congr_right
      omega

theorem memset_bytes (buffer : Buffer) (ptr : ℕ) (c : UInt8) (n : ℕ) :
  (buffer.memset ptr c n).bytes = LarvaOS.memset buffer.bytes ptr c n
  := by
  induction n with
  | zero => rw [LarvaOS.memset, memset]
  | succ n ih =>
      rw [memset, store, ih, LarvaOS.memset]

theorem mem_memset {n : ℕ} {buffer : Buffer} {ptr x : ℕ} {c : UInt8} :
  x ∈ (buffer.memset ptr c n).stores ↔ x ∈ buffer.stores ∨ ptr ≤ x ∧ x < ptr + n
  := by
  induction n with
  | zero =>
      rw [memset]
      exact (or_iff_left (by omega)).symm
  | succ n ih =>
      rw [memset, mem_store, ih, or_assoc]
      apply or_congr_right
      omega

end Buffer

namespace Screen

variable {buffer : Buffer} {x : ℕ}

/-- The rows of the screen after it was scrolled are the next ones, the last row is blank, and the
memory behind the screen is unchanged. -/
theorem scroll_apply (buffer : Buffer) (x : ℕ) :
  (scroll buffer).bytes x
    = if x < lineSize * 24 then buffer.bytes (x + lineSize)
      else if x < lineSize * 25 then 0
      else buffer.bytes x
  := by
  unfold scroll lineSize
  rw [Buffer.memset_bytes]
  split
  · rename_i hlt
    have hcopy := (@memcpy_copied buffer.bytes 0 (80 * 2) (80 * 2 * 24)
      (Or.inr (Nat.zero_le _))).inside x hlt
    rw [Nat.zero_add] at hcopy
    rw [memset_of_outside (Or.inl hlt), Buffer.memcpy_bytes, hcopy, Nat.add_comm]
  split
  · exact memset_of_inside (by omega) (by omega)
  · rw [memset_of_outside (by omega), Buffer.memcpy_bytes, memcpy_of_outside (by omega)]

/-- The cells of the screen after it was scrolled. -/
theorem scroll_bytes (hx : x < rowLength * columnLength * 2) :
  (scroll buffer).bytes x = if x < lineSize * 24 then buffer.bytes (x + lineSize) else 0
  := by
  rw [scroll_apply]
  split
  · rfl
  · exact if_pos hx

theorem mem_scroll (hx : x ∈ (scroll buffer).stores) :
  x ∈ buffer.stores ∨ x < rowLength * columnLength * 2
  := by
  rw [scroll, Buffer.mem_memset, Buffer.mem_memcpy] at hx
  unfold lineSize at hx
  unfold rowLength columnLength
  rcases hx with (hbefore | hcopy) | hclear
  · exact Or.inl hbefore
  · right
    omega
  · right
    omega

theorem mem_put {column row : ℕ} {c color : UInt8} :
  x ∈ (put buffer column row c color).stores
    ↔ x ∈ buffer.stores ∨ x = column * 2 + row * lineSize ∨ x = column * 2 + row * lineSize + 1
  := by
  rw [put, Buffer.mem_store, Buffer.mem_store, or_assoc]

/-- A cell after the stores of a cell. -/
theorem put_cell {column row r k : ℕ} {c color : UInt8} (hcolumn : column < columnLength)
    (hk : k < columnLength) :
  ((put buffer column row c color).bytes (k * 2 + r * lineSize),
      (put buffer column row c color).bytes (k * 2 + r * lineSize + 1))
    = if r = row ∧ k = column then (c, color)
      else (buffer.bytes (k * 2 + r * lineSize), buffer.bytes (k * 2 + r * lineSize + 1))
  := by
  unfold columnLength at hcolumn hk
  unfold put Buffer.store lineSize
  dsimp only
  split
  · rename_i h
    obtain ⟨rfl, rfl⟩ := h
    rw [Function.update_self, Function.update_of_ne (by omega), Function.update_self]
  · rw [Function.update_of_ne (by omega), Function.update_of_ne (by omega),
      Function.update_of_ne (by omega), Function.update_of_ne (by omega)]

end Screen

/-! ### One byte -/

theorem columnLength_pos :
  0 < columnLength
  := by
  decide

variable {t : Terminal} {s : Screen}

/-- A cell that is stored to the screen and to the terminal. -/
theorem Shows.put (h : Shows t s) {row column : ℕ} {c color : UInt8} (hrow : row < rowLength)
    (hcolumn : column < columnLength) :
  (∀ i ∈ (Screen.put s.buffer column row c color).stores, i < rowLength * columnLength * 2)
    ∧ ∀ r < rowLength, ∀ k < columnLength,
      t.setCell (t.top + row) column (c, color) (t.top + r) k
        = ((Screen.put s.buffer column row c color).bytes (k * 2 + r * lineSize),
          (Screen.put s.buffer column row c color).bytes (k * 2 + r * lineSize + 1))
  := by
  constructor
  · intro i hi
    unfold rowLength at hrow
    unfold columnLength at hcolumn
    rcases Screen.mem_put.mp hi with hbefore | hfirst | hsecond
    · exact h.stores i hbefore
    · unfold lineSize at hfirst
      unfold rowLength columnLength
      omega
    · unfold lineSize at hsecond
      unfold rowLength columnLength
      omega
  · intro r hr k hk
    rw [Screen.put_cell hcolumn hk, Terminal.setCell, h.cells r hr k hk]
    simp only [Nat.add_left_cancel_iff]

/-- After the first branch of the loop the cursor is in a row of the screen. -/
theorem Shows.makeRoom (h : Shows t s) (hblank : BlankBelow t) :
  Shows t.advance s.makeRoom ∧ BlankBelow t.advance ∧ s.makeRoom.row < rowLength
  := by
  have hrow := h.row
  have hle := h.rowLe
  unfold Terminal.advance Screen.makeRoom
  by_cases hfull : 25 ≤ s.row
  · have hat : s.row = rowLength := le_antisymm hle hfull
    rw [if_pos hfull, if_pos (by rw [hrow, hat])]
    refine ⟨⟨?_, h.columnLt, ?_, h.column, ?_, ?_⟩, ?_, ?_⟩
    · intro i hi
      rcases Screen.mem_scroll hi with hbefore | hinside
      · exact h.stores i hbefore
      · exact hinside
    · dsimp only
      omega
    · dsimp only
      unfold rowLength at hat
      omega
    · intro r hr c hc
      dsimp only
      unfold rowLength at hr
      unfold columnLength at hc
      rw [Screen.scroll_bytes (by unfold rowLength columnLength lineSize; omega),
        Screen.scroll_bytes (by unfold rowLength columnLength lineSize; omega)]
      by_cases hlast : r = 24
      · rw [if_neg (by unfold lineSize; omega), if_neg (by unfold lineSize; omega)]
        apply hblank
        unfold rowLength
        omega
      · have hnext := h.cells (r + 1) (by unfold rowLength; omega) c hc
        have hoffset : c * 2 + r * lineSize + lineSize = c * 2 + (r + 1) * lineSize := by
          unfold lineSize
          omega
        have hoffset' : c * 2 + r * lineSize + 1 + lineSize = c * 2 + (r + 1) * lineSize + 1 := by
          unfold lineSize
          omega
        rw [if_pos (by unfold lineSize; omega), if_pos (by unfold lineSize; omega), hoffset,
          hoffset', ← hnext, Nat.add_assoc, Nat.add_comm 1]
    · intro r hr c
      apply hblank
      dsimp only at hr
      omega
    · dsimp only
      unfold rowLength at hat ⊢
      omega
  · have hlt : s.row < rowLength := Nat.lt_of_not_le hfull
    rw [if_neg hfull, if_neg (by rw [hrow]; omega)]
    exact ⟨h, hblank, hlt⟩

/-- The rows below those that are shown stay blank when a cell that is shown is set. -/
theorem BlankBelow.setCell (h : BlankBelow t) {row column : ℕ} {cell : UInt8 × UInt8}
    (hrow : row < t.top + rowLength) :
  ∀ r, t.top + rowLength ≤ r → ∀ c, t.setCell row column cell r c = (0, 0)
  := by
  intro r hr c
  rw [Terminal.setCell, if_neg (by omega)]
  exact h r hr c

theorem Shows.newline (h : Shows t s) (hrow : s.row < rowLength) :
  Shows t.newline ⟨s.buffer, 0, s.row + 1⟩
  := by
  refine ⟨h.stores, columnLength_pos, hrow, rfl, ?_, h.cells⟩
  change t.row + 1 = t.top + (s.row + 1)
  rw [h.row, Nat.add_assoc]

theorem Shows.backspace (h : Shows t s) (hblank : BlankBelow t) (hrow : s.row < rowLength)
    (hfirst : ¬ (s.column = 0 ∧ s.row = 0)) :
  Shows t.backspace
      ⟨Screen.put s.buffer ((if s.column = 0 then 80 else s.column) - 1)
        (if s.column = 0 then s.row - 1 else s.row) 0 0,
        (if s.column = 0 then 80 else s.column) - 1, if s.column = 0 then s.row - 1 else s.row⟩
    ∧ BlankBelow t.backspace
  := by
  have hcursor := h.row
  have hcolumn := h.column
  have hlt := h.columnLt
  unfold Terminal.backspace
  rw [if_neg (by omega)]
  by_cases hzero : s.column = 0
  · have habove : t.row - 1 = t.top + (s.row - 1) := by omega
    obtain ⟨hstores, hcells⟩ := @Shows.put t s h (s.row - 1) (80 - 1) 0 0 (by omega) (by decide)
    rw [if_pos (by omega), if_pos hzero, if_pos hzero, habove]
    refine ⟨⟨hstores, Nat.sub_lt columnLength_pos Nat.one_pos, ?_, rfl, rfl, hcells⟩, hblank.setCell (by omega)⟩
    dsimp only
    omega
  · obtain ⟨hstores, hcells⟩ := @Shows.put t s h s.row (s.column - 1) 0 0 hrow (by omega)
    rw [if_neg (by omega), if_neg hzero, if_neg hzero, hcursor, hcolumn]
    refine ⟨⟨hstores, ?_, hrow.le, rfl, rfl, hcells⟩, hblank.setCell (by omega)⟩
    dsimp only
    omega

theorem Shows.putChar (h : Shows t s) (hblank : BlankBelow t) (hrow : s.row < rowLength)
    (c : UInt8) :
  Shows (t.putChar c)
      (if 80 ≤ s.column + 1 then
        ⟨Screen.put s.buffer s.column s.row c defaultColor, 0, s.row + 1⟩
      else ⟨Screen.put s.buffer s.column s.row c defaultColor, s.column + 1, s.row⟩)
    ∧ BlankBelow (t.putChar c)
  := by
  have hcursor := h.row
  have hlt := h.columnLt
  obtain ⟨hstores, hcells⟩ := @Shows.put t s h s.row s.column c defaultColor hrow hlt
  unfold Terminal.putChar
  rw [hcursor, h.column]
  dsimp only
  unfold columnLength at hlt
  by_cases hend : 80 ≤ s.column + 1
  · rw [if_pos (by unfold columnLength; omega), if_pos hend]
    exact ⟨⟨hstores, columnLength_pos, hrow, rfl, rfl, hcells⟩, hblank.setCell (by omega)⟩
  · rw [if_neg (by unfold columnLength; omega), if_neg hend]
    refine ⟨⟨hstores, ?_, hrow.le, rfl, rfl, hcells⟩, hblank.setCell (by omega)⟩
    unfold columnLength
    dsimp only
    omega

/-- A byte that arrives has the same effect on the screen and on the terminal. -/
theorem Shows.writeByte (h : Shows t s) (hblank : BlankBelow t) (c : UInt8) :
  Shows (t.receive c) (s.writeByte c) ∧ BlankBelow (t.receive c)
  := by
  obtain ⟨hroom, hbelow, hrow⟩ := h.makeRoom hblank
  unfold Terminal.receive Screen.writeByte
  dsimp only
  by_cases hnewline : c = 0x0A
  · rw [if_pos hnewline, if_pos hnewline]
    exact ⟨hroom.newline hrow, hbelow⟩
  rw [if_neg hnewline, if_neg hnewline]
  by_cases hbackspace : c = 0x08
  · rw [if_pos hbackspace, if_pos hbackspace]
    by_cases hfirst : s.makeRoom.column = 0 ∧ s.makeRoom.row = 0
    · have hcursor := hroom.row
      have hcolumn := hroom.column
      rw [if_pos hfirst, Terminal.backspace, if_pos (by omega)]
      exact ⟨hroom, hbelow⟩
    · rw [if_neg hfirst]
      exact hroom.backspace hbelow hrow hfirst
  · rw [if_neg hbackspace, if_neg hbackspace]
    exact hroom.putChar hbelow hrow c

/-! ### All calls -/

theorem Shows.writeVGA (h : Shows t s) (hblank : BlankBelow t) (bytes : List UInt8) :
  Shows (t.run bytes) (s.writeVGA bytes) ∧ BlankBelow (t.run bytes)
  := by
  induction bytes generalizing t s with
  | nil => exact ⟨h, hblank⟩
  | cons c bytes ih =>
      obtain ⟨hstep, hbelow⟩ := h.writeByte hblank c
      exact ih hstep hbelow

/-- A cleared screen shows a blank terminal. -/
theorem shows_clrSrc (b : Bytes) (column row : ℕ) :
  Shows Terminal.blank (Screen.clrSrc ⟨⟨b, []⟩, column, row⟩)
  := by
  have hzero : ∀ x < rowLength * columnLength * 2,
      (Buffer.memset ⟨b, []⟩ 0 0 (rowLength * columnLength * 2)).bytes x = 0 := by
    intro x hx
    rw [Buffer.memset_bytes]
    exact memset_of_inside (Nat.zero_le x) (by omega)
  refine ⟨?_, columnLength_pos, Nat.zero_le _, rfl, rfl, ?_⟩
  · intro i hi
    rcases Buffer.mem_memset.mp hi with hnone | hinside
    · exact absurd hnone List.not_mem_nil
    · omega
  · intro r hr c hc
    unfold rowLength at hr
    unfold columnLength at hc
    have hcharacter := hzero (c * 2 + r * lineSize)
      (by unfold rowLength columnLength lineSize; omega)
    have hcolor := hzero (c * 2 + r * lineSize + 1)
      (by unfold rowLength columnLength lineSize; omega)
    unfold Screen.clrSrc
    dsimp only
    rw [hcharacter, hcolor]
    rfl

/-- From a cleared screen on, after any calls of `WriteVGA`, all stores went to the video memory,
the cursor is in one of the 80 columns and of the 25 rows or the one below them, and the video
memory has the rows from `top` on of the terminal at which the bytes of the calls arrived. -/
theorem shows_calls (b : Bytes) (column row : ℕ) (calls : List (List UInt8)) :
  Shows (Terminal.blank.run calls.flatten)
    (calls.foldl Screen.writeVGA (Screen.clrSrc ⟨⟨b, []⟩, column, row⟩))
  := by
  have hrun : ∀ (t : Terminal) (s : Screen), Shows t s → BlankBelow t →
      Shows (t.run calls.flatten) (calls.foldl Screen.writeVGA s) := by
    induction calls with
    | nil => exact fun t s h _ => h
    | cons bytes calls ih =>
        intro t s h hblank
        obtain ⟨hcall, hbelow⟩ := h.writeVGA hblank bytes
        have hrest := ih (t.run bytes) (s.writeVGA bytes) hcall hbelow
        rw [List.flatten_cons, Terminal.run, List.foldl_append]
        exact hrest
  exact hrun _ _ (shows_clrSrc b column row) (fun _ _ _ => rfl)

/-! ### The screen of `printk` -/

/-- The screen without the record of the stores. -/
def Screen.screenBuffer (s : Screen) : ScreenBuffer := ⟨s.buffer.bytes, s.column, s.row⟩

theorem scroll_screenBuffer (s : Screen) :
  s.screenBuffer.scroll = ⟨(Screen.scroll s.buffer).bytes, s.column, s.row - 1⟩
  := by
  unfold ScreenBuffer.scroll Screen.screenBuffer
  congr
  funext o
  exact (Screen.scroll_apply s.buffer o).symm

theorem makeRoom_screenBuffer (s : Screen) :
  s.makeRoom.screenBuffer
    = if 25 ≤ s.screenBuffer.row then s.screenBuffer.scroll else s.screenBuffer
  := by
  rw [scroll_screenBuffer]
  unfold Screen.makeRoom
  split
  · rename_i hfull
    exact (if_pos hfull).symm
  · rename_i hroom
    exact (if_neg hroom).symm

theorem writeByte_screenBuffer (s : Screen) (c : UInt8) :
  (s.writeByte c).screenBuffer = s.screenBuffer.writeByte c
  := by
  unfold Screen.writeByte ScreenBuffer.writeByte
  rw [← makeRoom_screenBuffer]
  dsimp only
  split
  · rfl
  split
  · split
    · rename_i hfirst
      exact (if_pos hfirst).symm
    · rename_i hfirst
      exact (if_neg hfirst).symm
  · split
    · rename_i hend
      exact (if_pos hend).symm
    · rename_i hend
      exact (if_neg hend).symm

/-- `WriteVGA` has the same effect with the record of the stores and without. -/
theorem writeVGA_screenBuffer (s : Screen) (bytes : List UInt8) :
  (s.writeVGA bytes).screenBuffer = s.screenBuffer.writeVGA bytes
  := by
  induction bytes generalizing s with
  | nil => rfl
  | cons c bytes ih =>
      have hstep := ih (s.writeByte c)
      rw [writeByte_screenBuffer] at hstep
      exact hstep

/-! ### Overlapping copies -/

/-- `memmove` keeps the source however the areas overlap, and so does `memcpy` when they are
disjoint or the destination is not above the source, as it is when the screen is scrolled. -/
theorem copies_keep_source (b : Bytes) (dest src n : ℕ) (buffer : Buffer) (x : ℕ) :
  AreaCopied b (memmove n b dest src) dest src n
    ∧ ((dest + n ≤ src ∨ src + n ≤ dest) ∨ dest ≤ src →
        AreaCopied b (memcpy n b dest src) dest src n)
    ∧ AreaCopied buffer.bytes (buffer.memcpy (lineSize * 24) 0 lineSize).bytes 0 lineSize
        (lineSize * 24)
    ∧ (Screen.scroll buffer).bytes x
      = if x < lineSize * 24 then buffer.bytes (x + lineSize)
        else if x < lineSize * 25 then 0
        else buffer.bytes x
  := by
  constructor
  · exact memmove_copied b dest src n
  constructor
  · exact memcpy_copied
  constructor
  · rw [Buffer.memcpy_bytes]
    exact memcpy_copied (Or.inr (Nat.zero_le _))
  · exact Screen.scroll_apply buffer x

/-- Three bytes that are moved by one, down by `memcpy` and up by `memmove`. -/
theorem copies_keep_source_three :
  AreaCopied UInt8.ofNat (memcpy 3 UInt8.ofNat 0 1) 0 1 3
    ∧ memmove 3 UInt8.ofNat 1 0 (1 + 2) = UInt8.ofNat (0 + 2)
  := by
  constructor
  · exact (copies_keep_source UInt8.ofNat 0 1 3 ⟨UInt8.ofNat, []⟩ 0).2.1 (Or.inr (by decide))
  · exact (copies_keep_source UInt8.ofNat 1 0 3 ⟨UInt8.ofNat, []⟩ 0).1.inside 2 (by decide)

end LarvaOS
