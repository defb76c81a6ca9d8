import LarvaOS.Boot.Loader

/-!
# The memory map of the BIOS

The loader asks the BIOS for one entry of the memory map after the other, until the BIOS says
that there are no more, and counts the entries.  When the loop ends, the kernel reads from
memory the entries that the BIOS has answered, in this order.
-/

namespace LarvaOS

variable {bios : Bios} {n ebx edi : ℕ} {b b' : Bytes} {answer : ℕ → UInt8}
  {answers : List (ℕ → UInt8)}

/-- The answers of the BIOS from a continuation on: there are no more when the continuation is
zero, or when the BIOS reports an error. -/
inductive Answers (bios : Bios) : ℕ → List (ℕ → UInt8) → Prop where
  | done : Answers bios 0 []
  | stopped {ebx : ℕ} (hebx : ebx ≠ 0) (h : bios.memoryMap ebx = none) : Answers bios ebx []
  | next {ebx next : ℕ} {answer : ℕ → UInt8} {answers : List (ℕ → UInt8)} (hebx : ebx ≠ 0)
      (h : bios.memoryMap ebx = some (next, answer)) (hrest : Answers bios next answers) :
      Answers bios ebx (answer :: answers)

/-- The memory map of the BIOS. -/
def MemoryMapIs (bios : Bios) (answers : List (ℕ → UInt8)) : Prop :=
  ∃ ebx answer rest, bios.memoryMap 0 = some (ebx, answer) ∧ Answers bios ebx rest
    ∧ answers = answer :: rest

/-! ### Stores -/

/-- An entry is the one of which the answer consists. -/
theorem E820.load_eq {a : ℕ} (h : ∀ j, j < sizeofE820 → b (a + j) = answer j) :
  E820.load b a = E820.load answer 0
  := by
  have hbytes : ∀ j, j < sizeofE820 → b (a + j) = answer (0 + j) := by
    intro j hj
    rw [h j hj, Nat.zero_add]
  have haddress : b.read 8 a = Bytes.read 8 answer 0 :=
    @Bytes.read_inside answer b 0 a 8 0 sizeofE820 hbytes (by decide)
  have hlength : b.read 8 (a + 8) = Bytes.read 8 answer (0 + 8) :=
    Bytes.read_inside hbytes (by decide)
  have htype : b.read 4 (a + 16) = Bytes.read 4 answer (0 + 16) :=
    Bytes.read_inside hbytes (by decide)
  unfold E820.load
  simp only [haddress, hlength, htype]

theorem count_incrementCount (h : b.read 4 memoryRegionCountBaseAddr + 1 < 2 ^ 32) :
  (incrementCount b).read 4 memoryRegionCountBaseAddr = b.read 4 memoryRegionCountBaseAddr + 1
  := by
  rw [incrementCount, Bytes.read_write_self]
  exact Nat.mod_eq_of_lt h

theorem incrementCount_of_outside {x : ℕ} (h : x < 0x9000 ∨ 0x9004 ≤ x) :
  incrementCount b x = b x
  := Bytes.write_of_outside h

/-- The count does not lie in the answers. -/
theorem count_storeAnswer (h : 0x9004 ≤ edi) (hlt : edi < 2 ^ 16) :
  (storeAnswer edi answer b).read 4 memoryRegionCountBaseAddr = b.read 4 memoryRegionCountBaseAddr
  := by
  apply Bytes.read_congr
  intro x _ hx
  rw [memoryRegionCountBaseAddr] at hx
  rw [storeAnswer, Nat.mod_eq_of_lt hlt]
  apply Bytes.put_of_outside
  omega

/-! ### The loop -/

/-- The memory after the loop: the count has grown, and the answers follow the entry at `edi`. -/
structure Collected (b b' : Bytes) (edi : ℕ) (answers : List (ℕ → UInt8)) : Prop where
  count : b'.read 4 memoryRegionCountBaseAddr
    = b.read 4 memoryRegionCountBaseAddr + (answers.length + 1)
  entry : ∀ i answer, answers[i]? = some answer → ∀ j, j < sizeofE820 →
    b' (edi + sizeofE820 * (i + 1) + j) = answer j
  outside : ∀ x, x < 0x9000 ∨ 0x9004 ≤ x →
    x < edi + sizeofE820 ∨ edi + sizeofE820 * (answers.length + 1) ≤ x → b' x = b x

/-- The last turn of the loop only counts. -/
theorem collected_nil (h : b.read 4 memoryRegionCountBaseAddr + 1 < 2 ^ 32) :
  Collected b (incrementCount b) edi []
  where
  count := count_incrementCount h
  entry _ _ hi := nomatch hi
  outside _ hx _ := incrementCount_of_outside hx

/-- The loop stores the answers of the BIOS. -/
theorem getMemoryInfo_spec (h : Answers bios ebx answers) (hn : answers.length < n)
    (hlo : memoryRegionStructuresBaseAddr ≤ edi)
    (hhi : edi + sizeofE820 * (answers.length + 1) ≤ 2 ^ 16)
    (hcount : b.read 4 memoryRegionCountBaseAddr + (answers.length + 1) < 2 ^ 32) :
  ∃ b', getMemoryInfo bios n ebx edi b = some b' ∧ Collected b b' edi answers
  := by
  obtain ⟨n, rfl⟩ : ∃ m, n = m + 1 := ⟨n - 1, by omega⟩
  induction h generalizing n edi b with
  | done => exact ⟨_, rfl, collected_nil hcount⟩
  | stopped hebx h =>
      refine ⟨_, ?_, collected_nil hcount⟩
      unfold getMemoryInfo
      dsimp only
      rw [if_neg hebx, h]
  | @next ebx next answer answers hebx h hrest ih =>
      rw [List.length_cons] at hn hhi hcount
      have hsize : sizeofE820 = 0x14 := rfl
      have hbase : memoryRegionStructuresBaseAddr = 0x9008 := rfl
      have hedi : edi + sizeofE820 < 2 ^ 16 := by
        rw [hsize] at hhi ⊢
        omega
      have hmod : (edi + sizeofE820) % 2 ^ 32 = edi + sizeofE820 := Nat.mod_eq_of_lt (by omega)
      have hstored : (storeAnswer (edi + sizeofE820) answer (incrementCount b)).read 4
          memoryRegionCountBaseAddr = b.read 4 memoryRegionCountBaseAddr + 1 := by
        rw [count_storeAnswer (by omega) hedi, count_incrementCount (by omega)]
      obtain ⟨m, rfl⟩ : ∃ m, n = m + 1 := ⟨n - 1, by omega⟩
      obtain ⟨b', hrun, hcollected⟩ : ∃ b', getMemoryInfo bios (m + 1) next (edi + sizeofE820)
          (storeAnswer (edi + sizeofE820) answer (incrementCount b)) = some b'
            ∧ Collected (storeAnswer (edi + sizeofE820) answer (incrementCount b)) b'
                (edi + sizeofE820) answers := by
        apply ih
        · omega
        · rw [hsize] at hhi ⊢
          omega
        · rw [hstored]
          omega
        · omega
      have hput : ∀ x, x < edi + sizeofE820 ∨ edi + sizeofE820 + sizeofE820 ≤ x →
          storeAnswer (edi + sizeofE820) answer (incrementCount b) x = incrementCount b x := by
        intro x hx
        rw [storeAnswer, Nat.mod_eq_of_lt hedi]
        exact Bytes.put_of_outside hx
      refine ⟨b', ?_, ?_, ?_, ?_⟩
      · unfold getMemoryInfo
        dsimp only
        rw [if_neg hebx, h, hmod]
        exact hrun
      · rw [hcollected.count, hstored, List.length_cons]
        omega
      · intro i answer' hi j hj
        rw [hsize] at hj hhi hedi ⊢
        cases i with
        | zero =>
            obtain rfl : answer = answer' := by simpa using hi
            rw [hcollected.outside _ (by omega) (by rw [hsize]; omega), storeAnswer, hsize,
              Nat.mod_eq_of_lt (by omega), Nat.zero_add, Nat.mul_one]
            exact Bytes.put_inside hj
        | succ i =>
            have hentry := hcollected.entry i answer' (by simpa using hi) j hj
            rw [hsize] at hentry
            rw [← hentry]
            apply congrArg b'
            omega
      · intro x hx hx'
        rw [List.length_cons, hsize] at hx'
        rw [hcollected.outside x hx (by rw [hsize]; omega), hput x (by rw [hsize]; omega),
          incrementCount_of_outside hx]

/-- The table of entries in memory is the memory map of the BIOS. -/
theorem memMapAt_eq (hcount : b.read 4 memoryRegionCountBaseAddr = answers.length)
    (hlength : answers.length < 2 ^ 31)
    (hentry : ∀ i answer, answers[i]? = some answer → ∀ j, j < sizeofE820 →
      b (memoryRegionStructuresBaseAddr + sizeofE820 * i + j) = answer j) :
  memMapAt b = answers.map (fun answer => E820.load answer 0)
  := by
  have hint : (int32 (b.read 4 memoryRegionCountBaseAddr)).toNat = answers.length := by
    rw [hcount, int32_of_range (by omega) (by omega), Int.toNat_natCast]
  unfold memMapAt
  rw [hint]
  apply List.ext_getElem
  · simp
  · intro i hi hi'
    rw [List.length_map] at hi'
    rw [List.getElem_map, List.getElem_map, List.getElem_range]
    exact E820.load_eq (hentry i _ (List.getElem?_eq_getElem hi'))

/-- The loader collects the memory map of the BIOS. -/
theorem getMemoryInfoStart_spec (h : MemoryMapIs bios answers) (hn : answers.length ≤ n)
    (hfits : memoryRegionStructuresBaseAddr + sizeofE820 * answers.length ≤ 2 ^ 16) :
  ∃ b', getMemoryInfoStart bios n b = some b'
    ∧ memMapAt b' = answers.map (fun answer => E820.load answer 0)
    ∧ ∀ x, x < 0x9000 ∨ 0x10000 ≤ x → b' x = b x
  := by
  obtain ⟨ebx, answer, rest, hfirst, hrest, rfl⟩ := h
  have hsize : sizeofE820 = 0x14 := rfl
  have hbase : memoryRegionStructuresBaseAddr = 0x9008 := rfl
  rw [List.length_cons, hsize, hbase] at hfits
  rw [List.length_cons] at hn
  generalize hb₁ : storeAnswer memoryRegionStructuresBaseAddr answer
    (b.write 4 memoryRegionCountBaseAddr 0) = b₁
  have hzero : b₁.read 4 memoryRegionCountBaseAddr = 0 := by
    rw [← hb₁, count_storeAnswer (by decide) (by decide), Bytes.read_write_self]
    rfl
  obtain ⟨b', hrun, hcollected⟩ : ∃ b', getMemoryInfo bios n ebx memoryRegionStructuresBaseAddr b₁
        = some b' ∧ Collected b₁ b' memoryRegionStructuresBaseAddr rest := by
    apply getMemoryInfo_spec hrest hn le_rfl
    · rw [hsize, hbase]
      omega
    · rw [hzero]
      omega
  refine ⟨b', ?_, ?_, ?_⟩
  · unfold getMemoryInfoStart
    rw [hfirst]
    dsimp only
    rw [hb₁]
    exact hrun
  · apply memMapAt_eq
    · rw [hcollected.count, hzero, List.length_cons, Nat.zero_add]
    · rw [List.length_cons]
      omega
    · intro i answer' hi j hj
      cases i with
      | zero =>
          obtain rfl : answer = answer' := by simpa using hi
          rw [hsize] at hj
          rw [hcollected.outside _ (by omega) (by omega), ← hb₁, Nat.mul_zero, Nat.add_zero]
          exact Bytes.put_inside hj
      | succ i => exact hcollected.entry i answer' (by simpa using hi) j hj
  · intro x hx
    have hlast : 0x9008 + 0x14 * (rest.length + 1) ≤ 0x10000 := hfits
    rw [hcollected.outside x (by omega) (by rw [hsize, hbase]; omega), ← hb₁]
    have hput : storeAnswer memoryRegionStructuresBaseAddr answer
        (b.write 4 memoryRegionCountBaseAddr 0) x = b.write 4 memoryRegionCountBaseAddr 0 x := by
      apply Bytes.put_of_outside
      rw [hsize, hbase]
      omega
    rw [hput]
    apply Bytes.write_of_outside
    rw [memoryRegionCountBaseAddr]
    omega

end LarvaOS
