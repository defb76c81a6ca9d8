import LarvaOS.Memory.Tree
import LarvaOS.Memory.Release
import Mathlib.Data.Finset.Union

/-!
# Mapping a range

`MapPages` on a range of pages that are not mapped, below any tree of tables.  The loop
maps one page in each step, and creates the tables that are missing on the way to it.
It stops at the end of the range, unless the last page of the address space follows the
range: then the comparison that ends the loop wraps around.
-/

namespace LarvaOS

variable {image : Image} {m m' : Memory} {map attr : ℕ} {xs : List ℕ}

/-- What the tables below a map say about an address: the entry of its page. -/
def lookup (m : Memory) (map v : ℕ) : Option ℕ :=
  entryAt m map (pml4Index v) (pdptIndex v) (pdIndex v)

/-- The number of the page of an address; addresses have 48 bits. -/
def pageNumber (v : ℕ) : ℕ := v / 2 ^ 21 % 2 ^ 27

/-- The places of the tables that lead to `n` pages. -/
def needed (v n : ℕ) : Finset Place :=
  (Finset.range n).biUnion (fun i => path (v + i * pageSize))

/-- The entry of a page. -/
def leafValue (phys attr : ℕ) : ℕ := phys ||| attr ||| tableEntryEntryAttribute

/-- From `m` to `m'` the `n` pages from `v` on were mapped, with the new tables `ys`. -/
structure Mapped (m m' : Memory) (map v n phys attr : ℕ) (ys : List ℕ) : Prop where
  inside : ∀ i, i < n → lookup m' map (v + i * pageSize)
    = some (leafValue (phys + i * pageSize) attr)
  outside : ∀ x, (∀ i, i < n → pageNumber x ≠ pageNumber (v + i * pageSize)) →
    lookup m' map x = lookup m map x
  tables : ∀ t, (∃ s, tableAt m' map s = some t) ↔ t ∈ ys ∨ ∃ s, tableAt m map s = some t

/-! ### Page numbers -/

/-- The indices of an address are the digits of its page number. -/
theorem index_eq_iff (v w : ℕ) :
  pml4Index v = pml4Index w ∧ pdptIndex v = pdptIndex w ∧ pdIndex v = pdIndex w
    ↔ pageNumber v = pageNumber w
  := by
  unfold pml4Index pdptIndex pdIndex pageNumber
  simp only [Fin.mk.injEq, and_mask, Nat.shiftRight_eq_div_pow]
  omega

/-- The page number determines the entry. -/
theorem lookup_congr (m : Memory) (map : ℕ) {v w : ℕ} (h : pageNumber v = pageNumber w) :
  lookup m map v = lookup m map w
  := by
  obtain ⟨ha, hb, hc⟩ := (index_eq_iff v w).mpr h
  rw [lookup, lookup, ha, hb, hc]

/-- The numbers of the pages of a range. -/
theorem pageNumber_add {v : ℕ} (hv : v % 2097152 = 0) {i j : ℕ} (hi : i < 2 ^ 27)
    (hj : j < 2 ^ 27) :
  pageNumber (v + i * pageSize) = pageNumber (v + j * pageSize) ↔ i = j
  := by
  unfold pageNumber
  rw [pageSize_eq]
  omega

/-! ### One page -/

theorem leafValue_lt {phys : ℕ} (hphys : phys < 2 ^ 64) (ha : IsAttribute attr) :
  leafValue phys attr < 2 ^ 64
  := by
  have hattr := ha.small
  apply Nat.or_lt_two_pow
  · apply Nat.or_lt_two_pow hphys
    omega
  · decide

theorem present_leafValue {phys : ℕ} (ha : IsAttribute attr) :
  Present (leafValue phys attr)
  := by
  have hodd := ha.odd
  rw [present_iff, leafValue]
  have hbit : (phys ||| attr ||| tableEntryEntryAttribute).testBit 0 = true := by
    rw [Nat.testBit_or, Nat.testBit_or, Nat.testBit_zero attr]
    simp [hodd]
  rw [Nat.testBit_zero] at hbit
  exact of_decide_eq_true hbit

/-- The step of the loop after the page directory was found. -/
theorem mapPagesLoop_found {vEnd k v phys d : ℕ} {m₁ : Memory}
    (hfind : findPageDirPointerTableEntry image map v true attr m = some (d, m₁)) (hd : d ≠ 0)
    (habsent : ¬ Present (m₁.entry d (pdIndex v))) :
  mapPagesLoop image map attr vEnd (k + 1) v phys m
    = if ((v + pageSize) % 2 ^ 64 + pageSize) % 2 ^ 64 ≤ vEnd then
        mapPagesLoop image map attr vEnd k ((v + pageSize) % 2 ^ 64) ((phys + pageSize) % 2 ^ 64)
          (m₁.setEntry d (pdIndex v) (leafValue phys attr))
      else
        some (true, m₁.setEntry d (pdIndex v) (leafValue phys attr))
  := by
  have hindex : (v >>> 21) &&& 0x1FF = (pdIndex v).val := rfl
  rw [mapPagesLoop, hfind]
  simp only [Option.bind_eq_bind, Option.bind_some]
  rw [if_neg hd, hindex, assert_of habsent, Option.bind_some, leafValue]

/-- The loop fails at a page that is mapped. -/
theorem mapPagesLoop_present {vEnd k v phys d : ℕ} {m₁ : Memory}
    (hfind : findPageDirPointerTableEntry image map v true attr m = some (d, m₁)) (hd : d ≠ 0)
    (hpresent : Present (m₁.entry d (pdIndex v))) :
  mapPagesLoop image map attr vEnd (k + 1) v phys m = none
  := by
  have hindex : (v >>> 21) &&& 0x1FF = (pdIndex v).val := rfl
  have hassert : assert (¬ Present (m₁.entry d (pdIndex v))) = none :=
    if_neg (not_not.mpr hpresent)
  rw [mapPagesLoop, hfind]
  simp only [Option.bind_eq_bind, Option.bind_some]
  rw [if_neg hd, hindex, hassert, Option.bind_none]

theorem lookup_eq {v d : ℕ} (hd : tableAt m map (.directory (pml4Index v) (pdptIndex v)) = some d) :
  lookup m map v
    = if Present (m.entry d (pdIndex v)) then some (m.entry d (pdIndex v)) else none
  := by
  rw [lookup, entryAt, hd, Option.bind_some]

/-- After the entry of a page was set. -/
theorem lookup_setEntry (h : Tree image m map xs) {v d phys : ℕ}
    (hd : tableAt m map (.directory (pml4Index v) (pdptIndex v)) = some d) (hphys : phys < 2 ^ 64)
    (ha : IsAttribute attr) (x : ℕ) :
  lookup (m.setEntry d (pdIndex v) (leafValue phys attr)) map x
    = if pageNumber x = pageNumber v then some (leafValue phys attr) else lookup m map x
  := by
  obtain ⟨_, _, hentries⟩ := h.setLeaf (c := pdIndex v) hd (leafValue_lt hphys ha)
    (present_leafValue ha)
  rw [lookup, hentries]
  exact if_congr (index_eq_iff x v) rfl rfl

/-- One step of the loop maps a page. -/
theorem mapPagesLoop_step (h : Tree image m map xs) (ha : IsAttribute attr) {v phys : ℕ}
    (hphys : phys < 2 ^ 64) (habsent : lookup m map v = none)
    (hlen : (missing m map (path v)).card ≤ xs.length) :
  ∃ m₁ ys zs, xs = ys ++ zs ∧ Tree image m₁ map zs ∧ Filled m m₁ map (path v) ys
    ∧ (∀ x, lookup m₁ map x
        = if pageNumber x = pageNumber v then some (leafValue phys attr) else lookup m map x)
    ∧ ∀ k vEnd, mapPagesLoop image map attr vEnd (k + 1) v phys m
        = if ((v + pageSize) % 2 ^ 64 + pageSize) % 2 ^ 64 ≤ vEnd then
            mapPagesLoop image map attr vEnd k ((v + pageSize) % 2 ^ 64)
              ((phys + pageSize) % 2 ^ 64) m₁
          else some (true, m₁)
  := by
  obtain ⟨d, m₁, ys, zs, hfind, hxs, htree, hentries, ⟨_, hlt⟩ | ⟨hd, hdirectory, hfilled⟩⟩ :=
    h.find ha v
  · omega
  · have hsame : ∀ x, lookup m₁ map x = lookup m map x := by
      intro x
      rw [lookup, hentries, lookup]
    have hpresent : ¬ Present (m₁.entry d (pdIndex v)) := by
      intro hpresent
      rw [← hsame, lookup_eq hdirectory, if_pos hpresent] at habsent
      cases habsent
    obtain ⟨htree', htable, _⟩ := htree.setLeaf (c := pdIndex v) hdirectory (leafValue_lt hphys ha)
      (present_leafValue ha)
    refine ⟨m₁.setEntry d (pdIndex v) (leafValue phys attr), ys, zs, hxs, htree',
      ⟨hfilled.length, ?_, ?_⟩, ?_, ?_⟩
    · rw [htable]
      exact hfilled.none
    · rw [htable]
      exact hfilled.some
    · intro x
      rw [lookup_setEntry htree hdirectory hphys ha, hsame]
    · intro k vEnd
      exact mapPagesLoop_found hfind hd hpresent

/-- Pages that are mapped stay mapped. -/
theorem mapPagesLoop_keeps {vEnd fuel v phys x e : ℕ} (h : Tree image m map xs)
    (ha : IsAttribute attr) (hphys : phys < 2 ^ 64)
    (hrun : mapPagesLoop image map attr vEnd fuel v phys m = some (true, m'))
    (hx : lookup m map x = some e) :
  lookup m' map x = some e
  := by
  induction fuel generalizing v phys m xs with
  | zero => cases hrun
  | succ fuel ih =>
      obtain ⟨d, m₁, ys, zs, hfind, _, htree, hentries, ⟨rfl, _⟩ | ⟨hd, hdirectory, _⟩⟩ := h.find ha v
      · rw [mapPagesLoop_zero (Nat.succ_pos fuel) hfind] at hrun
        cases (Prod.mk.inj (Option.some.inj hrun)).1
      · have hsame : lookup m₁ map x = some e := by
          rw [lookup, hentries]
          exact hx
        by_cases hpresent : Present (m₁.entry d (pdIndex v))
        · rw [mapPagesLoop_present hfind hd hpresent] at hrun
          cases hrun
        · rw [mapPagesLoop_found hfind hd hpresent] at hrun
          obtain ⟨htree', _⟩ := htree.setLeaf (c := pdIndex v) hdirectory (leafValue_lt hphys ha)
            (present_leafValue ha)
          have hx' : lookup (m₁.setEntry d (pdIndex v) (leafValue phys attr)) map x = some e := by
            rw [lookup_setEntry htree hdirectory hphys ha, if_neg]
            · exact hsame
            · intro heq
              rw [lookup_congr m₁ map heq, lookup_eq hdirectory, if_neg hpresent] at hsame
              cases hsame
          split at hrun
          · exact ih htree' (Nat.mod_lt _ (Nat.two_pow_pos 64)) hrun hx'
          · obtain ⟨_, rfl⟩ := Prod.mk.inj (Option.some.inj hrun)
            exact hx'

/-- When the loop succeeds, the page at which it starts was not mapped and is mapped. -/
theorem mapPagesLoop_succ_mapped {vEnd fuel v phys : ℕ} (h : Tree image m map xs)
    (ha : IsAttribute attr) (hphys : phys < 2 ^ 64)
    (hrun : mapPagesLoop image map attr vEnd (fuel + 1) v phys m = some (true, m')) :
  ∃ e, lookup m' map v = some e ∧ lookup m map v = none
  := by
  obtain ⟨d, m₁, ys, zs, hfind, _, htree, hentries, ⟨rfl, _⟩ | ⟨hd, hdirectory, _⟩⟩ := h.find ha v
  · rw [mapPagesLoop_zero (Nat.succ_pos fuel) hfind] at hrun
    cases (Prod.mk.inj (Option.some.inj hrun)).1
  · by_cases hpresent : Present (m₁.entry d (pdIndex v))
    · rw [mapPagesLoop_present hfind hd hpresent] at hrun
      cases hrun
    · have habsent : lookup m map v = none := by
        have hnone : lookup m₁ map v = none := by
          rw [lookup_eq hdirectory, if_neg hpresent]
        rw [lookup, hentries] at hnone
        exact hnone
      rw [mapPagesLoop_found hfind hd hpresent] at hrun
      obtain ⟨htree', _⟩ := htree.setLeaf (c := pdIndex v) hdirectory (leafValue_lt hphys ha)
        (present_leafValue ha)
      have hv : lookup (m₁.setEntry d (pdIndex v) (leafValue phys attr)) map v
          = some (leafValue phys attr) := by
        rw [lookup_setEntry htree hdirectory hphys ha, if_pos rfl]
      split at hrun
      · exact ⟨_, mapPagesLoop_keeps htree' ha (Nat.mod_lt _ (Nat.two_pow_pos 64)) hrun hv, habsent⟩
      · obtain ⟨_, rfl⟩ := Prod.mk.inj (Option.some.inj hrun)
        exact ⟨_, hv, habsent⟩

/-! ### The loop -/

theorem mem_needed {v n : ℕ} {s : Place} :
  s ∈ needed v n ↔ ∃ i, i < n ∧ s ∈ path (v + i * pageSize)
  := by
  simp [needed]

theorem add_succ_mul (v i : ℕ) :
  v + pageSize + i * pageSize = v + (i + 1) * pageSize
  := by
  rw [Nat.succ_mul]
  omega

/-- After the first page the tables for the other pages are missing, and those for the first
page are not. -/
theorem card_missing_add {v n : ℕ} {m₁ : Memory} {ys : List ℕ}
    (h : Filled m m₁ map (path v) ys) :
  (missing m₁ map (needed (v + pageSize) n)).card + ys.length
    ≤ (missing m map (needed v (n + 1))).card
  := by
  have hdisj : Disjoint (missing m₁ map (needed (v + pageSize) n)) (missing m map (path v)) := by
    rw [Finset.disjoint_left]
    intro s hs hs'
    have hnone := (h.none s).mp (Finset.mem_filter.mp hs).2
    exact hnone.2 (Finset.mem_filter.mp hs').1
  rw [h.length, ← Finset.card_union_of_disjoint hdisj]
  apply Finset.card_le_card
  intro s hs
  rcases Finset.mem_union.mp hs with hs | hs
  · obtain ⟨hmem, hnone⟩ := Finset.mem_filter.mp hs
    obtain ⟨i, hi, hpath⟩ := mem_needed.mp hmem
    apply Finset.mem_filter.mpr
    refine ⟨mem_needed.mpr ⟨i + 1, by omega, ?_⟩, ((h.none s).mp hnone).1⟩
    rwa [← add_succ_mul]
  · obtain ⟨hmem, hnone⟩ := Finset.mem_filter.mp hs
    apply Finset.mem_filter.mpr
    refine ⟨mem_needed.mpr ⟨0, by omega, ?_⟩, hnone⟩
    rwa [Nat.zero_mul, Nat.add_zero]

/-- The tables for the first page are among those that are needed. -/
theorem card_missing_path_le {v n : ℕ} :
  (missing m map (path v)).card ≤ (missing m map (needed v (n + 1))).card
  := by
  apply Finset.card_le_card
  intro s hs
  obtain ⟨hmem, hnone⟩ := Finset.mem_filter.mp hs
  apply Finset.mem_filter.mpr
  refine ⟨mem_needed.mpr ⟨0, by omega, ?_⟩, hnone⟩
  rwa [Nat.zero_mul, Nat.add_zero]

/-- No page is mapped. -/
theorem Mapped.nil (m : Memory) (map v phys attr : ℕ) :
  Mapped m m map v 0 phys attr []
  where
  inside := fun i hi => (Nat.not_lt_zero i hi).elim
  outside := fun _ _ => rfl
  tables := by simp

/-- The first page and the others are mapped. -/
theorem Mapped.cons {v n phys : ℕ} {m₁ : Memory} {ys zs : List ℕ} (hv : v % 2097152 = 0)
    (hn : n < 2 ^ 27) (hfilled : Filled m m₁ map (path v) ys)
    (hlookup : ∀ x, lookup m₁ map x
      = if pageNumber x = pageNumber v then some (leafValue phys attr) else lookup m map x)
    (h : Mapped m₁ m' map (v + pageSize) n (phys + pageSize) attr zs) :
  Mapped m m' map v (n + 1) phys attr (ys ++ zs)
  where
  inside := by
    intro i hi
    cases i with
    | zero =>
        rw [Nat.zero_mul, Nat.add_zero, Nat.add_zero, h.outside, hlookup, if_pos rfl]
        intro j hj heq
        rw [add_succ_mul] at heq
        have hindex := @pageNumber_add v hv 0 (j + 1) (by omega) (by omega)
        rw [Nat.zero_mul, Nat.add_zero] at hindex
        cases hindex.mp heq
    | succ i =>
        have hinside := h.inside i (Nat.lt_of_succ_lt_succ hi)
        rw [add_succ_mul, add_succ_mul] at hinside
        exact hinside
  outside := by
    intro x hx
    rw [h.outside, hlookup, if_neg]
    · have hzero := hx 0 (Nat.succ_pos n)
      rwa [Nat.zero_mul, Nat.add_zero] at hzero
    · intro i hi
      rw [add_succ_mul]
      exact hx (i + 1) (Nat.succ_lt_succ hi)
  tables := by
    intro t
    rw [h.tables, hfilled.some, List.mem_append, ← or_assoc, or_comm (a := t ∈ zs)]

/-- The loop maps `n` pages that are not mapped, and then goes on or stops. -/
theorem mapPagesLoop_run {n v phys : ℕ} (h : Tree image m map xs) (ha : IsAttribute attr)
    (hv : v % 2097152 = 0) (hn : n < 2 ^ 27) (hword : v + (n + 1) * pageSize < 2 ^ 64)
    (hphys : phys + (n + 1) * pageSize < 2 ^ 64)
    (habsent : ∀ i, i < n + 1 → lookup m map (v + i * pageSize) = none)
    (hlen : (missing m map (needed v (n + 1))).card ≤ xs.length) :
  ∃ m' ys zs, xs = ys ++ zs ∧ Tree image m' map zs ∧ Mapped m m' map v (n + 1) phys attr ys
    ∧ ∀ k vEnd, v + (n + 1) * pageSize ≤ vEnd →
        mapPagesLoop image map attr vEnd (n + 1 + k) v phys m
          = if (v + (n + 1) * pageSize + pageSize) % 2 ^ 64 ≤ vEnd then
              mapPagesLoop image map attr vEnd k (v + (n + 1) * pageSize)
                (phys + (n + 1) * pageSize) m'
            else some (true, m')
  := by
  induction n using Nat.strong_induction_on generalizing m v phys xs with
  | _ n ih =>
  have hnext : (v + pageSize) % 2 ^ 64 = v + pageSize := by
    rw [pageSize_eq] at *
    omega
  have hnext' : (phys + pageSize) % 2 ^ 64 = phys + pageSize := by
    rw [pageSize_eq] at *
    omega
  have hphys' : phys < 2 ^ 64 := by omega
  have hfirst := habsent 0 (Nat.succ_pos n)
  rw [Nat.zero_mul, Nat.add_zero] at hfirst
  obtain ⟨m₁, ys, zs, rfl, htree, hfilled, hlookup, hrun⟩ := mapPagesLoop_step h ha
    hphys' hfirst (card_missing_path_le.trans hlen)
  rw [hnext, hnext'] at hrun
  cases n with
  | zero =>
      have hmapped := Mapped.cons hv hn hfilled hlookup (Mapped.nil m₁ map (v + pageSize)
        (phys + pageSize) attr)
      rw [List.append_nil] at hmapped
      refine ⟨m₁, ys, zs, rfl, htree, hmapped, ?_⟩
      intro k vEnd _
      rw [Nat.zero_add, Nat.one_mul, Nat.add_comm 1 k]
      exact hrun k vEnd
  | succ n =>
      have hend : v + (n + 1 + 1) * pageSize = v + pageSize + (n + 1) * pageSize :=
        (add_succ_mul v (n + 1)).symm
      have hend' : phys + (n + 1 + 1) * pageSize = phys + pageSize + (n + 1) * pageSize :=
        (add_succ_mul phys (n + 1)).symm
      have hlen' := (card_missing_add (n := n + 1) hfilled).trans hlen
      rw [List.length_append] at hlen'
      have hv' : (v + pageSize) % 2097152 = 0 := by
        rw [pageSize_eq]
        omega
      have habsent' : ∀ i, i < n + 1 → lookup m₁ map (v + pageSize + i * pageSize) = none := by
        intro i hi
        rw [add_succ_mul, hlookup, if_neg]
        · exact habsent (i + 1) (Nat.succ_lt_succ hi)
        · have hindex := @pageNumber_add v hv (i + 1) 0 (by omega) (by omega)
          rw [Nat.zero_mul, Nat.add_zero] at hindex
          exact fun heq => Nat.succ_ne_zero i (hindex.mp heq)
      rw [hend] at hword
      rw [hend'] at hphys
      obtain ⟨m', ys', zs', rfl, htree', hmapped, hrun'⟩ := ih n (Nat.lt_succ_self n) htree hv'
        (by omega) hword hphys habsent' (by omega)
      refine ⟨m', ys ++ ys', zs', (List.append_assoc _ _ _).symm, htree',
        Mapped.cons hv hn hfilled hlookup hmapped, ?_⟩
      intro k vEnd hle
      rw [hend] at hle
      have hcond : (v + pageSize + pageSize) % 2 ^ 64 ≤ vEnd := by
        rw [pageSize_eq] at *
        omega
      have hfuel : n + 1 + 1 + k = n + 1 + k + 1 := by omega
      rw [hfuel, hrun, if_pos hcond, hrun' k vEnd hle, hend, hend']

/-! ### The range of a request -/

/-- A request to map a range: the range is not empty, rounding it to pages does not wrap
around, and no page of it is mapped; there are free pages for the missing tables. -/
structure Request (image : Image) (m : Memory) (map v last phys attr : ℕ) (xs : List ℕ) :
    Prop where
  tree : Tree image m map xs
  isAttribute : IsAttribute attr
  lt : v < last
  word : last + (pageSize - 1) < 2 ^ 64
  span : pageAlignUp last - pageAlignDown v ≤ 2 ^ 48
  absent : ∀ x, pageAlignDown v ≤ x → x < pageAlignUp last → lookup m map x = none
  aligned : addrIsAligned phys
  limit : phys + (pageAlignUp last - pageAlignDown v) ≤ virtualAddressEnd
  enough : (missing m map (needed (pageAlignDown v)
    ((pageAlignUp last - pageAlignDown v) / pageSize))).card ≤ xs.length

/-- The outcome of a request: every address of the range is mapped, every other page is as
before, and the new tables are the pages taken from the free list. -/
def Realises (image : Image) (m : Memory) (map v last phys attr : ℕ) (xs : List ℕ)
    (outcome : Option (Bool × Memory)) : Prop :=
  ∃ m' ys zs, outcome = some (true, m') ∧ xs = ys ++ zs ∧ Tree image m' map zs
    ∧ (∀ x, pageAlignDown v ≤ x → x < pageAlignUp last →
        lookup m' map x = some (leafValue (pageAlignDown (phys + (x - pageAlignDown v))) attr))
    ∧ (∀ x, (∀ y, pageAlignDown v ≤ y → y < pageAlignUp last → pageNumber y ≠ pageNumber x) →
        lookup m' map x = lookup m map x)
    ∧ ∀ t, (∃ s, tableAt m' map s = some t) ↔ t ∈ ys ∨ ∃ s, tableAt m map s = some t

namespace Request

variable {v last phys : ℕ}

/-- The range consists of whole pages. -/
theorem pages (h : Request image m map v last phys attr xs) :
  ∃ n, n < 2 ^ 27 ∧ pageAlignDown v % 2097152 = 0
    ∧ pageAlignUp last = pageAlignDown v + (n + 1) * pageSize ∧ pageAlignUp last < 2 ^ 64
    ∧ (pageAlignUp last - pageAlignDown v) / pageSize = n + 1
    ∧ phys + (n + 1) * pageSize ≤ virtualAddressEnd
  := by
  have hlt := h.lt
  have hword := h.word
  have hspan := h.span
  have hlimit := h.limit
  rw [pageAlignUp_eq, pageAlignDown_eq] at hspan hlimit ⊢
  rw [pageSize_eq] at hword ⊢
  refine ⟨(last + 2097151) % 2 ^ 64 / 2097152 - v / 2097152 - 1, ?_, ?_, ?_, ?_, ?_, ?_⟩
  · omega
  · omega
  · omega
  · omega
  · omega
  · omega

/-- The assertions of `MapPages` hold. -/
theorem mapPages_eq (h : Request image m map v last phys attr xs) :
  mapPages image map v last phys attr m
    = mapPagesLoop image map attr (pageAlignUp last) (2 ^ 43) (pageAlignDown v) phys m
  := by
  obtain ⟨n, _, _, hup, hlt, _, hlimit⟩ := h.pages
  have hrange : (phys + pageAlignUp last + (2 ^ 64 - pageAlignDown v)) % 2 ^ 64
      ≤ virtualAddressEnd := by
    rw [hup] at hlt ⊢
    rw [virtualAddressEnd_eq] at *
    omega
  unfold mapPages
  dsimp only
  rw [assert_of h.lt, assert_of h.aligned, assert_of hrange]
  rfl

/-- The loop maps the whole range, and then goes on or stops. -/
theorem run (h : Request image m map v last phys attr xs) :
  ∃ m' ys zs k next, xs = ys ++ zs ∧ Tree image m' map zs
    ∧ Mapped m m' map (pageAlignDown v)
        ((pageAlignUp last - pageAlignDown v) / pageSize) phys attr ys
    ∧ next < 2 ^ 64
    ∧ mapPages image map v last phys attr m
        = if (pageAlignUp last + pageSize) % 2 ^ 64 ≤ pageAlignUp last then
            mapPagesLoop image map attr (pageAlignUp last) (k + 1) (pageAlignUp last) next m'
          else some (true, m')
  := by
  obtain ⟨n, hn, haligned, hup, hlt, hcount, hlimit⟩ := h.pages
  have hword : pageAlignDown v + (n + 1) * pageSize < 2 ^ 64 := by
    rw [← hup]
    exact hlt
  have hphys : phys + (n + 1) * pageSize < 2 ^ 64 := by
    rw [virtualAddressEnd_eq] at hlimit
    omega
  have habsent : ∀ i, i < n + 1 → lookup m map (pageAlignDown v + i * pageSize) = none := by
    intro i hi
    apply h.absent
    · omega
    · rw [hup]
      exact Nat.add_lt_add_left (Nat.mul_lt_mul_of_pos_right hi (by rw [pageSize_eq]; omega)) _
  have hlen := h.enough
  rw [hcount] at hlen ⊢
  obtain ⟨m', ys, zs, hxs, htree, hmapped, hrun⟩ := mapPagesLoop_run h.tree h.isAttribute haligned
    hn hword hphys habsent hlen
  obtain ⟨k, hk⟩ := Nat.exists_eq_add_of_le (show n + 1 + 1 ≤ 2 ^ 43 by omega)
  rw [Nat.add_assoc (n + 1), Nat.add_comm 1 k] at hk
  refine ⟨m', ys, zs, k, phys + (n + 1) * pageSize, hxs, htree, hmapped, hphys, ?_⟩
  rw [h.mapPages_eq, hk, hrun (k + 1) (pageAlignUp last) hup.ge, ← hup]

/-- The addresses of the range are the addresses of its pages. -/
theorem inside (h : Request image m map v last phys attr xs) {x : ℕ}
    (hlo : pageAlignDown v ≤ x) (hhi : x < pageAlignUp last) :
  ∃ i, i < (pageAlignUp last - pageAlignDown v) / pageSize
    ∧ pageNumber x = pageNumber (pageAlignDown v + i * pageSize)
    ∧ phys + i * pageSize = pageAlignDown (phys + (x - pageAlignDown v))
  := by
  obtain ⟨n, _, haligned, hup, _, hcount, _⟩ := h.pages
  have hphys : phys % pageSize = 0 := h.aligned
  rw [hcount, pageAlignDown_eq (phys + _)]
  rw [hup] at hhi
  rw [pageSize_eq] at *
  refine ⟨(x - pageAlignDown v) / 2097152, ?_, ?_, ?_⟩
  · omega
  · unfold pageNumber
    omega
  · omega

/-- When the loop stops after the range, the request is realised. -/
theorem realises (h : Request image m map v last phys attr xs)
    (hlast : pageAlignUp last + pageSize < 2 ^ 64) :
  Realises image m map v last phys attr xs (mapPages image map v last phys attr m)
  := by
  obtain ⟨m', ys, zs, k, next, hxs, htree, hmapped, _, hrun⟩ := h.run
  obtain ⟨n, _, _, hup, _, hcount, _⟩ := h.pages
  have hstop : ¬ (pageAlignUp last + pageSize) % 2 ^ 64 ≤ pageAlignUp last := by
    rw [Nat.mod_eq_of_lt hlast, pageSize_eq]
    omega
  rw [if_neg hstop] at hrun
  refine ⟨m', ys, zs, hrun, hxs, htree, ?_, ?_, hmapped.tables⟩
  · intro x hlo hhi
    obtain ⟨i, hi, hpage, hphys⟩ := h.inside hlo hhi
    rw [lookup_congr m' map hpage, hmapped.inside i hi, hphys]
  · intro x hx
    apply hmapped.outside
    intro i hi heq
    rw [hcount] at hi
    apply hx (pageAlignDown v + i * pageSize) (by omega) _ heq.symm
    rw [hup]
    exact Nat.add_lt_add_left (Nat.mul_lt_mul_of_pos_right hi (by rw [pageSize_eq]; omega)) _

/-- When the last page of the address space follows the range, the loop does not stop, and
the request is not realised. -/
theorem not_realises (h : Request image m map v last phys attr xs)
    (hlast : pageAlignUp last + pageSize = 2 ^ 64) :
  ¬ Realises image m map v last phys attr xs (mapPages image map v last phys attr m)
  := by
  obtain ⟨m₁, ys, zs, k, next, _, htree, hmapped, hnext, hrun⟩ := h.run
  obtain ⟨n, _, _, hup, _, hcount, _⟩ := h.pages
  rw [hlast, Nat.mod_self, if_pos (Nat.zero_le _)] at hrun
  rw [hrun]
  rintro ⟨m', _, _, hsome, _, _, _, houtside, _⟩
  obtain ⟨e, he⟩ : ∃ e, lookup m' map (pageAlignUp last) = some e ∧ lookup m₁ map (pageAlignUp last) = none :=
    mapPagesLoop_succ_mapped htree h.isAttribute hnext hsome
  have hout : ∀ i, i < (pageAlignUp last - pageAlignDown v) / pageSize →
      pageNumber (pageAlignUp last) ≠ pageNumber (pageAlignDown v + i * pageSize) := by
    intro i hi heq
    have hinside := hmapped.inside i hi
    rw [← lookup_congr m₁ map heq, he.2] at hinside
    cases hinside
  have hsame : lookup m' map (pageAlignUp last) = lookup m map (pageAlignUp last) := by
    apply houtside
    intro y hlo hhi heq
    obtain ⟨i, hi, hpage, _⟩ := h.inside hlo hhi
    exact hout i hi (heq.symm.trans hpage)
  rw [he.1, ← hmapped.outside _ hout, he.2] at hsame
  cases hsame

end Request

/-! ### A page in an empty map -/

/-- An empty map is a tree without tables below it. -/
theorem Tree.of_empty (hfree : Free image m xs) (hmap : IsPage image map) (hmem : map ∉ xs)
    (htable : Table m map noEntries) :
  Tree image m map xs ∧ ∀ s, s ≠ .map → tableAt m map s = none
  := by
  have hnone : ∀ s, s ≠ .map → tableAt m map s = none := by
    have hlink : ∀ a : Index, link (m.entry map a) = none := by
      intro a
      rw [htable a a.isLt, noEntries, link_zero]
    intro s hs
    cases s with
    | map => exact absurd rfl hs
    | pointer a => exact hlink a
    | directory a b => rw [tableAt, hlink, Option.bind_none]
  have hself : ∀ s t, tableAt m map s = some t → s = .map ∧ t = map := by
    intro s t hs
    by_cases hmap : s = .map
    · rw [hmap] at hs
      exact ⟨hmap, (Option.some.inj hs).symm⟩
    · rw [hnone s hmap] at hs
      cases hs
  refine ⟨⟨hfree, ?_, ?_⟩, hnone⟩
  · intro s t hs
    rw [(hself s t hs).2]
    exact ⟨hmap.aligned, hmap.ne_zero, hmem⟩
  · intro s s' t hs hs'
    rw [(hself s t hs).1, (hself s' t hs').1]

/-- In an empty map every page may be mapped. -/
theorem exists_request {v : ℕ} (hv : v % 2097152 = 0) (hlast : v + pageSize + pageSize ≤ 2 ^ 64) :
  ∃ m map xs, Request smallImage m map v (v + pageSize) 0 kernelAttributes xs
  := by
  obtain ⟨m, hfree, _⟩ := @smallMemory 3 (by decide) (by decide)
  rw [regionPages_succ] at hfree
  obtain ⟨m₁, _, hfree₁, _, htable⟩ := kalloc_clear hfree
  obtain ⟨htree, hnone⟩ := Tree.of_empty hfree₁ (hfree.isPage _ List.mem_cons_self)
    (List.nodup_cons.mp hfree.nodup).1 htable
  have hdown : pageAlignDown v = v := by
    rw [pageAlignDown_eq]
    omega
  have hup : pageAlignUp (v + pageSize) = v + pageSize := by
    apply pageAlignUp_of_aligned
    · rw [pageSize_eq] at *
      omega
    · rw [pageSize_eq]
      omega
  have hsub : v + pageSize - v = pageSize := Nat.add_sub_cancel_left _ _
  refine ⟨_, _, _, htree, kernelAttributes_isAttribute, ?_, ?_, ?_, ?_, ?_, ?_, ?_⟩
  · rw [pageSize_eq]
    omega
  · rw [pageSize_eq] at *
    omega
  · rw [hdown, hup, hsub, pageSize_eq]
    omega
  · intro x _ _
    rw [lookup, entryAt, hnone _ Place.map_ne_directory.symm, Option.bind_none]
  · unfold addrIsAligned
    exact Nat.zero_mod _
  · rw [hdown, hup, hsub, pageSize_eq, virtualAddressEnd_eq]
    omega
  · rw [hdown, hup, hsub, Nat.div_self (by rw [pageSize_eq]; omega)]
    have hone : needed v 1 = path v := by
      unfold needed
      rw [Finset.range_one, Finset.singleton_biUnion, Nat.zero_mul, Nat.add_zero]
    rw [hone]
    apply (Finset.card_le_card (Finset.filter_subset _ _)).trans
    exact Finset.card_le_two

/-- `MapPages` realises a request if and only if the range does not end at the last page of the
address space. -/
theorem mapPages_realises_iff {v last phys : ℕ} (h : Request image m map v last phys attr xs) :
  Realises image m map v last phys attr xs (mapPages image map v last phys attr m)
    ↔ pageAlignUp last + pageSize < 2 ^ 64
  := by
  obtain ⟨n, _, haligned, hup, hlt, _⟩ := h.pages
  constructor
  · intro hrealises
    by_contra hlast
    apply h.not_realises _ hrealises
    rw [hup, pageSize_eq] at *
    omega
  · exact h.realises

/-- The last page but one of the address space: its request is not realised. -/
theorem mapPages_last :
  ∃ m map xs, Request smallImage m map (2 ^ 64 - 0x400000) (2 ^ 64 - 0x400000 + pageSize) 0
      kernelAttributes xs
    ∧ ¬ Realises smallImage m map (2 ^ 64 - 0x400000) (2 ^ 64 - 0x400000 + pageSize) 0
      kernelAttributes xs (mapPages smallImage map (2 ^ 64 - 0x400000)
        (2 ^ 64 - 0x400000 + pageSize) 0 kernelAttributes m)
  := by
  obtain ⟨m, map, xs, hrequest⟩ := @exists_request (2 ^ 64 - 0x400000) (by norm_num)
    (by rw [pageSize_eq]; norm_num)
  refine ⟨m, map, xs, hrequest, hrequest.not_realises ?_⟩
  rw [pageAlignUp_eq, pageSize_eq]
  norm_num

/-- The user page of an empty map. -/
theorem mapPages_realises_small :
  ∃ m map xs, Realises smallImage m map 0x400000 (0x400000 + pageSize) 0 kernelAttributes xs
    (mapPages smallImage map 0x400000 (0x400000 + pageSize) 0 kernelAttributes m)
  := by
  obtain ⟨m, map, xs, hrequest⟩ := @exists_request 0x400000 (by norm_num)
    (by rw [pageSize_eq]; norm_num)
  refine ⟨m, map, xs, (mapPages_realises_iff hrequest).mpr ?_⟩
  rw [pageAlignUp_eq, pageSize_eq]
  norm_num

end LarvaOS
