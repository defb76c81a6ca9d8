import LarvaOS.Memory.Mapping
import Mathlib.Data.Finset.Card

/-!
# Trees of tables

The tables of a page map at their places: the map itself, the page directory pointer
tables, and the page directories.  In a `Tree` the tables at different places are
different pages, and none of them is free.  A page directory is found, or created from
free pages, without a change to what the other entries say.
-/

namespace LarvaOS

/-- The indices of the entries of a table. -/
abbrev Index : Type := Fin totalTableEntries

/-- The places of tables below a map. -/
inductive Place where
  | map
  | pointer (a : Index)
  | directory (a b : Index)
  deriving DecidableEq

/-- The table at a place. -/
def tableAt (m : Memory) (map : ℕ) : Place → Option ℕ
  | .map => some map
  | .pointer a => link (m.entry map a)
  | .directory a b => (link (m.entry map a)).bind (fun t => link (m.entry t b))

/-- The entry of a page of 2 MB, when it is present. -/
def entryAt (m : Memory) (map : ℕ) (a b c : Index) : Option ℕ :=
  (tableAt m map (.directory a b)).bind
    (fun d => if Present (m.entry d c) then some (m.entry d c) else none)

/-- The tables below the map are distinct pages, and the free pages `xs` are others. -/
structure Tree (image : Image) (m : Memory) (map : ℕ) (xs : List ℕ) : Prop where
  free : Free image m xs
  page : ∀ s t, tableAt m map s = some t → addrIsAligned t ∧ t ≠ 0 ∧ t ∉ xs
  injective : ∀ s s' t, tableAt m map s = some t → tableAt m map s' = some t → s = s'

/-- The places without a table, among some places. -/
def missing (m : Memory) (map : ℕ) (S : Finset Place) : Finset Place :=
  S.filter (fun s => tableAt m map s = none)

variable {image : Image} {m m' : Memory} {map p attr : ℕ} {xs : List ℕ} {a b c : Index}

namespace Place

variable {a' b' : Index}

theorem map_ne_pointer : Place.map ≠ .pointer a := nofun

theorem map_ne_directory : Place.map ≠ .directory a b := nofun

theorem directory_ne_pointer : Place.directory a b ≠ .pointer a' := nofun

theorem pointer_ne (h : a' ≠ a) :
  Place.pointer a' ≠ .pointer a
  := by
  rintro ⟨⟩
  exact h rfl

theorem directory_ne (h : a' = a → b' ≠ b) :
  Place.directory a' b' ≠ .directory a b
  := by
  rintro ⟨⟩
  exact h rfl rfl

end Place

namespace Tree

/-- Tables at different places differ. -/
theorem ne (h : Tree image m map xs) {s s' : Place} {t t' : ℕ} (hs : tableAt m map s = some t)
    (hs' : tableAt m map s' = some t') (hne : s ≠ s') :
  t ≠ t'
  := by
  rintro rfl
  exact hne (h.injective s s' t hs hs')

/-- A new table at a free place. -/
theorem extend (h : Tree image m map (p :: xs)) (hfree : Free image m' xs) {s : Place}
    (htable : tableAt m' map = Function.update (tableAt m map) s (some p)) :
  Tree image m' map xs
  where
  free := hfree
  page := by
    intro s' t hs'
    rw [htable] at hs'
    by_cases hne : s' = s
    · rw [hne, Function.update_self] at hs'
      obtain rfl := Option.some.inj hs'
      have hp := h.free.isPage p List.mem_cons_self
      exact ⟨hp.aligned, hp.ne_zero, (List.nodup_cons.mp h.free.nodup).1⟩
    · rw [Function.update_of_ne hne] at hs'
      obtain ⟨haligned, hzero, hmem⟩ := h.page s' t hs'
      exact ⟨haligned, hzero, fun ht => hmem (List.mem_cons_of_mem p ht)⟩
  injective := by
    have hout : ∀ s' t, s' ≠ s → tableAt m' map s' = some t → tableAt m map s' = some t ∧ t ≠ p := by
      intro s' t hne hs'
      rw [htable, Function.update_of_ne hne] at hs'
      use hs'
      rintro rfl
      exact (h.page s' t hs').2.2 List.mem_cons_self
    have hself : tableAt m' map s = some p := by
      rw [htable, Function.update_self]
    intro s₁ s₂ t h₁ h₂
    by_cases hs₁ : s₁ = s
    · by_cases hs₂ : s₂ = s
      · exact hs₁.trans hs₂.symm
      · rw [hs₁, hself] at h₁
        exact ((hout s₂ t hs₂ h₂).2 (Option.some.inj h₁).symm).elim
    · by_cases hs₂ : s₂ = s
      · rw [hs₂, hself] at h₂
        exact ((hout s₁ t hs₁ h₁).2 (Option.some.inj h₂).symm).elim
      · exact h.injective s₁ s₂ t (hout s₁ t hs₁ h₁).1 (hout s₂ t hs₂ h₂).1

/-- A table that is not among the changed pages keeps its entries. -/
theorem entry (h : Tree image m map xs) {ps : List ℕ} (hc : Changes ps m m')
    (hps : ∀ q ∈ ps, addrIsAligned q) {s : Place} {t : ℕ} (hs : tableAt m map s = some t)
    (hmem : t ∉ ps) (i : Index) :
  m'.entry t i = m.entry t i
  := hc.entry hps (h.page s t hs).1 hmem i.isLt

/-- A new page directory pointer table. -/
theorem link_pointer (h : Tree image m map (p :: xs)) (ha : IsAttribute attr)
    (hnone : tableAt m map (.pointer a) = none) (hc : Changes [map, p] m m')
    (hp : Table m' p (fun _ => 0))
    (hmap : Table m' map (Function.update (m.entry map) a (virToPhy p ||| attr))) :
  tableAt m' map = Function.update (tableAt m map) (.pointer a) (some p)
    ∧ entryAt m' map = entryAt m map
  := by
  have hpage := h.free.isPage p List.mem_cons_self
  have hps : ∀ q ∈ [map, p], addrIsAligned q := by
    intro q hq
    rcases List.mem_pair.mp hq with rfl | rfl
    · exact (h.page .map q rfl).1
    · exact hpage.aligned
  have hkeep : ∀ s t, s ≠ .map → tableAt m map s = some t → t ∉ [map, p] := by
    intro s t hne hs hmem
    rcases List.mem_pair.mp hmem with rfl | rfl
    · have hroot : tableAt m t .map = some t := rfl
      exact h.ne hs hroot hne rfl
    · exact (h.page s t hs).2.2 List.mem_cons_self
  have htable : tableAt m' map = Function.update (tableAt m map) (.pointer a) (some p) := by
    funext s
    cases s with
    | map =>
        rw [Function.update_of_ne Place.map_ne_pointer]
        rfl
    | pointer a' =>
        by_cases heq : a' = a
        · rw [heq, Function.update_self, tableAt, hmap a a.isLt, Function.update_self,
            link_entry hpage ha]
        · rw [Function.update_of_ne (Place.pointer_ne heq), tableAt, tableAt, hmap a' a'.isLt,
            Function.update_of_ne (Fin.val_ne_of_ne heq)]
    | directory a' b' =>
        rw [Function.update_of_ne Place.directory_ne_pointer, tableAt, tableAt, hmap a' a'.isLt]
        by_cases heq : a' = a
        · have hzero : link (m'.entry p b') = none := by
            rw [hp b' b'.isLt, link_zero]
          rw [heq, Function.update_self, link_entry hpage ha, Option.bind_some, hzero,
            show link (m.entry map a) = none from hnone, Option.bind_none]
        · rw [Function.update_of_ne (Fin.val_ne_of_ne heq)]
          cases ht : link (m.entry map a') with
          | none => rw [Option.bind_none, Option.bind_none]
          | some t =>
              rw [Option.bind_some, Option.bind_some,
                h.entry hc hps (s := .pointer a') ht (hkeep (.pointer a') t nofun ht)]
  use htable
  funext a' b' c'
  unfold entryAt
  rw [htable, Function.update_of_ne Place.directory_ne_pointer]
  cases hd : tableAt m map (.directory a' b') with
  | none => rw [Option.bind_none, Option.bind_none]
  | some d =>
      rw [Option.bind_some, Option.bind_some,
        h.entry hc hps hd (hkeep (.directory a' b') d Place.map_ne_directory.symm hd)]

/-- A new page directory. -/
theorem link_directory (h : Tree image m map (p :: xs)) (ha : IsAttribute attr) {t : ℕ}
    (ht : tableAt m map (.pointer a) = some t) (hnone : tableAt m map (.directory a b) = none)
    (hc : Changes [t, p] m m') (hp : Table m' p (fun _ => 0))
    (htable : Table m' t (Function.update (m.entry t) b (virToPhy p ||| attr))) :
  tableAt m' map = Function.update (tableAt m map) (.directory a b) (some p)
    ∧ entryAt m' map = entryAt m map
  := by
  have hpage := h.free.isPage p List.mem_cons_self
  have hps : ∀ q ∈ [t, p], addrIsAligned q := by
    intro q hq
    rcases List.mem_pair.mp hq with rfl | rfl
    · exact (h.page _ q ht).1
    · exact hpage.aligned
  have hkeep : ∀ s t', s ≠ .pointer a → tableAt m map s = some t' → t' ∉ [t, p] := by
    intro s t' hne hs hmem
    rcases List.mem_pair.mp hmem with rfl | rfl
    · exact h.ne hs ht hne rfl
    · exact (h.page s t' hs).2.2 List.mem_cons_self
  have hmap : ∀ a' : Index, m'.entry map a' = m.entry map a' :=
    fun a' => h.entry hc hps (s := .map) rfl (hkeep .map map nofun rfl) a'
  have hall : tableAt m' map = Function.update (tableAt m map) (.directory a b) (some p) := by
    funext s
    cases s with
    | map =>
        rw [Function.update_of_ne Place.map_ne_directory]
        rfl
    | pointer a' => rw [Function.update_of_ne Place.directory_ne_pointer.symm, tableAt, tableAt, hmap]
    | directory a' b' =>
        rw [tableAt, hmap]
        by_cases hne : a' = a
        · have ht' : link (m.entry map a) = some t := ht
          rw [hne, ht', Option.bind_some, htable b' b'.isLt]
          by_cases heq : b' = b
          · rw [heq, Function.update_self, Function.update_self, link_entry hpage ha]
          · rw [Function.update_of_ne (Place.directory_ne (fun _ => heq)), Function.update_of_ne (Fin.val_ne_of_ne heq),
              tableAt, ht', Option.bind_some]
        · rw [Function.update_of_ne (Place.directory_ne (fun h => (hne h).elim)), tableAt]
          cases ht' : link (m.entry map a') with
          | none => rw [Option.bind_none, Option.bind_none]
          | some t' =>
              rw [Option.bind_some, Option.bind_some, h.entry hc hps (s := .pointer a') ht'
                (hkeep (.pointer a') t' (Place.pointer_ne hne) ht')]
  use hall
  funext a' b' c'
  unfold entryAt
  rw [hall]
  by_cases hplace : Place.directory a' b' = .directory a b
  · rw [hplace, Function.update_self, hnone, Option.bind_some, Option.bind_none, hp c' c'.isLt,
      if_neg not_present_zero]
  · rw [Function.update_of_ne hplace]
    cases hd : tableAt m map (.directory a' b') with
    | none => rw [Option.bind_none, Option.bind_none]
    | some d =>
        rw [Option.bind_some, Option.bind_some,
          h.entry hc hps hd (hkeep (.directory a' b') d Place.directory_ne_pointer hd)]

/-- A new entry in a page directory. -/
theorem setLeaf (h : Tree image m map xs) {d e : ℕ} (hd : tableAt m map (.directory a b) = some d)
    (he : e < 2 ^ 64) (hpresent : Present e) :
  Tree image (m.setEntry d c e) map xs ∧ tableAt (m.setEntry d c e) map = tableAt m map
    ∧ (∀ a' b' c', entryAt (m.setEntry d c e) map a' b' c'
        = if a' = a ∧ b' = b ∧ c' = c then some e else entryAt m map a' b' c')
  := by
  have hc := Memory.changes_setEntry m d c.isLt e
  have hps : ∀ q ∈ [d], addrIsAligned q := by
    simpa using (h.page _ d hd).1
  have hkeep : ∀ s t, s ≠ .directory a b → tableAt m map s = some t → t ∉ [d] := by
    intro s t hne hs hmem
    exact h.ne hs hd hne (List.mem_singleton.mp hmem)
  have hmap : ∀ a' : Index, (m.setEntry d c e).entry map a' = m.entry map a' :=
    fun a' => h.entry hc hps (s := .map) rfl (hkeep .map map Place.map_ne_directory rfl) a'
  have htable : tableAt (m.setEntry d c e) map = tableAt m map := by
    funext s
    cases s with
    | map => rfl
    | pointer a' => rw [tableAt, tableAt, hmap]
    | directory a' b' =>
        rw [tableAt, tableAt, hmap]
        cases ht : link (m.entry map a') with
        | none => rw [Option.bind_none, Option.bind_none]
        | some t =>
            rw [Option.bind_some, Option.bind_some, h.entry hc hps (s := .pointer a') ht
              (hkeep (.pointer a') t Place.directory_ne_pointer.symm ht)]
  refine ⟨⟨?_, ?_, ?_⟩, htable, ?_⟩
  · apply h.free.changes hc rfl hps
    intro q hq
    rw [List.mem_singleton.mp hq]
    exact (h.page _ d hd).2.2
  · rw [htable]
    exact h.page
  · rw [htable]
    exact h.injective
  · intro a' b' c'
    unfold entryAt
    rw [htable]
    by_cases hplace : Place.directory a' b' = .directory a b
    · obtain ⟨rfl, rfl⟩ := Place.directory.inj hplace
      rw [hd, Option.bind_some, Option.bind_some]
      by_cases heq : c' = c
      · rw [heq, Memory.entry_setEntry_self m d c he, if_pos hpresent, if_pos ⟨rfl, rfl, rfl⟩]
      · have hne : ¬ (a' = a' ∧ b' = b' ∧ c' = c) := fun hall => heq hall.2.2
        rw [Memory.entry_setEntry_of_ne (Fin.val_ne_of_ne heq), if_neg hne]
    · have hne : ¬ (a' = a ∧ b' = b ∧ c' = c) := by
        rintro ⟨rfl, rfl, _⟩
        exact hplace rfl
      rw [if_neg hne]
      cases hd' : tableAt m map (.directory a' b') with
      | none => rw [Option.bind_none, Option.bind_none]
      | some d' =>
          rw [Option.bind_some, Option.bind_some,
            h.entry hc hps hd' (hkeep (.directory a' b') d' hplace hd')]

end Tree

/-! ### Finding a page directory -/

/-- The index of the page map level 4 table. -/
def pml4Index (v : ℕ) : Index := ⟨(v >>> 39) &&& 0x1FF, by rw [and_mask]; exact Nat.mod_lt _ (by decide)⟩

/-- The index of the page directory pointer table. -/
def pdptIndex (v : ℕ) : Index := ⟨(v >>> 30) &&& 0x1FF, by rw [and_mask]; exact Nat.mod_lt _ (by decide)⟩

/-- The index of the page directory. -/
def pdIndex (v : ℕ) : Index := ⟨(v >>> 21) &&& 0x1FF, by rw [and_mask]; exact Nat.mod_lt _ (by decide)⟩

/-- The places of the tables that lead to the page of an address. -/
def path (v : ℕ) : Finset Place :=
  {.pointer (pml4Index v), .directory (pml4Index v) (pdptIndex v)}

/-- From `m` to `m'` the tables at the places `S` were filled with the pages `ys`, and the
entries of pages did not change. -/
structure Filled (m m' : Memory) (map : ℕ) (S : Finset Place) (ys : List ℕ) : Prop where
  length : ys.length = (missing m map S).card
  none : ∀ s, tableAt m' map s = none ↔ tableAt m map s = none ∧ s ∉ S
  some : ∀ t, (∃ s, tableAt m' map s = some t) ↔ t ∈ ys ∨ ∃ s, tableAt m map s = some t

/-- The tables after a place without a table got one. -/
theorem exists_update {f : Place → Option ℕ} {s : Place} (hs : f s = none) (t : ℕ) :
  (∃ s', Function.update f s (some p) s' = some t) ↔ t = p ∨ ∃ s', f s' = some t
  := by
  constructor
  · rintro ⟨s', hs'⟩
    by_cases hne : s' = s
    · rw [hne, Function.update_self] at hs'
      exact Or.inl (Option.some.inj hs').symm
    · rw [Function.update_of_ne hne] at hs'
      exact Or.inr ⟨s', hs'⟩
  · rintro (rfl | ⟨s', hs'⟩)
    · exact ⟨s, Function.update_self _ _ _⟩
    · have hne : s' ≠ s := by
        rintro rfl
        rw [hs] at hs'
        cases hs'
      exact ⟨s', by rw [Function.update_of_ne hne, hs']⟩

theorem update_eq_none {f : Place → Option ℕ} {s s' : Place} :
  Function.update f s (some p) s' = none ↔ s' ≠ s ∧ f s' = none
  := by
  by_cases hne : s' = s
  · rw [hne, Function.update_self]
    simp
  · rw [Function.update_of_ne hne]
    simp [hne]

theorem mem_path {v : ℕ} {s : Place} :
  s ∈ path v ↔ s = .pointer (pml4Index v) ∨ s = .directory (pml4Index v) (pdptIndex v)
  := by
  rw [path, Finset.mem_insert, Finset.mem_singleton]

/-- A directory is below a pointer table. -/
theorem directory_none (h : tableAt m map (.pointer a) = none) :
  tableAt m map (.directory a b) = none
  := by
  have hlink : link (m.entry map a) = none := h
  rw [tableAt, hlink, Option.bind_none]

/-- The number of tables that are missing on the way to a page. -/
theorem card_missing_path (m : Memory) (map v : ℕ) :
  (missing m map (path v)).card
    = if tableAt m map (.pointer (pml4Index v)) = none then 2
      else if tableAt m map (.directory (pml4Index v) (pdptIndex v)) = none then 1 else 0
  := by
  have hne : Place.pointer (pml4Index v)
      ∉ ({.directory (pml4Index v) (pdptIndex v)} : Finset Place) := by
    rw [Finset.mem_singleton]
    exact Place.directory_ne_pointer.symm
  unfold missing path
  by_cases hpointer : tableAt m map (.pointer (pml4Index v)) = none
  · rw [Finset.filter_true_of_mem, Finset.card_insert_of_notMem hne, Finset.card_singleton,
      if_pos hpointer]
    intro s hs
    rcases mem_path.mp hs with rfl | rfl
    · exact hpointer
    · exact directory_none hpointer
  · rw [Finset.filter_insert, if_neg hpointer, if_neg hpointer, Finset.filter_singleton]
    split
    · exact Finset.card_singleton _
    · exact Finset.card_empty

/-- `FindPML4TableEntry` and the second half of `FindPageDirPointerTableEntry` on the places of
tables. -/
theorem findDirectory_eq (map v attr : ℕ) (m : Memory) :
  findPageDirPointerTableEntry image map v true attr m
    = (findTableEntry image map (pml4Index v) true attr m).bind (fun r =>
        if r.1 = 0 then some (0, r.2)
        else findTableEntry image r.1 (pdptIndex v) true attr r.2)
  := rfl

namespace Tree

/-- A page directory below a pointer table is found, or created when a page is free. -/
theorem find_below (h : Tree image m map xs) (ha : IsAttribute attr) {t : ℕ}
    (ht : tableAt m map (.pointer a) = some t) :
  ∃ d m' ys zs, findTableEntry image t b true attr m = some (d, m') ∧ xs = ys ++ zs
    ∧ Tree image m' map zs ∧ entryAt m' map = entryAt m map
    ∧ (d = 0 ∧ tableAt m map (.directory a b) = none ∧ xs = []
        ∨ d ≠ 0 ∧ tableAt m' map (.directory a b) = some d
          ∧ (tableAt m map (.directory a b) = some d ∧ m' = m ∧ ys = []
            ∨ tableAt m map (.directory a b) = none ∧ ys = [d]
              ∧ tableAt m' map = Function.update (tableAt m map) (.directory a b) (some d)))
  := by
  have hpointer : link (m.entry map a) = some t := ht
  have hdirectory : tableAt m map (.directory a b) = link (m.entry t b) := by
    rw [tableAt, hpointer, Option.bind_some]
  cases hd : tableAt m map (.directory a b) with
  | some d =>
      have hlink := hdirectory.symm.trans hd
      exact ⟨d, m, [], xs, findTableEntry_present hlink true, rfl, h, rfl,
        Or.inr ⟨(h.page _ d hd).2.1, hd, Or.inl ⟨rfl, rfl, rfl⟩⟩⟩
  | none =>
      have hlink := hdirectory.symm.trans hd
      cases xs with
      | nil =>
          exact ⟨0, m, [], [], findTableEntry_nil hlink h.free, rfl, h, rfl,
            Or.inl ⟨rfl, rfl, rfl⟩⟩
      | cons p xs =>
          obtain ⟨haligned, _, hmem⟩ := h.page _ t ht
          obtain ⟨m', hrun, hfree, hc, hp, htable⟩ :=
            findTableEntry_cons hlink h.free haligned hmem b.isLt ha
          obtain ⟨hall, hentries⟩ := h.link_directory ha ht hd hc hp htable
          refine ⟨p, m', [p], xs, hrun, rfl, h.extend hfree hall, hentries,
            Or.inr ⟨(h.free.isPage p List.mem_cons_self).ne_zero, ?_, Or.inr ⟨rfl, rfl, hall⟩⟩⟩
          rw [hall, Function.update_self]

/-- The page directory for an address is found, or created when there are free pages for the
missing tables. -/
theorem find (h : Tree image m map xs) (ha : IsAttribute attr) (v : ℕ) :
  ∃ d m' ys zs, findPageDirPointerTableEntry image map v true attr m = some (d, m')
    ∧ xs = ys ++ zs ∧ Tree image m' map zs ∧ entryAt m' map = entryAt m map
    ∧ (d = 0 ∧ xs.length < (missing m map (path v)).card
        ∨ d ≠ 0 ∧ tableAt m' map (.directory (pml4Index v) (pdptIndex v)) = some d
          ∧ Filled m m' map (path v) ys)
  := by
  rw [findDirectory_eq, card_missing_path]
  cases hpointer : tableAt m map (.pointer (pml4Index v)) with
  | some t =>
      rw [findTableEntry_present hpointer true, Option.bind_some]
      dsimp only
      rw [if_neg (h.page _ t hpointer).2.1, if_neg (Option.some_ne_none t)]
      obtain ⟨d, m', ys, zs, hrun, hxs, htree, hentries, ⟨rfl, hnone, rfl⟩ | ⟨hd, hdirectory, hcase⟩⟩ :=
        h.find_below ha (b := pdptIndex v) hpointer
      · refine ⟨0, m', ys, zs, hrun, hxs, htree, hentries, Or.inl ⟨rfl, ?_⟩⟩
        rw [if_pos hnone]
        exact Nat.one_pos
      · refine ⟨d, m', ys, zs, hrun, hxs, htree, hentries, Or.inr ⟨hd, hdirectory, ?_, ?_, ?_⟩⟩
        · rw [card_missing_path, hpointer, if_neg (Option.some_ne_none t)]
          rcases hcase with ⟨hsome, _, rfl⟩ | ⟨hnone, rfl, _⟩
          · rw [hsome, if_neg (Option.some_ne_none d)]
            rfl
          · rw [if_pos hnone]
            rfl
        · intro s
          rw [mem_path]
          rcases hcase with ⟨hsome, rfl, _⟩ | ⟨hnone, _, hall⟩
          · constructor
            · intro hs
              use hs
              rintro (rfl | rfl)
              · rw [hpointer] at hs
                cases hs
              · rw [hsome] at hs
                cases hs
            · exact And.left
          · rw [hall, update_eq_none]
            constructor
            · rintro ⟨hne, hs⟩
              use hs
              rintro (rfl | rfl)
              · rw [hpointer] at hs
                cases hs
              · exact hne rfl
            · rintro ⟨hs, hmem⟩
              exact ⟨fun heq => hmem (Or.inr heq), hs⟩
        · intro q
          rcases hcase with ⟨_, rfl, rfl⟩ | ⟨hnone, rfl, hall⟩
          · simp
          · rw [hall, exists_update hnone, List.mem_singleton]
  | none =>
      have hnone : tableAt m map (.directory (pml4Index v) (pdptIndex v)) = none :=
        directory_none hpointer
      rw [if_pos rfl]
      cases xs with
      | nil =>
          rw [findTableEntry_nil hpointer h.free, Option.bind_some]
          exact ⟨0, m, [], [], rfl, rfl, h, rfl, Or.inl ⟨rfl, Nat.two_pos⟩⟩
      | cons p xs =>
          obtain ⟨haligned, _, hmem⟩ := h.page .map map rfl
          have hp := h.free.isPage p List.mem_cons_self
          obtain ⟨m₁, hrun₁, hfree₁, hc, htable, hmap⟩ := findTableEntry_cons hpointer h.free haligned
            hmem (pml4Index v).isLt ha
          obtain ⟨hall₁, hentries₁⟩ := h.link_pointer ha hpointer hc htable hmap
          have h₁ := h.extend hfree₁ hall₁
          have hpointer₁ : tableAt m₁ map (.pointer (pml4Index v)) = some p := by
            rw [hall₁, Function.update_self]
          have hnone₁ : tableAt m₁ map (.directory (pml4Index v) (pdptIndex v)) = none := by
            rw [hall₁, Function.update_of_ne Place.directory_ne_pointer, hnone]
          rw [hrun₁, Option.bind_some]
          dsimp only
          rw [if_neg hp.ne_zero]
          obtain ⟨d, m', ys, zs, hrun, rfl, htree, hentries, ⟨rfl, _, hxs⟩ | ⟨hd, hdirectory, hcase⟩⟩ :=
            h₁.find_below ha (b := pdptIndex v) hpointer₁
          · refine ⟨0, m', p :: ys, zs, hrun, rfl, htree, hentries.trans hentries₁, Or.inl ⟨rfl, ?_⟩⟩
            rw [List.length_cons, hxs]
            exact Nat.one_lt_two
          · obtain ⟨hsome, _⟩ | ⟨_, rfl, hall⟩ := hcase
            · rw [hnone₁] at hsome
              cases hsome
            · refine ⟨d, m', [p, d], zs, hrun, rfl, htree, hentries.trans hentries₁,
                Or.inr ⟨hd, hdirectory, ?_, ?_, ?_⟩⟩
              · rw [card_missing_path, if_pos hpointer]
                rfl
              · intro s
                rw [hall, update_eq_none, hall₁, update_eq_none, mem_path, not_or]
                constructor
                · rintro ⟨hdirectory', hpointer', hs⟩
                  exact ⟨hs, hpointer', hdirectory'⟩
                · rintro ⟨hs, hpointer', hdirectory'⟩
                  exact ⟨hdirectory', hpointer', hs⟩
              · intro q
                rw [hall, exists_update hnone₁, hall₁, exists_update hpointer, List.mem_pair,
                  or_left_comm, or_assoc]

end Tree

end LarvaOS
