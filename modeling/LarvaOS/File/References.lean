import LarvaOS.File.FileSystem
import LarvaOS.Library.Counting

/-!
# Reference counts of open files

`Open`, `Close`, `Fork` and `Wait` keep two counters by hand: the open count of a file
descriptor, and the open count of its file control block.  `addReference` and
`dropReference` are the updates that `Fork` and `Close` make for one file of a process.

`Counted files refs` says that the counters agree with the sequence `refs` of the
descriptors to which the files of all processes point.  One more reference, one
reference less, and a newly opened file keep it.
-/

namespace LarvaOS

namespace FileSystem

variable (files : FileSystem)

/-- Replace an entry of the FCB table. -/
def setFCB (c : ℕ) (fcb : FCB) : FileSystem :=
  { files with fcbTable := Function.update files.fcbTable c fcb }

/-- Replace an entry of the FD table. -/
def setFD (d : ℕ) (fd : FD) : FileSystem :=
  { files with fdTable := Function.update files.fdTable d fd }

/-- Add a number to the open count of a file control block. -/
def countFCB (c : ℕ) (n : Int) : FileSystem :=
  files.setFCB c { files.fcbTable c with openCount := int32 ((files.fcbTable c).openCount + n) }

/-- Add a number to the open count of a file descriptor. -/
def countFD (d : ℕ) (n : Int) : FileSystem :=
  files.setFD d { files.fdTable d with openCount := int32 ((files.fdTable d).openCount + n) }

/-- The body of the loop of `Fork` over the shared files. -/
def addReference (d : ℕ) : Option FileSystem :=
  ((files.fdTable d).fcb).map (fun c => (files.countFCB c 1).countFD d 1)

/-- The body shared by `Close` and the loop of `Wait` over the opened files. -/
def dropReference (d : ℕ) : Option FileSystem :=
  ((files.fdTable d).fcb).map (fun c =>
    let files := (files.countFCB c (-1)).countFD d (-1)
    if (files.fdTable d).openCount = 0 then
      files.setFD d { files.fdTable d with fcb := none }
    else files)

/-- The loop of `Fork` over the shared files. -/
def addReferences (files : FileSystem) : List ℕ → Option FileSystem
  | [] => some files
  | d :: ds => do
      let files ← files.addReference d
      addReferences files ds

/-- The loop of `Wait` over the opened files. -/
def dropReferences (files : FileSystem) : List ℕ → Option FileSystem
  | [] => some files
  | d :: ds => do
      let files ← files.dropReference d
      dropReferences files ds

/-- The disk, the volume and the places of the tables are the same. -/
structure SameDisk (files files' : FileSystem) : Prop where
  disk : files'.disk = files.disk
  bpb : files'.bpb = files.bpb
  fcbTableAddress : files'.fcbTableAddress = files.fcbTableAddress
  fdTableAddress : files'.fdTableAddress = files.fdTableAddress

namespace SameDisk

variable {files files' files'' : FileSystem}

theorem refl (files : FileSystem) :
  SameDisk files files
  := ⟨rfl, rfl, rfl, rfl⟩

theorem of_eq (h : files' = files) :
  SameDisk files files'
  := by
  rw [h]
  exact refl files

theorem trans (h : SameDisk files files') (h' : SameDisk files' files'') :
  SameDisk files files''
  where
  disk := h'.disk.trans h.disk
  bpb := h'.bpb.trans h.bpb
  fcbTableAddress := h'.fcbTableAddress.trans h.fcbTableAddress
  fdTableAddress := h'.fdTableAddress.trans h.fdTableAddress

theorem setFCB (files : FileSystem) (c : ℕ) (fcb : FCB) :
  SameDisk files (files.setFCB c fcb)
  := ⟨rfl, rfl, rfl, rfl⟩

theorem setFD (files : FileSystem) (d : ℕ) (fd : FD) :
  SameDisk files (files.setFD d fd)
  := ⟨rfl, rfl, rfl, rfl⟩

theorem addReference {d : ℕ} (h : files.addReference d = some files') :
  SameDisk files files'
  := by
  obtain ⟨c, _, rfl⟩ := Option.map_eq_some_iff.mp h
  exact (setFCB files c _).trans (setFD _ d _)

theorem dropReference {d : ℕ} (h : files.dropReference d = some files') :
  SameDisk files files'
  := by
  obtain ⟨c, _, rfl⟩ := Option.map_eq_some_iff.mp h
  have hcount := (setFCB files c { files.fcbTable c with
    openCount := int32 ((files.fcbTable c).openCount + -1) }).trans (setFD _ d
      { (files.countFCB c (-1)).fdTable d with
        openCount := int32 (((files.countFCB c (-1)).fdTable d).openCount + -1) })
  dsimp only
  split
  · exact hcount.trans (setFD _ d _)
  · exact hcount

theorem addReferences {ds : List ℕ} (h : files.addReferences ds = some files') :
  SameDisk files files'
  := by
  induction ds generalizing files with
  | nil => exact of_eq (Option.some.inj h).symm
  | cons d ds ih =>
      obtain ⟨files₁, hadd, hrest⟩ := Option.bind_eq_some_iff.mp h
      exact (addReference hadd).trans (ih hrest)

theorem dropReferences {ds : List ℕ} (h : files.dropReferences ds = some files') :
  SameDisk files files'
  := by
  induction ds generalizing files with
  | nil => exact of_eq (Option.some.inj h).symm
  | cons d ds ih =>
      obtain ⟨files₁, hdrop, hrest⟩ := Option.bind_eq_some_iff.mp h
      exact (dropReference hdrop).trans (ih hrest)

end SameDisk

/-! ### Counters that agree with the references -/

section Tables

variable {files : FileSystem} {c c' d x : ℕ} {n : Int}

@[simp]
theorem countFCB_fdTable :
  (files.countFCB c n).fdTable = files.fdTable
  := rfl

@[simp]
theorem countFD_fcbTable :
  (files.countFD d n).fcbTable = files.fcbTable
  := rfl

@[simp]
theorem countFD_fcb :
  ((files.countFD d n).fdTable x).fcb = (files.fdTable x).fcb
  := by
  unfold countFD setFD
  dsimp only
  by_cases hx : x = d
  · rw [hx, Function.update_self]
  · rw [Function.update_of_ne hx]

theorem countFD_openCount :
  ((files.countFD d n).fdTable x).openCount
    = if x = d then int32 ((files.fdTable x).openCount + n) else (files.fdTable x).openCount
  := by
  unfold countFD setFD
  dsimp only
  by_cases hx : x = d
  · rw [hx, Function.update_self, if_pos rfl]
  · rw [Function.update_of_ne hx, if_neg hx]

theorem countFCB_openCount :
  ((files.countFCB c n).fcbTable x).openCount
    = if x = c then int32 ((files.fcbTable x).openCount + n) else (files.fcbTable x).openCount
  := by
  unfold countFCB setFCB
  dsimp only
  by_cases hx : x = c
  · rw [hx, Function.update_self, if_pos rfl]
  · rw [Function.update_of_ne hx, if_neg hx]

/-- The descriptor is linked to the file control block. -/
def linkedTo (files : FileSystem) (c d : ℕ) : Bool := (files.fdTable d).fcb = some c

/-- The links depend on the file control blocks of the descriptors. -/
theorem linkedTo_congr {files' : FileSystem}
    (h : ∀ x, (files'.fdTable x).fcb = (files.fdTable x).fcb) (c : ℕ) :
  files'.linkedTo c = files.linkedTo c
  := by
  funext x
  rw [linkedTo, linkedTo, h]

end Tables

/-- The counters agree with the references `refs` to descriptors. -/
structure Counted (files : FileSystem) (refs : List ℕ) : Prop where
  count : ∀ d, (files.fdTable d).openCount = refs.count d
  linked : ∀ d, (files.fdTable d).fcb = none ↔ d ∉ refs
  openCount : ∀ c, (files.fcbTable c).openCount = refs.countP (files.linkedTo c)

/-- There are fewer references than an `int` can count. -/
def Few (refs : List ℕ) : Prop := refs.length < 2 ^ 31

namespace Counted

variable {files files' : FileSystem} {refs refs' : List ℕ} {c d : ℕ}

theorem congr (h : Counted files refs) (hperm : refs.Perm refs') :
  Counted files refs'
  where
  count d := by rw [h.count, hperm.count_eq]
  linked d := by rw [h.linked, hperm.mem_iff]
  openCount c := by rw [h.openCount, hperm.countP_eq]

/-- The counters depend on the tables. -/
theorem of_tables (h : Counted files refs) (hfcb : files'.fcbTable = files.fcbTable)
    (hlink : ∀ d, (files'.fdTable d).fcb = (files.fdTable d).fcb)
    (hcount : ∀ d, (files'.fdTable d).openCount = (files.fdTable d).openCount) :
  Counted files' refs
  where
  count d := by rw [hcount, h.count]
  linked d := by rw [hlink, h.linked]
  openCount c := by rw [hfcb, linkedTo_congr hlink, h.openCount]

/-- A descriptor with a reference has a file control block. -/
theorem exists_fcb (h : Counted files refs) (hd : d ∈ refs) :
  ∃ c, (files.fdTable d).fcb = some c
  := by
  cases hc : (files.fdTable d).fcb with
  | none => exact absurd hd ((h.linked d).mp hc)
  | some c => exact ⟨c, rfl⟩

/-- One more reference to a descriptor. -/
theorem addReference (h : Counted files refs) (hd : d ∈ refs) (hfew : Few (d :: refs)) :
  ∃ files', files.addReference d = some files' ∧ Counted files' (d :: refs)
    ∧ ∀ x, (files'.fdTable x).fcb = (files.fdTable x).fcb
  := by
  obtain ⟨c, hc⟩ := h.exists_fcb hd
  have hlink : ∀ x, (((files.countFCB c 1).countFD d 1).fdTable x).fcb
      = (files.fdTable x).fcb := fun x => countFD_fcb
  unfold Few at hfew
  rw [List.length_cons] at hfew
  refine ⟨(files.countFCB c 1).countFD d 1, ?_, ⟨?_, ?_, ?_⟩, hlink⟩
  · rw [FileSystem.addReference, hc, Option.map_some]
  · intro x
    have hle := List.count_le_length (a := x) (l := refs)
    rw [countFD_openCount, countFCB_fdTable, h.count]
    by_cases hx : x = d
    · rw [if_pos hx, int32_of_range (by omega) (by omega), hx, List.count_cons_self]
      push_cast
      rfl
    · rw [if_neg hx, List.count_cons_of_ne (Ne.symm hx)]
  · intro x
    rw [hlink, h.linked, List.mem_cons, not_or]
    exact ⟨fun hx => ⟨fun e => hx (e ▸ hd), hx⟩, And.right⟩
  · intro x
    have hle := List.countP_le_length (p := files.linkedTo x) (l := refs)
    rw [countFD_fcbTable, countFCB_openCount, h.openCount, linkedTo_congr hlink, List.countP_cons]
    by_cases hx : x = c
    · have htrue : files.linkedTo x d = true := by
        rw [linkedTo, hc, hx]
        exact decide_eq_true rfl
      rw [if_pos hx, if_pos htrue, int32_of_range (by omega) (by omega)]
      push_cast
      rfl
    · have hfalse : ¬ files.linkedTo x d = true := by
        rw [linkedTo, hc]
        simpa using Ne.symm hx
      rw [if_neg hx, if_neg hfalse]
      rfl

/-- One reference less to a descriptor: without references it has no file control block. -/
theorem dropReference (h : Counted files (d :: refs)) (hfew : Few (d :: refs)) :
  ∃ files', files.dropReference d = some files' ∧ Counted files' refs
    ∧ ∀ x, x ∈ refs → (files'.fdTable x).fcb = (files.fdTable x).fcb
  := by
  obtain ⟨c, hc⟩ := h.exists_fcb List.mem_cons_self
  unfold Few at hfew
  rw [List.length_cons] at hfew
  have hlink : ∀ x, (((files.countFCB c (-1)).countFD d (-1)).fdTable x).fcb
      = (files.fdTable x).fcb := fun x => countFD_fcb
  have hcount : ∀ x, (((files.countFCB c (-1)).countFD d (-1)).fdTable x).openCount
      = refs.count x := by
    intro x
    have hle := List.count_le_length (a := x) (l := refs)
    rw [countFD_openCount, countFCB_fdTable, h.count]
    by_cases hx : x = d
    · rw [if_pos hx, hx, List.count_cons_self]
      rw [hx] at hle
      rw [int32_of_range (by omega) (by omega)]
      omega
    · rw [if_neg hx, List.count_cons_of_ne (Ne.symm hx)]
  have hopen : ∀ x, (((files.countFCB c (-1)).countFD d (-1)).fcbTable x).openCount
      = refs.countP (files.linkedTo x) := by
    intro x
    have hle := List.countP_le_length (p := files.linkedTo x) (l := refs)
    rw [countFD_fcbTable, countFCB_openCount, h.openCount, List.countP_cons]
    by_cases hx : x = c
    · have htrue : files.linkedTo x d = true := by
        rw [linkedTo, hc, hx]
        exact decide_eq_true rfl
      rw [if_pos hx, if_pos htrue, int32_of_range (by omega) (by omega)]
      omega
    · have hfalse : ¬ files.linkedTo x d = true := by
        rw [linkedTo, hc]
        simpa using Ne.symm hx
      rw [if_neg hx, if_neg hfalse]
      rfl
  have hrun : files.dropReference d = some (if refs.count d = 0 then
      ((files.countFCB c (-1)).countFD d (-1)).setFD d
        { ((files.countFCB c (-1)).countFD d (-1)).fdTable d with fcb := none }
      else (files.countFCB c (-1)).countFD d (-1)) := by
    rw [FileSystem.dropReference, hc, Option.map_some]
    dsimp only
    rw [hcount d]
    simp only [Nat.cast_eq_zero]
  generalize (files.countFCB c (-1)).countFD d (-1) = files₁ at hlink hcount hopen hrun
  have hlinked : ∀ x, x ≠ d → ((files.fdTable x).fcb = none ↔ x ∉ refs) := by
    intro x hx
    rw [h.linked, List.mem_cons, not_or]
    exact ⟨And.right, fun hmem => ⟨hx, hmem⟩⟩
  by_cases hzero : refs.count d = 0
  · have hmem : d ∉ refs := List.count_eq_zero.mp hzero
    rw [if_pos hzero] at hrun
    have hother : ∀ x, x ≠ d → (files₁.setFD d { files₁.fdTable d with fcb := none }).fdTable x
        = files₁.fdTable x := fun x hx => Function.update_of_ne hx _ _
    have hself : (files₁.setFD d { files₁.fdTable d with fcb := none }).fdTable d
        = { files₁.fdTable d with fcb := none } := Function.update_self _ _ _
    refine ⟨_, hrun, ⟨?_, ?_, ?_⟩, ?_⟩
    · intro x
      by_cases hx : x = d
      · rw [hx, hself]
        exact hcount d
      · rw [hother x hx, hcount]
    · intro x
      by_cases hx : x = d
      · rw [hx, hself]
        simp [hmem]
      · rw [hother x hx, hlink, hlinked x hx]
    · intro x
      have hfcb : (files₁.setFD d { files₁.fdTable d with fcb := none }).fcbTable = files₁.fcbTable :=
        rfl
      rw [hfcb, hopen]
      congr 1
      apply List.countP_congr
      intro y hy
      have hne : y ≠ d := fun e => hmem (e ▸ hy)
      rw [linkedTo, linkedTo, hother y hne, hlink]
    · intro x hx
      have hne : x ≠ d := fun e => hmem (e ▸ hx)
      rw [hother x hne, hlink]
  · have hmem : d ∈ refs := by
      by_contra hmem
      exact hzero (List.count_eq_zero.mpr hmem)
    rw [if_neg hzero] at hrun
    refine ⟨_, hrun, ⟨hcount, ?_, ?_⟩, fun x _ => hlink x⟩
    · intro x
      rw [hlink]
      by_cases hx : x = d
      · rw [hx, hc]
        simp [hmem]
      · exact hlinked x hx
    · intro x
      rw [hopen, linkedTo_congr hlink]

/-- The loop of `Fork` adds a reference for every shared file. -/
theorem addReferences {ds : List ℕ} (h : Counted files refs) (hds : ∀ d ∈ ds, d ∈ refs)
    (hfew : Few (ds ++ refs)) :
  ∃ files', files.addReferences ds = some files' ∧ Counted files' (ds ++ refs)
    ∧ ∀ x, (files'.fdTable x).fcb = (files.fdTable x).fcb
  := by
  induction ds generalizing files refs with
  | nil => exact ⟨files, rfl, h, fun _ => rfl⟩
  | cons d ds ih =>
      unfold Few at hfew
      rw [List.length_append, List.length_cons] at hfew
      obtain ⟨files₁, hadd, h₁, hlink₁⟩ := h.addReference (hds d List.mem_cons_self) (by
        unfold Few
        rw [List.length_cons]
        omega)
      obtain ⟨files₂, hrun, h₂, hlink₂⟩ := ih h₁
        (fun x hx => List.mem_cons_of_mem d (hds x (List.mem_cons_of_mem d hx))) (by
          unfold Few
          rw [List.length_append, List.length_cons]
          omega)
      refine ⟨files₂, ?_, h₂.congr List.perm_middle, fun x => (hlink₂ x).trans (hlink₁ x)⟩
      rw [FileSystem.addReferences, Option.bind_eq_bind, hadd, Option.bind_some, hrun]

/-- The loop of `Wait` drops a reference for every opened file. -/
theorem dropReferences {ds : List ℕ} (h : Counted files (ds ++ refs)) (hfew : Few (ds ++ refs)) :
  ∃ files', files.dropReferences ds = some files' ∧ Counted files' refs
    ∧ ∀ x, x ∈ refs → (files'.fdTable x).fcb = (files.fdTable x).fcb
  := by
  induction ds generalizing files with
  | nil => exact ⟨files, rfl, h, fun _ _ => rfl⟩
  | cons d ds ih =>
      obtain ⟨files₁, hdrop, h₁, hlink₁⟩ := dropReference h hfew
      obtain ⟨files₂, hrun, h₂, hlink₂⟩ := ih h₁ (Nat.lt_of_succ_lt hfew)
      refine ⟨files₂, ?_, h₂, fun x hx => ?_⟩
      · rw [FileSystem.dropReferences, Option.bind_eq_bind, hdrop, Option.bind_some, hrun]
      · exact (hlink₂ x hx).trans (hlink₁ x (List.mem_append_right ds hx))

/-- A descriptor without references is linked to a file control block. -/
theorem openFD {fcb : FCB} (h : Counted files refs) (hd : d ∉ refs)
    (hfcb : fcb.openCount = int32 ((files.fcbTable c).openCount + 1)) (hfew : Few (d :: refs))
    (position : ℕ) :
  Counted ((files.setFCB c fcb).setFD d { fcb := some c, position := position, openCount := 1 })
    (d :: refs)
  := by
  unfold Few at hfew
  rw [List.length_cons] at hfew
  have hself : ((files.setFCB c fcb).setFD d
      { fcb := some c, position := position, openCount := 1 }).fdTable d
      = { fcb := some c, position := position, openCount := 1 } := Function.update_self _ _ _
  have hother : ∀ x, x ≠ d → ((files.setFCB c fcb).setFD d
      { fcb := some c, position := position, openCount := 1 }).fdTable x = files.fdTable x :=
    fun x hx => Function.update_of_ne hx _ _
  have hne : ∀ y ∈ refs, y ≠ d := fun y hy e => hd (e ▸ hy)
  constructor
  · intro x
    by_cases hx : x = d
    · rw [hx, hself, List.count_cons_self, List.count_eq_zero_of_not_mem hd]
      rfl
    · rw [hother x hx, h.count, List.count_cons_of_ne (Ne.symm hx)]
  · intro x
    by_cases hx : x = d
    · rw [hx, hself]
      simp
    · rw [hother x hx, h.linked, List.mem_cons, not_or]
      exact ⟨fun hmem => ⟨hx, hmem⟩, And.right⟩
  · intro x
    have hle := List.countP_le_length (p := files.linkedTo x) (l := refs)
    have hsame : refs.countP (((files.setFCB c fcb).setFD d
        { fcb := some c, position := position, openCount := 1 }).linkedTo x)
        = refs.countP (files.linkedTo x) := by
      apply List.countP_congr
      intro y hy
      rw [linkedTo, linkedTo, hother y (hne y hy)]
    rw [List.countP_cons, hsame, linkedTo, hself]
    by_cases hx : x = c
    · have hfcb' : ((files.setFCB c fcb).setFD d
          { fcb := some c, position := position, openCount := 1 }).fcbTable x = fcb := by
        rw [hx]
        exact Function.update_self _ _ _
      rw [hfcb', hfcb, h.openCount, hx]
      rw [hx] at hle
      rw [int32_of_range (by omega) (by omega), if_pos (decide_eq_true rfl)]
      push_cast
      rfl
    · have hfcb' : ((files.setFCB c fcb).setFD d
          { fcb := some c, position := position, openCount := 1 }).fcbTable x
          = files.fcbTable x := Function.update_of_ne hx _ _
      rw [hfcb', h.openCount, if_neg (by simpa using Ne.symm hx)]
      rfl

/-- The position of a descriptor is not counted. -/
theorem setPosition (h : Counted files refs) (d position : ℕ) :
  Counted (files.setFD d { files.fdTable d with position := position }) refs
  := by
  have htable : ∀ x, ((files.setFD d { files.fdTable d with position := position }).fdTable x).fcb
        = (files.fdTable x).fcb
      ∧ ((files.setFD d { files.fdTable d with position := position }).fdTable x).openCount
        = (files.fdTable x).openCount := by
    intro x
    unfold setFD
    dsimp only
    by_cases hx : x = d
    · rw [hx, Function.update_self]
      exact ⟨rfl, rfl⟩
    · rw [Function.update_of_ne hx]
      exact ⟨rfl, rfl⟩
  apply h.of_tables
  · rfl
  · exact fun x => (htable x).1
  · exact fun x => (htable x).2

end Counted

end FileSystem

end LarvaOS
