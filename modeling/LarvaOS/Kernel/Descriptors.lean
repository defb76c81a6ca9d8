import LarvaOS.Kernel.Opening

/-!
# The tables of open files in steps

A step of the system changes the position of a descriptor only when it reads from it, and the
cached size and start cluster of a file control block only when no descriptor is linked to it.
So a descriptor stays what it is while files point to it, and the cached data of open files
agrees with the directory in every state.
-/

namespace LarvaOS

open FileSystem

variable {image : Image} {k k' : Kernel} {q : Queues} {proc : Slot} {op : Operation} {c d : ℕ}

/-- The operation reads from a descriptor. -/
def Kernel.Reads (k : Kernel) (op : Operation) (d : ℕ) : Prop :=
  ∃ fd buffer size i, op = .readFile fd buffer size ∧ fileIndex fd = some i
    ∧ (k.process k.currentProc).file i = some d

namespace FileSystem

variable {files files' files'' : FileSystem} {moved moved' : ℕ → Prop}

/-- At most the open counts change, and the positions of the descriptors `moved`, and
descriptors are unlinked. -/
structure SameData (moved : ℕ → Prop) (files files' : FileSystem) : Prop where
  disk : SameDisk files files'
  position : ∀ d, ¬ moved d → (files'.fdTable d).position = (files.fdTable d).position
  fcb : ∀ d, (files'.fdTable d).fcb = (files.fdTable d).fcb ∨ (files'.fdTable d).fcb = none
  fileSize : ∀ c, (files'.fcbTable c).fileSize = (files.fcbTable c).fileSize
  startCluster : ∀ c, (files'.fcbTable c).startCluster = (files.fcbTable c).startCluster

/-- The linked descriptors and the data of their files are kept, except for the positions of the
descriptors `moved`, and for descriptors that are unlinked; the data of another file that gets
linked is that of its directory entry. -/
structure Keeps (moved : ℕ → Prop) (files files' : FileSystem) : Prop where
  disk : SameDisk files files'
  linked : ∀ d c, (files.fdTable d).fcb = some c → (files'.fdTable d).fcb = none
    ∨ (files'.fdTable d).fcb = some c
      ∧ (¬ moved d → (files'.fdTable d).position = (files.fdTable d).position)
  fileSize : ∀ d c, (files.fdTable d).fcb = some c →
    (files'.fcbTable c).fileSize = (files.fcbTable c).fileSize
  startCluster : ∀ d c, (files.fdTable d).fcb = some c →
    (files'.fcbTable c).startCluster = (files.fcbTable c).startCluster
  fresh : ∀ d c, (files'.fdTable d).fcb = some c → (∃ e, (files.fdTable e).fcb = some c)
    ∨ ∃ e ∈ files.rootEntries, (files.indexed e).1 = c
      ∧ (files'.fcbTable c).fileSize = (files.rootEntry e.1 e.2).fileSize
      ∧ (files'.fcbTable c).startCluster = (files.rootEntry e.1 e.2).clusterIndex

namespace SameData

theorem refl (moved : ℕ → Prop) (files : FileSystem) :
  SameData moved files files
  where
  disk := SameDisk.refl _
  position _ _ := rfl
  fcb _ := Or.inl rfl
  fileSize _ := rfl
  startCluster _ := rfl

theorem of_eq (h : files' = files) :
  SameData moved files files'
  := h ▸ refl moved files

theorem trans (h : SameData moved files files') (h' : SameData moved files' files'') :
  SameData moved files files''
  where
  disk := h.disk.trans h'.disk
  position d hd := (h'.position d hd).trans (h.position d hd)
  fcb d := by
    rcases h'.fcb d with hsame | hnone
    · rw [hsame]
      exact h.fcb d
    · exact Or.inr hnone
  fileSize c := (h'.fileSize c).trans (h.fileSize c)
  startCluster c := (h'.startCluster c).trans (h.startCluster c)

theorem setFD {fd : FD} (hposition : ¬ moved d → fd.position = (files.fdTable d).position)
    (hfcb : fd.fcb = (files.fdTable d).fcb ∨ fd.fcb = none) :
  SameData moved files (files.setFD d fd)
  where
  disk := SameDisk.setFD _ _ _
  position x hx := by
    by_cases hxd : x = d
    · subst hxd
      exact (congrArg FD.position (Function.update_self _ _ _)).trans (hposition hx)
    · exact congrArg FD.position (Function.update_of_ne hxd _ _)
  fcb x := by
    by_cases hxd : x = d
    · subst hxd
      have hx : ((files.setFD x fd).fdTable x).fcb = fd.fcb :=
        congrArg FD.fcb (Function.update_self _ _ _)
      rwa [hx]
    · exact Or.inl (congrArg FD.fcb (Function.update_of_ne hxd _ _))
  fileSize _ := rfl
  startCluster _ := rfl

theorem countFCB (files : FileSystem) (c : ℕ) (n : Int) :
  SameData moved files (files.countFCB c n)
  where
  disk := SameDisk.setFCB _ _ _
  position _ _ := rfl
  fcb _ := Or.inl rfl
  fileSize x := by
    rw [FileSystem.countFCB, setFCB]
    dsimp only
    by_cases hx : x = c
    · rw [hx, Function.update_self]
    · rw [Function.update_of_ne hx]
  startCluster x := by
    rw [FileSystem.countFCB, setFCB]
    dsimp only
    by_cases hx : x = c
    · rw [hx, Function.update_self]
    · rw [Function.update_of_ne hx]

theorem countFD (files : FileSystem) (d : ℕ) (n : Int) :
  SameData moved files (files.countFD d n)
  := setFD (fun _ => rfl) (Or.inl rfl)

theorem addReference (h : files.addReference d = some files') :
  SameData moved files files'
  := by
  obtain ⟨c, _, rfl⟩ := Option.map_eq_some_iff.mp h
  exact (countFCB _ _ _).trans (countFD _ _ _)

theorem dropReference (h : files.dropReference d = some files') :
  SameData moved files files'
  := by
  obtain ⟨c, _, rfl⟩ := Option.map_eq_some_iff.mp h
  dsimp only
  split
  · apply ((countFCB files c (-1)).trans (countFD _ d (-1))).trans
    exact setFD (fun _ => rfl) (Or.inr rfl)
  · exact (countFCB _ _ _).trans (countFD _ _ _)

theorem addReferences :
  ∀ {ds : List ℕ} {files : FileSystem}, files.addReferences ds = some files' →
    SameData moved files files'
  | [], _, h => of_eq (Option.some.inj h).symm
  | _ :: _, _, h => by
      obtain ⟨_, hadd, h⟩ := Option.bind_eq_some_iff.mp h
      exact (addReference hadd).trans (addReferences h)

theorem dropReferences :
  ∀ {ds : List ℕ} {files : FileSystem}, files.dropReferences ds = some files' →
    SameData moved files files'
  | [], _, h => of_eq (Option.some.inj h).symm
  | _ :: _, _, h => by
      obtain ⟨_, hdrop, h⟩ := Option.bind_eq_some_iff.mp h
      exact (dropReference hdrop).trans (dropReferences h)

end SameData

namespace Keeps

theorem of_sameData (h : SameData moved files files') :
  Keeps moved files files'
  where
  disk := h.disk
  linked d c hd := by
    rcases h.fcb d with hsame | hnone
    · exact Or.inr ⟨hsame.trans hd, h.position d⟩
    · exact Or.inl hnone
  fileSize _ c _ := h.fileSize c
  startCluster _ c _ := h.startCluster c
  fresh d c hd := by
    rcases h.fcb d with hsame | hnone
    · exact Or.inl ⟨d, hsame.symm.trans hd⟩
    · rw [hnone] at hd
      contradiction

theorem trans (h : Keeps moved files files') (h' : SameData moved files' files'') :
  Keeps moved files files''
  where
  disk := h.disk.trans h'.disk
  linked d c hd := by
    rcases h'.fcb d with hsame | hnone
    · rw [hsame]
      rcases h.linked d c hd with hnone | ⟨hlinked, hposition⟩
      · exact Or.inl hnone
      · exact Or.inr ⟨hlinked, fun hx => (h'.position d hx).trans (hposition hx)⟩
    · exact Or.inl hnone
  fileSize d c hd := (h'.fileSize c).trans (h.fileSize d c hd)
  startCluster d c hd := (h'.startCluster c).trans (h.startCluster d c hd)
  fresh d c hd := by
    rcases h'.fcb d with hsame | hnone
    · rcases h.fresh d c (hsame.symm.trans hd) with hlinked | ⟨e, he, hindexed, hsize, hcluster⟩
      · exact Or.inl hlinked
      · exact Or.inr ⟨e, he, hindexed, (h'.fileSize c).trans hsize,
          (h'.startCluster c).trans hcluster⟩
    · rw [hnone] at hd
      contradiction

/-- The positions of descriptors that are not linked do not matter. -/
theorem mono (h : Keeps moved files files')
    (hmoved : ∀ d, (files.fdTable d).fcb ≠ none → moved d → moved' d) :
  Keeps moved' files files'
  where
  disk := h.disk
  linked d c hd := by
    rcases h.linked d c hd with hnone | ⟨hlinked, hposition⟩
    · exact Or.inl hnone
    · refine Or.inr ⟨hlinked, fun hx => hposition (fun hx' => hx (hmoved d ?_ hx'))⟩
      rw [hd]
      exact Option.some_ne_none c
  fileSize := h.fileSize
  startCluster := h.startCluster
  fresh := h.fresh

end Keeps

end FileSystem

/-! ### The operations on files -/

/-- A file control block is counted if and only if a descriptor is linked to it. -/
theorem Referenced.openCount_pos (h : Referenced k) (c : ℕ) :
  0 < (k.files.fcbTable c).openCount ↔ ∃ d, (k.files.fdTable d).fcb = some c
  := by
  rw [h.counted.openCount, Int.natCast_pos, List.countP_pos_iff]
  constructor
  · rintro ⟨d, _, hd⟩
    exact ⟨d, of_decide_eq_true hd⟩
  · rintro ⟨d, hd⟩
    refine ⟨d, ?_, decide_eq_true hd⟩
    by_contra hmem
    rw [(h.counted.linked d).mpr hmem] at hd
    contradiction

/-- A file control block to which a descriptor is linked is not filled again. -/
theorem openFCB_linked {fcb : FCB} (h : 0 < fcb.openCount) (entryIndex : ℕ) (entry : DirEntry) :
  (openFCB fcb entryIndex entry).fileSize = fcb.fileSize
    ∧ (openFCB fcb entryIndex entry).startCluster = fcb.startCluster
  := by
  unfold openFCB
  rw [if_neg h.ne']
  exact ⟨rfl, rfl⟩

/-- A file control block to which no descriptor is linked is filled. -/
theorem openFCB_unlinked {fcb : FCB} (h : fcb.openCount = 0) (entryIndex : ℕ) (entry : DirEntry) :
  (openFCB fcb entryIndex entry).fileSize = entry.fileSize
    ∧ (openFCB fcb entryIndex entry).startCluster = entry.clusterIndex
  := by
  unfold openFCB
  rw [if_pos h]
  exact ⟨rfl, rfl⟩

/-- `FindFileInRootDir` finds the first entry in use with the name, whatever page it uses. -/
theorem findFileInRootDir_lookup {files : FileSystem} {m m' : Memory} {filename : List UInt8}
    {found : Option (ℕ × DirEntry)} (hsector : files.bpb.bytesPerSector ≤ pageSize)
    (hrun : files.findFileInRootDir image filename m = some (found, m')) :
  found = files.lookup filename
  := by
  obtain ⟨⟨a, m₁⟩, _, hrun⟩ := Option.bind_eq_some_iff.mp hrun
  obtain ⟨_, _, hrun⟩ := Option.bind_eq_some_iff.mp hrun
  obtain ⟨m₂, _, hrun⟩ := Option.bind_eq_some_iff.mp hrun
  obtain ⟨rfl, _⟩ := Prod.mk.inj (Option.some.inj hrun)
  obtain ⟨m₃, hfind, _⟩ := findInSectors_spec hsector filename a files.rootSectors m₁
  rw [hfind]
  rfl

/-- `Open` links a descriptor that was not linked. -/
theorem openFile_keeps {fileName : List UInt8} {ret : Int} (h : Referenced k)
    (hsector : k.files.bpb.bytesPerSector ≤ pageSize)
    (hrun : openFile image proc fileName k = some (ret, k')) :
  Keeps (fun _ => False) k.files k'.files
  := by
  rcases openFile_cases hrun with ⟨_, rfl⟩ | ⟨found, m, hfind, hcase⟩
  · exact Keeps.of_sameData (SameData.refl _ _)
  rcases hcase with ⟨_, rfl⟩ | ⟨fd, e, b, entry, _, he, hfound, _, _, rfl⟩
  · exact Keeps.of_sameData (SameData.refl _ _)
  rw [findFileInRootDir_lookup hsector hfind] at hfound
  obtain ⟨e', hfirst, hindexed⟩ := Option.map_eq_some_iff.mp hfound
  have hentry : k.files.rootEntry e'.1 e'.2 = entry := congrArg Prod.snd hindexed
  have hnone : (k.files.fdTable e).fcb = none := by simpa using List.find?_some he
  have hfcb : ∀ d c, (k.files.fdTable d).fcb = some c →
      (Function.update k.files.fcbTable b (openFCB (k.files.fcbTable b) b entry) c).fileSize
        = (k.files.fcbTable c).fileSize
      ∧ (Function.update k.files.fcbTable b (openFCB (k.files.fcbTable b) b entry) c).startCluster
        = (k.files.fcbTable c).startCluster := by
    intro d c hd
    by_cases hc : c = b
    · subst hc
      rw [Function.update_self]
      exact openFCB_linked ((h.openCount_pos c).mpr ⟨d, hd⟩) c entry
    · rw [Function.update_of_ne hc]
      exact ⟨rfl, rfl⟩
  constructor
  · exact (SameDisk.setFCB _ _ _).trans (SameDisk.setFD _ _ _)
  · intro d c hd
    have hne : d ≠ e := by
      rintro rfl
      rw [hnone] at hd
      contradiction
    have hsame : ((k.files.setFCB b (openFCB (k.files.fcbTable b) b entry)).setFD e
        { fcb := some b, position := 0, openCount := 1 }).fdTable d = k.files.fdTable d :=
      Function.update_of_ne hne _ _
    exact Or.inr ⟨(congrArg FD.fcb hsame).trans hd, fun _ => congrArg FD.position hsame⟩
  · exact fun d c hd => (hfcb d c hd).1
  · exact fun d c hd => (hfcb d c hd).2
  · intro d c hd
    by_cases hde : d = e
    · subst hde
      obtain rfl : b = c := by
        have hself : ((k.files.setFCB b (openFCB (k.files.fcbTable b) b entry)).setFD d
            { fcb := some b, position := 0, openCount := 1 }).fdTable d
            = { fcb := some b, position := 0, openCount := 1 } := Function.update_self _ _ _
        exact Option.some.inj ((congrArg FD.fcb hself).symm.trans hd)
      by_cases hcount : (k.files.fcbTable b).openCount = 0
      · right
        have hself : ((k.files.setFCB b (openFCB (k.files.fcbTable b) b entry)).setFD d
            { fcb := some b, position := 0, openCount := 1 }).fcbTable b
            = openFCB (k.files.fcbTable b) b entry := Function.update_self _ _ _
        obtain ⟨hsize, hcluster⟩ := openFCB_unlinked hcount b entry
        refine ⟨e', List.mem_of_find?_eq_some hfirst, congrArg Prod.fst hindexed, ?_, ?_⟩
        · rw [hentry, ← hsize]
          exact congrArg FCB.fileSize hself
        · rw [hentry, ← hcluster]
          exact congrArg FCB.startCluster hself
      · left
        apply (h.openCount_pos b).mp
        have hnonneg : 0 ≤ (k.files.fcbTable b).openCount := by
          rw [h.counted.openCount]
          exact Int.natCast_nonneg _
        omega
    · have hother : ((k.files.setFCB b (openFCB (k.files.fcbTable b) b entry)).setFD e
          { fcb := some b, position := 0, openCount := 1 }).fdTable d = k.files.fdTable d :=
        Function.update_of_ne hde _ _
      exact Or.inl ⟨d, (congrArg FD.fcb hother).symm.trans hd⟩

/-- `Close` unlinks descriptors at most. -/
theorem closeFile_sameData {moved : ℕ → Prop} {fd : Int}
    (hrun : closeFile proc fd k = some k') :
  SameData moved k.files k'.files
  := by
  rcases closeFile_cases hrun with rfl | ⟨i, d, files, _, _, hdrop, rfl⟩
  · exact SameData.refl _ _
  · exact SameData.dropReference hdrop

/-- `Read` moves the descriptor from which it reads. -/
theorem readFile_sameData {moved : ℕ → Prop} {fd size ret : Int} {buffer : ℕ}
    (hmoved : ∀ i d, fileIndex fd = some i → (k.process proc).file i = some d → moved d)
    (hrun : readFile image proc fd buffer size k = some (ret, k')) :
  SameData moved k.files k'.files
  := by
  rcases readFile_cases hrun with ⟨rfl, _⟩ | ⟨i, d, c, m, hi, hd, _, _, _, rfl⟩
  · exact SameData.refl _ _
  · exact SameData.setFD (fun hx => absurd (hmoved i d hi hd) hx) (Or.inl rfl)

theorem exit_files (hrun : k.exit = some k') :
  k'.files = k.files
  := by
  obtain ⟨s, _, rfl⟩ := Kernel.exit_eq_some.mp hrun
  rfl

/-- `Exec` uses a descriptor that is not linked before and after. -/
theorem exec_keeps {filename : List UInt8} (h : Referenced k)
    (hsector : k.files.bpb.bytesPerSector ≤ pageSize)
    (hrun : exec image proc filename k = some k') :
  Keeps (fun _ => False) k.files k'.files
  := by
  obtain ⟨fd, k₁, hopen, hcases⟩ := exec_cases hrun
  have hkeeps := openFile_keeps h hsector hopen
  rcases hcases with ⟨_, hexit⟩ | ⟨m, size, ret, k₂, _, hsize, hread, hcases⟩
  · exact hkeeps.trans (SameData.of_eq (exit_files hexit))
  obtain ⟨i, hi, _⟩ := Option.bind_eq_some_iff.mp hsize
  have hnonneg := fileIndex_eq_some.mp hi
  let opened (d : ℕ) : Prop := ∃ i, fileIndex fd = some i ∧ (k₁.process proc).file i = some d
  have hunlinked : ∀ d, (k.files.fdTable d).fcb ≠ none → ¬ opened d := by
    rintro d hd ⟨j, hj, hfile⟩
    rcases openFile_cases hopen with ⟨hneg, _⟩ | ⟨found, m', _, hcase⟩
    · omega
    rcases hcase with ⟨hneg, _⟩ | ⟨fd', e, b, entry, _, he, _, _, rfl, rfl⟩
    · omega
    · obtain rfl : j = fd' := Fin.ext (Int.ofNat.inj (fileIndex_eq_some.mp hj))
      rw [setFile_file, if_pos rfl, Function.update_self] at hfile
      obtain rfl := Option.some.inj hfile
      exact hd (by simpa using List.find?_some he)
  have hread' : SameData opened ({ k₁ with memory := m } : Kernel).files k₂.files :=
    readFile_sameData (fun i d hi hd => ⟨i, hi, hd⟩) hread
  have hkeeps₂ : Keeps opened k.files k₂.files :=
    (hkeeps.mono (fun _ _ hfalse => hfalse.elim)).trans hread'
  have hend : Keeps opened k.files k'.files := by
    rcases hcases with ⟨_, hexit⟩ | ⟨k₃, hclose, rfl⟩
    · exact hkeeps₂.trans (SameData.of_eq (exit_files hexit))
    · have hclose' : SameData opened k₂.files k₃.files := closeFile_sameData hclose
      exact hkeeps₂.trans hclose'
  exact hend.mono hunlinked

/-- Every step keeps the linked descriptors, except that a read moves its descriptor. -/
theorem Referenced.step_keeps (h : Referenced k) (hq : Consistent k.scheduler)
    (hsector : k.files.bpb.bytesPerSector ≤ pageSize) (hrun : k.step image op = some k') :
  Keeps (k.Reads op) k.files k'.files
  := by
  obtain ⟨q, hq⟩ := hq
  have hsame (hfiles : k'.files = k.files) : Keeps (k.Reads op) k.files k'.files :=
    Keeps.of_sameData (SameData.of_eq hfiles)
  have hschedule {run : Scheduler → Option Scheduler} (hrun : k.schedule run = some k') :
      k'.files = k.files := by
    obtain ⟨s, _, rfl⟩ := Kernel.schedule_eq_some.mp hrun
    rfl
  cases op with
  | yield => exact hsame (hschedule hrun)
  | sleep waitId => exact hsame (hschedule hrun)
  | wakeup waitId => exact hsame (hschedule hrun)
  | exit => exact hsame (exit_files hrun)
  | wait pid =>
      rcases hq.wait hrun with ⟨i, _, hdrop, _⟩ | ⟨_, s, _, rfl⟩
      · exact Keeps.of_sameData (SameData.dropReferences hdrop)
      · exact hsame rfl
  | fork =>
      obtain ⟨⟨ret, k₁⟩, hfork, rfl⟩ := Option.map_eq_some_iff.mp hrun
      obtain ⟨new, _, hcases⟩ := hq.fork hfork
      rcases hcases with ⟨_, hfiles, _⟩ | ⟨i, _, _, hadd, _⟩
      · exact hsame hfiles
      · exact Keeps.of_sameData (SameData.addReferences hadd)
  | openFile fileName =>
      obtain ⟨⟨ret, k₁⟩, hopen, rfl⟩ := Option.map_eq_some_iff.mp hrun
      exact (openFile_keeps h hsector hopen).mono (fun _ _ hfalse => hfalse.elim)
  | closeFile fd => exact Keeps.of_sameData (closeFile_sameData hrun)
  | readFile fd buffer size =>
      obtain ⟨⟨ret, k₁⟩, hread, rfl⟩ := Option.map_eq_some_iff.mp hrun
      apply Keeps.of_sameData
      apply readFile_sameData _ hread
      exact fun i d hi hd => ⟨fd, buffer, size, i, rfl, hi, hd⟩
  | lstat statbuf =>
      obtain ⟨⟨ret, k₁⟩, hlstat, rfl⟩ := Option.map_eq_some_iff.mp hrun
      obtain ⟨⟨total, m⟩, _, hk⟩ := Option.bind_eq_some_iff.mp hlstat
      obtain ⟨_, rfl⟩ := Prod.mk.inj (Option.some.inj hk)
      exact hsame rfl
  | exec filename => exact (exec_keeps h hsector hrun).mono (fun _ _ hfalse => hfalse.elim)
  | store v c =>
      rw [Kernel.step, Kernel.store] at hrun
      split at hrun
      · obtain rfl := Option.some.inj hrun
        exact hsame rfl
      · exact hsame (exit_files hrun)
  | push offset c =>
      rw [Kernel.step, Kernel.push] at hrun
      split at hrun
      · obtain rfl := Option.some.inj hrun
        exact hsame rfl
      · cases hrun

/-! ### The cached data -/

theorem FileSystem.SameDisk.rootEntries {files files' : FileSystem} (h : SameDisk files files') :
  files'.rootEntries = files.rootEntries ∧ files'.rootEntry = files.rootEntry
    ∧ files'.indexed = files.indexed
  := by
  cases files
  cases files'
  obtain ⟨rfl, rfl, rfl, rfl⟩ := h
  exact ⟨rfl, rfl, rfl⟩

/-- A step keeps the agreement of the cached data with the directory. -/
theorem Cached.of_keeps {moved : ℕ → Prop} (hcached : Cached k.files) (h : Referenced k)
    (h' : Referenced k') (hkeeps : Keeps moved k.files k'.files) :
  Cached k'.files
  := by
  intro c hc e he hindexed
  obtain ⟨hentries, hentry, hindex⟩ := hkeeps.disk.rootEntries
  rw [hentries] at he
  rw [hindex] at hindexed
  rw [hentry]
  obtain ⟨d, hd⟩ := (h'.openCount_pos c).mp hc
  rcases hkeeps.fresh d c hd with ⟨d', hd'⟩ | ⟨e', he', hindexed', hsize, hcluster⟩
  · obtain ⟨hsize, hcluster⟩ := hcached c ((h.openCount_pos c).mpr ⟨d', hd'⟩) e he hindexed
    exact ⟨(hkeeps.fileSize d' c hd').trans hsize, (hkeeps.startCluster d' c hd').trans hcluster⟩
  · obtain rfl : e' = e := indexed_injective he' he (hindexed'.trans hindexed.symm)
    exact ⟨hsize, hcluster⟩

/-- In every reachable state the cached data of open files agrees with the directory. -/
theorem Reachable.cached {Ok : Operation → Kernel → Prop} {k₀ : Kernel}
    (hok : ∀ op k, Ok op k → Allowed op k) (hq : Consistent k₀.scheduler) (h₀ : Referenced k₀)
    (hsector : k₀.files.bpb.bytesPerSector ≤ pageSize) (hcached : Cached k₀.files)
    (h : Reachable (Kernel.step image) Ok k₀ k) :
  SameDisk k₀.files k.files ∧ Cached k.files
  := by
  induction h with
  | refl => exact ⟨SameDisk.refl _, hcached⟩
  | step op hreach hop hrun ih =>
      obtain ⟨hdisk, hcached⟩ := ih
      obtain ⟨hq₁, href₁⟩ := Reachable.referenced hok hq h₀ hreach
      have href₂ := href₁.step hq₁ (hok _ _ hop) hrun
      have hkeeps := href₁.step_keeps hq₁ (hdisk.bpb ▸ hsector) hrun
      exact ⟨hdisk.trans hkeeps.disk, hcached.of_keeps href₁ href₂ hkeeps⟩

end LarvaOS
