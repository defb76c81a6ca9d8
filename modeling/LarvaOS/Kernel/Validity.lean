import LarvaOS.Kernel.Delivery
import LarvaOS.Kernel.SystemCalls

/-!
# The descriptor numbers of a process

A descriptor number is valid in a process when `Open` returned it to the process, or the
process got it from its parent through `Fork`, and it was not closed since.  The history of
a run says which numbers are valid, and in every state they are the numbers of the files that
are not null.  So `Read` and `Close` act on a descriptor only through a valid number, but a
number that is not an index of the files makes them access memory outside of the array.
-/

namespace LarvaOS

variable {image : Image} {k k' : Kernel} {q : Queues} {op : Operation} {i : Slot}

/-- A state of the kernel and the descriptor numbers that the history makes valid. -/
structure Tracked where
  kernel : Kernel
  valid : Slot → Int → Bool

/-- The number that the `Open` in an operation returns, when it succeeds. -/
def Kernel.opens (image : Image) (k : Kernel) (op : Operation) : Option Int :=
  let opened := fun fileName =>
    ((openFile image k.currentProc fileName k).map Prod.fst).filter (fun fd => 0 ≤ fd)
  match op with
  | .openFile fileName => opened fileName
  | .exec filename => opened filename
  | _ => none

/-- The valid numbers after an operation that leads from `k` to `k'`.  `Exec` closes the
number that its `Open` returned, unless it kills the process. -/
def Kernel.validAfter (image : Image) (k k' : Kernel) (op : Operation)
    (valid : Slot → Int → Bool) (i : Slot) (n : Int) : Bool :=
  match op with
  | .openFile _ => valid i n || (i = k.currentProc && k.opens image op = some n)
  | .closeFile fd => valid i n && !(i = k.currentProc && n = fd)
  | .exec _ => valid i n || (i = k.currentProc && k.opens image op = some n
      && (k'.process i).state = .killed)
  | .fork =>
      if (k.process i).state = .unused ∧ (k'.process i).state = .ready then valid k.currentProc n
      else valid i n
  | .wait _ => valid i n && (k'.process i).state ≠ .unused
  | _ => valid i n

namespace Tracked

/-- A step of the system, with the history of the descriptor numbers. -/
def step (image : Image) (op : Operation) (t : Tracked) : Option Tracked :=
  (t.kernel.step image op).map (fun k' => ⟨k', t.kernel.validAfter image k' op t.valid⟩)

/-- No descriptor number is valid when the system starts. -/
def start (k : Kernel) : Tracked := ⟨k, fun _ _ => false⟩

/-- The valid numbers are the indices of the files that are not null. -/
def Valid (t : Tracked) : Prop :=
  ∀ i n, t.valid i n = true ↔ ∃ fd, fileIndex n = some fd ∧ (t.kernel.process i).file fd ≠ none

end Tracked

/-! ### The history agrees with the files -/

/-- The files of a process after one of them is replaced. -/
theorem exists_file_update {file : Fin processMaximumFileDescriptor → Option ℕ} {n : Int}
    {fd : Fin processMaximumFileDescriptor} {d : Option ℕ} :
  (∃ x, fileIndex n = some x ∧ Function.update file fd d x ≠ none)
    ↔ if n = fd.val then d ≠ none else ∃ x, fileIndex n = some x ∧ file x ≠ none
  := by
  split
  case isTrue heq =>
    have hindex : fileIndex n = some fd := fileIndex_eq_some.mpr heq.symm
    constructor
    · rintro ⟨x, hx, hupdate⟩
      obtain rfl := Option.some.inj (hindex.symm.trans hx)
      rwa [Function.update_self] at hupdate
    · intro hd
      use fd, hindex
      rwa [Function.update_self]
  case isFalse hne =>
    have hother : ∀ x, fileIndex n = some x → x ≠ fd := by
      rintro x hx rfl
      exact hne (fileIndex_eq_some.mp hx).symm
    constructor
    · rintro ⟨x, hx, hupdate⟩
      rw [Function.update_of_ne (hother x hx)] at hupdate
      exact ⟨x, hx, hupdate⟩
    · rintro ⟨x, hx, hfile⟩
      use x, hx
      rwa [Function.update_of_ne (hother x hx)]

/-- The number that `Open` chooses has no file. -/
theorem userFds_find_none {p : Process} {fd : Fin processMaximumFileDescriptor}
    (h : userFds.find? (fun i => p.file i = none) = some fd) :
  p.file fd = none
  := by simpa using List.find?_some h

/-- What `Open` does to the files of the processes. -/
theorem openFile_file {proc : Slot} {fileName : List UInt8} {ret : Int}
    (hrun : openFile image proc fileName k = some (ret, k')) :
  ret < 0 ∧ k'.scheduler = k.scheduler
    ∨ ∃ fd d, ret = fd.val ∧ (k.process proc).file fd = none
      ∧ k'.scheduler = (k.setFile proc fd (some d)).scheduler
  := by
  rcases openFile_cases hrun with ⟨hneg, rfl⟩ | ⟨found, m, _, hcase⟩
  · exact Or.inl ⟨hneg, rfl⟩
  rcases hcase with ⟨hneg, rfl⟩ | ⟨fd, d, c, entry, hfd, _, _, _, hret, rfl⟩
  · exact Or.inl ⟨hneg, rfl⟩
  · right
    exact ⟨fd, d, hret, userFds_find_none hfd, rfl⟩

/-- `Exit` kills the current process, and leaves its files open. -/
theorem exit_file (hq : Queued k.scheduler q (some k.currentProc) none)
    (hidle : k.currentProc ≠ idleSlot) (hrun : k.exit = some k') :
  (k'.process k.currentProc).state = .killed ∧ ∀ i, (k'.process i).file = (k.process i).file
  := by
  obtain ⟨s, hs, rfl⟩ := Kernel.exit_eq_some.mp hrun
  obtain ⟨s', hexit, _, hres, _, hq'⟩ := hq.exit hidle
  obtain rfl := Option.some.inj (hs.symm.trans hexit)
  have hmem : k.currentProc ∈ (Queued.exited k.scheduler q).tail .killProcList := by
    rw [Queues.tail_of_ne (by simp), Queued.exited, Queues.wake, Queues.push_self]
    exact List.mem_append_right _ List.mem_cons_self
  exact ⟨hq'.state .killProcList _ hmem (by simp), hres.file⟩

/-- `Exec` leaves the files of the processes as they are, unless it opens the program and
kills the process: then the program stays open. -/
theorem exec_file {filename : List UInt8} (hq : Queued k.scheduler q (some k.currentProc) none)
    (hidle : k.currentProc ≠ idleSlot)
    (hrun : exec image k.currentProc filename k = some k') :
  ∃ ret k₁, openFile image k.currentProc filename k = some (ret, k₁)
    ∧ (0 ≤ ret ∧ (k'.process k.currentProc).state = .killed
        ∧ (∀ i, (k'.process i).file = (k₁.process i).file)
      ∨ (ret < 0 ∨ (k'.process k.currentProc).state ≠ .killed)
        ∧ ∀ i, (k'.process i).file = (k.process i).file)
  := by
  obtain ⟨fd, k₁, hopen, hcase⟩ := exec_cases hrun
  use fd, k₁, hopen
  have honly := openFile_onlyFiles hq.current_used hopen
  have hcurrent : k₁.currentProc = k.currentProc := honly.currentProc
  have hq₁ := honly.queued hq
  rw [← hcurrent] at hq₁
  rcases hcase with ⟨hneg, hexit⟩ | ⟨m, size, ret, k₂, _, _, hread, hcase⟩
  · right
    obtain ⟨_, hfile⟩ := exit_file hq₁ (hcurrent ▸ hidle) hexit
    rcases openFile_file hopen with ⟨_, hsame⟩ | ⟨fd', _, rfl, _⟩
    · refine ⟨Or.inl hneg, fun i => ?_⟩
      rw [hfile, Kernel.process, hsame]
    · omega
  have hscheduler := readFile_scheduler hread
  obtain ⟨i, hi, _⟩ := Option.bind_eq_some_iff.mp hread
  have hpos : 0 ≤ fd := by
    rw [← fileIndex_eq_some.mp hi]
    exact Int.natCast_nonneg _
  rcases openFile_file hopen with ⟨hneg, _⟩ | ⟨fd', d, rfl, hnone, hset⟩
  · omega
  rcases hcase with ⟨_, hexit⟩ | ⟨k₃, hclose, rfl⟩
  · left
    have hcurrent₂ : k₂.currentProc = k₁.currentProc := congrArg (·.currentProc) hscheduler
    have hq₂ : Queued k₂.scheduler q (some k₂.currentProc) none := by
      rw [hscheduler, hcurrent₂]
      exact hq₁
    rw [hcurrent] at hcurrent₂
    obtain ⟨hkilled, hfile⟩ := exit_file hq₂ (hcurrent₂ ▸ hidle) hexit
    rw [hcurrent₂] at hkilled
    refine ⟨hpos, hkilled, fun i => ?_⟩
    rw [hfile, Kernel.process, hscheduler]
  · right
    have hsame : (startExec k.currentProc k₃).scheduler = k.scheduler := by
      have hset₂ : k₂.scheduler = (k.setFile k.currentProc fd' (some d)).scheduler :=
        hscheduler.trans hset
      obtain ⟨j, hj, hclose⟩ := Option.bind_eq_some_iff.mp hclose
      obtain rfl : fd' = j := Fin.ext (Int.ofNat.inj (fileIndex_eq_some.mp hj)).symm
      have hfile : (k₂.process k.currentProc).file fd' = some d := by
        rw [Kernel.process, hset₂]
        exact (congrFun (setFile_file fd' (some d) k.currentProc) fd').trans
          (by rw [if_pos rfl, Function.update_self])
      rw [hfile] at hclose
      obtain ⟨_, _, hclose⟩ := Option.bind_eq_some_iff.mp hclose
      obtain ⟨_, _, hclose⟩ := Option.bind_eq_some_iff.mp hclose
      obtain ⟨files, _, hclose⟩ := Option.bind_eq_some_iff.mp hclose
      obtain rfl := Option.some.inj hclose
      exact @setFile_none k { k₂ with files := files } d k.currentProc fd' hnone hset₂
    have hrunning := (hq.running k.currentProc hidle (by simp)).mpr rfl
    constructor
    · right
      rw [Kernel.process, hsame, hrunning]
      simp
    · intro i
      rw [Kernel.process, hsame]

/-- The number that the `Open` in an operation returns. -/
theorem Kernel.opens_eq {opened : Option (Int × Kernel)} {ret : Int} (n : Int)
    (h : opened = some (ret, k')) :
  ((opened.map Prod.fst).filter (fun fd => 0 ≤ fd) = some n) ↔ 0 ≤ ret ∧ n = ret
  := by
  rw [h, Option.map_some, Option.filter_some]
  by_cases hpos : 0 ≤ ret
  · simp [hpos, eq_comm]
  · simp [hpos]

namespace Tracked

variable {t t' : Tracked}

/-- An operation that changes no file and no valid number. -/
theorem Valid.keep (h : t.Valid) (hvalid : ∀ i n, t'.valid i n = t.valid i n)
    (hfile : ∀ i, (t'.kernel.process i).file = (t.kernel.process i).file) :
  t'.Valid
  := by
  intro i n
  rw [hvalid, hfile]
  exact h i n

/-- A number whose file is set becomes valid, and a number whose file is cleared is not valid
any more. -/
theorem Valid.setFile (h : t.Valid) (proc : Slot) (fd : Fin processMaximumFileDescriptor)
    (d : Option ℕ)
    (hvalid : ∀ i n, t'.valid i n
      = if i = proc ∧ n = fd.val then d.isSome else t.valid i n)
    (hfile : ∀ i, (t'.kernel.process i).file = ((t.kernel.setFile proc fd d).process i).file) :
  t'.Valid
  := by
  intro i n
  rw [hvalid, hfile, setFile_file]
  by_cases hi : i = proc
  · subst hi
    rw [if_pos rfl, exists_file_update]
    by_cases hn : n = fd.val
    · rw [if_pos ⟨rfl, hn⟩, if_pos hn, Option.isSome_iff_ne_none]
    · rw [if_neg (fun hand => hn hand.2), if_neg hn]
      exact h i n
  · rw [if_neg hi, if_neg (fun hand => hi hand.1)]
    exact h i n

/-- A process without files has no valid number. -/
theorem Valid.none (h : t.Valid) (hfile : (t.kernel.process i).file = fun _ => none) (n : Int) :
  t.valid i n = false
  := by
  rw [← Bool.not_eq_true, h i n, hfile]
  rintro ⟨_, _, hne⟩
  exact hne rfl

/-- An operation of the scheduler. -/
theorem Valid.schedule {run : Scheduler → Option Scheduler} {s : Scheduler} (h : t.Valid)
    (hs : run t.kernel.scheduler = some s) (hres : SameResources t.kernel.scheduler s)
    (hrun : t.kernel.schedule run = some k') :
  Valid ⟨k', t.valid⟩
  := by
  obtain ⟨s', hs', rfl⟩ := Kernel.schedule_eq_some.mp hrun
  obtain rfl := Option.some.inj (hs.symm.trans hs')
  exact h.keep (fun _ _ => rfl) hres.file

/-- `Open` makes the number that it returns valid. -/
theorem Valid.openFile {fileName : List UInt8} {ret : Int} {valid : Slot → Int → Bool}
    (h : t.Valid)
    (hrun : LarvaOS.openFile image t.kernel.currentProc fileName t.kernel = some (ret, k'))
    (hvalid : ∀ i n, valid i n
      = (t.valid i n || (i = t.kernel.currentProc && (0 ≤ ret ∧ n = ret : Bool)))) :
  Valid ⟨k', valid⟩
  := by
  rcases openFile_file hrun with ⟨hneg, hsame⟩ | ⟨fd, d, rfl, _, hset⟩
  · apply h.keep
    · intro i n
      have hret : ¬ (0 ≤ ret ∧ n = ret) := by omega
      dsimp only
      rw [hvalid, decide_eq_false hret, Bool.and_false, Bool.or_false]
    · intro i
      exact congrArg (fun s : Scheduler => (s.process i).file) hsame
  · apply h.setFile t.kernel.currentProc fd (some d)
    · intro i n
      dsimp only
      rw [hvalid]
      by_cases hi : i = t.kernel.currentProc
      · by_cases hn : n = fd.val
        · simp [hi, hn]
        · simp [hi, hn]
      · simp [hi]
    · intro i
      exact congrArg (fun s : Scheduler => (s.process i).file) hset

/-- `Close` makes the number that it closes invalid. -/
theorem Valid.closeFile {fd : Int} (h : t.Valid)
    (hrun : LarvaOS.closeFile t.kernel.currentProc fd t.kernel = some k') :
  Valid ⟨k', t.kernel.validAfter image k' (.closeFile fd) t.valid⟩
  := by
  obtain ⟨i, hi, hclose⟩ := Option.bind_eq_some_iff.mp hrun
  obtain rfl := fileIndex_eq_some.mp hi
  apply h.setFile t.kernel.currentProc i Option.none
  · intro j n
    dsimp only [Kernel.validAfter]
    by_cases hj : j = t.kernel.currentProc
    · by_cases hn : n = i.val
      · simp [hj, hn]
      · simp [hj, hn]
    · simp [hj]
  · intro j
    rw [setFile_file]
    cases hfile : (t.kernel.process t.kernel.currentProc).file i with
    | none =>
        rw [hfile] at hclose
        obtain rfl := Option.some.inj hclose
        rw [← hfile, Function.update_eq_self]
        split
        case isTrue hj => rw [hj]
        case isFalse => rfl
    | some d =>
        rw [hfile] at hclose
        obtain ⟨_, _, hclose⟩ := Option.bind_eq_some_iff.mp hclose
        obtain ⟨_, _, hclose⟩ := Option.bind_eq_some_iff.mp hclose
        obtain ⟨files, _, hclose⟩ := Option.bind_eq_some_iff.mp hclose
        obtain rfl := Option.some.inj hclose
        exact @setFile_file { t.kernel with files := files } t.kernel.currentProc i Option.none j

/-- `Exec` changes no valid number, or kills the process with the program open. -/
theorem Valid.exec {filename : List UInt8} (h : t.Valid)
    (hq : Queued t.kernel.scheduler q (some t.kernel.currentProc) Option.none)
    (hidle : t.kernel.currentProc ≠ idleSlot)
    (hrun : LarvaOS.exec image t.kernel.currentProc filename t.kernel = some k') :
  Valid ⟨k', t.kernel.validAfter image k' (.exec filename) t.valid⟩
  := by
  obtain ⟨ret, k₁, hopen, hcase⟩ := exec_file hq hidle hrun
  have hopens : ∀ n, t.kernel.opens image (.exec filename) = some n ↔ 0 ≤ ret ∧ n = ret :=
    fun n => Kernel.opens_eq n hopen
  rcases hcase with ⟨hpos, hkilled, hfile⟩ | ⟨hcase, hfile⟩
  · have hmid : Valid ⟨k₁, fun i n =>
        t.valid i n || (i = t.kernel.currentProc && (0 ≤ ret ∧ n = ret : Bool))⟩ :=
      h.openFile hopen (fun _ _ => rfl)
    apply hmid.keep
    · intro i n
      dsimp only [Kernel.validAfter]
      by_cases hi : i = t.kernel.currentProc
      · subst hi
        simp [hopens, hkilled]
      · simp [hi]
    · exact hfile
  · apply h.keep
    · intro i n
      dsimp only [Kernel.validAfter]
      by_cases hi : i = t.kernel.currentProc
      · subst hi
        rcases hcase with hneg | hkilled
        · have hret : ¬ (0 ≤ ret ∧ n = ret) := by omega
          simp [hopens, hret]
        · simp [hkilled]
      · simp [hi]
    · exact hfile

/-- A child gets the valid numbers of its parent. -/
theorem Valid.fork {ret : Int} (h : t.Valid)
    (hq : Queued t.kernel.scheduler q (some t.kernel.currentProc) Option.none)
    (hrun : LarvaOS.fork image t.kernel = some (ret, k')) :
  Valid ⟨k', t.kernel.validAfter image k' .fork t.valid⟩
  := by
  obtain ⟨new, hgrown, hcase⟩ := hq.fork hrun
  have hold : ∀ j, new ≠ some j →
      ¬ ((t.kernel.process j).state = .unused ∧ (k'.process j).state = .ready) := by
    rintro j hj ⟨hunused, hready⟩
    rw [Kernel.process, hgrown.process j hj, hunused] at hready
    cases hready
  intro i n
  dsimp only [Kernel.validAfter]
  by_cases hi : new = some i
  · have hunused := hgrown.unused i hi
    rcases hcase with ⟨_, _, _, hfail⟩ | ⟨j, hj, _, _, _, hready, hfile⟩
    · obtain ⟨hstate, hnone⟩ := hfail i hi
      have hzero := hq.unused i (by simp) hunused
      rw [if_neg (by simp [hstate]), h.none (congrArg Process.file hzero), hnone]
      simp
    · obtain rfl := Option.some.inj (hi.symm.trans hj)
      rw [if_pos ⟨hunused, hready⟩, hfile]
      exact h t.kernel.currentProc n
  · rw [if_neg (hold i hi), Kernel.process, hgrown.process i hi]
    exact h i n

/-- A slot that is given back has no valid number. -/
theorem Valid.wait {pid : Int} (h : t.Valid)
    (hq : Queued t.kernel.scheduler q (some t.kernel.currentProc) Option.none)
    (hidle : t.kernel.currentProc ≠ idleSlot) (hrun : t.kernel.wait image pid = some k') :
  Valid ⟨k', t.kernel.validAfter image k' (.wait pid) t.valid⟩
  := by
  have hunused : ∀ j n, (t.kernel.process j).state = .unused → t.valid j n = false := by
    intro j n hj
    exact h.none (congrArg Process.file (hq.unused j (by simp) hj)) n
  intro j n
  dsimp only [Kernel.validAfter]
  rcases hq.wait hrun with ⟨i, _, _, _, hzero, hother, _⟩ | ⟨_, s, hsleep, rfl⟩
  · by_cases hj : j = i
    · subst hj
      rw [hzero]
      simp [Process.zero]
    · rw [hother j hj]
      by_cases hstate : (t.kernel.process j).state = .unused
      · rw [← h j n, hunused j n hstate]
        simp
      · rw [← h j n]
        simp [hstate]
  · obtain ⟨s', hsleep', _, hres, _⟩ := hq.sleep hidle initProcessWaitId
    obtain rfl := Option.some.inj (hsleep.symm.trans hsleep')
    have hfile : (s.process j).file = (t.kernel.process j).file := hres.file j
    rw [Kernel.process, hfile, ← h j n]
    by_cases hstate : (t.kernel.process j).state = .unused
    · rw [hunused j n hstate]
      simp
    · have hstate' : (s.process j).state ≠ .unused := fun hs => hstate ((hres.unused j).mp hs)
      simp [hstate']

/-- Every step keeps the valid numbers in agreement with the files. -/
theorem Valid.step (h : t.Valid) (hq : Consistent t.kernel.scheduler)
    (hallowed : Allowed op t.kernel) (hrun : t.step image op = some t') :
  t'.Valid
  := by
  obtain ⟨k', hstep, rfl⟩ := Option.map_eq_some_iff.mp hrun
  obtain ⟨q, hq⟩ := hq
  cases op with
  | yield =>
      by_cases hready : q .readyProcList = []
      · exact h.schedule (hq.yield_nil hready) (SameResources.refl _) hstep
      · obtain ⟨s, hs, _, hres, _⟩ := hq.yield_cons hready
        exact h.schedule hs hres hstep
  | sleep waitId =>
      obtain ⟨s, hs, _, hres, _⟩ := hq.sleep (hallowed rfl) waitId
      exact h.schedule hs hres hstep
  | wakeup waitId =>
      obtain ⟨s, hs, _, hres, _⟩ := hq.wakeup waitId
      exact h.schedule hs hres hstep
  | exit => exact h.keep (fun _ _ => rfl) (exit_file hq (hallowed rfl) hstep).2
  | wait pid => exact h.wait hq (hallowed rfl) hstep
  | fork =>
      obtain ⟨⟨ret, k₁⟩, hfork, rfl⟩ := Option.map_eq_some_iff.mp hstep
      exact h.fork hq hfork
  | openFile fileName =>
      obtain ⟨⟨ret, k₁⟩, hopen, rfl⟩ := Option.map_eq_some_iff.mp hstep
      apply h.openFile hopen
      intro i n
      dsimp only [Kernel.validAfter]
      congr 2
      exact decide_eq_decide.mpr (Kernel.opens_eq n hopen)
  | closeFile fd => exact h.closeFile hstep
  | readFile fd buffer size =>
      obtain ⟨⟨ret, k₁⟩, hread, rfl⟩ := Option.map_eq_some_iff.mp hstep
      have hscheduler := readFile_scheduler hread
      exact h.keep (fun _ _ => rfl) (fun i =>
        congrArg (fun s : Scheduler => (s.process i).file) hscheduler)
  | lstat statbuf =>
      obtain ⟨⟨ret, k₁⟩, hlstat, rfl⟩ := Option.map_eq_some_iff.mp hstep
      obtain ⟨⟨total, m⟩, _, hk⟩ := Option.bind_eq_some_iff.mp hlstat
      obtain ⟨_, rfl⟩ := Prod.mk.inj (Option.some.inj hk)
      exact h.keep (fun _ _ => rfl) (fun _ => rfl)
  | exec filename => exact h.exec hq (hallowed rfl) hstep
  | store v c =>
      rw [Kernel.step, Kernel.store] at hstep
      split at hstep
      · obtain rfl := Option.some.inj hstep
        exact h.keep (fun _ _ => rfl) (fun _ => rfl)
      · exact h.keep (fun _ _ => rfl) (exit_file hq (hallowed rfl) hstep).2
  | push offset c =>
      rw [Kernel.step, Kernel.push] at hstep
      split at hstep
      · obtain rfl := Option.some.inj hstep
        exact h.keep (fun _ _ => rfl) (fun _ => rfl)
      · cases hstep

end Tracked

/-! ### Runs -/

/-- The history does not restrict the runs of the system. -/
theorem Reachable.tracked {k₀ : Kernel} (h : Reachable (Kernel.step image) (InBounds image) k₀ k) :
  ∃ valid, Reachable (Tracked.step image) (fun op t => InBounds image op t.kernel)
    (Tracked.start k₀) ⟨k, valid⟩
  := by
  induction h with
  | refl => exact ⟨_, .refl⟩
  | step op _ hbounds hrun ih =>
      obtain ⟨valid, hreach⟩ := ih
      exact ⟨_, .step op hreach hbounds (congrArg (Option.map _) hrun)⟩

/-- In every state of a run the valid numbers are the indices of the files that are not null. -/
theorem Reachable.valid {k₀ : Kernel} {t : Tracked} (hq : Consistent k₀.scheduler)
    (h₀ : Referenced k₀) (hnone : ∀ i, (k₀.process i).file = fun _ => none)
    (h : Reachable (Tracked.step image) (fun op t => InBounds image op t.kernel)
      (Tracked.start k₀) t) :
  Referenced t.kernel ∧ t.Valid
  := by
  have hinv : Consistent t.kernel.scheduler ∧ Referenced t.kernel ∧ t.Valid := by
    apply h.invariant (P := fun t => Consistent t.kernel.scheduler ∧ Referenced t.kernel ∧ t.Valid)
    · rintro op t₁ t₂ ⟨⟨q, hq₁⟩, href, hvalid⟩ ⟨hallowed, _⟩ hrun
      obtain ⟨k', hstep, rfl⟩ := Option.map_eq_some_iff.mp hrun
      exact ⟨(Kernel.step_cases hq₁.current_used hallowed hstep).consistent ⟨q, hq₁⟩,
        href.step ⟨q, hq₁⟩ hallowed hstep, hvalid.step ⟨q, hq₁⟩ hallowed hrun⟩
    · refine ⟨hq, h₀, ?_⟩
      intro i n
      dsimp only [Tracked.start]
      rw [hnone i]
      simp
  exact hinv.2

/-- The descriptor number in the arguments of a call is checked: only a valid number from 3 to
99 leads to a descriptor, for every other number `SysRead` of a file returns `-EBADF` and
`SysClose` changes nothing, and the number is an index of the files. -/
structure Tracked.Checked (image : Image) (t : Tracked) (arg : Arguments) : Prop where
  user : t.valid t.kernel.currentProc (int16 (arg 0)) = true →
    userStartFd ≤ int16 (arg 0) ∧ int16 (arg 0) < processMaximumFileDescriptor
  read : t.valid t.kernel.currentProc (int16 (arg 0)) = false → int16 (arg 0) ≠ standardInput →
    sysRead image arg t.kernel = some (.returned (-ebadf) t.kernel)
  close : t.valid t.kernel.currentProc (int16 (arg 0)) = false →
    sysClose arg t.kernel = some t.kernel
  inside : ∃ i, fileIndex (int16 (arg 0)) = some i

/-- The descriptor number is checked in every state of a run in bounds if and only if it is an index of
the files. -/
theorem reachable_checked {machine : Machine} {k₀ : Kernel} {t : Tracked}
    (h₀ : kMain image machine = some k₀)
    (h : Reachable (Tracked.step image) (fun op t => InBounds image op t.kernel)
      (Tracked.start k₀) t)
    (arg : Arguments) :
  t.Checked image arg
    ↔ 0 ≤ int16 (arg 0) ∧ int16 (arg 0) < processMaximumFileDescriptor
  := by
  obtain ⟨m, files, cr3, hinit⟩ := kMain_initProcess h₀
  obtain ⟨href, hvalid⟩ := Reachable.valid (initProcess_consistent hinit) (kMain_referenced h₀)
    (initProcess_file hinit) h
  rw [← exists_fileIndex]
  constructor
  · exact fun hchecked => hchecked.inside
  · rintro ⟨i, hi⟩
    have hnone : t.valid t.kernel.currentProc (int16 (arg 0)) = false →
        (t.kernel.process t.kernel.currentProc).file i = none := by
      intro hfalse
      by_contra hne
      rw [(hvalid _ _).mpr ⟨i, hi, hne⟩] at hfalse
      cases hfalse
    constructor
    · intro htrue
      obtain ⟨j, hj, hfile⟩ := (hvalid _ _).mp htrue
      obtain ⟨d, hd⟩ := Option.ne_none_iff_exists'.mp hfile
      have huser := href.user_fd hd
      rw [← fileIndex_eq_some.mp hj]
      exact ⟨Int.ofNat_le.mpr huser, Int.ofNat_lt.mpr j.isLt⟩
    · intro hfalse hinput
      unfold sysRead
      rw [if_neg hinput, readFile, hi, Option.bind_eq_bind, Option.bind_some, hnone hfalse]
      rfl
    · intro hfalse
      rw [sysClose, closeFile, hi, Option.bind_eq_bind, Option.bind_some, hnone hfalse]
    · exact ⟨i, hi⟩

/-- The number of a file that the shell opened is valid, and calls with it are checked. -/
theorem reachable_checked_small :
  ∃ k₀ t, kMain smallImage (smallMachine 64) = some k₀
    ∧ Reachable (Tracked.step smallImage) (fun op t => InBounds smallImage op t.kernel)
      (Tracked.start k₀) t
    ∧ ∃ fd : Fin processMaximumFileDescriptor, t.valid t.kernel.currentProc fd.val = true
      ∧ ∀ arg : Arguments, int16 (arg 0) = fd.val → t.Checked smallImage arg
  := by
  obtain ⟨k₀, k, _, _, _, fd, d, _, hboot, hrun, hfile, _⟩ := smallFile
  obtain ⟨valid, htracked⟩ := Reachable.tracked hrun.reachable
  obtain ⟨m, files, cr3, hinit⟩ := kMain_initProcess hboot
  obtain ⟨_, hvalid⟩ := Reachable.valid (initProcess_consistent hinit) (kMain_referenced hboot)
    (initProcess_file hinit) htracked
  refine ⟨k₀, _, hboot, htracked, fd, ?_, ?_⟩
  · apply (hvalid _ _).mpr ⟨fd, fileIndex_eq_some.mpr rfl, _⟩
    dsimp only
    rw [hfile.file]
    simp
  · intro arg harg
    apply (reachable_checked hboot htracked arg).mpr
    rw [harg]
    exact exists_fileIndex.mp ⟨fd, fileIndex_eq_some.mpr rfl⟩

/-- The shell passes the number 100, which no `Open` returned: `SysRead` and `SysClose` access
memory behind the files of the process. -/
theorem not_checked_small :
  ∃ k₀ t, ∃ arg : Arguments, kMain smallImage (smallMachine 64) = some k₀
    ∧ Reachable (Tracked.step smallImage) (fun op t => InBounds smallImage op t.kernel)
      (Tracked.start k₀) t
    ∧ t.kernel.currentProc = 1 ∧ int16 (arg 0) = 100
    ∧ t.valid t.kernel.currentProc (int16 (arg 0)) = false
    ∧ sysRead smallImage arg t.kernel = none ∧ sysClose arg t.kernel = none
    ∧ ¬ t.Checked smallImage arg
  := by
  obtain ⟨k₀, L, hboot, hbooted⟩ := kMain_smallMachine (n := 64) (by decide) (by decide)
  obtain ⟨k, hyield, hcurrent, _⟩ := hbooted.yield
  have hreach : Reachable (Kernel.step smallImage) (InBounds smallImage) k₀ k :=
    Reachable.step .yield .refl ⟨Bool.noConfusion, fun _ => trivial⟩ hyield
  obtain ⟨valid, htracked⟩ := Reachable.tracked hreach
  obtain ⟨m, files, cr3, hinit⟩ := kMain_initProcess hboot
  obtain ⟨_, hvalid⟩ := Reachable.valid (initProcess_consistent hinit) (kMain_referenced hboot)
    (initProcess_file hinit) htracked
  have hindex : fileIndex 100 = none := by decide
  have harg : int16 ((100 : Fin (2 ^ 64)) : ℕ) = 100 := by decide
  have hclose : closeFile k.currentProc 100 k = none := by
    rw [closeFile, hindex]
    rfl
  refine ⟨k₀, _, fun _ => 100, hboot, htracked, hcurrent, harg, ?_, ?_, ?_, ?_⟩
  · rw [harg, ← Bool.not_eq_true, hvalid, hindex]
    simp
  · unfold sysRead
    rw [harg, if_neg (by decide), readFile, hindex]
    rfl
  · rw [sysClose, harg]
    exact hclose
  · intro hchecked
    obtain ⟨i, hi⟩ := hchecked.inside
    rw [harg, hindex] at hi
    cases hi

end LarvaOS
