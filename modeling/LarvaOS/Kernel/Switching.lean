import LarvaOS.Kernel.Stacks

/-!
# Switching between processes

What the steps of the kernel do to the data of `process.c` from which the processor finds the
kernel stacks: the field `rsp0` of the task state segment belongs to the current process, and the
fields `stack`, `tf` and `context` of a process do not change as long as it lives.
-/

namespace LarvaOS

variable {image : Image} {k k' : Kernel} {s s' s'' : Scheduler} {q : Queues} {xs : List ℕ}
  {L : Layout} {i : Slot} {op : Operation}

/-! ### The task state segment -/

/-- The current process and the task state segment are unchanged. -/
structure SameTSS (s s' : Scheduler) : Prop where
  rsp0 : s'.rsp0 = s.rsp0
  currentProc : s'.currentProc = s.currentProc

theorem SameTSS.trans (h : SameTSS s s') (h' : SameTSS s' s'') :
  SameTSS s s''
  := ⟨h'.rsp0.trans h.rsp0, h'.currentProc.trans h.currentProc⟩

/-- The task state segment is unchanged with the current process, or set for the current process. -/
def SetsTSS (s s' : Scheduler) : Prop :=
  SameTSS s s' ∨ s'.rsp0 = (s'.process s'.currentProc).stack + stackSize

theorem SetsTSS.after (h : SameTSS s s') (h' : SetsTSS s' s'') :
  SetsTSS s s''
  := h'.imp_left h.trans

/-- `Schedule` sets `rsp0` for the process that it chooses. -/
theorem schedule_rsp0 (h : schedule s = some s') :
  s'.rsp0 = (s'.process s'.currentProc).stack + stackSize
  := by
  unfold schedule at h
  split at h
  · obtain rfl := Option.some.inj h
    rfl
  · split at h
    · obtain rfl := Option.some.inj h
      rfl
    · cases h

theorem yield_setsTSS (h : LarvaOS.yield s = some s') :
  SetsTSS s s'
  := by
  unfold LarvaOS.yield at h
  split at h
  · obtain rfl := Option.some.inj h
    exact Or.inl ⟨rfl, rfl⟩
  · dsimp only at h
    split at h
    · obtain ⟨_, _, h⟩ := Option.bind_eq_some_iff.mp h
      exact Or.inr (schedule_rsp0 h)
    · exact Or.inr (schedule_rsp0 h)

theorem sleep_setsTSS {waitId : Int} (h : LarvaOS.sleep waitId s = some s') :
  SetsTSS s s'
  := by
  obtain ⟨_, _, h⟩ := Option.bind_eq_some_iff.mp h
  exact Or.inr (schedule_rsp0 h)

theorem pushReady_sameTSS (h : s.pushReady i = some s') :
  SameTSS s s'
  := by
  obtain ⟨_, hpush, rfl⟩ := Option.map_eq_some_iff.mp h
  obtain ⟨_, _, rfl⟩ := Option.map_eq_some_iff.mp hpush
  exact ⟨rfl, rfl⟩

theorem removeProcess_sameTSS {p : Process → Bool} {list : ListHead} {item : Option ListNode}
    (h : removeProcess p list s = some (item, s')) :
  SameTSS s s'
  := by
  obtain ⟨r, _, hr⟩ := Option.map_eq_some_iff.mp h
  obtain ⟨_, rfl⟩ := Prod.mk.inj hr
  exact ⟨rfl, rfl⟩

theorem wakeupLoop_sameTSS {waitId : Int} {n : ℕ} (h : wakeupLoop waitId n s = some s') :
  SameTSS s s'
  := by
  induction n generalizing s with
  | zero => cases h
  | succ n ih =>
      obtain ⟨⟨item, s₁⟩, hremove, h⟩ := Option.bind_eq_some_iff.mp h
      have hsame := removeProcess_sameTSS hremove
      dsimp only at h
      split at h
      · obtain rfl := Option.some.inj h
        exact hsame
      · cases h
      · obtain ⟨s₂, hpush, h⟩ := Option.bind_eq_some_iff.mp h
        have hready := (pushReady_sameTSS hpush).trans (ih h)
        exact hsame.trans ⟨hready.rsp0, hready.currentProc⟩

theorem exit_setsTSS (h : LarvaOS.exit s = some s') :
  SetsTSS s s'
  := by
  obtain ⟨_, _, h⟩ := Option.bind_eq_some_iff.mp h
  obtain ⟨_, _, h⟩ := Option.bind_eq_some_iff.mp h
  exact Or.inr (schedule_rsp0 h)

theorem Kernel.exit_setsTSS (h : k.exit = some k') :
  SetsTSS k.scheduler k'.scheduler
  := by
  obtain ⟨s, hs, rfl⟩ := Kernel.exit_eq_some.mp h
  exact LarvaOS.exit_setsTSS hs

/-! ### Files and processes -/

theorem openFile_sameTSS {proc : Slot} {fileName : List UInt8} {ret : Int}
    (h : openFile image proc fileName k = some (ret, k')) :
  SameTSS k.scheduler k'.scheduler
  := by
  rcases openFile_cases h with ⟨_, rfl⟩ | ⟨_, _, _, ⟨_, rfl⟩ | ⟨_, _, _, _, _, _, _, _, _, rfl⟩⟩
  all_goals exact ⟨rfl, rfl⟩

theorem closeFile_sameTSS {proc : Slot} {fd : Int} (h : closeFile proc fd k = some k') :
  SameTSS k.scheduler k'.scheduler
  := by
  rcases closeFile_cases h with rfl | ⟨_, _, _, _, _, _, rfl⟩
  all_goals exact ⟨rfl, rfl⟩

theorem readFile_sameTSS {proc : Slot} {fd size ret : Int} {buffer : ℕ}
    (h : readFile image proc fd buffer size k = some (ret, k')) :
  SameTSS k.scheduler k'.scheduler
  := by
  rw [readFile_scheduler h]
  exact ⟨rfl, rfl⟩

theorem exec_setsTSS {proc : Slot} {filename : List UInt8}
    (h : LarvaOS.exec image proc filename k = some k') :
  SetsTSS k.scheduler k'.scheduler
  := by
  obtain ⟨fd, k₁, hopen, hcases⟩ := exec_cases h
  have hsame := openFile_sameTSS hopen
  rcases hcases with ⟨_, hexit⟩ | ⟨m, size, ret, k₂, _, _, hread, hcases⟩
  · exact SetsTSS.after hsame (Kernel.exit_setsTSS hexit)
  · have hread' := readFile_sameTSS hread
    have hsame' : SameTSS k.scheduler k₂.scheduler := hsame.trans hread'
    rcases hcases with ⟨_, hexit⟩ | ⟨k₃, hclose, rfl⟩
    · exact SetsTSS.after hsame' (Kernel.exit_setsTSS hexit)
    · have hclose' := closeFile_sameTSS hclose
      exact Or.inl (hsame'.trans hclose')

theorem reap_sameTSS {proc : Slot} (h : reap image proc k = some k') :
  SameTSS k.scheduler k'.scheduler
  := by
  obtain ⟨_, h⟩ := assert_bind_eq_some.mp h
  obtain ⟨_, _, h⟩ := Option.bind_eq_some_iff.mp h
  obtain ⟨_, _, h⟩ := Option.bind_eq_some_iff.mp h
  obtain ⟨_, _, h⟩ := Option.bind_eq_some_iff.mp h
  obtain rfl := Option.some.inj h
  exact ⟨rfl, rfl⟩

theorem wait_setsTSS {pid : Int} (h : k.wait image pid = some k') :
  SetsTSS k.scheduler k'.scheduler
  := by
  obtain ⟨outcome, hiteration, h⟩ := Option.bind_eq_some_iff.mp h
  unfold waitIteration at hiteration
  split at hiteration
  · obtain ⟨⟨item, s⟩, hremove, hiteration⟩ := Option.bind_eq_some_iff.mp hiteration
    have hsame := removeProcess_sameTSS hremove
    dsimp only at hiteration
    split at hiteration
    · obtain rfl := Option.some.inj hiteration
      cases h
    · cases hiteration
    · obtain ⟨k₁, hreap, rfl⟩ := Option.map_eq_some_iff.mp hiteration
      obtain rfl := Option.some.inj h
      exact Or.inl (hsame.trans (reap_sameTSS hreap))
  · obtain ⟨s, hsleep, rfl⟩ := Option.map_eq_some_iff.mp hiteration
    obtain rfl := Option.some.inj h
    exact sleep_setsTSS hsleep

theorem createNewProcess_sameTSS {new : Option Slot}
    (h : createNewProcess image k = some (new, k')) :
  SameTSS k.scheduler k'.scheduler
  := by
  obtain ⟨_, ⟨_, rfl, _⟩ | ⟨i, _, hcase⟩⟩ := createNewProcess_cases h
  · exact ⟨rfl, rfl⟩
  · rcases hcase with ⟨_, hs⟩ | ⟨_, _, hs⟩ | ⟨_, _, _, hs⟩
    all_goals
      rw [hs]
      exact ⟨rfl, rfl⟩

theorem startFork_sameTSS {proc current : Slot} (h : startFork proc current k = some k') :
  SameTSS k.scheduler k'.scheduler
  := by
  obtain ⟨_, _, h⟩ := Option.bind_eq_some_iff.mp h
  obtain ⟨s, hpush, h⟩ := Option.bind_eq_some_iff.mp h
  obtain rfl := Option.some.inj h
  have hsame := pushReady_sameTSS hpush
  exact ⟨hsame.rsp0, hsame.currentProc⟩

theorem fork_sameTSS {ret : Int} (h : LarvaOS.fork image k = some (ret, k')) :
  SameTSS k.scheduler k'.scheduler
  := by
  obtain ⟨new, k₁, hcreate, hcase⟩ := fork_cases h
  have hsame := createNewProcess_sameTSS hcreate
  rcases hcase with ⟨_, _, rfl⟩ | ⟨i, copied, m, _, _, ⟨_, _, rfl⟩ | ⟨_, hstart, _⟩⟩
  · exact hsame
  · exact hsame
  · have hstart' := startFork_sameTSS hstart
    exact hsame.trans hstart'

/-- Every step of the kernel keeps `rsp0` with the current process. -/
theorem Kernel.step_setsTSS (hop : op.entersKernel) (h : k.step image op = some k') :
  SetsTSS k.scheduler k'.scheduler
  := by
  cases op with
  | yield =>
      obtain ⟨s, hs, rfl⟩ := Kernel.schedule_eq_some.mp h
      exact yield_setsTSS hs
  | sleep waitId =>
      obtain ⟨s, hs, rfl⟩ := Kernel.schedule_eq_some.mp h
      exact sleep_setsTSS hs
  | wakeup waitId =>
      obtain ⟨s, hs, rfl⟩ := Kernel.schedule_eq_some.mp h
      exact Or.inl (wakeupLoop_sameTSS hs)
  | exit => exact Kernel.exit_setsTSS h
  | wait pid => exact wait_setsTSS h
  | fork =>
      obtain ⟨⟨ret, k₁⟩, hfork, rfl⟩ := Option.map_eq_some_iff.mp h
      exact Or.inl (fork_sameTSS hfork)
  | openFile fileName =>
      obtain ⟨⟨ret, k₁⟩, hopen, rfl⟩ := Option.map_eq_some_iff.mp h
      exact Or.inl (openFile_sameTSS hopen)
  | closeFile fd => exact Or.inl (closeFile_sameTSS h)
  | readFile fd buffer size =>
      obtain ⟨⟨ret, k₁⟩, hread, rfl⟩ := Option.map_eq_some_iff.mp h
      exact Or.inl (readFile_sameTSS hread)
  | lstat statbuf =>
      obtain ⟨⟨ret, k₁⟩, hlstat, rfl⟩ := Option.map_eq_some_iff.mp h
      obtain ⟨⟨total, m⟩, _, hk⟩ := Option.bind_eq_some_iff.mp hlstat
      obtain ⟨rfl, rfl⟩ := Prod.mk.inj (Option.some.inj hk)
      exact Or.inl ⟨rfl, rfl⟩
  | exec filename => exact exec_setsTSS h
  | store v c => cases hop
  | push offset c => cases hop

/-! ### Live processes -/

/-- The kernel stack of a process, its trap frame and its context are at the same addresses. -/
structure SameFrame (k k' : Kernel) (i : Slot) : Prop where
  stack : (k'.process i).stack = (k.process i).stack
  tf : (k'.process i).tf = (k.process i).tf
  context : (k'.process i).context = (k.process i).context

theorem SameFrame.of_process (h : k'.process i = k.process i) :
  SameFrame k k' i
  := by
  constructor
  all_goals rw [h]

theorem SameFrame.of_resources (h : (k'.process i).resources = (k.process i).resources) :
  SameFrame k k' i
  where
  stack := (congrArg Process.stack h :)
  tf := (congrArg Process.tf h :)
  context := (congrArg Process.context h :)

theorem SameFrame.of_onlyFiles (h : OnlyFiles k.scheduler k'.scheduler) :
  SameFrame k k' i
  := by
  obtain ⟨file, hfile⟩ := h.process i
  have hprocess : k'.process i = { k.process i with file := file } := hfile
  constructor
  all_goals rw [hprocess]

theorem SameFrame.stackBase (h : SameFrame k k' i) :
  k'.stackBase i = k.stackBase i
  := by
  unfold Kernel.stackBase
  rw [h.stack]

/-- A process that `Fork` has made: its first context leads to `TrapReturn`, and its trap frame is
the one of its parent with zero in `rax`. -/
structure Kernel.Child (image : Image) (k k' : Kernel) (i : Slot) : Prop where
  parent : k.currentProc ≠ idleSlot
  context : (k'.process i).context = contextAddress (k'.process i).stack
  returns : k'.memory.bytes.readWord (contextAddress (k'.process i).stack + 6 * 8)
    = image.trapReturn
  frame : TrapFrame.load k'.memory.bytes (k'.process i).tf
    = { TrapFrame.load k.memory.bytes (k.process k.currentProc).tf with rax := 0 }

/-- The word 14 of a trap frame is `rax`. -/
theorem TrapFrame.ofWords_rax (w : ℕ → ℕ) (v : ℕ) :
  ofWords (fun i => if i = 14 then v else w i) = { ofWords w with rax := v }
  := rfl

/-- A frame that was copied, apart from `rax`. -/
theorem TrapFrame.load_copied {b b' : Bytes} {a a' v : ℕ}
    (hbytes : ∀ j, j < sizeofTrapFrame → j < 112 ∨ 120 ≤ j → b' (a' + j) = b (a + j))
    (hrax : b'.readWord (a' + 112) = v) :
  load b' a' = { load b a with rax := v }
  := by
  rw [load, load, ← ofWords_rax]
  apply ofWords_congr
  intro i hi
  split
  · rename_i e
    rw [e, hrax]
  · rename_i e
    apply Bytes.read_shift
    intro o ho
    rw [Nat.add_assoc, Nat.add_assoc]
    apply hbytes
    · unfold sizeofTrapFrame
      omega
    · omega

/-- A slot had its kernel stack before. -/
def Kept (k k' : Kernel) (i : Slot) : Prop := k.HasStack i ∧ SameFrame k k' i

theorem Kept.trans {k₁ : Kernel} (h : Kept k k₁ i) (h' : Kept k₁ k' i) :
  Kept k k' i
  := ⟨h.1, h'.2.stack.trans h.2.stack, h'.2.tf.trans h.2.tf, h'.2.context.trans h.2.context⟩

theorem Kept.of_process (hi : k'.HasStack i) (h : k'.process i = k.process i) :
  Kept k k' i
  := ⟨hi.imp_right (Owned.SamePages.of_process h).live.mp, SameFrame.of_process h⟩

theorem Kept.of_resources (hi : k'.HasStack i) (h : SameResources k.scheduler k'.scheduler) :
  Kept k k' i
  := by
  constructor
  · apply hi.imp_right
    rintro ⟨hidle, hunused, hinitialized⟩
    exact ⟨hidle, (h.unused i).not.mp hunused, (h.initialized i).not.mp hinitialized⟩
  · exact SameFrame.of_resources (h.resources i)

theorem Kept.of_onlyFiles (hi : k'.HasStack i) (h : OnlyFiles k.scheduler k'.scheduler) :
  Kept k k' i
  := ⟨hi.imp_right (h.samePages i).live.mp, SameFrame.of_onlyFiles h⟩

namespace Owned

/-- The child of `Fork`. -/
theorem child {ys : List ℕ} {stack : ℕ} {S : Space} (h : Copied image k k' xs ys L q i stack S)
    (hidle : k.currentProc ≠ idleSlot)
    (hreturns : k'.memory.bytes.readWord (contextAddress stack + 6 * 8) = image.trapReturn) :
  k.Child image k' i
  := by
  have hchild := h.forked.child
  rw [newProcess_process] at hchild
  have hstack : (k'.process i).stack = stack := by rw [hchild]
  have htf : (k'.process i).tf = trapFrameAddress stack := by rw [hchild]
  constructor
  · exact hidle
  · rw [hchild]
  · rwa [hstack]
  · rw [htf]
    exact TrapFrame.load_copied h.forked.frame h.forked.rax

end Owned

/-- What a step does to the processes: it changes files and schedules, or it changes none, or it
clears one, or it uses a slot. -/
inductive ProcessStep (image : Image) (k k' : Kernel) : Prop where
  | schedules (s : Scheduler) (hfiles : OnlyFiles k.scheduler s)
      (hresources : SameResources s k'.scheduler)
  | keeps (hcurrent : k'.currentProc = k.currentProc) (hall : ∀ i, k'.process i = k.process i)
  | reaps (i : Slot) (hidle : i ≠ idleSlot) (hcurrent : k'.currentProc = k.currentProc)
      (hzero : k'.process i = Process.zero) (hothers : ∀ j, j ≠ i → k'.process j = k.process j)
  | creates (i : Slot) (hidle : i ≠ idleSlot) (hcurrent : k'.currentProc = k.currentProc)
      (hunused : (k.process i).state = .unused) (hnew : ¬ k'.Live i ∨ k.Child image k' i)
      (hothers : ∀ j, j ≠ i → k'.process j = k.process j)

theorem ProcessStep.of_resources (h : SameResources k.scheduler k'.scheduler) :
  ProcessStep image k k'
  := .schedules k.scheduler (OnlyFiles.refl _) h

/-- Every step is of one of these kinds. -/
theorem Owned.processStep (h : Owned image k xs L)
    (hq : Queued k.scheduler q (some k.currentProc) none) (hallowed : Allowed op k)
    (hrun : k.step image op = some k') :
  ProcessStep image k k'
  := by
  cases Kernel.step_cases hq.current_used hallowed hrun with
  | yield hyield =>
      by_cases hready : q .readyProcList = []
      · have hsame := Option.some.inj ((hq.yield_nil hready).symm.trans hyield)
        exact .of_resources (hsame ▸ SameResources.refl _)
      · obtain ⟨s', hrun', _, hres, _⟩ := hq.yield_cons hready
        obtain rfl := Option.some.inj (hrun'.symm.trans hyield)
        exact .of_resources hres
  | wakeup waitId hwakeup =>
      obtain ⟨s', hrun', _, hres, _⟩ := hq.wakeup waitId
      obtain rfl := Option.some.inj (hrun'.symm.trans hwakeup)
      exact .of_resources hres
  | sleep waitId _ hidle hsleep =>
      obtain ⟨s', hrun', _, hres, _⟩ := hq.sleep hidle waitId
      obtain rfl := Option.some.inj (hrun'.symm.trans hsleep)
      exact .of_resources hres
  | files hfiles => exact .schedules k'.scheduler hfiles (SameResources.refl _)
  | exit s hidle hfiles hexit =>
      have hqs := hfiles.queued hq
      have hcurrent : s.currentProc = k.currentProc := hfiles.currentProc
      rw [← hcurrent] at hqs hidle
      obtain ⟨s', hrun', _, hres, _⟩ := hqs.exit hidle
      obtain rfl := Option.some.inj (hrun'.symm.trans hexit)
      exact .schedules s hfiles hres
  | wait pid _ hidle hwait =>
      rcases hq.wait hwait with ⟨i, hmem, _, hcurrent, hzero, hothers, _⟩ | ⟨_, s, hsleep, rfl⟩
      · exact .reaps i (fun e => hq.idle .killProcList (e ▸ hmem)) hcurrent hzero hothers
      · obtain ⟨s', hrun', _, hres, _⟩ := hq.sleep hidle initProcessWaitId
        obtain rfl := Option.some.inj (hrun'.symm.trans hsleep)
        exact .of_resources hres
  | fork ret hidle hfork =>
      obtain ⟨_, ⟨_, _, hback, _⟩ | ⟨i, ys, stack, _, _, _, hleaked⟩ |
        ⟨i, ys, stack, S, _, _, hcopied, hreturns⟩⟩ := h.fork_changes hq hidle hfork
      · exact .keeps hback.currentProc hback.process
      · obtain ⟨hunused, _, hidle', _⟩ := hq.free_slot hleaked.slot
        exact .creates i hidle' (fork_sameTSS hfork).currentProc hunused
          (Or.inl (not_live_of_initialized hleaked.initialized)) hleaked.others
      · obtain ⟨hunused, _, hidle', _⟩ := hq.free_slot hcopied.slot
        exact .creates i hidle' (fork_sameTSS hfork).currentProc hunused
          (Or.inr (child hcopied hidle hreturns)) hcopied.forked.others

namespace ProcessStep

/-- A process that lives after a step lived before it, or it is the child of `Fork`. -/
theorem kept_or_child (h : ProcessStep image k k') (hi : k'.HasStack i) :
  Kept k k' i ∨ ¬ k.HasStack i ∧ k.Child image k' i
  := by
  cases h with
  | schedules s hfiles hresources =>
      have hkept : Kept { k with scheduler := s } k' i := Kept.of_resources hi hresources
      exact Or.inl (Kept.trans (Kept.of_onlyFiles hkept.1 hfiles) hkept)
  | keeps _ hall => exact Or.inl (Kept.of_process hi (hall i))
  | reaps j hidle _ hzero hothers =>
      by_cases e : i = j
      · subst e
        have hdead : ¬ k'.Live i := not_live_of_unused (congrArg Process.state hzero)
        exact absurd hi (not_or.mpr ⟨hidle, hdead⟩)
      · exact Or.inl (Kept.of_process hi (hothers i e))
  | creates j hidle _ hunused hnew hothers =>
      by_cases e : i = j
      · subst e
        right
        exact ⟨not_or.mpr ⟨hidle, not_live_of_unused hunused⟩,
          hnew.resolve_left (not_not.mpr (hi.resolve_left hidle))⟩
      · exact Or.inl (Kept.of_process hi (hothers i e))

/-- A process to which the kernel switches lived before. -/
theorem switched_hasStack (h : ProcessStep image k k') (hcurrent : k'.HasStack k'.currentProc)
    (hne : k'.currentProc ≠ k.currentProc) :
  k.HasStack k'.currentProc
  := by
  cases h with
  | schedules s hfiles hresources =>
      have hkept : Kept { k with scheduler := s } k' k'.currentProc :=
        Kept.of_resources hcurrent hresources
      exact (Kept.of_onlyFiles hkept.1 hfiles).1
  | keeps heq _ => exact absurd heq hne
  | reaps _ _ heq _ _ => exact absurd heq hne
  | creates _ _ heq _ _ _ => exact absurd heq hne

/-- The process that took the step keeps its kernel stack. -/
theorem current_hasStack (h : ProcessStep image k k') (hcurrent : k.HasStack k.currentProc)
    (hcurrent' : k'.HasStack k'.currentProc) :
  k'.HasStack k.currentProc
  := by
  cases h with
  | schedules s hfiles hresources =>
      apply hcurrent.imp_right
      intro hlive
      have hlive' : Kernel.Live { k with scheduler := s } k.currentProc :=
        (OnlyFiles.samePages hfiles _).live.mpr hlive
      exact ⟨hlive.1, (hresources.unused _).not.mpr hlive'.2.1,
        (hresources.initialized _).not.mpr hlive'.2.2⟩
  | keeps heq _ => exact heq ▸ hcurrent'
  | reaps _ _ heq _ _ => exact heq ▸ hcurrent'
  | creates _ _ heq _ _ _ => exact heq ▸ hcurrent'

end ProcessStep

end LarvaOS
