import LarvaOS.Kernel.Quiet
import LarvaOS.Kernel.Session

/-!
# Sleeping for a time

In every state of a session a process that sleeps in `SysSleep` waits for the next timer interrupt,
or the last one has put it on the ready list.  When it is dispatched, `SysSleep` returns exactly
when enough timer interrupts have happened since it was called.
-/

namespace LarvaOS

variable {image : Image} {s s' : Scheduler} {q q' : Queues} {i : Slot} {w : Int}

/-! ### Processes on the lists -/

/-- The process is on the ready list, or on the wait list with the wait id `w`. -/
def Listed (s : Scheduler) (q : Queues) (i : Slot) (w : Int) : Prop :=
  i ∈ q .readyProcList ∨ (i ∈ q .waitProcList ∧ (s.process i).waitId = w)

namespace Listed

theorem congr (h : Listed s q i w) (hid : (s'.process i).waitId = (s.process i).waitId) :
  Listed s' q i w
  := by
  rcases h with hready | ⟨hwait, hw⟩
  · exact Or.inl hready
  · exact Or.inr ⟨hwait, hid.trans hw⟩

theorem push (h : Listed s q i w) (list : ListHead) (j : Slot) :
  Listed s (q.push list j) i w
  := by
  rcases h with hready | ⟨hwait, hw⟩
  · exact Or.inl (Queues.mem_push_of_mem hready)
  · exact Or.inr ⟨Queues.mem_push_of_mem hwait, hw⟩

theorem wake (h : Listed s q i w) (p : Slot → Bool) :
  Listed s (q.wake p) i w
  := by
  rcases h with hready | ⟨hwait, hw⟩
  · exact Or.inl (List.mem_append_left _ hready)
  · by_cases hp : p i = true
    · exact Or.inl (List.mem_append_right _ (List.mem_filter.mpr ⟨hwait, hp⟩))
    · refine Or.inr ⟨List.mem_filter.mpr ⟨hwait, ?_⟩, hw⟩
      simpa using hp

/-- After a dispatch a process runs or is still listed. -/
theorem tail (h : Listed s q i w) :
  i = q.head ∨ Listed s q.tail i w
  := by
  by_cases hhead : i = q.head
  · exact Or.inl hhead
  · right
    rcases h with hready | ⟨hwait, hw⟩
    · exact Or.inl (Queues.mem_tail_of_mem hready hhead)
    · exact Or.inr ⟨Queues.mem_tail_of_mem hwait hhead, hw⟩

end Listed

/-- What the scheduler does with the processes that do not run: they stay on the lists until they are
dispatched, and none of them begins to wait for the timer. -/
structure Follows (s s' : Scheduler) (q q' : Queues) : Prop where
  queued : Queued s' q' (some s'.currentProc) none
  listed : ∀ i w, i ≠ s.currentProc → Listed s q i w →
    i = s'.currentProc ∨ Listed s' q' i w
  waiting : ∀ i ∈ q' .waitProcList, (s'.process i).waitId = normalProcessWaitId →
    i ∈ q .waitProcList ∧ (s.process i).waitId = normalProcessWaitId

/-- The lists of ready and waiting processes only grow by processes that are ready. -/
theorem Follows.of_lists (hq : Queued s' q' (some s'.currentProc) none)
    (hready : ∀ i ∈ q .readyProcList, i ∈ q' .readyProcList)
    (hwait : q' .waitProcList = q .waitProcList)
    (hid : ∀ i ∈ q .waitProcList, (s'.process i).waitId = (s.process i).waitId) :
  Follows s s' q q'
  where
  queued := hq
  listed i w _ h := by
    right
    rcases h with h | ⟨h, hw⟩
    · exact Or.inl (hready i h)
    · refine Or.inr ⟨?_, (hid i h).trans hw⟩
      rw [hwait]
      exact h
  waiting i hi hw := by
    rw [hwait] at hi
    exact ⟨hi, (hid i hi).symm.trans hw⟩

/-- A function of the scheduler that keeps the current process, and another one after it. -/
theorem Follows.trans {s₁ : Scheduler} {q₁ : Queues} (h : Follows s s₁ q q₁)
    (hcurrent : s₁.currentProc = s.currentProc) (h' : Follows s₁ s' q₁ q') :
  Follows s s' q q'
  where
  queued := h'.queued
  listed i w hi hlisted := by
    have hne : i ≠ s₁.currentProc := by rwa [hcurrent]
    exact h'.listed i w hne ((h.listed i w hi hlisted).resolve_left hne)
  waiting i hi hw := by
    obtain ⟨hi₁, hw₁⟩ := h'.waiting i hi hw
    exact h.waiting i hi₁ hw₁

theorem Queued.wakeup_follows (h : Queued s q (some s.currentProc) none) (waitId : Int) :
  ∃ s', LarvaOS.wakeup waitId s = some s'
    ∧ Follows s s' q (q.wake (Queued.waiting s waitId)) ∧ s'.currentProc = s.currentProc
    ∧ (∀ i, (s'.process i).waitId = (s.process i).waitId)
    ∧ ∀ i ∈ q.wake (Queued.waiting s waitId) .waitProcList, (s'.process i).waitId ≠ waitId
  := by
  obtain ⟨s', hrun, hcurrent, _, hid, hq'⟩ := h.wakeup waitId
  refine ⟨s', hrun, ⟨hcurrent.symm ▸ hq', ?_, ?_⟩, hcurrent, hid, ?_⟩
  · intro i w _ hlisted
    exact Or.inr ((hlisted.wake _).congr (hid i))
  · intro i hi hw
    exact ⟨List.mem_of_mem_filter hi, (hid i).symm.trans hw⟩
  · intro i hi hw
    have hp := (List.mem_filter.mp hi).2
    rw [hid] at hw
    simp [Queued.waiting, hw] at hp

theorem Queued.yield_follows (h : Queued s q (some s.currentProc) none) :
  ∃ s' q', LarvaOS.yield s = some s' ∧ Follows s s' q q'
    ∧ (∀ i, (s'.process i).waitId = (s.process i).waitId)
    ∧ q' .waitProcList = q .waitProcList
  := by
  by_cases hready : q .readyProcList = []
  · refine ⟨s, q, h.yield_nil hready, ⟨h, ?_, ?_⟩, fun _ => rfl, rfl⟩
    · exact fun _ _ _ hlisted => Or.inr hlisted
    · exact fun _ hi hw => ⟨hi, hw⟩
  · obtain ⟨s', hrun, hcurrent, _, hid, hq'⟩ := h.yield_cons hready
    have hwait : (Queued.yielded s q).tail .waitProcList = q .waitProcList := by
      rw [Queues.tail_of_ne (by simp)]
      unfold Queued.yielded
      split
      · rfl
      · rw [Queues.push_of_ne (by simp)]
    refine ⟨s', _, hrun, ⟨hcurrent.symm ▸ hq', ?_, ?_⟩, hid, hwait⟩
    · intro i w hi hlisted
      have hyielded : Listed s (Queued.yielded s q) i w := by
        unfold Queued.yielded
        split
        · exact hlisted
        · exact hlisted.push _ _
      rw [hcurrent]
      exact hyielded.tail.imp id (fun hlisted => hlisted.congr (hid i))
    · intro i hi hw
      rw [hwait] at hi
      exact ⟨hi, (hid i).symm.trans hw⟩

theorem Queued.exit_follows (h : Queued s q (some s.currentProc) none)
    (hidle : s.currentProc ≠ idleSlot) :
  ∃ s' q', LarvaOS.exit s = some s' ∧ Follows s s' q q'
  := by
  obtain ⟨s', hrun, hcurrent, _, hid, hq'⟩ := h.exit hidle
  refine ⟨s', _, hrun, hcurrent.symm ▸ hq', ?_, ?_⟩
  · intro i w _ hlisted
    rw [hcurrent]
    have hexited : Listed s (Queued.exited s q) i w := (hlisted.push _ _).wake _
    exact hexited.tail.imp id (fun hlisted => hlisted.congr (hid i))
  · intro i hi hw
    rw [Queues.tail_of_ne (by simp)] at hi
    have hmem := List.mem_of_mem_filter hi
    rw [Queues.push_of_ne (by simp)] at hmem
    exact ⟨hmem, (hid i).symm.trans hw⟩

/-- A timer interrupt: no process waits for the timer afterwards. -/
theorem Queued.timer (h : Queued s q (some s.currentProc) none) :
  ∃ s₁ s' q', LarvaOS.wakeup normalProcessWaitId s = some s₁ ∧ LarvaOS.yield s₁ = some s'
    ∧ Follows s s' q q' ∧ ∀ i ∈ q' .waitProcList, (s'.process i).waitId ≠ normalProcessWaitId
  := by
  obtain ⟨s₁, hwake, hfollows₁, hcurrent₁, _, hclear⟩ := h.wakeup_follows normalProcessWaitId
  obtain ⟨s', q', hyield, hfollows, hid, hwait⟩ := hfollows₁.queued.yield_follows
  refine ⟨s₁, s', q', hwake, hyield, hfollows₁.trans hcurrent₁ hfollows, ?_⟩
  intro i hi
  rw [hid]
  rw [hwait] at hi
  exact hclear i hi

/-- The current process goes to the wait list. -/
theorem Queued.sleep_listed (h : Queued s q (some s.currentProc) none)
    (hidle : s.currentProc ≠ idleSlot) (w : Int) :
  ∃ s' q', LarvaOS.sleep w s = some s' ∧ Queued s' q' (some s'.currentProc) none
    ∧ (∀ i w', i ≠ s.currentProc → Listed s q i w' → i = s'.currentProc ∨ Listed s' q' i w')
    ∧ s.currentProc ∈ q' .waitProcList ∧ (s'.process s.currentProc).waitId = w
    ∧ ∀ i ∈ q' .waitProcList, i ≠ s.currentProc →
      i ∈ q .waitProcList ∧ (s'.process i).waitId = (s.process i).waitId
  := by
  obtain ⟨s', hrun, hcurrent, _, hid, hq'⟩ := h.sleep hidle w
  have hhead : (q.push .waitProcList s.currentProc).head = q.head := by
    rw [Queues.head, Queues.push_of_ne (by simp), Queues.head]
  refine ⟨s', _, hrun, hcurrent.symm ▸ hq', ?_, ?_, ?_, ?_⟩
  · intro i w' hi hlisted
    rw [hcurrent, ← hhead]
    apply (hlisted.push .waitProcList s.currentProc).tail.imp id
    intro hlisted
    apply hlisted.congr
    rw [hid, if_neg hi]
  · rw [Queues.tail_of_ne (by simp), Queues.push_self]
    exact List.mem_append_right _ (List.mem_singleton_self _)
  · rw [hid, if_pos rfl]
  · intro i hi hne
    rw [Queues.tail_of_ne (by simp), Queues.push_self] at hi
    rw [hid, if_neg hne]
    refine ⟨?_, rfl⟩
    rcases List.mem_append.mp hi with hi | hi
    · exact hi
    · exact absurd (List.mem_singleton.mp hi) hne

/-- The system calls that do not sleep for a time keep the other processes on the lists. -/
theorem SchedulerStep.follows {op : Operation} {k k' : Kernel} (h : SchedulerStep image op k k')
    (hop : op.isCall) (hq : Queued k.scheduler q (some k.currentProc) none) :
  ∃ q', Follows k.scheduler k'.scheduler q q'
  := by
  cases h with
  | yield h =>
      obtain ⟨s', q', hrun, hfollows, _⟩ := hq.yield_follows
      obtain rfl := Option.some.inj (hrun.symm.trans h)
      exact ⟨q', hfollows⟩
  | wakeup waitId h =>
      obtain ⟨s', hrun, hfollows, _⟩ := hq.wakeup_follows waitId
      obtain rfl := Option.some.inj (hrun.symm.trans h)
      exact ⟨_, hfollows⟩
  | sleep waitId hsleep _ _ =>
      rw [hsleep] at hop
      cases hop
  | files h =>
      use q
      apply Follows.of_lists
      · exact (congrArg some h.currentProc.symm) ▸ h.queued hq
      · exact fun _ hi => hi
      · rfl
      · exact fun i _ => h.waitId i
  | exit s hidle hs h =>
      have hqs : Queued s q (some s.currentProc) none :=
        (congrArg some hs.currentProc.symm) ▸ hs.queued hq
      obtain ⟨s', q', hrun, hfollows⟩ := hqs.exit_follows (by rwa [hs.currentProc])
      obtain rfl := Option.some.inj (hrun.symm.trans h)
      use q'
      apply Follows.trans _ hs.currentProc hfollows
      apply Follows.of_lists hqs
      · exact fun _ hi => hi
      · rfl
      · exact fun i _ => hs.waitId i
  | wait pid _ hidle h =>
      rcases hq.wait h with ⟨j, hj, _, hcurrent, _, hothers, _, _, hq'⟩ | ⟨_, s, hsleep, rfl⟩
      · refine ⟨_, Follows.of_lists ((congrArg some hcurrent.symm) ▸ hq') ?_ ?_ ?_⟩
        · intro i hi
          rw [Queues.remove_of_ne (by simp)]
          exact hi
        · exact Queues.remove_of_ne (by simp)
        · intro i hi
          apply congrArg Process.waitId
          apply hothers i
          rintro rfl
          cases hq.holds.disjoint _ _ i hi hj
      · obtain ⟨s', q', hrun, hqueued, hlisted, _, hid, hothers⟩ :=
          hq.sleep_listed hidle initProcessWaitId
        obtain rfl := Option.some.inj (hrun.symm.trans hsleep)
        refine ⟨q', hqueued, hlisted, ?_⟩
        intro i hi hw
        by_cases hne : i = k.scheduler.currentProc
        · rw [hne, hid] at hw
          cases hw
        · obtain ⟨hmem, hsame⟩ := hothers i hi hne
          exact ⟨hmem, hsame.symm.trans hw⟩
  | fork ret _ h =>
      obtain ⟨new, hgrown, hcases⟩ := hq.fork h
      have hcurrent := congrArg some hgrown.currentProc.symm
      have hsame : ∀ i ∈ q .waitProcList, (k'.process i).waitId = (k.process i).waitId := by
        intro i hi
        apply congrArg Process.waitId
        apply hgrown.process i
        intro hnew
        have hunused := hgrown.unused i hnew
        rw [hq.state _ i hi (by simp)] at hunused
        cases hunused
      rcases hcases with ⟨_, _, hq', _⟩ | ⟨j, _, _, _, hq', _⟩
      · exact ⟨q, Follows.of_lists (hcurrent ▸ hq') (fun _ hi => hi) rfl hsame⟩
      · refine ⟨_, Follows.of_lists (hcurrent ▸ hq') ?_ ?_ hsame⟩
        · exact fun i hi => Queues.mem_push_of_mem hi
        · exact Queues.push_of_ne (by simp)

/-! ### Sessions -/

namespace Session

/-- The invariant of sessions that start at the ticks `start`. A process that sleeps in a call runs, is
ready, or waits for its wait id; a process that waits for the timer has gone to sleep after the last
timer interrupt; and the ticks count the timer interrupts. -/
structure Valid (start : UInt64) (s : Session) (q : Queues) : Prop where
  queued : Queued s.kernel.scheduler q (some s.current) none
  pending : ∀ i p, s.pending i = some p →
    i ≠ idleSlot ∧ (i = s.current ∨ Listed s.kernel.scheduler q i p.waitId)
  slept : ∀ i ∈ q .waitProcList, (s.kernel.process i).waitId = normalProcessWaitId →
    s.slept i = s.interrupts
  ticks : s.systemTicks = start + UInt64.ofNat s.interrupts
  oldTicks : ∀ i oldTicks sleepTicks, s.pending i = some (.sysSleep oldTicks sleepTicks) →
    oldTicks = start + UInt64.ofNat (s.called i) ∧ s.called i ≤ s.interrupts

variable {start : UInt64} {s s' : Session} {q : Queues} {event : SessionEvent}

/-- The processes that sleep in a call stay on the lists. -/
theorem Valid.pending_follows {scheduler : Scheduler} {q' : Queues} (h : s.Valid start q)
    (hcurrent : s.pending s.current = none)
    (hfollows : Follows s.kernel.scheduler scheduler q q') {i : Slot} {p : Pending}
    (hp : s.pending i = some p) :
  i ≠ idleSlot ∧ (i = scheduler.currentProc ∨ Listed scheduler q' i p.waitId)
  := by
  obtain ⟨hidle, hlisted⟩ := h.pending i p hp
  have hne : i ≠ s.current := by
    rintro rfl
    rw [hcurrent] at hp
    cases hp
  exact ⟨hidle, hfollows.listed i p.waitId hne (hlisted.resolve_left hne)⟩

/-- The scheduler changes while no call of the current process sleeps. -/
theorem Valid.follows {k : Kernel} {q' : Queues} (h : s.Valid start q)
    (hcurrent : s.pending s.current = none)
    (hfollows : Follows s.kernel.scheduler k.scheduler q q') :
  Valid start { s with kernel := k } q'
  where
  queued := hfollows.queued
  pending _ _ hp := h.pending_follows hcurrent hfollows hp
  slept i hi hw := by
    obtain ⟨hmem, hsame⟩ := hfollows.waiting i hi hw
    exact h.slept i hmem hsame
  ticks := h.ticks
  oldTicks := h.oldTicks

theorem Valid.timer (h : s.Valid start q) (hcurrent : s.pending s.current = none) :
  ∃ s' q', s.timerHandler = some s' ∧ s'.Valid start q'
  := by
  obtain ⟨s₁, s₂, q', hwake, hyield, hfollows, hnone⟩ := h.queued.timer
  have hrun : s.timerHandler = some (s.afterTimer s₂) := by
    rw [timerHandler, hwake, Option.bind_some, hyield, Option.map_some]
  refine ⟨_, q', hrun, ?_⟩
  constructor
  · exact hfollows.queued
  · exact fun _ _ hp => h.pending_follows hcurrent hfollows hp
  · exact fun i hi hw => absurd hw (hnone i hi)
  · have hticks : (s.afterTimer s₂).systemTicks = s.systemTicks + 1 := rfl
    rw [hticks, h.ticks, UInt64.add_assoc]
    exact congrArg (start + ·) (UInt64.ofNat_add s.interrupts 1).symm
  · intro i oldTicks sleepTicks hp
    obtain ⟨hold, hle⟩ := h.oldTicks i oldTicks sleepTicks hp
    exact ⟨hold, Nat.le_succ_of_le hle⟩

theorem Valid.keyboard (h : s.Valid start q) (hcurrent : s.pending s.current = none)
    (scanCode : UInt8) :
  ∃ s' q', s.keyboardHandler scanCode = some s' ∧ s'.Valid start q'
  := by
  obtain ⟨scheduler, hwake, hfollows, _⟩ := h.queued.wakeup_follows waitingKeyboardProcessWaitId
  rw [keyboardHandler]
  dsimp only
  split
  · rw [hwake]
    have hvalid := h.follows (k := { s.kernel with scheduler := scheduler }) hcurrent hfollows
    refine ⟨_, q.wake (Queued.waiting s.kernel.scheduler waitingKeyboardProcessWaitId), rfl, ?_⟩
    exact ⟨hvalid.queued, hvalid.pending, hvalid.slept, hvalid.ticks, hvalid.oldTicks⟩
  · exact ⟨_, q, rfl, ⟨h.queued, h.pending, h.slept, h.ticks, h.oldTicks⟩⟩

/-- A call returns to the current process. -/
theorem Valid.finish (h : s.Valid start q) :
  s.finish.Valid start q
  where
  queued := h.queued
  pending i p hp := by
    by_cases e : i = s.current
    · subst e
      cases (Function.update_self _ _ _).symm.trans hp
    · exact h.pending i p ((Function.update_of_ne e _ _).symm.trans hp)
  slept := h.slept
  ticks := h.ticks
  oldTicks i oldTicks sleepTicks hp := by
    by_cases e : i = s.current
    · subst e
      cases (Function.update_self _ _ _).symm.trans hp
    · exact h.oldTicks i oldTicks sleepTicks ((Function.update_of_ne e _ _).symm.trans hp)

/-- The current process goes to sleep in a call. -/
theorem Valid.sleepIn (h : s.Valid start q) (hidle : s.current ≠ idleSlot) (p : Pending)
    (hp : ∀ oldTicks sleepTicks, p = .sysSleep oldTicks sleepTicks →
      oldTicks = start + UInt64.ofNat (s.called s.current) ∧ s.called s.current ≤ s.interrupts) :
  ∃ s' q', s.sleepIn p = some s' ∧ s'.Valid start q' ∧ s'.called = s.called
    ∧ s'.pending s.current = some p
  := by
  obtain ⟨scheduler, q', hrun, hqueued, hlisted, hmem, hid, hothers⟩ :=
    h.queued.sleep_listed hidle p.waitId
  have hself : Function.update s.pending s.current (some p) s.current = some p :=
    Function.update_self _ _ _
  have hother : ∀ i, i ≠ s.current →
      Function.update s.pending s.current (some p) i = s.pending i :=
    fun i hi => Function.update_of_ne hi _ _
  refine ⟨_, q', congrArg (Option.map _) hrun, ?_, rfl, hself⟩
  constructor
  · exact hqueued
  · intro i p' hp'
    by_cases e : i = s.current
    · subst e
      obtain rfl := Option.some.inj (hself.symm.trans hp')
      exact ⟨hidle, Or.inr (Or.inr ⟨hmem, hid⟩)⟩
    · obtain ⟨hi, hbefore⟩ := h.pending i p' ((hother i e).symm.trans hp')
      exact ⟨hi, hlisted i p'.waitId e (hbefore.resolve_left e)⟩
  · intro i hi hw
    by_cases e : i = s.current
    · subst e
      exact Function.update_self _ _ _
    · obtain ⟨hbefore, hsame⟩ := hothers i hi e
      apply (Function.update_of_ne e _ _).trans
      exact h.slept i hbefore (hsame.symm.trans hw)
  · exact h.ticks
  · intro i oldTicks sleepTicks hp'
    by_cases e : i = s.current
    · subst e
      exact hp oldTicks sleepTicks (Option.some.inj (hself.symm.trans hp'))
    · exact h.oldTicks i oldTicks sleepTicks ((hother i e).symm.trans hp')

/-- The ticks since `SysSleep` was called. -/
theorem elapsed {a b : ℕ} (h : b ≤ a) :
  ((start + UInt64.ofNat a) - (start + UInt64.ofNat b)).toNat = (a - b) % 2 ^ 64
  := by
  obtain ⟨d, rfl⟩ := Nat.exists_eq_add_of_le h
  have hsum : start + UInt64.ofNat (b + d) = UInt64.ofNat d + (start + UInt64.ofNat b) := by
    rw [UInt64.ofNat_add, ← UInt64.add_assoc, UInt64.add_comm]
  rw [hsum, UInt64.add_sub_cancel, Nat.add_sub_cancel_left]
  exact UInt64.toNat_ofNat'

/-- The loop of `SysSleep` returns exactly when the ticks have passed. -/
theorem Valid.sleepLoop (h : s.Valid start q) (hidle : s.current ≠ idleSlot)
    {oldTicks sleepTicks : UInt64} (hold : oldTicks = start + UInt64.ofNat (s.called s.current))
    (hle : s.called s.current ≤ s.interrupts) :
  ∃ s' q', s.sleepLoop oldTicks sleepTicks = some s' ∧ s'.Valid start q' ∧ s'.called = s.called
    ∧ (s'.pending s.current = none
      ↔ sleepTicks.toNat ≤ (s.interrupts - s.called s.current) % 2 ^ 64)
  := by
  have helapsed : (s.getTicks - oldTicks).toNat
      = (s.interrupts - s.called s.current) % 2 ^ 64 := by
    rw [getTicks, h.ticks, hold]
    exact elapsed hle
  rw [Session.sleepLoop]
  split
  · rename_i htest
    rw [UInt64.lt_iff_toNat_lt, helapsed] at htest
    obtain ⟨s', q', hrun, hvalid, hcalled, hpending⟩ := h.sleepIn hidle
      (.sysSleep oldTicks sleepTicks)
      (by
        intro _ _ e
        cases e
        exact ⟨hold, hle⟩)
    refine ⟨s', q', hrun, hvalid, hcalled, ?_⟩
    rw [hpending]
    exact iff_of_false (Option.some_ne_none _) (Nat.not_le_of_lt htest)
  · rename_i htest
    rw [UInt64.lt_iff_toNat_lt, helapsed] at htest
    refine ⟨s.finish, q, rfl, h.finish, rfl, ?_⟩
    exact iff_of_true (Function.update_self _ _ _) (Nat.le_of_not_lt htest)

theorem recordCall_called (s : Session) :
  s.recordCall.called s.current = s.interrupts
  := Function.update_self _ _ _

theorem Valid.recordCall (h : s.Valid start q) (hcurrent : s.pending s.current = none) :
  s.recordCall.Valid start q
  where
  queued := h.queued
  pending := h.pending
  slept := h.slept
  ticks := h.ticks
  oldTicks i oldTicks sleepTicks hp := by
    have hne : i ≠ s.current := by
      rintro rfl
      cases hcurrent.symm.trans hp
    have hother : s.recordCall.called i = s.called i := Function.update_of_ne hne _ _
    rw [hother]
    exact h.oldTicks i oldTicks sleepTicks hp

/-- `SysSleep` returns at once exactly when it is called for no ticks. -/
theorem Valid.sysSleep (h : s.Valid start q) (hcurrent : s.pending s.current = none)
    (hidle : s.current ≠ idleSlot) (sleepTicks : UInt64) :
  ∃ s' q', s.sysSleep sleepTicks = some s' ∧ s'.Valid start q'
    ∧ s'.called s.current = s.interrupts
    ∧ (s'.pending s.current = none ↔ sleepTicks.toNat = 0)
  := by
  have hcalled := s.recordCall_called
  have hold : s.getTicks = start + UInt64.ofNat (s.recordCall.called s.current) := by
    rw [hcalled]
    exact h.ticks
  obtain ⟨s', q', hrun, hvalid, hsame, hreturns⟩ :=
    @Valid.sleepLoop start s.recordCall q (h.recordCall hcurrent) hidle s.getTicks sleepTicks hold
      hcalled.le
  refine ⟨s', q', hrun, hvalid, (congrFun hsame s.current).trans hcalled, ?_⟩
  apply hreturns.trans
  have hzero : s.recordCall.interrupts - s.recordCall.called s.recordCall.current = 0 :=
    Nat.sub_eq_zero_of_le hcalled.ge
  rw [hzero, Nat.zero_mod, Nat.le_zero]

/-- The rest of a call. -/
theorem Valid.resume (h : s.Valid start q) {p : Pending} (hp : s.pending s.current = some p) :
  ∃ s' q', s.resume p = some s' ∧ s'.Valid start q'
  := by
  cases p with
  | readKeyBuffer front =>
      have hvalid := h.finish
      exact ⟨_, q, rfl,
        ⟨hvalid.queued, hvalid.pending, hvalid.slept, hvalid.ticks, hvalid.oldTicks⟩⟩
  | sysSleep oldTicks sleepTicks =>
      obtain ⟨hold, hle⟩ := h.oldTicks _ _ _ hp
      obtain ⟨s', q', hrun, hvalid, _⟩ := h.sleepLoop (h.pending _ _ hp).1 hold hle
      exact ⟨s', q', hrun, hvalid⟩

theorem Valid.readKeyBuffer (h : s.Valid start q) (hidle : s.current ≠ idleSlot) :
  ∃ s' q', s.readKeyBuffer = some s' ∧ s'.Valid start q'
  := by
  rw [Session.readKeyBuffer]
  split
  · obtain ⟨s', q', hrun, hvalid, _⟩ := h.sleepIn hidle (.readKeyBuffer s.keyboard.front)
      (fun _ _ e => by cases e)
    exact ⟨s', q', hrun, hvalid⟩
  · have hvalid := h.finish
    exact ⟨_, q, rfl, ⟨hvalid.queued, hvalid.pending, hvalid.slept, hvalid.ticks, hvalid.oldTicks⟩⟩

/-- Every step of a session keeps the invariant. -/
theorem Valid.step (h : s.Valid start q) (henabled : Enabled image event s)
    (hstep : s.step image event = some s') :
  ∃ q', s'.Valid start q'
  := by
  cases event with
  | timer =>
      obtain ⟨s₁, q', hrun, hvalid⟩ := h.timer henabled
      obtain rfl := Option.some.inj (hrun.symm.trans hstep)
      exact ⟨q', hvalid⟩
  | keyboard scanCode =>
      obtain ⟨s₁, q', hrun, hvalid⟩ := h.keyboard henabled scanCode
      obtain rfl := Option.some.inj (hrun.symm.trans hstep)
      exact ⟨q', hvalid⟩
  | readKeyBuffer =>
      obtain ⟨s₁, q', hrun, hvalid⟩ := h.readKeyBuffer henabled.2
      obtain rfl := Option.some.inj (hrun.symm.trans hstep)
      exact ⟨q', hvalid⟩
  | sysSleep sleepTicks =>
      obtain ⟨s₁, q', hrun, hvalid, _⟩ := h.sysSleep henabled.1 henabled.2 sleepTicks
      obtain rfl := Option.some.inj (hrun.symm.trans hstep)
      exact ⟨q', hvalid⟩
  | resume =>
      obtain ⟨p, hp, hresume⟩ := Option.bind_eq_some_iff.mp hstep
      obtain ⟨s₁, q', hrun, hvalid⟩ := h.resume hp
      obtain rfl := Option.some.inj (hrun.symm.trans hresume)
      exact ⟨q', hvalid⟩
  | call op =>
      obtain ⟨hcurrent, hidle, hop, _⟩ := henabled
      obtain ⟨k, hrun, rfl⟩ := Option.map_eq_some_iff.mp hstep
      have hcases := Kernel.step_cases h.queued.current_used (fun _ => hidle) hrun
      obtain ⟨q', hfollows⟩ := hcases.follows hop h.queued
      exact ⟨q', h.follows hcurrent hfollows⟩

/-- The invariant holds in every state of a session. -/
theorem reachable_valid {cr3 : Fin (2 ^ 64)} {m : Memory} {files : FileSystem} {k₀ : Kernel}
    (h₀ : initProcess image ⟨m, files, Scheduler.initial cr3⟩ = some k₀)
    (h : Reachable (Session.step image) (Enabled image) (Session.start k₀ start) s) :
  ∃ q, s.Valid start q
  := by
  apply h.invariant (P := fun s => ∃ q, s.Valid start q)
  · rintro event s s' ⟨q, hvalid⟩ henabled hstep
    exact hvalid.step henabled hstep
  · obtain ⟨q, hq⟩ := initProcess_consistent h₀
    refine ⟨q, hq, ?_, fun _ _ _ => rfl, (UInt64.add_zero start).symm, ?_⟩
    · exact fun _ _ hp => absurd hp (by simp [Session.start])
    · exact fun _ _ _ hp => absurd hp (by simp [Session.start])

/-! ### The shell sleeps -/

/-- A timer interrupt when no process waits for the timer. -/
theorem timer_quiet {xs : List ℕ} {n : ℕ} (h : Quiet image s.kernel xs q n)
    (hwait : ∀ i ∈ q .waitProcList, (s.kernel.process i).waitId ≠ normalProcessWaitId)
    (hready : q .readyProcList ≠ []) :
  ∃ scheduler, s.step image .timer = some (s.afterTimer scheduler)
    ∧ scheduler.currentProc = (Queued.yielded s.kernel.scheduler q).head
    ∧ SameResources s.kernel.scheduler scheduler
    ∧ (∀ i, (scheduler.process i).waitId = (s.kernel.process i).waitId)
    ∧ Quiet image { s.kernel with scheduler := scheduler } xs
      (Queued.yielded s.kernel.scheduler q).tail n
  := by
  obtain ⟨s₁, hwake, hcurrent₁, hres₁, hid₁, hq₁⟩ := h.queued.wakeup normalProcessWaitId
  have hsame : q.wake (Queued.waiting s.kernel.scheduler normalProcessWaitId) = q := by
    apply Queues.wake_of_find_none
    apply List.find?_eq_none.mpr
    intro i hi
    simpa [Queued.waiting] using hwait i hi
  rw [hsame] at hq₁
  have hq : Queued s₁ q (some s₁.currentProc) none := by
    rw [hcurrent₁]
    exact hq₁
  have hquiet := h.schedule hres₁ hq
  obtain ⟨s₂, hyield, hcurrent, hres, hid, hq'⟩ := hquiet.queued.yield_cons hready
  have hyielded : Queued.yielded s₁ q = Queued.yielded s.kernel.scheduler q := by
    rw [Queued.yielded, Queued.yielded, hcurrent₁, hres₁.pid]
  rw [hyielded] at hcurrent hq'
  refine ⟨s₂, ?_, hcurrent, hres₁.trans hres, fun i => (hid i).trans (hid₁ i), ?_⟩
  · rw [Session.step, timerHandler, hwake, Option.bind_some, hyield, Option.map_some]
  · exact hquiet.schedule hres (hcurrent.symm ▸ hq')

/-- A small machine runs the shell after the first timer interrupt. -/
theorem start_shell (start : UInt64) {n : Fin (2 ^ 43)} (hlo : 12 ≤ n.val) (hhi : n.val ≤ 510) :
  ∃ k₀ scheduler xs, kMain smallImage (smallMachine n) = some k₀
    ∧ (Session.start k₀ start).step smallImage .timer
      = some ((Session.start k₀ start).afterTimer scheduler)
    ∧ Quiet smallImage { k₀ with scheduler := scheduler } xs (fun _ => []) 2
    ∧ xs.length = n.val - 12 ∧ scheduler.currentProc = 1 ∧ (scheduler.process 1).pid = 1
    ∧ scheduler.pidNum = 2
  := by
  obtain ⟨k₀, L, hboot, hbooted⟩ := kMain_smallMachine hlo hhi
  have hpid : (k₀.scheduler.process k₀.scheduler.currentProc).pid = idleProcessPid := by
    have hcurrent : k₀.scheduler.currentProc = idleSlot := hbooted.currentProc
    rw [hcurrent]
    exact hbooted.queued.idlePid
  have hqueues : Queued.yielded k₀.scheduler (Queues.push (fun _ => []) .readyProcList 1)
      = Queues.push (fun _ => []) .readyProcList 1 := if_pos hpid
  have htail : (Queues.push (fun _ => []) .readyProcList (1 : Slot)).tail = fun _ => [] := by
    funext list
    cases list <;> rfl
  obtain ⟨scheduler, hstep, hcurrent, hres, _, hquiet⟩ := @timer_quiet _ (Session.start k₀ start) _
    _ _ hbooted.quiet (fun i hi => absurd hi (by simp)) (by simp)
  dsimp only [Session.start] at hcurrent hquiet
  rw [hqueues] at hcurrent hquiet
  rw [htail] at hquiet
  refine ⟨k₀, scheduler, _, hboot, hstep, hquiet, by simp [regionPages], hcurrent, ?_, ?_⟩
  · exact (hres.pid 1).trans hbooted.shell.1
  · exact hres.pidNum.trans hbooted.pidNum

/-! ### All sessions -/

/-- What a session promises to processes that sleep for a time. -/
structure Sleeps (image : Image) (s : Session) : Prop where
  calls : ∀ sleepTicks, s.pending s.current = none → s.current ≠ idleSlot →
    ∃ s', s.step image (.sysSleep sleepTicks) = some s' ∧ s'.called s.current = s.interrupts
      ∧ (s'.pending s.current = none ↔ sleepTicks.toNat = 0)
  returns : ∀ oldTicks sleepTicks, s.pending s.current = some (.sysSleep oldTicks sleepTicks) →
    ∃ s', s.step image .resume = some s' ∧ (s'.pending s.current = none
      ↔ sleepTicks.toNat ≤ (s.interrupts - s.called s.current) % 2 ^ 64)
  woken : ∀ i, (s.kernel.process i).state = .sleeping →
    (s.kernel.process i).waitId = normalProcessWaitId → s.slept i = s.interrupts
  kept : ∀ i oldTicks sleepTicks, s.pending i = some (.sysSleep oldTicks sleepTicks) →
    i = s.current ∨ (s.kernel.process i).state = .ready
      ∨ (s.kernel.process i).state = .sleeping
        ∧ (s.kernel.process i).waitId = normalProcessWaitId

/-- In every state of a session `SysSleep` returns exactly when the ticks have passed since it was
called, and a process that sleeps in it is never forgotten: it runs, it is ready, or it has gone to
sleep after the last timer interrupt. -/
theorem reachable_sleeps {cr3 : Fin (2 ^ 64)} {m : Memory} {files : FileSystem} {k₀ : Kernel}
    (h₀ : initProcess image ⟨m, files, Scheduler.initial cr3⟩ = some k₀)
    (h : Reachable (Session.step image) (Enabled image) (Session.start k₀ start) s) :
  Sleeps image s
  := by
  obtain ⟨q, hvalid⟩ := reachable_valid h₀ h
  constructor
  · intro sleepTicks hcurrent hidle
    obtain ⟨s', _, hrun, _, hcalled, hreturns⟩ := hvalid.sysSleep hcurrent hidle sleepTicks
    exact ⟨s', hrun, hcalled, hreturns⟩
  · intro oldTicks sleepTicks hp
    obtain ⟨hold, hle⟩ := hvalid.oldTicks _ _ _ hp
    obtain ⟨s', _, hrun, _, _, hreturns⟩ := hvalid.sleepLoop (hvalid.pending _ _ hp).1 hold hle
    refine ⟨s', ?_, hreturns⟩
    rw [Session.step, hp]
    exact hrun
  · intro i hstate hid
    apply hvalid.slept i _ hid
    have hne : i ≠ idleSlot := by
      rintro rfl
      rcases hvalid.queued.idleState with h | h
      · cases h.symm.trans hstate
      · cases h.symm.trans hstate
    rcases hvalid.queued.mem .waitProcList i hne (by simp) hstate with hmem | ⟨hlist, _⟩
    · exact hmem
    · cases hlist
  · intro i oldTicks sleepTicks hp
    apply (hvalid.pending i _ hp).2.imp id
    rintro (hready | ⟨hwait, hid⟩)
    · exact Or.inl (hvalid.queued.state .readyProcList i hready (by simp))
    · exact Or.inr ⟨hvalid.queued.state .waitProcList i hwait (by simp), hid⟩

/-- The shell sleeps for a tick, at the last tick before the clock wraps around. -/
theorem reachable_sleeps_small :
  ∃ k₀ s, kMain smallImage (smallMachine 64) = some k₀
    ∧ Reachable (Session.step smallImage) (Enabled smallImage) (Session.start k₀ (-2)) s
    ∧ s.pending 1 = some (.sysSleep (-1) 1) ∧ Sleeps smallImage s
  := by
  obtain ⟨k₀, scheduler, xs, hboot, htimer, hquiet, _, hcurrent, _⟩ :=
    start_shell (-2) (n := 64) (by decide) (by decide)
  obtain ⟨m, files, cr3, h₀⟩ := kMain_initProcess hboot
  let s := (Session.start k₀ (-2)).afterTimer scheduler
  have hidle : scheduler.currentProc ≠ idleSlot := by
    rw [hcurrent]
    decide
  have henabled : Enabled smallImage .timer (Session.start k₀ (-2)) := rfl
  have hreach := Reachable.step SessionEvent.timer .refl henabled htimer
  obtain ⟨scheduler', hsleep, _⟩ := hquiet.queued.sleep hidle normalProcessWaitId
  have htest : s.recordCall.getTicks - s.getTicks < 1 := (by decide : (-2 + 1 : UInt64) - (-2 + 1) < 1)
  have hstep : s.step smallImage (.sysSleep 1)
      = some (s.recordCall.afterSleep (.sysSleep (-1) 1) scheduler') := by
    rw [Session.step, Session.sysSleep, Session.sleepLoop, if_pos htest, Session.sleepIn]
    exact congrArg (Option.map _) hsleep
  have hreach' := Reachable.step (SessionEvent.sysSleep 1) hreach ⟨rfl, hidle⟩ hstep
  refine ⟨k₀, _, hboot, hreach', ?_, reachable_sleeps h₀ hreach'⟩
  rw [← hcurrent]
  exact Function.update_self _ _ _

end Session

end LarvaOS
