import LarvaOS.Kernel.Sleeping

/-!
# Reading from the keyboard

`ReadKeyBuffer` sleeps when the buffer is empty, and takes a character when its process is dispatched
again, without another look at the buffer.  The characters are delivered once and in order as long as
every such process finds the buffer as it left it, with a character in it.  A keyboard interrupt wakes
all readers, so this fails when two of them sleep.
-/

namespace LarvaOS

namespace Session

variable {image : Image} {s s' : Session} {event : SessionEvent} {k₀ : Kernel} {ticks : UInt64}

/-- The characters that were stored are those that `ReadKeyBuffer` has returned, and those that are in
the buffer. -/
def Delivered (s : Session) : Prop := s.stored = s.returned ++ s.keyboard.contents

/-- A process that has slept in `ReadKeyBuffer` finds a character at the index that it has read. -/
def FindsKey (event : SessionEvent) (s : Session) : Prop :=
  event = .resume → ∀ front, s.pending s.current = some (.readKeyBuffer front) →
    s.keyboard.front = front ∧ s.keyboard.front ≠ s.keyboard.back

theorem Delivered.sleepIn {p : Pending} (h : s.Delivered) (hrun : s.sleepIn p = some s') :
  s'.Delivered
  := by
  obtain ⟨scheduler, _, rfl⟩ := Option.map_eq_some_iff.mp hrun
  exact h

/-- `ReadKeyBuffer` takes the first character of the buffer. -/
theorem Delivered.takeKey (h : s.Delivered) (hkey : s.keyboard.front ≠ s.keyboard.back) :
  (s.takeKey s.keyboard.front).Delivered
  := by
  unfold Delivered at h
  rw [RingBuffer.contents_cons hkey] at h
  apply h.trans
  rw [List.append_cons]
  rfl

/-- `WriteKeyBuffer` stores the character after those in the buffer, or not at all. -/
theorem Delivered.writeKeyBuffer (h : s.Delivered) (ch : UInt8) :
  (s.writeKeyBuffer ch).Delivered
  := by
  unfold Delivered Session.writeKeyBuffer
  dsimp only
  split
  · rename_i hfull
    rw [RingBuffer.push_full hfull]
    exact h
  · rename_i hroom
    rw [RingBuffer.contents_push hroom, ← List.append_assoc, ← h]

theorem Delivered.sleepLoop {oldTicks sleepTicks : UInt64} (h : s.Delivered)
    (hrun : s.sleepLoop oldTicks sleepTicks = some s') :
  s'.Delivered
  := by
  rw [Session.sleepLoop] at hrun
  split at hrun
  · exact h.sleepIn hrun
  · rw [← Option.some.inj hrun]
    exact h

theorem Delivered.readKeyBuffer (h : s.Delivered) (hrun : s.readKeyBuffer = some s') :
  s'.Delivered
  := by
  rw [Session.readKeyBuffer] at hrun
  split at hrun
  · exact h.sleepIn hrun
  · rename_i hkey
    rw [← Option.some.inj hrun]
    exact h.takeKey hkey

theorem Delivered.keyboardHandler {scanCode : UInt8} (h : s.Delivered)
    (hrun : s.keyboardHandler scanCode = some s') :
  s'.Delivered
  := by
  rw [Session.keyboardHandler] at hrun
  dsimp only at hrun
  have hflag : Delivered { s with flag := (readCharacter scanCode s.flag).2 } := h
  split at hrun
  · obtain ⟨scheduler, _, rfl⟩ := Option.map_eq_some_iff.mp hrun
    exact hflag.writeKeyBuffer _
  · rw [← Option.some.inj hrun]
    exact hflag

/-- A step delivers the characters in order, if a process that has slept in `ReadKeyBuffer` finds a
character. -/
theorem Delivered.step (h : s.Delivered) (hfinds : FindsKey event s)
    (hstep : s.step image event = some s') :
  s'.Delivered
  := by
  cases event with
  | timer =>
      obtain ⟨_, _, hrun⟩ := Option.bind_eq_some_iff.mp hstep
      obtain ⟨_, _, rfl⟩ := Option.map_eq_some_iff.mp hrun
      exact h
  | keyboard scanCode => exact h.keyboardHandler hstep
  | readKeyBuffer => exact h.readKeyBuffer hstep
  | sysSleep sleepTicks =>
      have hcall : s.recordCall.Delivered := h
      exact hcall.sleepLoop hstep
  | resume =>
      obtain ⟨p, hp, hresume⟩ := Option.bind_eq_some_iff.mp hstep
      cases p with
      | readKeyBuffer front =>
          obtain ⟨rfl, hkey⟩ := hfinds rfl front hp
          rw [← Option.some.inj hresume]
          exact h.takeKey hkey
      | sysSleep oldTicks sleepTicks => exact h.sleepLoop hresume
  | call op =>
      obtain ⟨_, _, rfl⟩ := Option.map_eq_some_iff.mp hstep
      exact h

/-- While every process that has slept in `ReadKeyBuffer` finds a character at the index that it has
read, `ReadKeyBuffer` returns the characters that were stored, once and in their order, and the others
are in the buffer. -/
theorem reachable_delivered
    (h : Reachable (Session.step image) (fun event s => Enabled image event s ∧ FindsKey event s)
      (Session.start k₀ ticks) s) :
  s.returned <+: s.stored ∧ s.stored = s.returned ++ s.keyboard.contents
  := by
  have hdelivered : s.Delivered := by
    apply h.invariant (P := Delivered)
    · exact fun event s s' h hok hstep => h.step hok.2 hstep
    · rfl
  exact ⟨⟨_, hdelivered.symm⟩, hdelivered⟩

/-! ### Two readers -/

variable {xs : List ℕ} {n : ℕ} {ready wait kill : List Slot}

/-- A process that finds the buffer empty goes to the wait list. -/
theorem readKeyBuffer_quiet (h : Quiet image s.kernel xs (Queues.of ready wait kill) n)
    (hidle : s.current ≠ idleSlot) (hempty : s.keyboard.front = s.keyboard.back) :
  ∃ scheduler, s.step image .readKeyBuffer
      = some (s.afterSleep (.readKeyBuffer s.keyboard.front) scheduler)
    ∧ scheduler.currentProc = ready.headD idleSlot
    ∧ SameResources s.kernel.scheduler scheduler
    ∧ (∀ i, (scheduler.process i).waitId
      = if i = s.current then waitingKeyboardProcessWaitId else (s.kernel.process i).waitId)
    ∧ Quiet image { s.kernel with scheduler := scheduler } xs
      (Queues.of ready.tail (wait ++ [s.current]) kill) n
  := by
  obtain ⟨scheduler, hsleep, hcurrent, hres, hid, hq⟩ :=
    h.queued.sleep hidle waitingKeyboardProcessWaitId
  have hqueues : ((Queues.of ready wait kill).push .waitProcList s.current).tail
      = Queues.of ready.tail (wait ++ [s.current]) kill := by
    funext list
    cases list <;> rfl
  rw [← hcurrent] at hq
  refine ⟨scheduler, ?_, hcurrent, hres, hid, hqueues ▸ h.schedule hres hq⟩
  rw [Session.step, Session.readKeyBuffer, if_pos hempty, Session.sleepIn]
  exact congrArg (Option.map _) hsleep

/-- A keyboard interrupt makes all readers ready. -/
theorem keyboard_quiet {scanCode ch : UInt8} {flag : BitVec 32}
    (h : Quiet image s.kernel xs (Queues.of ready wait kill) n)
    (hread : readCharacter scanCode s.flag = (ch, flag)) (hch : 0 < ch ∧ ch < 0x80)
    (hwait : ∀ i ∈ wait, (s.kernel.process i).waitId = waitingKeyboardProcessWaitId) :
  ∃ scheduler, s.step image (.keyboard scanCode)
      = some ((({ s with flag := flag } : Session).writeKeyBuffer ch).setScheduler scheduler)
    ∧ scheduler.currentProc = s.current ∧ SameResources s.kernel.scheduler scheduler
    ∧ Quiet image { s.kernel with scheduler := scheduler } xs
      (Queues.of (ready ++ wait) [] kill) n
  := by
  obtain ⟨scheduler, hwake, hcurrent, hres, _, hq⟩ :=
    h.queued.wakeup waitingKeyboardProcessWaitId
  have hwaiting : ∀ i ∈ wait, Queued.waiting s.kernel.scheduler waitingKeyboardProcessWaitId i
      = true := fun i hi => decide_eq_true (hwait i hi)
  have hqueues : (Queues.of ready wait kill).wake
      (Queued.waiting s.kernel.scheduler waitingKeyboardProcessWaitId)
      = Queues.of (ready ++ wait) [] kill := by
    funext list
    cases list with
    | readyProcList => exact congrArg (ready ++ ·) (List.filter_eq_self.mpr hwaiting)
    | waitProcList =>
        apply List.filter_eq_nil_iff.mpr
        intro i hi
        simp [hwaiting i hi]
    | killProcList => rfl
  have hqueued : Queued scheduler _ (some scheduler.currentProc) none :=
    (congrArg some hcurrent.symm) ▸ hq
  refine ⟨scheduler, ?_, hcurrent, hres, hqueues ▸ h.schedule hres hqueued⟩
  rw [Session.step, Session.keyboardHandler, hread]
  exact (if_pos hch).trans (congrArg (Option.map _) hwake)

/-- A timer interrupt dispatches the first ready process, and the process that it interrupts becomes
ready, unless it is IDLE. -/
theorem timer_cons {i : Slot} (h : Quiet image s.kernel xs (Queues.of (i :: ready) [] kill) n) :
  ∃ scheduler, s.step image .timer = some (s.afterTimer scheduler) ∧ scheduler.currentProc = i
    ∧ SameResources s.kernel.scheduler scheduler
    ∧ Quiet image { s.kernel with scheduler := scheduler } xs
      (Queues.of (if (s.kernel.process s.current).pid = idleProcessPid then ready
        else ready ++ [s.current]) [] kill) n
  := by
  obtain ⟨scheduler, hstep, hcurrent, hres, _, hquiet⟩ := timer_quiet h
    (fun i hi => absurd hi List.not_mem_nil) (List.cons_ne_nil i ready)
  have hyielded : Queued.yielded s.kernel.scheduler (Queues.of (i :: ready) [] kill)
      = Queues.of (i :: if (s.kernel.process s.current).pid = idleProcessPid then ready
        else ready ++ [s.current]) [] kill := by
    by_cases hpid : (s.kernel.process s.current).pid = idleProcessPid
    · rw [if_pos hpid, Queued.yielded]
      exact if_pos hpid
    · rw [if_neg hpid, Queued.yielded]
      apply (if_neg hpid).trans
      funext list
      cases list <;> rfl
  rw [hyielded] at hcurrent hquiet
  refine ⟨scheduler, hstep, hcurrent, hres, ?_⟩
  have htail : ∀ (ready : List Slot), (Queues.of (i :: ready) [] kill).tail
      = Queues.of ready [] kill := by
    intro ready
    funext list
    cases list <;> rfl
  rw [htail] at hquiet
  exact hquiet

/-- The session after the shell has called `ReadKeyBuffer` and slept, a key was pressed, and the shell
is dispatched again. -/
theorem shell_reads :
  ∃ k₀ s, kMain smallImage (smallMachine 64) = some k₀
    ∧ Reachable (Session.step smallImage)
      (fun event s => Enabled smallImage event s ∧ FindsKey event s) (Session.start k₀ 0) s
    ∧ s.pending s.current = some (.readKeyBuffer 0) ∧ s.stored = [0x61] ∧ s.returned = []
    ∧ s.keyboard = ⟨Function.update (fun _ => 0) 0 0x61, 0, 1⟩
  := by
  obtain ⟨k₀, c₁, xs, hboot, hstep₁, hquiet₁, _, hcurrent₁, hpid, _⟩ :=
    start_shell 0 (n := 64) (by decide) (by decide)
  have hnil : (fun _ => [] : Queues) = Queues.of [] [] [] := by
    funext list
    cases list <;> rfl
  rw [hnil] at hquiet₁
  let s₁ := (Session.start k₀ 0).afterTimer c₁
  have hidle : s₁.current ≠ idleSlot := by
    intro h
    cases hcurrent₁.symm.trans h
  obtain ⟨c₂, hstep₂, hcurrent₂, _, hid₂, hquiet₂⟩ := @readKeyBuffer_quiet _ s₁ _ _ _ _ _ hquiet₁
    hidle rfl
  let s₂ := s₁.afterSleep (.readKeyBuffer 0) c₂
  have hwait : ∀ i ∈ [s₁.current], (s₂.kernel.process i).waitId = waitingKeyboardProcessWaitId := by
    intro i hi
    rw [List.mem_singleton.mp hi]
    exact (hid₂ s₁.current).trans (if_pos rfl)
  have hread : readCharacter 0x1E 0 = (0x61, 0) := by decide
  obtain ⟨c₃, hstep₃, hcurrent₃, _, hquiet₃⟩ := @keyboard_quiet _ s₂ _ _ _ _ _ 0x1E 0x61 0 hquiet₂
    hread (by decide) hwait
  let s₃ := (({ s₂ with flag := 0 } : Session).writeKeyBuffer 0x61).setScheduler c₃
  obtain ⟨c₄, hstep₄, hcurrent₄, _⟩ := @timer_cons _ s₃ _ _ _ _ _ hquiet₃
  have hreach₁ : Reachable (Session.step smallImage)
      (fun event s => Enabled smallImage event s ∧ FindsKey event s) (Session.start k₀ 0) s₁ :=
    .step .timer .refl ⟨rfl, fun e => by cases e⟩ hstep₁
  have hreach₂ := hreach₁.step SessionEvent.readKeyBuffer ⟨⟨rfl, hidle⟩, fun e => by cases e⟩ hstep₂
  have hnone : s₂.pending s₂.current = none := by
    apply Function.update_of_ne
    intro h
    exact hidle (h.symm.trans hcurrent₂)
  have hreach₃ := hreach₂.step (SessionEvent.keyboard 0x1E) ⟨hnone, fun e => by cases e⟩ hstep₃
  have hnone₃ : s₃.pending s₃.current = none := (congrArg s₂.pending hcurrent₃).trans hnone
  have hreach₄ := hreach₃.step SessionEvent.timer ⟨hnone₃, fun e => by cases e⟩ hstep₄
  refine ⟨k₀, s₃.afterTimer c₄, hboot, hreach₄, ?_, rfl, rfl, rfl⟩
  exact (congrArg s₂.pending hcurrent₄).trans (Function.update_self _ _ _)

theorem reachable_delivered_small :
  ∃ k₀ s, kMain smallImage (smallMachine 64) = some k₀
    ∧ Reachable (Session.step smallImage)
      (fun event s => Enabled smallImage event s ∧ FindsKey event s) (Session.start k₀ 0) s
    ∧ s.returned = [0x61] ∧ s.returned <+: s.stored
    ∧ s.stored = s.returned ++ s.keyboard.contents
  := by
  obtain ⟨k₀, s, hboot, hreach, hpending, _, hreturned, hkeyboard⟩ := shell_reads
  have hfinds : FindsKey .resume s := by
    intro _ front hfront
    cases hpending.symm.trans hfront
    rw [hkeyboard]
    exact ⟨rfl, by decide⟩
  have hstep : s.step smallImage .resume = some (s.takeKey 0) := by
    rw [Session.step, hpending]
    rfl
  have hreach' := hreach.step SessionEvent.resume ⟨trivial, hfinds⟩ hstep
  refine ⟨k₀, _, hboot, hreach', ?_, reachable_delivered hreach'⟩
  rw [Session.takeKey, hreturned, hkeyboard]
  rfl

/-- The shell and its child call `ReadKeyBuffer` and sleep, and one key is pressed. -/
theorem two_readers :
  ∃ k₀ s, kMain smallImage (smallMachine 64) = some k₀
    ∧ Reachable (Session.step smallImage) (Enabled smallImage) (Session.start k₀ 0) s
    ∧ s.stored = [0x61] ∧ s.returned = [0x61, 0x61]
  := by
  obtain ⟨k₀, c₁, xs, hboot, hstep₁, hquiet₁, hlength, hcurrent₁, _⟩ :=
    start_shell 0 (n := 64) (by decide) (by decide)
  let s₁ := (Session.start k₀ 0).afterTimer c₁
  have hidle₁ : s₁.current ≠ idleSlot := by
    intro h
    cases hcurrent₁.symm.trans h
  obtain ⟨k₂, ys, _, hstep₂, _, hquiet₂, hcurrent₂, _⟩ :=
    hquiet₁.fork hidle₁ (by decide) (by rw [hlength]; decide)
  have hqueues : Queues.push (fun _ => []) .readyProcList (2 : Slot) = Queues.of [2] [] [] := by
    funext list
    cases list <;> rfl
  let s₂ : Session := { s₁ with kernel := k₂ }
  have hslot₂ : s₂.current = 1 := hcurrent₂.trans hcurrent₁
  have hidle₂ : s₂.current ≠ idleSlot := by
    rw [hslot₂]
    decide
  obtain ⟨c₃, hstep₃, hcurrent₃, _, hid₃, hquiet₃⟩ :=
    @readKeyBuffer_quiet _ s₂ _ _ _ _ _ (hqueues ▸ hquiet₂) hidle₂ rfl
  let s₃ := s₂.afterSleep (.readKeyBuffer 0) c₃
  have hslot₃ : s₃.current = 2 := hcurrent₃
  have hidle₃ : s₃.current ≠ idleSlot := by
    rw [hslot₃]
    decide
  obtain ⟨c₄, hstep₄, hcurrent₄, _, hid₄, hquiet₄⟩ :=
    @readKeyBuffer_quiet _ s₃ _ _ _ _ _ hquiet₃ hidle₃ rfl
  let s₄ := s₃.afterSleep (.readKeyBuffer 0) c₄
  have hpending₃ : s₃.pending = Function.update (fun _ => none) 1 (some (.readKeyBuffer 0)) :=
    congrArg (fun i => Function.update _ i (some (Pending.readKeyBuffer 0))) hslot₂
  have hpending₄ : s₄.pending = Function.update s₃.pending 2 (some (.readKeyBuffer 0)) :=
    congrArg (fun i => Function.update _ i (some (Pending.readKeyBuffer 0))) hslot₃
  have hwait : ∀ i ∈ [s₂.current] ++ [s₃.current],
      (s₄.kernel.process i).waitId = waitingKeyboardProcessWaitId := by
    intro i hi
    rcases List.mem_append.mp hi with hi | hi
    · rw [List.mem_singleton.mp hi]
      apply (hid₄ s₂.current).trans
      split
      · rfl
      · exact (hid₃ s₂.current).trans (if_pos rfl)
    · rw [List.mem_singleton.mp hi]
      exact (hid₄ s₃.current).trans (if_pos rfl)
  have hread : readCharacter 0x1E 0 = (0x61, 0) := by decide
  obtain ⟨c₅, hstep₅, hcurrent₅, _, hquiet₅⟩ := @keyboard_quiet _ s₄ _ _ _ _ _ 0x1E 0x61 0 hquiet₄
    hread (by decide) hwait
  let s₅ := (({ s₄ with flag := 0 } : Session).writeKeyBuffer 0x61).setScheduler c₅
  obtain ⟨c₆, hstep₆, hcurrent₆, _, hquiet₆⟩ := @timer_cons _ s₅ _ _ _ _ _ hquiet₅
  let s₆ := s₅.afterTimer c₆
  have hslot₆ : s₆.current = 1 := hcurrent₆.trans hslot₂
  let s₇ := s₆.takeKey 0
  obtain ⟨rest, hrest⟩ : ∃ rest, (if (s₅.kernel.process s₅.current).pid = idleProcessPid then
      [s₃.current] else [s₃.current] ++ [s₅.current]) = s₃.current :: rest := by
    split
    · exact ⟨_, rfl⟩
    · exact ⟨_, rfl⟩
  obtain ⟨c₈, hstep₈, hcurrent₈, _⟩ := @timer_cons _ s₇ _ _ _ _ s₃.current (hrest ▸ hquiet₆)
  let s₈ := s₇.afterTimer c₈
  have hslot₈ : s₈.current = 2 := hcurrent₈.trans hslot₃
  have hpending₆ : s₆.pending s₆.current = some (.readKeyBuffer 0) := by
    apply (congrFun hpending₄ s₆.current).trans
    rw [hslot₆, hpending₃]
    rfl
  have hpending₈ : s₈.pending s₈.current = some (.readKeyBuffer 0) := by
    have hne : s₈.current ≠ s₆.current := by
      rw [hslot₈, hslot₆]
      decide
    apply (Function.update_of_ne hne _ _).trans
    apply (congrFun hpending₄ s₈.current).trans
    rw [hslot₈]
    exact Function.update_self _ _ _
  have hnone₃ : s₃.pending s₃.current = none := by
    rw [hpending₃, hslot₃]
    rfl
  have hnone₄ : s₄.pending s₄.current = none := by
    apply (congrFun hpending₄ s₄.current).trans
    have hslot₄ : s₄.current = idleSlot := hcurrent₄
    rw [hpending₃, hslot₄]
    rfl
  have hnone₅ : s₅.pending s₅.current = none := (congrArg s₄.pending hcurrent₅).trans hnone₄
  have hnone₇ : s₇.pending s₇.current = none := Function.update_self _ _ _
  have hreach₁ : Reachable (Session.step smallImage) (Enabled smallImage) (Session.start k₀ 0) s₁ :=
    .step .timer .refl rfl hstep₁
  have hreach₂ : Reachable (Session.step smallImage) (Enabled smallImage) (Session.start k₀ 0) s₂ :=
    hreach₁.step (.call .fork) ⟨rfl, hidle₁, rfl, fun _ => hidle₁, fun _ => trivial⟩
      (congrArg (Option.map _) hstep₂)
  have hreach₃ := hreach₂.step SessionEvent.readKeyBuffer ⟨rfl, hidle₂⟩ hstep₃
  have hreach₄ := hreach₃.step SessionEvent.readKeyBuffer ⟨hnone₃, hidle₃⟩ hstep₄
  have hreach₅ := hreach₄.step (SessionEvent.keyboard 0x1E) hnone₄ hstep₅
  have hreach₆ := hreach₅.step SessionEvent.timer hnone₅ hstep₆
  have hreach₇ : Reachable (Session.step smallImage) (Enabled smallImage) (Session.start k₀ 0) s₇ := by
    apply hreach₆.step SessionEvent.resume trivial
    exact congrArg (Option.bind · s₆.resume) hpending₆
  have hreach₈ := hreach₇.step SessionEvent.timer hnone₇ hstep₈
  have hreach₉ : Reachable (Session.step smallImage) (Enabled smallImage) (Session.start k₀ 0)
      (s₈.takeKey 0) := by
    apply hreach₈.step SessionEvent.resume trivial
    exact congrArg (Option.bind · s₈.resume) hpending₈
  exact ⟨k₀, _, hboot, hreach₉, rfl, rfl⟩

/-- Both readers return the character of the key. -/
theorem not_reachable_delivered :
  ¬ ∀ (k₀ : Kernel) (s : Session), kMain smallImage (smallMachine 64) = some k₀ →
    Reachable (Session.step smallImage) (Enabled smallImage) (Session.start k₀ 0) s →
    s.returned <+: s.stored
  := by
  intro h
  obtain ⟨k₀, s, hboot, hreach, hstored, hreturned⟩ := two_readers
  have hordered := h k₀ s hboot hreach
  rw [hstored, hreturned] at hordered
  exact absurd hordered (by decide)

end Session

end LarvaOS
