import LarvaOS.Library.Rota
import LarvaOS.Process.Operations

/-!
# The scheduler as a rota

The queues of the scheduler, with the processes named by their pids, are the state of a
rota: the ready list is the order in which the processes get the processor, a process on
the wait list waits for its wait id, and the kill list holds the dead processes.  When
IDLE is the current process, no process runs.
-/

namespace LarvaOS

/-- The rota of some queues, with the names and the wait ids of the processes. -/
def Queues.rota (q : Queues) (name waitId : Slot → Int) (current : Slot) : Rota Int Int where
  running := if current = idleSlot then none else some (name current)
  ready := (q .readyProcList).map name
  waiting := (q .waitProcList).map (fun i => (name i, waitId i))
  dead := (q .killProcList).map name

/-- The rota of a scheduler that holds the queues. -/
def Scheduler.rota (s : Scheduler) (q : Queues) : Rota Int Int :=
  q.rota (fun i => (s.process i).pid) (fun i => (s.process i).waitId) s.currentProc

namespace Queues

variable {q : Queues} {name waitId : Slot → Int} {current i : Slot}

@[simp]
theorem rota_idle (q : Queues) (name waitId : Slot → Int) :
  (q.rota name waitId idleSlot).running = none
  := by
  unfold rota
  rw [if_pos rfl]

theorem rota_running (h : current ≠ idleSlot) :
  (q.rota name waitId current).running = some (name current)
  := if_neg h

@[simp]
theorem rota_ready (q : Queues) (name waitId : Slot → Int) (current : Slot) :
  (q.rota name waitId current).ready = (q .readyProcList).map name
  := rfl

@[simp]
theorem rota_waiting (q : Queues) (name waitId : Slot → Int) (current : Slot) :
  (q.rota name waitId current).waiting = (q .waitProcList).map (fun i => (name i, waitId i))
  := rfl

@[simp]
theorem rota_dead (q : Queues) (name waitId : Slot → Int) (current : Slot) :
  (q.rota name waitId current).dead = (q .killProcList).map name
  := rfl

/-- `Schedule` dispatches the first ready process. -/
theorem rota_tail (hidle : idleSlot ∉ q .readyProcList) :
  q.tail.rota name waitId q.head = (q.rota name waitId idleSlot).dispatch
  := by
  unfold Rota.dispatch
  apply Rota.ext
  · rw [rota_ready]
    unfold head
    cases hready : q .readyProcList with
    | nil => simp
    | cons i rest =>
        have hi : i ≠ idleSlot := by
          rintro rfl
          rw [hready] at hidle
          exact hidle List.mem_cons_self
        rw [List.headD_cons, rota_running hi, List.map_cons, List.head?_cons]
  · simp
  · simp
  · simp

/-- A push onto the ready list. -/
theorem rota_push_ready :
  (q.push .readyProcList i).rota name waitId current
    = { q.rota name waitId current with
        ready := (q.rota name waitId current).ready ++ [name i] }
  := by
  apply Rota.ext <;> simp [rota]

/-- A push onto the wait list. -/
theorem rota_push_wait :
  (q.push .waitProcList i).rota name waitId current
    = { q.rota name waitId current with
        waiting := (q.rota name waitId current).waiting ++ [(name i, waitId i)] }
  := by
  apply Rota.ext <;> simp [rota]

/-- A push onto the kill list. -/
theorem rota_push_kill :
  (q.push .killProcList i).rota name waitId current
    = { q.rota name waitId current with dead := (q.rota name waitId current).dead ++ [name i] }
  := by
  apply Rota.ext <;> simp [rota]

/-- `Wakeup` wakes a reason. -/
theorem rota_wake (reason : Int) :
  (q.wake (fun i => waitId i = reason)).rota name waitId current
    = (q.rota name waitId current).wake reason
  := by
  apply Rota.ext
  · rfl
  · simp [rota, wake, Rota.wake, List.filter_map, Function.comp_def]
  · simp [rota, wake, Rota.wake, List.filter_map, Function.comp_def]
  · rfl

/-- `Wait` takes the first killed process with the pid. -/
theorem rota_remove (pid : Int) :
  (q.remove .killProcList (fun i => name i = pid)).rota name waitId current
    = { q.rota name waitId current with dead := (q.rota name waitId current).dead.erase pid }
  := by
  apply Rota.ext
  · rfl
  · simp [rota, remove_of_ne]
  · simp [rota, remove_of_ne]
  · rw [rota_dead, rota_dead, remove_self, List.erase_eq_eraseP', List.eraseP_map]
    congr 1

/-- Only the names of the processes of the rota matter, and the wait ids of those that
wait. -/
theorem rota_congr {name' waitId' : Slot → Int} (hname : ∀ list, ∀ i ∈ q list, name' i = name i)
    (hcurrent : current ≠ idleSlot → name' current = name current)
    (hwait : ∀ i ∈ q .waitProcList, waitId' i = waitId i) :
  q.rota name' waitId' current = q.rota name waitId current
  := by
  apply Rota.ext
  · by_cases h : current = idleSlot
    · rw [h, rota_idle, rota_idle]
    · rw [rota_running h, rota_running h, hcurrent h]
  · apply List.map_congr_left (hname .readyProcList)
  · apply List.map_congr_left
    intro i hi
    rw [hname .waitProcList i hi, hwait i hi]
  · apply List.map_congr_left (hname .killProcList)

end Queues

end LarvaOS
