import Aesd.ForStd.Interleave

/-! # The mutex threads

`threading.c` of the examples: `start_thread_obtaining_mutex` starts a thread on `threadfunc`,
which sleeps, takes the mutex, sleeps again and releases the mutex. A thread goes from one call
to the next; the labels are the calls with what they return. Any number of threads share one
mutex. -/

namespace Aesd

/-- `struct timespec`. -/
structure Timespec where
  tvSec : Int
  tvNsec : Int
  deriving DecidableEq, Repr

/-- The time that `sleep_ms` sleeps. The division rounds toward zero, and the remainder has the
    sign of `ms`. -/
def sleepTimespec (ms : Int32) : Timespec :=
  ⟨ms.toInt.tdiv 1000, ms.toInt.tmod 1000 * 1000000⟩

/-- A time that `clock_nanosleep` takes. For any other it returns `EINVAL`. -/
def Timespec.Valid (t : Timespec) : Prop := 0 ≤ t.tvSec ∧ 0 ≤ t.tvNsec ∧ t.tvNsec < 1000000000

instance (t : Timespec) : Decidable t.Valid := inferInstanceAs (Decidable (_ ∧ _ ∧ _))

/-- `sleep_ms(ms)` may return `rc`. -/
def SleepMs (ms : Int32) (rc : Int) : Prop := rc = 0 → (sleepTimespec ms).Valid

instance (ms : Int32) (rc : Int) : Decidable (SleepMs ms rc) :=
  inferInstanceAs (Decidable (_ → _))

/-- `struct thread_data`, but for the pointer to the mutex. -/
structure ThreadData where
  waitToObtainMs : Int32
  waitToReleaseMs : Int32
  threadCompleteSuccess : Bool
  deriving DecidableEq, Repr

/-- `start_thread_obtaining_mutex`: what it returns, and the argument of the thread that it
    created. `granted` and `created` tell whether `malloc` and `pthread_create` succeed. -/
def startThreadObtainingMutex (waitToObtainMs waitToReleaseMs : Int32) (granted created : Bool) :
    Bool × Option ThreadData :=
  if !granted then (false, none)
  else
    let passData : ThreadData := ⟨waitToObtainMs, waitToReleaseMs, false⟩
    if !created then (false, none) else (true, some passData)

/-- Where a thread is: before which call of `threadfunc`, or out of it. -/
inductive ThreadPc where
  | notStarted
  | notCreated
  | obtainSleep
  | lock
  | releaseSleep
  | unlock
  | returned
  deriving DecidableEq, Repr

/-- The calls of a thread, with what they return; `start` is the one that starts it. -/
inductive ThreadCall where
  | start (waitToObtainMs waitToReleaseMs : Int32) (granted created : Bool)
  | sleep (rc : Int)
  | lock (rc : Int)
  | unlock (rc : Int)
  deriving DecidableEq, Repr

/-- A thread and its argument. -/
structure Threadfunc where
  pc : ThreadPc
  data : ThreadData
  deriving DecidableEq, Repr

namespace Threadfunc

/-- A thread that nobody has started. -/
def notStarted : Threadfunc := ⟨.notStarted, ⟨0, 0, false⟩⟩

/-- `return thread_param` with `thread_complete_success` set. -/
def leave (t : Threadfunc) (success : Bool) : Threadfunc :=
  ⟨.returned, { t.data with threadCompleteSuccess := success }⟩

/-- One call of a thread. -/
def step (t : Threadfunc) (call : ThreadCall) : Option Threadfunc :=
  match t.pc, call with
  | .notStarted, .start waitToObtainMs waitToReleaseMs granted created =>
    match (startThreadObtainingMutex waitToObtainMs waitToReleaseMs granted created).2 with
    | none => some { t with pc := .notCreated }
    | some passData => some ⟨.obtainSleep, passData⟩
  | .obtainSleep, .sleep rc =>
    if SleepMs t.data.waitToObtainMs rc then
      some (if rc ≠ 0 then t.leave false else { t with pc := .lock })
    else none
  | .lock, .lock rc => some (if rc ≠ 0 then t.leave false else { t with pc := .releaseSleep })
  | .releaseSleep, .sleep rc =>
    if SleepMs t.data.waitToReleaseMs rc then
      some (if rc ≠ 0 then t.leave false else { t with pc := .unlock })
    else none
  | .unlock, .unlock rc => some (if rc ≠ 0 then t.leave false else t.leave true)
  | _, _ => none

/-- What a call of thread `i` does to the mutex. The holder's release does not fail, and no
    other thread's succeeds. -/
def mutexStep (i : Nat) (threadMutex : Mutex Nat) : ThreadCall → Option (Mutex Nat)
  | .lock rc => if rc = 0 then threadMutex.lock i else some threadMutex
  | .unlock rc =>
    if rc = 0 then threadMutex.unlock i
    else if threadMutex = some i then none else some threadMutex
  | _ => some threadMutex

/-- Any number of threads and their mutex. -/
def lts : Lts (Threads Nat (Mutex Nat) Threadfunc) (Nat × ThreadCall) :=
  .interleave fun i threadMutex t call => do
    let t ← t.step call
    let threadMutex ← mutexStep i threadMutex call
    some (threadMutex, t)

/-- No thread is started yet and the mutex is free. -/
def init : Threads Nat (Mutex Nat) Threadfunc := ⟨none, fun _ => notStarted⟩

end Threadfunc

end Aesd
