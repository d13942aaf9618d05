import Epica.Mcp.Assembly
import Epica.Mcp.Budget

/-!
# Tasks: call now, fetch later

A request whose update returns `System2Pending` leaves a task in the task store, and answers with
its id.  The task is `Pending` when the response is sent, `Running` before the LLM is asked, and
`Completed` or `Failed` when the answer has been applied or the token is back.  Callers poll the
store, or read a stream that looks into it every tick.

* `TaskStore`        the stores: a map, and a database of encoded tasks;
* `taskSection`      a request and its task, a lock section at a time, the store included;
* `erase_step`       without the store it is `serveSection`;
* `shows_run`        the store shows of every request how far it is;
* `task_lifecycle`   a task that has been promised is found from then on, and its status only moves
                     forward;
* `stream_reports`   a stream reports these statuses in order, and ends with the first last one.
-/

set_option linter.unusedSectionVars false

namespace Epica
open Lib

namespace Tasks

/-! ## the store -/

inductive TaskStatus where
  | pending
  | running
  | completed (result : Json)
  | failed (error : String)

namespace TaskStatus

def isTerminal : TaskStatus → Bool
  | .completed _ => true
  | .failed _ => true
  | _ => false

def rank : TaskStatus → Nat
  | .pending => 0
  | .running => 1
  | .completed _ => 2
  | .failed _ => 2

/-- the second is the first, or further on -/
def Reaches (a b : TaskStatus) : Prop := a = b ∨ a.rank < b.rank

theorem Reaches.refl (a : TaskStatus) : a.Reaches a := Or.inl rfl

theorem Reaches.trans {a b c : TaskStatus} (h : a.Reaches b) (h' : b.Reaches c) : a.Reaches c := by
  rcases h with rfl | h
  · exact h'
  · rcases h' with rfl | h'
    · exact Or.inr h
    · exact Or.inr (Nat.lt_trans h h')

end TaskStatus

structure McpTask where
  taskId : Uuid
  beliefKey : String
  status : TaskStatus
  createdAtMs : Nat

/-- a store whose operations do not fail -/
class TaskStore (S : Type) where
  get : S → Uuid → Option McpTask
  insert : S → McpTask → S
  updateStatus : S → Uuid → TaskStatus → S
  get_insert (s : S) (task : McpTask) (id : Uuid) :
    get (insert s task) id = if id = task.taskId then some task else get s id
  get_updateStatus (s : S) (id : Uuid) (status : TaskStatus) (j : Uuid) :
    get (updateStatus s id status) j =
      if j = id then (get s id).map fun task => { task with status := status } else get s j

structure InMemoryTaskStore where
  tasks : Finmap fun _ : Uuid => McpTask

namespace InMemoryTaskStore

def get (s : InMemoryTaskStore) (taskId : Uuid) : Option McpTask := s.tasks.lookup taskId

def insert (s : InMemoryTaskStore) (task : McpTask) : InMemoryTaskStore :=
  ⟨s.tasks.insert task.taskId task⟩

/-- nothing happens when there is no such task -/
def updateStatus (s : InMemoryTaskStore) (taskId : Uuid) (status : TaskStatus) :
    InMemoryTaskStore :=
  match s.tasks.lookup taskId with
  | some task => ⟨s.tasks.insert taskId { task with status := status }⟩
  | none => s

theorem lookup_insert_ite {V : Type} (m : Finmap fun _ : Uuid => V) (id : Uuid) (v : V) (j : Uuid) :
    (m.insert id v).lookup j = if j = id then some v else m.lookup j := by
  split
  · rename_i e
    rw [e, Finmap.lookup_insert]
  · rename_i e
    rw [Finmap.lookup_insert_of_ne _ e]

instance : TaskStore InMemoryTaskStore where
  get := get
  insert := insert
  updateStatus := updateStatus
  get_insert s task id := lookup_insert_ite s.tasks task.taskId task id
  get_updateStatus s id status j := by
    unfold updateStatus get
    cases h : s.tasks.lookup id with
    | none =>
      simp only [Option.map_none]
      by_cases e : j = id
      · rw [if_pos e, e, h]
      · rw [if_neg e]
    | some task => exact lookup_insert_ite s.tasks id _ j

end InMemoryTaskStore

/-- how a task is written to bytes, and read back -/
class TaskJson where
  toVec : McpTask → List UInt8
  fromSlice : List UInt8 → Option McpTask
  fromSlice_toVec (task : McpTask) : fromSlice (toVec task) = some task

/-- the database, a library's, holds encoded tasks: what is relied on is that it is a map, that no
operation on it fails, and that what a task is written to is read back as this task -/
structure SledTaskStore [TaskJson] where
  db : Finmap fun _ : Uuid => List UInt8
  valid : ∀ id bytes, db.lookup id = some bytes → (TaskJson.fromSlice bytes).isSome

namespace SledTaskStore
variable [TaskJson]

def get (s : SledTaskStore) (taskId : Uuid) : Option McpTask :=
  (s.db.lookup taskId).bind TaskJson.fromSlice

theorem valid_insert (s : SledTaskStore) (taskId : Uuid) (task : McpTask) (id : Uuid)
    (bytes : List UInt8) (h : (s.db.insert taskId (TaskJson.toVec task)).lookup id = some bytes) :
    (TaskJson.fromSlice bytes).isSome := by
  rw [InMemoryTaskStore.lookup_insert_ite] at h
  split at h
  · rw [← Option.some.inj h, TaskJson.fromSlice_toVec]
    rfl
  · exact s.valid id bytes h

/-- the task is written under `taskId` -/
def write (s : SledTaskStore) (taskId : Uuid) (task : McpTask) : SledTaskStore :=
  ⟨s.db.insert taskId (TaskJson.toVec task), s.valid_insert taskId task⟩

def insert (s : SledTaskStore) (task : McpTask) : SledTaskStore := s.write task.taskId task

def updateStatus (s : SledTaskStore) (taskId : Uuid) (status : TaskStatus) : SledTaskStore :=
  match s.get taskId with
  | some task => s.write taskId { task with status := status }
  | none => s

theorem get_write (s : SledTaskStore) (taskId : Uuid) (task : McpTask) (id : Uuid) :
    (s.write taskId task).get id = if id = taskId then some task else s.get id := by
  show ((s.db.insert taskId _).lookup id).bind _ = _
  rw [InMemoryTaskStore.lookup_insert_ite]
  split
  · exact TaskJson.fromSlice_toVec task
  · rfl

instance : TaskStore SledTaskStore where
  get := get
  insert := insert
  updateStatus := updateStatus
  get_insert s task id := get_write s task.taskId task id
  get_updateStatus s id status j := by
    unfold updateStatus
    cases h : s.get id with
    | none =>
      simp only [Option.map_none]
      by_cases e : j = id
      · rw [if_pos e, e, h]
      · rw [if_neg e]
    | some task => exact get_write s id _ j

end SledTaskStore

/-! ## requests and their tasks -/

/-- a request, and what its task draws besides -/
structure TaskCall extends SetCall where
  createdAtMs : Nat
  reasoning : String
  error : String

namespace TaskCall

/-- what the completed task says -/
def result (call : TaskCall) : Json :=
  .object [("reasoning", .string call.reasoning),
    ("revised_confidence", .float (call.reflection.getD 0))]

/-- the task it leaves, with a status -/
def task (call : TaskCall) (status : TaskStatus) : McpTask :=
  ⟨call.taskId, call.key, status, call.createdAtMs⟩

end TaskCall

/-- the section a request, or its task, is about to enter -/
inductive TaskPc where
  | handle (pc : SetPc)
  /-- the token is taken -/
  | create (id : BeliefId) (signal : DiagnosticSignal)
  /-- from here on the response has been sent -/
  | spawned (id : BeliefId) (signal : DiagnosticSignal)
  | running (pc : SetPc)
  /-- the answer has been applied -/
  | complete (id : BeliefId)
  /-- the token is back -/
  | fail (id : BeliefId)
  | completed (id : BeliefId)
  | failed (id : BeliefId)

namespace TaskPc

/-- the same without the store -/
def erase : TaskPc → SetPc
  | .handle pc => pc
  | .create id signal => .reflect id signal
  | .spawned id signal => .reflect id signal
  | .running pc => pc
  | .complete id => .activated id
  | .fail id => .refunded id
  | .completed id => .activated id
  | .failed id => .refunded id

/-- the response, once it has been sent -/
def response (call : TaskCall) : TaskPc → Option (Except RuntimeError BeliefSetResponse)
  | .create _ _ => none
  | pc => pc.erase.response call.toSetCall

/-- the task that the response names, once it has been sent -/
def named (call : TaskCall) (pc : TaskPc) : Option Uuid :=
  match pc.response call with
  | some (.ok response) => response.taskId
  | _ => none

theorem named_eq_some {call : TaskCall} {pc : TaskPc} {id : Uuid} (h : pc.named call = some id) :
    ∃ response, pc.response call = some (.ok response) ∧ response.taskId = some id := by
  unfold named at h
  split at h
  · rename_i response hr
    exact ⟨response, hr, h⟩
  · cases h

/-- the status of the task, if there is one -/
def status (call : TaskCall) : TaskPc → Option TaskStatus
  | .handle _ => none
  | .create _ _ => none
  | .spawned _ _ => some .pending
  | .running _ => some .running
  | .complete _ => some .running
  | .fail _ => some .running
  | .completed _ => some (.completed call.result)
  | .failed _ => some (.failed call.error)

/-- after the token, the handler creates the task -/
def afterHandle : SetPc → TaskPc
  | .reflect id signal => .create id signal
  | pc => .handle pc

def afterRunning : SetPc → TaskPc
  | .activated id => .complete id
  | .refunded id => .fail id
  | pc => .running pc

theorem erase_afterHandle (pc : SetPc) : (afterHandle pc).erase = pc := by
  cases pc <;> rfl

theorem erase_afterRunning (pc : SetPc) : (afterRunning pc).erase = pc := by
  cases pc <;> rfl

theorem status_afterHandle (call : TaskCall) (pc : SetPc) :
    (afterHandle pc).status call = none := by
  cases pc <;> rfl

theorem status_afterRunning (call : TaskCall) (pc : SetPc) :
    (afterRunning pc).status call = some .running := by
  cases pc <;> rfl

end TaskPc

section
variable {B S : Type} {M : Type → Type} {G : Type → Type → Type} [SlotMap M] [StableDiGraph G]
  [Platform] [TaskStore S]

def taskSection (bucket : Bucket B) (nowMs : Nat) (call : TaskCall) (app : AppState B M G)
    (store : S) : TaskPc → AppState B M G × S × TaskPc
  | .handle pc =>
    let r := app.serveSection bucket nowMs call.toSetCall pc
    (r.1, store, .afterHandle r.2)
  | .create id signal => (app, TaskStore.insert store (call.task .pending), .spawned id signal)
  | .spawned id signal =>
    (app, TaskStore.updateStatus store call.taskId .running, .running (.reflect id signal))
  | .running pc =>
    let r := app.serveSection bucket nowMs call.toSetCall pc
    (r.1, store, .afterRunning r.2)
  | .complete id =>
    (app, TaskStore.updateStatus store call.taskId (.completed call.result), .completed id)
  | .fail id => (app, TaskStore.updateStatus store call.taskId (.failed call.error), .failed id)
  | pc => (app, store, pc)

/-- **without the store, a section is one of `serveSection`, or nothing** -/
theorem erase_section (bucket : Bucket B) (nowMs : Nat) (call : TaskCall) (app : AppState B M G)
    (store : S) (pc : TaskPc) :
    let r := taskSection bucket nowMs call app store pc
    (r.1, r.2.2.erase) = app.serveSection bucket nowMs call.toSetCall pc.erase ∨
      (r.1, r.2.2.erase) = (app, pc.erase) := by
  cases pc with
  | handle pc => exact Or.inl (Prod.ext rfl (TaskPc.erase_afterHandle _))
  | running pc => exact Or.inl (Prod.ext rfl (TaskPc.erase_afterRunning _))
  | _ => exact Or.inr rfl

/-- what a section writes: nothing, the new task, or a further status of the one that is there -/
inductive Writes (call : TaskCall) (store : S) (pc : TaskPc) (store' : S) (pc' : TaskPc) : Prop
  | nothing (hs : store' = store) (hpc : pc'.status call = pc.status call)
  | created (hpc : pc.status call = none) (hpc' : pc'.status call = some .pending)
      (hs : store' = TaskStore.insert store (call.task .pending))
  | updated (before after : TaskStatus) (hpc : pc.status call = some before)
      (hpc' : pc'.status call = some after) (further : before.Reaches after)
      (hs : store' = TaskStore.updateStatus store call.taskId after)

theorem section_writes (bucket : Bucket B) (nowMs : Nat) (call : TaskCall) (app : AppState B M G)
    (store : S) (pc : TaskPc) :
    let r := taskSection bucket nowMs call app store pc
    Writes call store pc r.2.1 r.2.2 := by
  cases pc with
  | handle pc => exact .nothing rfl (TaskPc.status_afterHandle call _)
  | create id signal => exact .created rfl rfl rfl
  | spawned id signal => exact .updated _ _ rfl rfl (Or.inr (by decide)) rfl
  | running pc => exact .nothing rfl (TaskPc.status_afterRunning call _)
  | complete id => exact .updated _ _ rfl rfl (Or.inr Nat.one_lt_two) rfl
  | fail id => exact .updated _ _ rfl rfl (Or.inr Nat.one_lt_two) rfl
  | completed id => exact .nothing rfl rfl
  | failed id => exact .nothing rfl rfl

end

/-! ## streams -/

inductive Event where
  | status (status : TaskStatus)
  /-- `task not found` -/
  | error

namespace Event

/-- the stream ends after it -/
def isLast : Event → Bool
  | .status st => st.isTerminal
  | .error => true

def status? : Event → Option TaskStatus
  | .status st => some st
  | .error => none

end Event

/-- a reader of `GET /v1/tasks/:id/stream`, with the events it has been sent -/
structure Stream where
  tick : Nat
  done : Bool
  events : List Event

namespace Stream

def start : Stream := ⟨0, false, []⟩

/-- what a tick sends -/
def event [TaskStore S] (store : S) (id : Uuid) : Event :=
  match TaskStore.get store id with
  | none => .error
  | some task => .status task.status

def poll {S : Type} [TaskStore S] (store : S) (id : Uuid) (stream : Stream) : Stream :=
  if stream.done || 300 < stream.tick then stream
  else
    let event := event store id
    ⟨stream.tick + 1, event.isLast, stream.events ++ [event]⟩

end Stream

/-! ## the server with its tasks -/

/-- requests are named by `T`, readers of streams by `R` -/
structure TaskServer (T R B S : Type) (M : Type → Type) (G : Type → Type → Type) where
  app : AppState B M G
  store : S
  pc : T → TaskPc
  streams : R → Stream

inductive Act (T R : Type) where
  /-- a request, or its task, runs its next section -/
  | request (t : T)
  /-- a stream looks into the store -/
  | tick (r : R)

namespace TaskServer
section
variable {T R B S : Type} {M : Type → Type} {G : Type → Type → Type} [SlotMap M]
  [StableDiGraph G] [Platform] [TaskStore S] [DecidableEq T] [DecidableEq R]

def start (app : AppState B M G) (store : S) : TaskServer T R B S M G :=
  ⟨app, store, fun _ => .handle .lookup, fun _ => .start⟩

/-- `watched r` is the task that `r` has asked for -/
def step (bucket : Bucket B) (nowMs : T → Nat) (calls : T → TaskCall) (watched : R → Uuid)
    (s : TaskServer T R B S M G) : Act T R → TaskServer T R B S M G
  | .request t =>
    let r := taskSection bucket (nowMs t) (calls t) s.app s.store (s.pc t)
    { s with app := r.1, store := r.2.1, pc := Function.update s.pc t r.2.2 }
  | .tick r =>
    { s with streams := Function.update s.streams r ((s.streams r).poll s.store (watched r)) }

variable (bucket : Bucket B) (nowMs : T → Nat) {calls : T → TaskCall} (watched : R → Uuid)
  {s : TaskServer T R B S M G}

/-! ### the server without its tasks -/

def erase (s : TaskServer T R B S M G) : Server T B M G := ⟨s.app, fun t => (s.pc t).erase⟩

/-- **a step is one of the server without tasks, or nothing** -/
theorem erase_step (calls : T → TaskCall) (s : TaskServer T R B S M G) (a : Act T R) :
    (∃ t, (step bucket nowMs calls watched s a).erase =
        Server.step bucket nowMs (fun t => (calls t).toSetCall) s.erase t) ∨
      (step bucket nowMs calls watched s a).erase = s.erase := by
  cases a with
  | tick r => exact Or.inr rfl
  | request t =>
    have hpc : ∀ pc : TaskPc, (fun u => (Function.update s.pc t pc u).erase) =
        Function.update (fun u => (s.pc u).erase) t pc.erase := by
      intro pc
      funext u
      by_cases e : u = t
      · rw [e, Function.update_self, Function.update_self]
      · rw [Function.update_of_ne e, Function.update_of_ne e]
    have hstep : (step bucket nowMs calls watched s (.request t)).erase =
        ⟨(taskSection bucket (nowMs t) (calls t) s.app s.store (s.pc t)).1,
          Function.update (fun u => (s.pc u).erase) t
            (taskSection bucket (nowMs t) (calls t) s.app s.store (s.pc t)).2.2.erase⟩ :=
      congrArg (Server.mk _) (hpc _)
    rw [hstep]
    rcases erase_section bucket (nowMs t) (calls t) s.app s.store (s.pc t) with h | h
    · obtain ⟨h1, h2⟩ := Prod.ext_iff.mp h
      refine Or.inl ⟨t, ?_⟩
      rw [show (taskSection bucket (nowMs t) (calls t) s.app s.store (s.pc t)).1 = _ from h1,
        show (taskSection bucket (nowMs t) (calls t) s.app s.store (s.pc t)).2.2.erase = _ from h2]
      rfl
    · obtain ⟨h1, h2⟩ := Prod.ext_iff.mp h
      refine Or.inr ?_
      rw [show (taskSection bucket (nowMs t) (calls t) s.app s.store (s.pc t)).1 = _ from h1,
        show (taskSection bucket (nowMs t) (calls t) s.app s.store (s.pc t)).2.2.erase = _ from h2,
        Function.update_eq_self]
      rfl

/-- so a run is a run of the server without tasks -/
theorem erase_run (calls : T → TaskCall) (s : TaskServer T R B S M G) (as : List (Act T R)) :
    ∃ ts, (run (step bucket nowMs calls watched) s as).erase =
      run (Server.step bucket nowMs fun t => (calls t).toSetCall) s.erase ts := by
  induction as generalizing s with
  | nil => exact ⟨[], rfl⟩
  | cons a as ih =>
    obtain ⟨ts, hts⟩ := ih (step bucket nowMs calls watched s a)
    rcases erase_step bucket nowMs watched calls s a with ⟨t, h⟩ | h
    · rw [h] at hts
      exact ⟨t :: ts, hts⟩
    · rw [h] at hts
      exact ⟨ts, hts⟩

/-! ### what the store shows -/

/-- the store shows of every request how far it is -/
def Shows (calls : T → TaskCall) (s : TaskServer T R B S M G) : Prop :=
  ∀ t, TaskStore.get s.store (calls t).taskId = ((s.pc t).status (calls t)).map (calls t).task

section
variable (hids : Function.Injective fun t => (calls t).taskId)
include hids

theorem shows_step (h : Shows calls s) (a : Act T R) :
    Shows calls (step bucket nowMs calls watched s a) := by
  cases a with
  | tick r => exact h
  | request t =>
    intro u
    have hother : u ≠ t → (calls u).taskId ≠ (calls t).taskId := fun hne e => hne (hids e)
    show TaskStore.get (taskSection bucket (nowMs t) (calls t) s.app s.store (s.pc t)).2.1 _ =
      ((Function.update s.pc t _ u).status (calls u)).map _
    have hw := section_writes bucket (nowMs t) (calls t) s.app s.store (s.pc t)
    by_cases e : u = t
    · subst e
      rw [Function.update_self]
      cases hw with
      | nothing hs hpc => rw [hs, hpc, h u]
      | created hpc hpc' hs =>
        rw [hs, hpc', TaskStore.get_insert]
        exact if_pos rfl
      | updated before after hpc hpc' further hs =>
        rw [hs, hpc', TaskStore.get_updateStatus, if_pos rfl, h u, hpc]
        rfl
    · rw [Function.update_of_ne e, ← h u]
      cases hw with
      | nothing hs hpc => rw [hs]
      | created hpc hpc' hs =>
        rw [hs, TaskStore.get_insert]
        exact if_neg (hother e)
      | updated before after hpc hpc' further hs =>
        rw [hs, TaskStore.get_updateStatus]
        exact if_neg (hother e)

/-- **a step only moves a status forward** -/
theorem step_reaches (h : Shows calls s) (a : Act T R) {id : Uuid} {task : McpTask}
    (hget : TaskStore.get s.store id = some task) : ∃ status, task.status.Reaches status ∧
      TaskStore.get (step bucket nowMs calls watched s a).store id =
        some { task with status := status } := by
  cases a with
  | tick r => exact ⟨task.status, .refl _, hget⟩
  | request t =>
    show ∃ status, _ ∧ TaskStore.get
      (taskSection bucket (nowMs t) (calls t) s.app s.store (s.pc t)).2.1 id = _
    cases section_writes bucket (nowMs t) (calls t) s.app s.store (s.pc t) with
    | nothing hs hpc =>
      rw [hs]
      exact ⟨task.status, .refl _, hget⟩
    | created hpc hpc' hs =>
      -- a task that is created was not there
      have hne : id ≠ (calls t).taskId := by
        intro e
        rw [e, h t, hpc] at hget
        cases hget
      rw [hs, TaskStore.get_insert]
      exact ⟨task.status, .refl _, (if_neg hne).trans hget⟩
    | updated before after hpc hpc' further hs =>
      rw [hs, TaskStore.get_updateStatus]
      by_cases e : id = (calls t).taskId
      · have hbefore := hget
        rw [e, h t, hpc] at hbefore
        obtain rfl := Option.some.inj hbefore
        refine ⟨after, further, ?_⟩
        rw [if_pos e, ← e, hget]
        rfl
      · exact ⟨task.status, .refl _, (if_neg e).trans hget⟩

theorem run_reaches (h : Shows calls s) (as : List (Act T R)) {id : Uuid} {task : McpTask}
    (hget : TaskStore.get s.store id = some task) : ∃ status, task.status.Reaches status ∧
      TaskStore.get (run (step bucket nowMs calls watched) s as).store id =
        some { task with status := status } := by
  induction as generalizing s task with
  | nil => exact ⟨task.status, .refl _, hget⟩
  | cons a as ih =>
    obtain ⟨status, hreach, hget'⟩ := step_reaches bucket nowMs watched hids h a hget
    obtain ⟨status', hreach', hget''⟩ := ih (shows_step bucket nowMs watched hids h a) hget'
    exact ⟨status', hreach.trans hreach', hget''⟩

end

/-! ### what a response promises -/

/-- the handler has promised no task yet -/
def Unpromised (call : SetCall) (pc : SetPc) : Prop :=
  ∀ response, pc.response call = some (.ok response) → response.taskId = none

theorem unpromised_of_none {call : SetCall} {pc : SetPc} (h : pc.response call = none) :
    Unpromised call pc := by
  intro response hr
  rw [h] at hr
  cases hr

theorem unpromised_afterUpdate (call : SetCall) (id : BeliefId) (pc : UpdatePc) :
    Unpromised call (Session.afterUpdate id pc) := by
  cases pc with
  | done result =>
    rcases result with e | result
    · intro response hr
      cases hr
    · cases result with
      | system1Only =>
        intro response hr
        cases hr
        rfl
      | system2Pending signal => exact unpromised_of_none rfl
  | _ => exact unpromised_of_none rfl

/-- a handler that has promised no task goes on so, or takes a token -/
theorem unpromised_serveSection {call : SetCall} (time : Nat) (app : AppState B M G) {pc : SetPc}
    (h : Unpromised call pc) : Unpromised call (app.serveSection bucket time call pc).2 ∨
      ∃ id signal, (app.serveSection bucket time call pc).2 = .reflect id signal := by
  cases pc with
  | lookup =>
    left
    have hs : (app.serveSection bucket time call .lookup).2 =
        (app.session.setSection call .lookup).2 := rfl
    rw [hs]
    simp only [Session.setSection]
    split <;> exact unpromised_of_none rfl
  | update id pc => exact Or.inl (unpromised_afterUpdate call id _)
  | insertQuad => exact Or.inl (unpromised_of_none rfl)
  | insertIndex id =>
    left
    intro response hr
    cases hr
    rfl
  | consume id signal =>
    simp only [AppState.serveSection]
    split
    · exact Or.inr ⟨id, signal, rfl⟩
    · left
      intro response hr
      cases hr
      rfl
  | refused id => exact Or.inl h
  | done response => exact Or.inl h
  | _ => exact absurd (h _ rfl) (Option.some_ne_none _)

/-- the response has been sent, with the task of the request -/
def Asked (call : SetCall) (pc : SetPc) : Prop :=
  ∃ id, pc.response call = some (.ok ⟨id, some call.taskId, true⟩)

theorem asked_serveSection {call : SetCall} (time : Nat) (app : AppState B M G) {pc : SetPc}
    (h : Asked call pc) : Asked call (app.serveSection bucket time call pc).2 := by
  obtain ⟨id, hr⟩ := h
  cases pc with
  | reflect id' signal =>
    refine ⟨id', ?_⟩
    have hs : (app.serveSection bucket time call (.reflect id' signal)).2 =
        (app.session.setSection call (.reflect id' signal)).2 := rfl
    rw [hs]
    simp only [Session.setSection]
    split
    · split <;> rfl
    · rfl
  | lookup => cases hr
  | update id' pc => cases hr
  | insertQuad => cases hr
  | insertIndex id' => cases hr
  | consume id' signal => cases hr
  | _ => exact ⟨id, hr⟩

/-- a handler has promised no task before it hands over to one -/
def InOrder (call : TaskCall) : TaskPc → Prop
  | .handle pc => Unpromised call.toSetCall pc
  | .running pc => Asked call.toSetCall pc
  | _ => True

theorem inOrder_section {call : TaskCall} (time : Nat) (app : AppState B M G) (store : S)
    {pc : TaskPc} (h : InOrder call pc) :
    InOrder call (taskSection bucket time call app store pc).2.2 := by
  cases pc with
  | handle pc =>
    show InOrder call (TaskPc.afterHandle (app.serveSection bucket time call.toSetCall pc).2)
    rcases unpromised_serveSection bucket time app h with hu | ⟨id, signal, he⟩
    · cases hpc : (app.serveSection bucket time call.toSetCall pc).2 with
      | reflect id signal => exact trivial
      | _ =>
        rw [hpc] at hu
        exact hu
    · rw [he]
      exact trivial
  | spawned id signal => exact ⟨id, rfl⟩
  | running pc =>
    show InOrder call (TaskPc.afterRunning (app.serveSection bucket time call.toSetCall pc).2)
    have ha := asked_serveSection bucket time app h
    cases hpc : (app.serveSection bucket time call.toSetCall pc).2 with
    | activated id => exact trivial
    | refunded id => exact trivial
    | _ =>
      rw [hpc] at ha
      exact ha
  | _ => exact trivial

/-- **a task that a response names is the task of the request, and is there** -/
theorem InOrder.promises {call : TaskCall} {pc : TaskPc} (h : InOrder call pc)
    {response : BeliefSetResponse} (hr : pc.response call = some (.ok response)) {id : Uuid}
    (hid : response.taskId = some id) : id = call.taskId ∧ (pc.status call).isSome := by
  cases pc with
  | handle pc =>
    rw [h response hr] at hid
    cases hid
  | create id' signal => cases hr
  | running pc =>
    obtain ⟨id', ha⟩ := h
    have hr' : pc.response call.toSetCall = some (.ok response) := hr
    rw [ha] at hr'
    cases hr'
    cases hid
    exact ⟨rfl, rfl⟩
  | _ =>
    cases hr
    cases hid
    exact ⟨rfl, rfl⟩

/-! ### streams -/

/-- what a stream has reported of `id` -/
structure Reported (store : S) (id : Uuid) (stream : Stream) : Prop where
  length : stream.events.length = stream.tick
  bound : stream.tick ≤ 301
  /-- only the last event ends it -/
  early : ∀ e ∈ stream.events.dropLast, e.isLast = false
  done : stream.done = true ↔ ∃ e ∈ stream.events, e.isLast = true
  ordered : (stream.events.filterMap Event.status?).Pairwise TaskStatus.Reaches
  reached : ∀ status ∈ stream.events.filterMap Event.status?, ∃ task,
    TaskStore.get store id = some task ∧ status.Reaches task.status

theorem reported_start (store : S) (id : Uuid) : Reported store id .start where
  length := rfl
  bound := Nat.zero_le _
  early := fun e he => absurd he List.not_mem_nil
  done := by simp [Stream.start]
  ordered := List.Pairwise.nil
  reached := fun status h => absurd h List.not_mem_nil

theorem Reported.poll {store : S} {id : Uuid} {stream : Stream} (h : Reported store id stream) :
    Reported store id (stream.poll store id) := by
  unfold Stream.poll
  split
  · exact h
  · rename_i hgo
    rw [Bool.or_eq_true, not_or, decide_eq_true_eq] at hgo
    obtain ⟨hdone, htick⟩ := hgo
    -- nothing that was sent so far ends the stream
    have hopen : ∀ e ∈ stream.events, e.isLast = false := by
      intro e he
      cases hl : e.isLast with
      | false => rfl
      | true => exact absurd (h.done.mpr ⟨e, he, hl⟩) hdone
    refine ⟨?_, by show stream.tick + 1 ≤ 301; omega, ?_, ?_, ?_, ?_⟩
    · show (stream.events ++ [_]).length = stream.tick + 1
      rw [List.length_append, h.length]
      rfl
    · intro e he
      have he' : e ∈ (stream.events ++ [Stream.event store id]).dropLast := he
      rw [List.dropLast_concat] at he'
      exact hopen e he'
    · show (Stream.event store id).isLast = true ↔ ∃ e ∈ stream.events ++ [_], e.isLast = true
      constructor
      · intro hl
        exact ⟨_, List.mem_append_right _ (List.mem_singleton.mpr rfl), hl⟩
      · intro he
        obtain ⟨e, he, hl⟩ := he
        rcases List.mem_append.mp he with he | he
        · rw [hopen e he] at hl
          cases hl
        · rw [List.mem_singleton.mp he] at hl
          exact hl
    · show ((stream.events ++ [_]).filterMap Event.status?).Pairwise _
      rw [List.filterMap_append]
      refine List.pairwise_append.mpr ⟨h.ordered, ?_, ?_⟩
      · unfold Stream.event
        split
        · exact List.Pairwise.nil
        · exact List.pairwise_singleton _ _
      · intro a ha b hb
        obtain ⟨task, hget, hreach⟩ := h.reached a ha
        unfold Stream.event at hb
        rw [hget] at hb
        rw [List.mem_singleton.mp hb]
        exact hreach
    · intro status hs
      have hs' : status ∈ (stream.events ++ [Stream.event store id]).filterMap Event.status? := hs
      rw [List.filterMap_append] at hs'
      rcases List.mem_append.mp hs' with hs | hs
      · exact h.reached status hs
      · unfold Stream.event at hs
        cases hget : TaskStore.get store id with
        | none =>
          rw [hget] at hs
          exact absurd hs List.not_mem_nil
        | some task =>
          rw [hget] at hs
          refine ⟨task, rfl, ?_⟩
          rw [List.mem_singleton.mp hs]
          exact .refl _

/-- a status that moves forward in the store keeps what has been reported -/
theorem Reported.mono {store store' : S} {id : Uuid} {stream : Stream}
    (h : Reported store id stream)
    (hforward : ∀ task, TaskStore.get store id = some task → ∃ status,
      task.status.Reaches status ∧
        TaskStore.get store' id = some { task with status := status }) :
    Reported store' id stream := by
  refine ⟨h.length, h.bound, h.early, h.done, h.ordered, fun status hs => ?_⟩
  obtain ⟨task, hget, hreach⟩ := h.reached status hs
  obtain ⟨status', hreach', hget'⟩ := hforward task hget
  exact ⟨_, hget', hreach.trans hreach'⟩

/-- a stream of a task that is there reports no error -/
theorem no_error_poll {store : S} {id : Uuid} {task : McpTask} {stream : Stream}
    (hget : TaskStore.get store id = some task) (h : Event.error ∉ stream.events) :
    Event.error ∉ (stream.poll store id).events := by
  unfold Stream.poll
  split
  · exact h
  · intro he
    rcases List.mem_append.mp he with he | he
    · exact h he
    · have hevent := List.mem_singleton.mp he
      unfold Stream.event at hevent
      rw [hget] at hevent
      cases hevent

/-! ### runs -/

/-- what every step keeps -/
structure Invariant (calls : T → TaskCall) (watched : R → Uuid) (s : TaskServer T R B S M G) :
    Prop where
  shows : Shows calls s
  inOrder : ∀ t, InOrder (calls t) (s.pc t)
  reported : ∀ r, Reported s.store (watched r) (s.streams r)

theorem invariant_start (app : AppState B M G) {store : S}
    (hfresh : ∀ t, TaskStore.get store (calls t).taskId = none) :
    Invariant calls watched (start app store : TaskServer T R B S M G) where
  shows t := hfresh t
  inOrder _ := unpromised_of_none rfl
  reported _ := reported_start store _

theorem invariant_step (hids : Function.Injective fun t => (calls t).taskId)
    (s : TaskServer T R B S M G) (a : Act T R) (h : Invariant calls watched s) :
    Invariant calls watched (step bucket nowMs calls watched s a) := by
  refine ⟨shows_step bucket nowMs watched hids h.shows a, fun u => ?_, fun r => ?_⟩
  · cases a with
    | tick r => exact h.inOrder u
    | request t =>
      show InOrder (calls u) (Function.update s.pc t _ u)
      by_cases e : u = t
      · subst e
        rw [Function.update_self]
        exact inOrder_section bucket (nowMs u) s.app s.store (h.inOrder u)
      · rw [Function.update_of_ne e]
        exact h.inOrder u
  · cases a with
    | tick r' =>
      show Reported s.store _ (Function.update s.streams r' _ r)
      by_cases e : r = r'
      · subst e
        rw [Function.update_self]
        exact (h.reported r).poll
      · rw [Function.update_of_ne e]
        exact h.reported r
    | request t =>
      exact (h.reported r).mono fun task hget =>
        step_reaches bucket nowMs watched hids h.shows (.request t) hget

theorem invariant_run (hids : Function.Injective fun t => (calls t).taskId)
    {s : TaskServer T R B S M G} (h : Invariant calls watched s) (as : List (Act T R)) :
    Invariant calls watched (run (step bucket nowMs calls watched) s as) :=
  run_invariant (invariant_step bucket nowMs watched hids) h as

/-- a stream that starts when its task is there never reports an error -/
theorem no_error_run (hids : Function.Injective fun t => (calls t).taskId)
    {s : TaskServer T R B S M G} (h : Invariant calls watched s) {r : R} {task : McpTask}
    (hget : TaskStore.get s.store (watched r) = some task)
    (hnone : Event.error ∉ (s.streams r).events) (as : List (Act T R)) :
    Event.error ∉ ((run (step bucket nowMs calls watched) s as).streams r).events := by
  induction as generalizing s task with
  | nil => exact hnone
  | cons a as ih =>
    obtain ⟨status, -, hget'⟩ := step_reaches bucket nowMs watched hids h.shows a hget
    refine ih (invariant_step bucket nowMs watched hids s a h) hget' ?_
    cases a with
    | request t => exact hnone
    | tick r' =>
      show Event.error ∉ (Function.update s.streams r' _ r).events
      by_cases e : r = r'
      · subst e
        rw [Function.update_self]
        exact no_error_poll hget hnone
      · rw [Function.update_of_ne e]
        exact hnone

end

/-- **a promised task is found from then on, and only moves forward**: in every interleaving of
requests, their tasks and readers, with task ids that are distinct and new, a task that a response
has named is in the store, under the key of the request; from any time on it stays there with all
it says but its status, and that only moves forward; it is `Completed` only when its answer has been
applied and `Failed` only when its token is back, in a run of the server without tasks -/
theorem task_lifecycle {T R B S : Type} {M : Type → Type} {G : Type → Type → Type} [SlotMap M]
    [StableDiGraph G] [Platform] [TaskStore S] [DecidableEq T] [DecidableEq R]
    (bucket : Bucket B) (nowMs : T → Nat) (calls : T → TaskCall) (watched : R → Uuid)
    (hids : Function.Injective fun t => (calls t).taskId) (app : AppState B M G) (store : S)
    (hfresh : ∀ t, TaskStore.get store (calls t).taskId = none) (as bs : List (Act T R)) :
    let s := run (step bucket nowMs calls watched) (start app store) as
    let s' := run (step bucket nowMs calls watched) s bs
    (∀ t id, (s.pc t).named (calls t) = some id →
      ∃ status, TaskStore.get s.store id = some ((calls t).task status)) ∧
    (∀ id task, TaskStore.get s.store id = some task → ∃ status, task.status.Reaches status ∧
      TaskStore.get s'.store id = some { task with status := status }) ∧
    ∃ ts, s.erase = run (Server.step bucket nowMs fun t => (calls t).toSetCall)
        (Server.start app) ts ∧
      ∀ t task, TaskStore.get s.store (calls t).taskId = some task →
        (∀ result, task.status = .completed result →
          result = (calls t).result ∧ ∃ id, s.erase.pc t = .activated id) ∧
        ∀ error, task.status = .failed error →
          error = (calls t).error ∧ ∃ id, s.erase.pc t = .refunded id := by
  intro s s'
  have h : Invariant calls watched s :=
    invariant_run bucket nowMs watched hids (invariant_start watched app hfresh) as
  refine ⟨fun t id hnamed => ?_, fun id task hget =>
    run_reaches bucket nowMs watched hids h.shows bs hget, ?_⟩
  · obtain ⟨response, hr, hid⟩ := TaskPc.named_eq_some hnamed
    obtain ⟨rfl, hstatus⟩ := (h.inOrder t).promises hr hid
    obtain ⟨status, hstatus⟩ := Option.isSome_iff_exists.mp hstatus
    refine ⟨status, ?_⟩
    rw [h.shows t, hstatus]
    rfl
  · obtain ⟨ts, hts⟩ := erase_run bucket nowMs watched calls (start app store) as
    refine ⟨ts, hts, fun t task hget => ?_⟩
    rw [h.shows t] at hget
    obtain ⟨status, hstatus, rfl⟩ := Option.map_eq_some_iff.mp hget
    have hpc : s.erase.pc t = (s.pc t).erase := rfl
    rw [hpc]
    constructor
    · intro result he
      obtain rfl : status = .completed result := he
      cases hp : s.pc t with
      | completed id =>
        rw [hp] at hstatus
        cases hstatus
        exact ⟨rfl, id, rfl⟩
      | _ =>
        rw [hp] at hstatus
        cases hstatus
    · intro error he
      obtain rfl : status = .failed error := he
      cases hp : s.pc t with
      | failed id =>
        rw [hp] at hstatus
        cases hstatus
        exact ⟨rfl, id, rfl⟩
      | _ =>
        rw [hp] at hstatus
        cases hstatus

section
attribute [local instance] Platform.ascii

/-- both clients set the goal, with tasks -/
def goalTasks (i : Fin 2) : TaskCall :=
  { Serving.goalSet i with createdAtMs := 7, reasoning := "likely", error := "busy" }

theorem goalTasks_distinct : Function.Injective fun i => (goalTasks i).taskId := by
  intro i j h
  revert i j
  decide

theorem goalTasks_new (i : Fin 2) :
    TaskStore.get (⟨∅⟩ : InMemoryTaskStore) (goalTasks i).taskId = none := by
  show (∅ : Finmap fun _ : Uuid => McpTask).lookup (goalTasks i).taskId = none
  exact Finmap.lookup_empty _

/-- the server with an LLM and one token -/
def reflectiveApp : AppState TokenBucket SlotVec EdgeList := ⟨Serving.reflective 1, .new 1, none⟩

/-- the first client has its response -/
def promised : List (Act (Fin 2) Unit) := List.replicate 12 (.request ⟨0, Nat.two_pos⟩)

/-- its task is in the store -/
theorem task_lifecycle_promised : ∃ status, TaskStore.get
    (run (step .fixed (fun _ => 0) goalTasks fun _ => 14)
      (start reflectiveApp (⟨∅⟩ : InMemoryTaskStore)) promised).store 14 =
        some ((goalTasks 0).task status) := by
  have hnamed : ((run (step .fixed (fun _ => 0) goalTasks fun _ => 14)
      (start reflectiveApp (⟨∅⟩ : InMemoryTaskStore)) promised).pc 0).named (goalTasks 0) =
        some 14 := by
    decide +kernel
  have h := task_lifecycle .fixed (fun _ => 0) goalTasks (fun _ : Unit => 14) goalTasks_distinct
    reflectiveApp (⟨∅⟩ : InMemoryTaskStore) goalTasks_new promised []
  exact h.1 0 14 hnamed

end

/-- **a stream reports the statuses of its task in order, and ends with the first last one**: in
every interleaving every stream sends at most 301 events, of which only the last one can be a
terminal status or an error, and it has ended, before the ticks are over, exactly when it has sent
one; the statuses it sends only move forward, and the store is at the last of them or further on;
a stream that opens when its task is there sends no error -/
theorem stream_reports {T R B S : Type} {M : Type → Type} {G : Type → Type → Type} [SlotMap M]
    [StableDiGraph G] [Platform] [TaskStore S] [DecidableEq T] [DecidableEq R]
    (bucket : Bucket B) (nowMs : T → Nat) (calls : T → TaskCall) (watched : R → Uuid)
    (hids : Function.Injective fun t => (calls t).taskId) (app : AppState B M G) (store : S)
    (hfresh : ∀ t, TaskStore.get store (calls t).taskId = none) (as bs : List (Act T R)) (r : R) :
    let s := run (step bucket nowMs calls watched) (start app store) as
    let s' := run (step bucket nowMs calls watched) s bs
    Reported s.store (watched r) (s.streams r) ∧ (s.streams r).events.length ≤ 301 ∧
      ((s.streams r).events = [] → (∃ task, TaskStore.get s.store (watched r) = some task) →
        Event.error ∉ (s'.streams r).events) := by
  intro s s'
  have h : Invariant calls watched s :=
    invariant_run bucket nowMs watched hids (invariant_start watched app hfresh) as
  refine ⟨h.reported r, ?_, fun hempty htask => ?_⟩
  · rw [(h.reported r).length]
    exact (h.reported r).bound
  · obtain ⟨task, hget⟩ := htask
    refine no_error_run bucket nowMs watched hids h hget ?_ bs
    rw [hempty]
    exact List.not_mem_nil

section
attribute [local instance] Platform.ascii

/-- a reader that asks for the promised task gets no error -/
theorem stream_reports_promised : Event.error ∉
    ((run (step .fixed (fun _ => 0) goalTasks fun _ => 14)
      (run (step .fixed (fun _ => 0) goalTasks fun _ => 14)
        (start reflectiveApp (⟨∅⟩ : InMemoryTaskStore)) promised)
      [.tick (), .request 0, .tick ()]).streams ()).events := by
  have h := stream_reports .fixed (fun _ => 0) goalTasks (fun _ : Unit => 14) goalTasks_distinct
    reflectiveApp (⟨∅⟩ : InMemoryTaskStore) goalTasks_new promised
    [.tick (), .request 0, .tick ()] ()
  have hthere : (TaskStore.get (run (step .fixed (fun _ => 0) goalTasks fun _ : Unit => 14)
      (start reflectiveApp (⟨∅⟩ : InMemoryTaskStore)) promised).store 14).isSome = true := by
    decide +kernel
  have hquiet : ((run (step .fixed (fun _ => 0) goalTasks fun _ : Unit => 14)
      (start reflectiveApp (⟨∅⟩ : InMemoryTaskStore)) promised).streams ()).events.isEmpty =
        true := by
    decide +kernel
  exact h.2.2 (List.isEmpty_iff.mp hquiet) (Option.isSome_iff_exists.mp hthere)

end
end TaskServer
end Tasks
end Epica
