import Epica.Mcp.Handlers
import Epica.Runtime.Attached

/-!
# The server that is assembled

`main` reads its settings, loads a contract if there is a file for one, builds the runtime and hands
both to `serveBlocking`, which puts them side by side into the state of the handlers.
`mainWithContract` is the server whose runtime has the contract attached.

* `serveSection_fixed`    with a bucket that is not refilled, a section is `setSection`;
* `serveSection_attached` what the contract does to a section;
* `server_enforces_iff`   the two servers look the same throughout exactly when the contract objects
                          to nothing.
-/

set_option linter.unusedSectionVars false

namespace Epica
open Lib

/-! ## the state of the handlers -/

/-- the reflection budget with its refill: what it grants depends on the time -/
structure Bucket (B : Type) where
  tryConsume : Nat → B → Bool × B
  release : B → B

/-- the bucket of a session whose refill rate is `0` -/
def Bucket.fixed : Bucket TokenBucket where
  tryConsume _ bucket := bucket.tryConsume 1
  release bucket := bucket.release 1

/-- `bucket` is the budget of the session, which the session has without its refill -/
structure AppState (B : Type) (M : Type → Type) (G : Type → Type → Type) where
  session : Session M G
  bucket : B
  /-- read by the contract status alone -/
  contract : Option (BehavioralContract M G)

namespace AppState
section
variable {B : Type} {M : Type → Type} {G : Type → Type → Type} [SlotMap M] [StableDiGraph G]

def runtime (s : AppState B M G) : BeliefRuntime M G := s.session.runtime

variable [Platform]

/-- one section of a request, at the time `nowMs` -/
def serveSection (bucket : Bucket B) (nowMs : Nat) (call : SetCall) (s : AppState B M G) :
    SetPc → AppState B M G × SetPc
  | .consume id signal =>
    match bucket.tryConsume nowMs s.bucket with
    | (true, b) => ({ s with bucket := b }, .reflect id signal)
    | (false, b) => ({ s with bucket := b }, .refused id)
  | .release id => ({ s with bucket := bucket.release s.bucket }, .refunded id)
  | pc =>
    let r := s.session.setSection call pc
    ({ s with session := r.1 }, r.2)

/-- the session with its budget -/
def budgeted (s : AppState TokenBucket M G) : Session M G :=
  { s.session with reflectionBudget := s.bucket }

/-- **with a bucket that is not refilled, a section is `setSection`** -/
theorem serveSection_fixed (nowMs : Nat) (call : SetCall) (s : AppState TokenBucket M G)
    (pc : SetPc) :
    let r := serveSection .fixed nowMs call s pc
    s.budgeted.setSection call pc = (r.1.budgeted, r.2) := by
  cases pc with
  | lookup =>
    simp only [serveSection, Session.setSection]
    have hruntime : s.budgeted.runtime = s.session.runtime := rfl
    rw [hruntime]
    cases s.session.runtime.getByKey call.key <;> rfl
  | consume id signal =>
    have hconsume : s.budgeted.tryConsumeSystem2Budget =
        ((s.bucket.tryConsume 1).1, { s.budgeted with
          reflectionBudget := (s.bucket.tryConsume 1).2 }) := rfl
    simp only [serveSection, Session.setSection, hconsume, Bucket.fixed]
    rcases s.bucket.tryConsume 1 with ⟨_ | _, bucket⟩ <;> rfl
  | reflect id signal =>
    simp only [serveSection, Session.setSection]
    have hruntime : s.budgeted.runtime = s.session.runtime := rfl
    rw [hruntime]
    split
    · cases call.reflection <;> rfl
    · rfl
  | _ => rfl

end
end AppState

/-! ## requests -/

inductive TaskStatus where
  | running
  | completed (revisedConfidence : Option ℚ)
  | failed

namespace SetPc

/-- the response, once it has been sent -/
def response (call : SetCall) : SetPc → Option (Except RuntimeError BeliefSetResponse)
  | .lookup => none
  | .update _ _ => none
  | .insertQuad => none
  | .insertIndex _ => none
  | .consume _ _ => none
  | .reflect id _ => some (.ok ⟨id, some call.taskId, true⟩)
  | .writeSlow id _ => some (.ok ⟨id, some call.taskId, true⟩)
  | .countActivation id _ => some (.ok ⟨id, some call.taskId, true⟩)
  | .replaceHistory id _ => some (.ok ⟨id, some call.taskId, true⟩)
  | .release id => some (.ok ⟨id, some call.taskId, true⟩)
  | .activated id => some (.ok ⟨id, some call.taskId, true⟩)
  | .refunded id => some (.ok ⟨id, some call.taskId, true⟩)
  | .unasked id => some (.ok ⟨id, some call.taskId, true⟩)
  | .refused id => some (.ok ⟨id, none, false⟩)
  | .done response => some response

/-- what the task of the request says, if it has left one -/
def taskStatus (call : SetCall) (pc : SetPc) : Option TaskStatus :=
  match pc with
  | .activated _ => some (.completed call.reflection)
  | .refunded _ => some .failed
  | pc =>
    match pc.response call with
    | some (.ok ⟨_, some _, _⟩) => some .running
    | _ => none

end SetPc

/-- a request that only reads; `task t` asks for the task of the request `t` -/
inductive GetRequest (T : Type) where
  | belief (key : String)
  | ready
  | task (t : T)
  | contractStatus

inductive GetResponse (M : Type → Type) (G : Type → Type → Type) where
  | belief (response : Option BeliefGetResponse)
  | ready (beliefs : Nat)
  | task (status : Option TaskStatus)
  /-- the response is made of the contract alone -/
  | contractStatus (contract : Option (BehavioralContract M G))

/-- the state of the handlers, and where each request is -/
structure Server (T B : Type) (M : Type → Type) (G : Type → Type → Type) where
  app : AppState B M G
  pc : T → SetPc

namespace Server
section
variable {T B : Type} {M : Type → Type} {G : Type → Type → Type} [SlotMap M] [StableDiGraph G]

def start (app : AppState B M G) : Server T B M G := ⟨app, fun _ => .lookup⟩

def handleGet (calls : T → SetCall) (s : Server T B M G) : GetRequest T → GetResponse M G
  | .belief key => .belief (s.app.session.handleBeliefGet key)
  | .ready => .ready (SlotMap.iter s.app.runtime.quad.nodes).length
  | .task t => .task ((s.pc t).taskStatus (calls t))
  | .contractStatus => .contractStatus s.app.contract

/-- the same beliefs, the same responses so far, and the same answer to every request that reads -/
structure Same (calls : T → SetCall) (s s' : Server T B M G) : Prop where
  beliefs : s'.app.runtime.beliefs = s.app.runtime.beliefs
  responses : ∀ t, (s'.pc t).response (calls t) = (s.pc t).response (calls t)
  gets : ∀ request, s'.handleGet calls request = s.handleGet calls request

variable [Platform] [DecidableEq T]

/-- the request `t` runs its next section -/
def step (bucket : Bucket B) (nowMs : T → Nat) (calls : T → SetCall) (s : Server T B M G) (t : T) :
    Server T B M G :=
  let r := s.app.serveSection bucket (nowMs t) (calls t) (s.pc t)
  ⟨r.1, Function.update s.pc t r.2⟩

end
end Server

/-! ## main -/

/-- the settings that the environment gives; `contractsFile` is the contract file as it is parsed,
if there is one, and `bucket` the budget as it starts -/
structure Settings (B : Type) where
  reliabilityBaseline : ℚ
  system2Budget : Nat
  bucket : B
  reflectionThreshold : ℚ
  llmClient : Bool
  contractsFile : Option ContractConfig

section
variable {B : Type} {M : Type → Type} {G : Type → Type → Type} [SlotMap M] [StableDiGraph G]

def serveBlocking (session : Session M G) (bucket : B)
    (contract : Option (BehavioralContract M G)) : AppState B M G :=
  ⟨session, bucket, contract⟩

namespace Settings

/-- the contract that is loaded -/
def contract (settings : Settings B) : Option (BehavioralContract M G) :=
  settings.contractsFile.map BehavioralContract.fromConfig

/-- the runtime that is built -/
def runtime (settings : Settings B) : BeliefRuntime M G :=
  let runtime := (BeliefRuntime.new .new settings.reliabilityBaseline).withDefaultTau
    settings.reflectionThreshold
  if settings.llmClient then runtime.withLlmClient else runtime

end Settings

def main (settings : Settings B) : AppState B M G :=
  serveBlocking (.new settings.runtime settings.system2Budget) settings.bucket settings.contract

/-- the server around the same runtime, with the contract attached to it -/
def mainWithContract (settings : Settings B) (contract : BehavioralContract M G) :
    AppState B M G :=
  serveBlocking (.new (settings.runtime.withContract contract) settings.system2Budget)
    settings.bucket settings.contract

theorem runtime_bare (settings : Settings B) : (settings.runtime : BeliefRuntime M G).Bare := by
  unfold Settings.runtime
  simp only
  split <;> rfl

end

/-! ## what the contract does to a section -/

section
variable {M : Type → Type} {G : Type → Type → Type} [SlotMap M] [StableDiGraph G]

/-- the session with the contract attached to its runtime -/
def Session.attached (contract : BehavioralContract M G) (log : ViolationLog) (s : Session M G) :
    Session M G :=
  { s with runtime := s.runtime.attached contract log }

variable [Platform] {contract : BehavioralContract M G}

theorem setSection_bare {s : Session M G} (h : s.runtime.Bare) (call : SetCall) (pc : SetPc) :
    (s.setSection call pc).1.runtime.Bare := by
  rw [Session.setSection_runtime]
  cases pc with
  | update id pc => exact lockSection_bare h (call.update id) pc
  | _ => exact h

/-- the contract objects to the section that the request is about to enter -/
def SetPc.Objects (contract : BehavioralContract M G) (rt : BeliefRuntime M G) : SetPc → Prop
  | .update _ pc => Epica.Objects contract rt pc
  | _ => False

theorem setSection_attached {s : Session M G} (h : s.runtime.Bare) (log : ViolationLog)
    (call : SetCall) {pc : SetPc} (hno : ¬ pc.Objects contract s.runtime) :
    ∃ log', (s.attached contract log).setSection call pc =
      ((s.setSection call pc).1.attached contract log', (s.setSection call pc).2) := by
  cases pc with
  | lookup =>
    refine ⟨log, ?_⟩
    have hindex : (s.attached contract log).runtime.getByKey call.key =
        s.runtime.getByKey call.key := rfl
    simp only [Session.setSection, hindex]
    cases s.runtime.getByKey call.key <;> rfl
  | update id pc =>
    obtain ⟨log', hlock⟩ := lockSection_attached h log (call.update id) hno
    have hruntime : (s.attached contract log).runtime = s.runtime.attached contract log := rfl
    refine ⟨log', ?_⟩
    simp only [Session.setSection, hruntime, hlock]
    rfl
  | consume id signal =>
    refine ⟨log, ?_⟩
    have hconsume : (s.attached contract log).tryConsumeSystem2Budget =
        (s.tryConsumeSystem2Budget.1, s.tryConsumeSystem2Budget.2.attached contract log) := rfl
    simp only [Session.setSection, hconsume]
    rcases s.tryConsumeSystem2Budget with ⟨_ | _, s'⟩ <;> rfl
  | reflect id signal =>
    refine ⟨log, ?_⟩
    have hclient : (s.attached contract log).runtime.llmClient = s.runtime.llmClient := rfl
    simp only [Session.setSection, hclient]
    split
    · cases call.reflection <;> rfl
    · rfl
  | _ => exact ⟨log, rfl⟩

/-- where the contract objects, only the server without it goes on, or the beliefs are others -/
theorem setSection_objects {s : Session M G} (h : s.runtime.Bare)
    (hrecovery : contract.recovery = .rollbackToLastCheckpoint) (log : ViolationLog)
    (call : SetCall) {pc : SetPc} (hobjects : pc.Objects contract s.runtime) :
    (s.setSection call pc).2.response call = none ∧
      ((∃ e, ((s.attached contract log).setSection call pc).2.response call = some (.error e)) ∨
        ((s.attached contract log).setSection call pc).1.runtime.beliefs ≠
          (s.setSection call pc).1.runtime.beliefs) := by
  cases pc with
  | update id pc =>
    obtain ⟨hrunning, hdiffers⟩ :=
      lockSection_objects h hrecovery log (call.update id) hobjects
    have hresponse : ((s.setSection call (.update id pc)).2).response call = none := by
      show (Session.afterUpdate id (lockSection (call.update id) s.runtime pc).2).response call =
        none
      cases hpc : (lockSection (call.update id) s.runtime pc).2 with
      | done result =>
        rw [hpc] at hrunning
        cases hrunning
      | _ => rfl
    refine ⟨hresponse, hdiffers.imp_left fun hfails => ?_⟩
    obtain ⟨e, he⟩ := hfails
    refine ⟨e, ?_⟩
    show (Session.afterUpdate id
      (lockSection (call.update id) (s.runtime.attached contract log) pc).2).response call = _
    rw [he]
    rfl
  | _ => cases hobjects

/-- a section that is not one of the bucket is one of the session -/
theorem serveSection_session {B : Type} (bucket : Bucket B) (nowMs : Nat) (call : SetCall)
    (s : AppState B M G) {pc : SetPc} (hconsume : ∀ id signal, pc ≠ .consume id signal)
    (hrelease : ∀ id, pc ≠ .release id) :
    s.serveSection bucket nowMs call pc =
      ({ s with session := (s.session.setSection call pc).1 },
        (s.session.setSection call pc).2) := by
  cases pc with
  | consume id signal => exact absurd rfl (hconsume id signal)
  | release id => exact absurd rfl (hrelease id)
  | _ => rfl

/-- a section of the bucket does not look at the runtime -/
theorem serveSection_bucket {B : Type} (bucket : Bucket B) (nowMs : Nat) (call : SetCall)
    (s : AppState B M G) {pc : SetPc}
    (hpc : (∃ id signal, pc = .consume id signal) ∨ ∃ id, pc = .release id)
    (session : Session M G) :
    ({ s with session := session }).serveSection bucket nowMs call pc =
      ({ (s.serveSection bucket nowMs call pc).1 with session := session },
        (s.serveSection bucket nowMs call pc).2) ∧
    (s.serveSection bucket nowMs call pc).1.session = s.session := by
  rcases hpc with ⟨id, signal, rfl⟩ | ⟨id, rfl⟩
  · simp only [AppState.serveSection]
    rcases bucket.tryConsume nowMs s.bucket with ⟨_ | _, b⟩ <;> exact ⟨rfl, rfl⟩
  · exact ⟨rfl, rfl⟩

theorem serveSection_attached {B : Type} (bucket : Bucket B) (nowMs : Nat) (call : SetCall)
    {s : AppState B M G} (h : s.runtime.Bare) (log : ViolationLog) {pc : SetPc}
    (hno : ¬ pc.Objects contract s.runtime) :
    (s.serveSection bucket nowMs call pc).1.runtime.Bare ∧
    ∃ log', ({ s with session := s.session.attached contract log }).serveSection bucket nowMs call
        pc =
      ({ (s.serveSection bucket nowMs call pc).1 with
          session := (s.serveSection bucket nowMs call pc).1.session.attached contract log' },
        (s.serveSection bucket nowMs call pc).2) := by
  by_cases hpc : (∃ id signal, pc = .consume id signal) ∨ ∃ id, pc = .release id
  · obtain ⟨hsection, hsession⟩ := serveSection_bucket bucket nowMs call s hpc
      (s.session.attached contract log)
    constructor
    · unfold AppState.runtime
      rw [hsession]
      exact h
    · refine ⟨log, ?_⟩
      rw [hsection, hsession]
  · obtain ⟨hconsume, hrelease⟩ := not_or.mp hpc
    have hsession := fun s : AppState B M G => serveSection_session bucket nowMs call s
      (fun id signal hp => hconsume ⟨id, signal, hp⟩) (fun id hp => hrelease ⟨id, hp⟩)
    obtain ⟨log', hattached⟩ := setSection_attached h log call hno
    rw [hsession, hsession]
    refine ⟨setSection_bare h call pc, log', ?_⟩
    simp only
    rw [hattached]

end

/-! ## the two servers -/

namespace Server
section
variable {T B : Type} {M : Type → Type} {G : Type → Type → Type} [SlotMap M] [StableDiGraph G]
  [Platform] [DecidableEq T]

/-- the contract objects to the section that `t` is about to enter -/
def Objects (contract : BehavioralContract M G) (s : Server T B M G) (t : T) : Prop :=
  (s.pc t).Objects contract s.app.runtime

/-- `s'` is `s` with the contract attached, and nothing else is different -/
structure Attached (contract : BehavioralContract M G) (s s' : Server T B M G) : Prop where
  bare : s.app.runtime.Bare
  app : ∃ log, s'.app = { s.app with session := s.app.session.attached contract log }
  pc : s'.pc = s.pc

variable {contract : BehavioralContract M G} {s s' : Server T B M G}

theorem Attached.same (h : Attached contract s s') (calls : T → SetCall) : Same calls s s' := by
  obtain ⟨log, happ⟩ := h.app
  refine ⟨by rw [happ]; rfl, fun t => by rw [h.pc], fun request => ?_⟩
  unfold handleGet
  cases request with
  | belief key =>
    rw [happ]
    rfl
  | ready =>
    rw [happ]
    rfl
  | task t => rw [h.pc]
  | contractStatus => rw [happ]

theorem Attached.step (h : Attached contract s s') (bucket : Bucket B) (nowMs : T → Nat)
    (calls : T → SetCall) {t : T} (hno : ¬ s.Objects contract t) :
    Attached contract (Server.step bucket nowMs calls s t)
      (Server.step bucket nowMs calls s' t) := by
  obtain ⟨log, happ⟩ := h.app
  obtain ⟨hbare, log', hsection⟩ :=
    serveSection_attached bucket (nowMs t) (calls t) h.bare log hno
  rw [← happ] at hsection
  refine ⟨hbare, ⟨log', ?_⟩, ?_⟩
  · show (s'.app.serveSection bucket (nowMs t) (calls t) (s'.pc t)).1 = _
    rw [h.pc, hsection]
    rfl
  · show Function.update s'.pc t (s'.app.serveSection bucket (nowMs t) (calls t) (s'.pc t)).2 =
      Function.update s.pc t (s.app.serveSection bucket (nowMs t) (calls t) (s.pc t)).2
    rw [h.pc, hsection]

/-- a section of an update is one of the session -/
theorem step_update (bucket : Bucket B) (nowMs : T → Nat) (calls : T → SetCall)
    (s : Server T B M G) {t : T} {id : BeliefId} {pc : UpdatePc} (hpc : s.pc t = .update id pc) :
    (Server.step bucket nowMs calls s t).pc t =
      (s.app.session.setSection (calls t) (.update id pc)).2 ∧
    (Server.step bucket nowMs calls s t).app.runtime =
      (s.app.session.setSection (calls t) (.update id pc)).1.runtime := by
  constructor
  · show Function.update s.pc t _ t = _
    rw [Function.update_self, hpc]
    rfl
  · show (s.app.serveSection bucket (nowMs t) (calls t) (s.pc t)).1.runtime = _
    rw [hpc]
    rfl

/-- where the contract objects, the two servers part -/
theorem Attached.objects (h : Attached contract s s')
    (hrecovery : contract.recovery = .rollbackToLastCheckpoint) (bucket : Bucket B)
    (nowMs : T → Nat) (calls : T → SetCall) {t : T} (hobjects : s.Objects contract t) :
    ¬ Same calls (Server.step bucket nowMs calls s t) (Server.step bucket nowMs calls s' t) := by
  obtain ⟨log, happ⟩ := h.app
  unfold Objects at hobjects
  cases hpc : s.pc t with
  | update id pc =>
    rw [hpc] at hobjects
    obtain ⟨hnone, hdiffers⟩ := setSection_objects h.bare hrecovery log (calls t) hobjects
    obtain ⟨hplain, hruntime⟩ := step_update bucket nowMs calls s hpc
    obtain ⟨hgoverned, hruntime'⟩ :=
      step_update bucket nowMs calls s' ((congrFun h.pc t).trans hpc)
    have hsession : s'.app.session = s.app.session.attached contract log := by rw [happ]
    rw [hsession] at hgoverned hruntime'
    intro hsame
    rcases hdiffers with ⟨e, he⟩ | hne
    · have hresponse := hsame.responses t
      rw [hplain, hgoverned, hnone, he] at hresponse
      cases hresponse
    · have hbeliefs := hsame.beliefs
      rw [hruntime, hruntime'] at hbeliefs
      exact hne hbeliefs
  | _ =>
    rw [hpc] at hobjects
    cases hobjects

/-- the two servers start alike -/
theorem attached_start (settings : Settings B) (contract : BehavioralContract M G) :
    Attached contract (start (main settings) : Server T B M G)
      (start (mainWithContract settings contract)) := by
  refine ⟨runtime_bare settings, ⟨.default, ?_⟩, rfl⟩
  show mainWithContract settings contract = _
  unfold mainWithContract
  rw [BeliefRuntime.withContract_of_bare (runtime_bare settings)]
  rfl

/-- **when the server enforces the contract it loads**: whatever the settings and the contract
file, and however the sections of the requests and of their tasks interleave, the server of `main`
and the one with the contract attached hold the same beliefs and respond alike throughout exactly
when the contract objects to no section of a request -/
theorem server_enforces_iff (settings : Settings B) (config : ContractConfig)
    (bucket : Bucket B) (nowMs : T → Nat) (calls : T → SetCall) (sched : List T) :
    let loaded := { settings with contractsFile := some config }
    let contract : BehavioralContract M G := .fromConfig config
    (∀ pre post, sched = pre ++ post →
      Same calls (run (Server.step bucket nowMs calls) (start (main loaded)) pre)
        (run (Server.step bucket nowMs calls) (start (mainWithContract loaded contract)) pre)) ↔
    ∀ s t, StepOf (Server.step bucket nowMs calls) (start (main loaded)) sched s t →
      ¬ s.Objects contract t :=
  lockstep_iff (fun _ _ h => h.same calls) (fun _ _ _ h hno => h.step bucket nowMs calls hno)
    (fun _ _ _ h hno => h.objects rfl bucket nowMs calls (not_not.mp hno))
    (attached_start { settings with contractsFile := some config } _) sched

end

section
attribute [local instance] Platform.ascii

/-- a deployment contract: the environment must stay known with confidence `1/2` -/
def deployment : ContractConfig where
  domain := "deployment_safety"
  preconditions := []
  invariants := [⟨"environment", 1 / 2, "hard"⟩]
  governance := ⟨none, none, []⟩

/-- the server with that contract file, and otherwise with the settings that are the default -/
def deployed : Settings TokenBucket where
  reliabilityBaseline := 1 / 2
  system2Budget := 50
  bucket := .new 50
  reflectionThreshold := defaultReflectionThreshold
  llmClient := false
  contractsFile := some deployment

/-- the environment is set, and then it is set again with little confidence -/
def unsure : Bool → SetCall
  | false => .at 10 "environment" "\"staging\"" (9 / 10) none
  | true => .at 20 "environment" "\"unknown\"" (1 / 10) none

/-- one request after the other, each to its end -/
def inTurn : List Bool := List.replicate 12 false ++ List.replicate 12 true

/-- the confidences that a server holds after the two requests -/
def confidencesOf (app : AppState TokenBucket SlotVec EdgeList) : List ℚ :=
  (run (Server.step .fixed (fun _ => 0) unsure) (start app) inTurn).app.runtime.beliefs.map
    fun e => e.2.fastConfidence

/-- the invariant is violated in the server of `main`, while the one with the contract attached has
gone back to what it had -/
theorem contract_not_enforced :
    confidencesOf (main deployed) = [1 / 10] ∧
    confidencesOf (mainWithContract deployed (.fromConfig deployment)) = [9 / 10] ∧
    ¬ Same unsure (run (Server.step .fixed (fun _ => 0) unsure)
        (start (main deployed : AppState TokenBucket SlotVec EdgeList)) inTurn)
      (run (Server.step .fixed (fun _ => 0) unsure)
        (start (mainWithContract deployed (.fromConfig deployment))) inTurn) := by
  have hmain : confidencesOf (main deployed) = [1 / 10] := by decide +kernel
  have hattached : confidencesOf (mainWithContract deployed (.fromConfig deployment)) =
      [9 / 10] := by decide +kernel
  refine ⟨hmain, hattached, fun hsame => ?_⟩
  have hequal : confidencesOf (mainWithContract deployed (.fromConfig deployment)) =
      confidencesOf (main deployed) :=
    congrArg (List.map fun e : BeliefId × BeliefNode => e.2.fastConfidence) hsame.beliefs
  rw [hmain, hattached] at hequal
  exact absurd hequal (by decide +kernel)

end
end Server
end Epica
