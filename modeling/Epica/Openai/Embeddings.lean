import Epica.Lib.Batch
import Mathlib.Data.Rat.Defs
import Mathlib.Logic.Function.Basic

/-!
# The embedding provider

A cache of vectors and a queue of texts, each behind a lock.  `warm` queues, `warmAsync` takes the
queue and fetches it in chunks, `embed` reads the cache and falls back to `warmAsync`.  A call is
cut at its locks: one step takes the locks once, or waits for one answer of the server, and
`QueuePc` says where the call is and what it carries.

* `tryFetch_ok`          what is made of an answer that is accepted;
* `fetchWithRetry_ok`    what is fetched comes from one answer of the server.
-/

set_option linter.unusedSectionVars false

namespace Epica
open Lib

/-! ## fetching -/

inductive OpenAiEmbeddingError where
  | network (message : String)
  | clientError (message : String)
  | deserialize (message : String)
  | rateLimited
  | mismatch (expected got : Nat)

structure EmbeddingDatum where
  embedding : List ℚ
  index : Nat

/-- a status code, and how it is displayed -/
structure StatusCode where
  code : Nat
  display : String

def StatusCode.isClientError (status : StatusCode) : Bool :=
  decide (400 ≤ status.code) && decide (status.code < 500)

def StatusCode.isSuccess (status : StatusCode) : Bool :=
  decide (200 ≤ status.code) && decide (status.code < 300)

/-- what becomes of a request: it is not sent, or it is answered by a status, and by a body as text
and as json -/
inductive HttpOutcome where
  | notSent (message : String)
  | response (status : StatusCode) (text : String) (json : Except String (List EmbeddingDatum))

def tryFetch (inputs : List String) : HttpOutcome → Except OpenAiEmbeddingError (List (List ℚ))
  | .notSent message => .error (.network message)
  | .response status text json =>
    if status.code = 429 then .error .rateLimited
    else if status.isClientError then .error (.clientError s!"HTTP {status.display}: {text}")
    else if !status.isSuccess then .error (.network s!"HTTP {status.display}: {text}")
    else
      match json with
      | .error message => .error (.deserialize message)
      | .ok data =>
        if data.length ≠ inputs.length then .error (.mismatch inputs.length data.length)
        else
          -- the order of the entries is not guaranteed
          .ok ((sortByKey EmbeddingDatum.index data).map EmbeddingDatum.embedding)

def isRetryable : OpenAiEmbeddingError → Bool
  | .rateLimited => true
  | .network _ => true
  | _ => false

def maxRetries : Nat := 3

/-- the attempts that are left, after the last one has failed with `lastErr` -/
def fetchAttempts (outcomes : Nat → HttpOutcome) (inputs : List String) :
    List Nat → OpenAiEmbeddingError → Except OpenAiEmbeddingError (List (List ℚ))
  | [], lastErr => .error lastErr
  | attempt :: attempts, _ =>
    match tryFetch inputs (outcomes attempt) with
    | .ok vectors => .ok vectors
    | .error e => if isRetryable e then fetchAttempts outcomes inputs attempts e else .error e

def fetchWithRetry (outcomes : Nat → HttpOutcome) (inputs : List String) :
    Except OpenAiEmbeddingError (List (List ℚ)) :=
  fetchAttempts outcomes inputs (List.range maxRetries) (.network "no attempts made")

/-- an answer that is accepted has one entry for each input, and they are sorted by position -/
theorem tryFetch_ok {inputs : List String} {outcome : HttpOutcome} {vectors : List (List ℚ)}
    (h : tryFetch inputs outcome = .ok vectors) :
    ∃ status text data, outcome = .response status text (.ok data) ∧
      data.length = inputs.length ∧
      vectors = (sortByKey EmbeddingDatum.index data).map EmbeddingDatum.embedding := by
  cases outcome with
  | notSent message => cases h
  | response status text json =>
    unfold tryFetch at h
    simp only at h
    split at h
    · cases h
    · split at h
      · cases h
      · split at h
        · cases h
        · cases json with
          | error message => cases h
          | ok data =>
            simp only at h
            split at h
            · cases h
            · rename_i hlength
              exact ⟨status, text, data, rfl, not_not.mp hlength, (Except.ok.inj h).symm⟩

theorem fetchAttempts_ok {outcomes : Nat → HttpOutcome} {inputs : List String}
    {attempts : List Nat} {lastErr : OpenAiEmbeddingError} {vectors : List (List ℚ)}
    (h : fetchAttempts outcomes inputs attempts lastErr = .ok vectors) :
    ∃ attempt ∈ attempts, tryFetch inputs (outcomes attempt) = .ok vectors := by
  induction attempts generalizing lastErr with
  | nil => cases h
  | cons attempt attempts ih =>
    unfold fetchAttempts at h
    cases hfetch : tryFetch inputs (outcomes attempt) with
    | ok vectors' =>
      rw [hfetch] at h
      cases h
      exact ⟨attempt, List.mem_cons_self, hfetch⟩
    | error e =>
      rw [hfetch] at h
      simp only at h
      split at h
      · obtain ⟨attempt', hmem, hok⟩ := ih h
        exact ⟨attempt', List.mem_cons_of_mem attempt hmem, hok⟩
      · cases h

/-- **what is fetched comes from one answer of the server, one vector for each input** -/
theorem fetchWithRetry_ok {outcomes : Nat → HttpOutcome} {inputs : List String}
    {vectors : List (List ℚ)} (h : fetchWithRetry outcomes inputs = .ok vectors) :
    ∃ attempt < maxRetries, ∃ status text data,
      outcomes attempt = .response status text (.ok data) ∧ data.length = inputs.length ∧
      vectors = (sortByKey EmbeddingDatum.index data).map EmbeddingDatum.embedding := by
  obtain ⟨attempt, hmem, hok⟩ := fetchAttempts_ok h
  obtain ⟨status, text, data, houtcome, hlength, hvectors⟩ := tryFetch_ok hok
  exact ⟨attempt, List.mem_range.mp hmem, status, text, data, houtcome, hlength, hvectors⟩

/-! ## the provider and its calls -/

structure OpenAiEmbeddingProvider where
  cache : Finmap fun _ : String => List ℚ
  pending : List String

namespace OpenAiEmbeddingProvider

def embedCached (p : OpenAiEmbeddingProvider) (text : String) : Option (List ℚ) :=
  p.cache.lookup text

/-- nothing else is queued, and nothing twice -/
def warm (p : OpenAiEmbeddingProvider) (texts : List String) : OpenAiEmbeddingProvider :=
  { p with pending := collectNew (fun t => (p.embedCached t).isSome) p.pending texts }

/-- the queued texts and the given ones, without those that are cached -/
def missing (p : OpenAiEmbeddingProvider) (texts : List String) : List String :=
  let skip := fun t => (p.embedCached t).isSome
  collectNew skip (collectNew skip [] p.pending) texts

def clearPending (p : OpenAiEmbeddingProvider) : OpenAiEmbeddingProvider := { p with pending := [] }

def store (p : OpenAiEmbeddingProvider) (chunk : List String) (vectors : List (List ℚ)) :
    OpenAiEmbeddingProvider :=
  { p with cache := insertAll p.cache (chunk.zip vectors) }

end OpenAiEmbeddingProvider

inductive EmbedError where
  | model (message : String)
  | network (message : String)

def mapEmbeddingError : OpenAiEmbeddingError → EmbedError
  | .network s => .network s
  | .rateLimited => .network "rate limited"
  | .clientError s => .model s
  | .deserialize s => .model s
  | .mismatch expected got =>
    .model s!"provider returned {got} embeddings for {expected} inputs"

def missingAfterWarm : EmbedError :=
  .model ("embedding missing from cache immediately after warm_async " ++
    "— provider returned 0 entries")

inductive QueueCall where
  | warm (texts : List String)
  | warmAsync (texts : List String)
  | embed (text : String)

inductive QueueResult where
  | warmed
  | warmedAsync (result : Except OpenAiEmbeddingError Nat)
  | embedded (result : Except EmbedError (List ℚ))
  /-- chunks of size `0` panic -/
  | panicked

/-- where a call is, and what it carries -/
inductive QueuePc where
  | start
  | collect
  | clear (missing : List String)
  | fetch (missing rest : List String) (fetched : Nat)
  | store (missing chunk : List String) (vectors : List (List ℚ)) (rest : List String)
      (fetched : Nat)
  | reread (text : String)
  | done (result : QueueResult)

/-- the missing list of a `warmAsync` that has not returned -/
def QueuePc.missing : QueuePc → List String
  | .clear missing => missing
  | .fetch missing _ _ => missing
  | .store missing _ _ _ _ => missing
  | _ => []

/-- the call carries a missing list -/
def QueuePc.carries : QueuePc → Bool
  | .clear _ => true
  | .fetch _ _ _ => true
  | .store _ _ _ _ _ => true
  | _ => false

theorem missing_of_not_carries {pc : QueuePc} (h : pc.carries = false) : pc.missing = [] := by
  cases pc with
  | clear missing => cases h
  | fetch missing rest fetched => cases h
  | store missing chunk vectors rest fetched => cases h
  | _ => rfl

namespace QueueCall

/-- the texts given to `warmAsync` -/
def texts : QueueCall → List String
  | .warm texts => texts
  | .warmAsync texts => texts
  | .embed text => [text]

/-- where the call goes on when its `warmAsync` returns -/
def warmed (call : QueueCall) (result : Except OpenAiEmbeddingError Nat) : QueuePc :=
  match call, result with
  | .embed _, .error e => .done (.embedded (.error (mapEmbeddingError e)))
  | .embed text, .ok _ => .reread text
  | _, result => .done (.warmedAsync result)

/-- one section of `warmAsync`; `outcomes inputs attempt` is what becomes of the request of the call
for `inputs` -/
def warmSection (batchSize : Nat) (outcomes : List String → Nat → HttpOutcome) (call : QueueCall)
    (p : OpenAiEmbeddingProvider) : QueuePc → OpenAiEmbeddingProvider × QueuePc
  | .collect => (p, .clear (p.missing call.texts))
  | .clear missing =>
    (p.clearPending, if missing = [] then call.warmed (.ok 0) else .fetch missing missing 0)
  | .fetch missing rest fetched =>
    if batchSize = 0 then (p, .done .panicked)
    else
      let chunk := rest.take batchSize
      match fetchWithRetry (outcomes chunk) chunk with
      | .error e => (p, call.warmed (.error e))
      | .ok vectors => (p, .store missing chunk vectors (rest.drop batchSize) fetched)
  | .store missing chunk vectors rest fetched =>
    let fetched' := fetched + (chunk.zip vectors).length
    (p.store chunk vectors,
      if rest = [] then call.warmed (.ok fetched') else .fetch missing rest fetched')
  | pc => (p, pc)

end QueueCall

def queueSection (batchSize : Nat) (outcomes : List String → Nat → HttpOutcome)
    (call : QueueCall) (p : OpenAiEmbeddingProvider) : QueuePc → OpenAiEmbeddingProvider × QueuePc
  | .start =>
    match call with
    | .warm texts => (p.warm texts, .done .warmed)
    | .warmAsync _ => call.warmSection batchSize outcomes p .collect
    | .embed text =>
      match p.embedCached text with
      | some v => (p, .done (.embedded (.ok v)))
      | none => (p, .collect)
  | .reread text =>
    match p.embedCached text with
    | some v => (p, .done (.embedded (.ok v)))
    | none => (p, .done (.embedded (.error missingAfterWarm)))
  | pc => call.warmSection batchSize outcomes p pc

end Epica
