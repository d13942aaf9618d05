import Epica.Lib.Run
import Epica.Openai.Embeddings

/-!
# What the queue keeps

Any number of calls on one provider, each at its own section.  A text that has been queued is kept
while it is cached, pending or missing in a call that has not returned.  A call takes the queue in
two sections, one that reads it and one that clears it, and gives up its missing texts when a
request fails.

* `kept_step_iff`     a step keeps a text exactly when it does not drop it;
* `store_aligned`     what is stored for a text is the vector at its position;
* `queue_keeps_iff`   a run keeps what has been queued exactly when no step of it drops any.
-/

set_option linter.unusedSectionVars false

namespace Epica
open Lib

/-- a provider, and where each of its callers is -/
structure Warming (T : Type) where
  provider : OpenAiEmbeddingProvider
  pc : T → QueuePc

/-- the answer that the vectors come from -/
def Answered (outcomes : List String → Nat → HttpOutcome) (chunk : List String)
    (vectors : List (List ℚ)) (data : List EmbeddingDatum) : Prop :=
  (∃ attempt < maxRetries, ∃ status text,
      outcomes chunk attempt = .response status text (.ok data)) ∧
    data.length = chunk.length ∧
    vectors = (sortByKey EmbeddingDatum.index data).map EmbeddingDatum.embedding

theorem Answered.length {outcomes : List String → Nat → HttpOutcome} {chunk : List String}
    {vectors : List (List ℚ)} {data : List EmbeddingDatum}
    (h : Answered outcomes chunk vectors data) : vectors.length = chunk.length := by
  obtain ⟨-, hlength, rfl⟩ := h
  rw [List.length_map, length_sortByKey, hlength]

theorem answered_of_fetch {outcomes : List String → Nat → HttpOutcome} {chunk : List String}
    {vectors : List (List ℚ)} (h : fetchWithRetry (outcomes chunk) chunk = .ok vectors) :
    ∃ data, Answered outcomes chunk vectors data := by
  obtain ⟨attempt, hlt, status, text, data, houtcome, hlength, hvectors⟩ := fetchWithRetry_ok h
  exact ⟨data, ⟨attempt, hlt, status, text, houtcome⟩, hlength, hvectors⟩

namespace OpenAiEmbeddingProvider

def Cached (p : OpenAiEmbeddingProvider) (text : String) : Prop := (p.embedCached text).isSome

instance (p : OpenAiEmbeddingProvider) (text : String) : Decidable (p.Cached text) :=
  inferInstanceAs (Decidable ((p.embedCached text).isSome = true))

theorem cached_iff (p : OpenAiEmbeddingProvider) (text : String) :
    p.Cached text ↔ text ∈ p.cache := Finmap.lookup_isSome

theorem cached_store (p : OpenAiEmbeddingProvider) {chunk : List String}
    {vectors : List (List ℚ)} (h : vectors.length = chunk.length) (text : String) :
    (p.store chunk vectors).Cached text ↔ text ∈ chunk ∨ p.Cached text := by
  rw [cached_iff, cached_iff]
  unfold store
  rw [mem_insertAll, List.map_fst_zip (by omega)]

/-- a chunk that is answered with its positions is stored accordingly -/
theorem embedCached_store (p : OpenAiEmbeddingProvider)
    {outcomes : List String → Nat → HttpOutcome} {chunk : List String}
    {vectors : List (List ℚ)} {data : List EmbeddingDatum} (hnodup : chunk.Nodup)
    (h : Answered outcomes chunk vectors data)
    (hindex : (data.map EmbeddingDatum.index).Perm (List.range chunk.length)) {i : Nat}
    (hi : i < chunk.length) :
    ∃ d ∈ data, d.index = i ∧
      (p.store chunk vectors).embedCached chunk[i] = some d.embedding := by
  obtain ⟨-, hlength, rfl⟩ := h
  have hsorted : (sortByKey EmbeddingDatum.index data).length = chunk.length := by
    rw [length_sortByKey, hlength]
  have hi' : i < (sortByKey EmbeddingDatum.index data).length := by omega
  rw [← hlength] at hindex
  refine ⟨(sortByKey EmbeddingDatum.index data)[i],
    (perm_sortByKey EmbeddingDatum.index data).mem_iff.mp (List.getElem_mem hi'),
    key_sortByKey EmbeddingDatum.index hindex hi', ?_⟩
  have hmem : (chunk[i], (sortByKey EmbeddingDatum.index data)[i].embedding) ∈
      chunk.zip ((sortByKey EmbeddingDatum.index data).map EmbeddingDatum.embedding) := by
    refine List.mem_iff_getElem.mpr ⟨i, ?_, ?_⟩
    · rw [List.length_zip, List.length_map, hsorted]
      omega
    · rw [List.getElem_zip, List.getElem_map]
  have hfst : ((chunk.zip ((sortByKey EmbeddingDatum.index data).map
      EmbeddingDatum.embedding)).map Prod.fst).Nodup := by
    rw [List.map_fst_zip (by rw [List.length_map]; omega)]
    exact hnodup
  exact lookup_insertAll p.cache hfst hmem

end OpenAiEmbeddingProvider

namespace Warming
section
variable {T : Type} [DecidableEq T]

/-- `cache` is what has been cached from elsewhere before the calls -/
def start (cache : Finmap fun _ : String => List ℚ) : Warming T := ⟨⟨cache, []⟩, fun _ => .start⟩

/-- the caller `t` runs its next section -/
def step (batchSize : Nat) (outcomes : T → List String → Nat → HttpOutcome)
    (calls : T → QueueCall) (s : Warming T) (t : T) : Warming T :=
  let r := queueSection batchSize (outcomes t) (calls t) s.provider (s.pc t)
  ⟨r.1, Function.update s.pc t r.2⟩

/-- a `warm` that has returned was given the text -/
def Queued (calls : T → QueueCall) (s : Warming T) (x : String) : Prop :=
  ∃ t texts, calls t = .warm texts ∧ s.pc t = .done .warmed ∧ x ∈ texts

/-- the text is cached, or pending, or missing in a call that has not returned -/
def Kept (s : Warming T) (x : String) : Prop :=
  s.provider.Cached x ∨ x ∈ s.provider.pending ∨ ∃ t, x ∈ (s.pc t).missing

variable (batchSize : Nat) (outcomes : T → List String → Nat → HttpOutcome)
  (calls : T → QueueCall)

/-- `t` clears the queue -/
def Clears (s : Warming T) (t : T) : Prop := ∃ missing, s.pc t = .clear missing

/-- the next request of `t` fails for good, or its chunks have size `0` -/
def GivesUp (s : Warming T) (t : T) : Prop :=
  ∃ missing rest fetched, s.pc t = .fetch missing rest fetched ∧ (batchSize = 0 ∨
    ∃ e, fetchWithRetry (outcomes t (rest.take batchSize)) (rest.take batchSize) = .error e)

/-- `t` clears the queue, and nobody has taken the text from it; or `t` gives it up, and nobody
else has it -/
def Drops (s : Warming T) (t : T) (x : String) : Prop :=
  ¬ s.provider.Cached x ∧
    ((Clears s t ∧ x ∈ s.provider.pending ∧ ∀ u, x ∉ (s.pc u).missing) ∨
      (GivesUp batchSize outcomes s t ∧ x ∈ (s.pc t).missing ∧ x ∉ s.provider.pending ∧
        ∀ u, u ≠ t → x ∉ (s.pc u).missing))

/-- if `t` stores vectors, they are those of an answer to its request, and each text of the chunk
gets the one whose index is its position, in whatever order the answer lists them -/
def StoresAligned (s s' : Warming T) (t : T) : Prop :=
  ∀ missing chunk vectors rest fetched, s.pc t = .store missing chunk vectors rest fetched →
    ∃ data, Answered (outcomes t) chunk vectors data ∧
      ((data.map EmbeddingDatum.index).Perm (List.range chunk.length) →
        ∀ i (_ : i < chunk.length), ∃ d ∈ data, d.index = i ∧
          s'.provider.embedCached chunk[i] = some d.embedding)

variable {batchSize outcomes calls}

theorem pc_step (s : Warming T) (t u : T) : (step batchSize outcomes calls s t).pc u =
    if u = t then (queueSection batchSize (outcomes t) (calls t) s.provider (s.pc t)).2
    else s.pc u := by
  show Function.update s.pc t _ u = _
  rw [Function.update_apply]

theorem done_step {s : Warming T} {u : T} {result : QueueResult} (h : s.pc u = .done result)
    (t : T) : (step batchSize outcomes calls s t).pc u = .done result := by
  rw [pc_step]
  split
  · rename_i e
    subst e
    rw [h]
    rfl
  · exact h

theorem queued_step {s : Warming T} {x : String} (h : Queued calls s x) (t : T) :
    Queued calls (step batchSize outcomes calls s t) x := by
  obtain ⟨u, texts, hcall, hdone, hx⟩ := h
  exact ⟨u, texts, hcall, done_step hdone t, hx⟩

/-! ## what holds in every state -/

/-- what a call carries: each missing text is cached or still to be fetched, and each once -/
inductive WellHeld (outcomes : List String → Nat → HttpOutcome) (p : OpenAiEmbeddingProvider) :
    QueuePc → Prop where
  | start : WellHeld outcomes p .start
  | collect : WellHeld outcomes p .collect
  | clear {missing : List String} (hnodup : missing.Nodup) : WellHeld outcomes p (.clear missing)
  | fetch {missing rest : List String} {fetched : Nat} (hnodup : rest.Nodup)
      (hrest : ∀ x ∈ missing, p.Cached x ∨ x ∈ rest) :
      WellHeld outcomes p (.fetch missing rest fetched)
  | store {missing chunk : List String} {vectors : List (List ℚ)} {rest : List String}
      {fetched : Nat} (hchunk : chunk.Nodup) (hnodup : rest.Nodup)
      (hrest : ∀ x ∈ missing, p.Cached x ∨ x ∈ chunk ∨ x ∈ rest)
      (hanswered : ∃ data, Answered outcomes chunk vectors data) :
      WellHeld outcomes p (.store missing chunk vectors rest fetched)
  | reread (text : String) : WellHeld outcomes p (.reread text)
  | done (result : QueueResult) : WellHeld outcomes p (.done result)

structure Sound (outcomes : T → List String → Nat → HttpOutcome) (calls : T → QueueCall)
    (s : Warming T) : Prop where
  pending : ∀ x ∈ s.provider.pending, Queued calls s x
  held : ∀ t, WellHeld (outcomes t) s.provider (s.pc t)

/-- a text that is cached stays cached, whatever the calls carry -/
theorem WellHeld.mono {outcomes : List String → Nat → HttpOutcome}
    {p p' : OpenAiEmbeddingProvider} {pc : QueuePc} (h : WellHeld outcomes p pc)
    (hcached : ∀ x, p.Cached x → p'.Cached x) : WellHeld outcomes p' pc := by
  cases h with
  | start => exact .start
  | collect => exact .collect
  | clear hnodup => exact .clear hnodup
  | fetch hnodup hrest => exact .fetch hnodup fun x hx => (hrest x hx).imp_left (hcached x)
  | store hchunk hnodup hrest hanswered =>
    exact .store hchunk hnodup (fun x hx => (hrest x hx).imp_left (hcached x)) hanswered
  | reread text => exact .reread text
  | done result => exact .done result

theorem wellHeld_warmed (outcomes : List String → Nat → HttpOutcome)
    (p : OpenAiEmbeddingProvider) (call : QueueCall) (result : Except OpenAiEmbeddingError Nat) :
    WellHeld outcomes p (call.warmed result) ∧ (call.warmed result).missing = [] := by
  unfold QueueCall.warmed
  split
  · exact ⟨.done _, rfl⟩
  · exact ⟨.reread _, rfl⟩
  · exact ⟨.done _, rfl⟩

/-! ## the effect of a section -/

/-- what a section makes of the provider `p` and of where its call is -/
inductive SectionEffect (batchSize : Nat) (outcomes : List String → Nat → HttpOutcome)
    (call : QueueCall) (p : OpenAiEmbeddingProvider) :
    QueuePc → OpenAiEmbeddingProvider → QueuePc → Prop where
  | queues {texts : List String} (hcall : call = .warm texts) :
      SectionEffect batchSize outcomes call p .start (p.warm texts) (.done .warmed)
  | reads {pc pc' : QueuePc} (hpc : pc.carries = false) (hpc' : pc'.missing = [])
      (hwell : WellHeld outcomes p pc') (hwarmed : pc' = .done .warmed → pc = .done .warmed) :
      SectionEffect batchSize outcomes call p pc p pc'
  | collects {pc : QueuePc} (hpc : pc.carries = false) :
      SectionEffect batchSize outcomes call p pc p (.clear (p.missing call.texts))
  | clears {missing : List String} {pc' : QueuePc} (hpc' : pc'.missing = missing)
      (hwell : missing.Nodup → WellHeld outcomes p pc') (hwarmed : pc' ≠ .done .warmed) :
      SectionEffect batchSize outcomes call p (.clear missing) p.clearPending pc'
  | fetches {missing rest : List String} {fetched : Nat} {vectors : List (List ℚ)}
      (hsize : batchSize ≠ 0) (hok : fetchWithRetry (outcomes (rest.take batchSize))
        (rest.take batchSize) = .ok vectors) :
      SectionEffect batchSize outcomes call p (.fetch missing rest fetched) p
        (.store missing (rest.take batchSize) vectors (rest.drop batchSize) fetched)
  | givesUp {missing rest : List String} {fetched : Nat} {pc' : QueuePc}
      (hfails : batchSize = 0 ∨ ∃ e, fetchWithRetry (outcomes (rest.take batchSize))
        (rest.take batchSize) = .error e)
      (hpc' : pc'.missing = []) (hwell : WellHeld outcomes p pc') (hwarmed : pc' ≠ .done .warmed) :
      SectionEffect batchSize outcomes call p (.fetch missing rest fetched) p pc'
  | stores {missing chunk : List String} {vectors : List (List ℚ)} {rest : List String}
      {fetched : Nat} {pc' : QueuePc} (hmore : rest ≠ [] → ∃ n, pc' = .fetch missing rest n)
      (hlast : rest = [] → pc'.missing = [] ∧ ∀ p', WellHeld outcomes p' pc')
      (hwarmed : pc' ≠ .done .warmed) :
      SectionEffect batchSize outcomes call p (.store missing chunk vectors rest fetched)
        (p.store chunk vectors) pc'

theorem not_warmed_warmed (call : QueueCall) (result : Except OpenAiEmbeddingError Nat) :
    call.warmed result ≠ .done .warmed := by
  unfold QueueCall.warmed
  split <;> exact fun h => nomatch h

/-- **everything a section can do** -/
theorem section_effect (batchSize : Nat) (outcomes : List String → Nat → HttpOutcome)
    (call : QueueCall) (p : OpenAiEmbeddingProvider) (pc : QueuePc) :
    SectionEffect batchSize outcomes call p pc (queueSection batchSize outcomes call p pc).1
      (queueSection batchSize outcomes call p pc).2 := by
  cases pc with
  | start =>
    cases call with
    | warm texts => exact .queues rfl
    | warmAsync texts => exact .collects rfl
    | embed text =>
      unfold queueSection
      simp only
      cases p.embedCached text with
      | some v => exact .reads rfl rfl (.done _) fun h => nomatch h
      | none => exact .reads rfl rfl .collect fun h => nomatch h
  | collect => exact .collects rfl
  | clear missing =>
    unfold queueSection QueueCall.warmSection
    by_cases hnil : missing = []
    · obtain ⟨hwell, hmissing⟩ := wellHeld_warmed outcomes p call (.ok 0)
      simp only [if_pos hnil]
      exact .clears (hmissing.trans hnil.symm) (fun _ => hwell) (not_warmed_warmed call _)
    · simp only [if_neg hnil]
      exact .clears rfl (fun hnodup => .fetch hnodup fun _ hx => Or.inr hx) fun h => nomatch h
  | fetch missing rest fetched =>
    unfold queueSection QueueCall.warmSection
    by_cases hsize : batchSize = 0
    · simp only [if_pos hsize]
      exact .givesUp (Or.inl hsize) rfl (.done _) fun h => nomatch h
    · simp only [if_neg hsize]
      cases hfetch : fetchWithRetry (outcomes (rest.take batchSize)) (rest.take batchSize) with
      | error e =>
        obtain ⟨hwell, hmissing⟩ := wellHeld_warmed outcomes p call (.error e)
        exact .givesUp (Or.inr ⟨e, hfetch⟩) hmissing hwell (not_warmed_warmed call _)
      | ok vectors => exact .fetches hsize hfetch
  | store missing chunk vectors rest fetched =>
    unfold queueSection QueueCall.warmSection
    by_cases hnil : rest = []
    · simp only [if_pos hnil]
      exact .stores (fun h => absurd hnil h)
        (fun _ => ⟨(wellHeld_warmed outcomes p call _).2,
          fun p' => (wellHeld_warmed outcomes p' call _).1⟩) (not_warmed_warmed call _)
    · simp only [if_neg hnil]
      exact .stores (fun _ => ⟨_, rfl⟩) (fun h => absurd h hnil) fun h => nomatch h
  | reread text =>
    unfold queueSection
    simp only
    cases p.embedCached text with
    | some v => exact .reads rfl rfl (.done _) fun h => nomatch h
    | none => exact .reads rfl rfl (.done _) fun h => nomatch h
  | done result => exact .reads rfl rfl (.done result) id

section
variable {batchSize : Nat} {outcomes : List String → Nat → HttpOutcome} {call : QueueCall}
  {p p' : OpenAiEmbeddingProvider} {pc pc' : QueuePc}

theorem SectionEffect.cached (e : SectionEffect batchSize outcomes call p pc p' pc')
    (h : WellHeld outcomes p pc) {x : String} (hx : p.Cached x) : p'.Cached x := by
  cases e with
  | stores hmore hlast hwarmed =>
    cases h with
    | store hchunk hnodup hrest hanswered =>
      obtain ⟨data, hanswered⟩ := hanswered
      exact (p.cached_store hanswered.length x).mpr (Or.inr hx)
  | _ => exact hx

/-- only the section that clears the queue drops what is pending -/
theorem SectionEffect.pending (e : SectionEffect batchSize outcomes call p pc p' pc')
    (hclear : ∀ missing, pc ≠ .clear missing) {x : String} (hx : x ∈ p.pending) :
    x ∈ p'.pending := by
  cases e with
  | queues hcall => exact (mem_collectNew _ _ _ x).mpr (Or.inl hx)
  | clears hpc' hwell hwarmed => exact absurd rfl (hclear _)
  | _ => exact hx

/-- only a call that gives up drops what is missing and not cached -/
theorem SectionEffect.missing (e : SectionEffect batchSize outcomes call p pc p' pc')
    (h : WellHeld outcomes p pc)
    (hfails : ∀ missing rest fetched, pc = .fetch missing rest fetched → ¬ (batchSize = 0 ∨
      ∃ e, fetchWithRetry (outcomes (rest.take batchSize)) (rest.take batchSize) = .error e))
    {x : String} (hx : x ∈ pc.missing) : p'.Cached x ∨ x ∈ pc'.missing := by
  cases e with
  | queues hcall => exact absurd hx List.not_mem_nil
  | reads hpc hpc' hwell hwarmed =>
    rw [missing_of_not_carries hpc] at hx
    exact absurd hx List.not_mem_nil
  | collects hpc =>
    rw [missing_of_not_carries hpc] at hx
    exact absurd hx List.not_mem_nil
  | clears hpc' hwell hwarmed =>
    rw [hpc']
    exact Or.inr hx
  | fetches hsize hok => exact Or.inr hx
  | givesUp hfail hpc' hwell hwarmed => exact absurd hfail (hfails _ _ _ rfl)
  | stores hmore hlast hwarmed =>
    cases h with
    | store hchunk hnodup hrest hanswered =>
      obtain ⟨data, hanswered⟩ := hanswered
      rename_i missing chunk vectors rest fetched
      by_cases hnil : rest = []
      · left
        rw [p.cached_store hanswered.length]
        rcases hrest x hx with hc | hc | hc
        · exact Or.inr hc
        · exact Or.inl hc
        · rw [hnil] at hc
          exact absurd hc List.not_mem_nil
      · obtain ⟨n, rfl⟩ := hmore hnil
        exact Or.inr hx

theorem SectionEffect.wellHeld (e : SectionEffect batchSize outcomes call p pc p' pc')
    (h : WellHeld outcomes p pc) : WellHeld outcomes p' pc' := by
  cases e with
  | queues hcall => exact .done _
  | reads hpc hpc' hwell hwarmed => exact hwell
  | collects hpc =>
    exact .clear (nodup_collectNew _ (nodup_collectNew _ List.nodup_nil _) _)
  | clears hpc' hwell hwarmed =>
    cases h with
    | clear hnodup => exact (hwell hnodup).mono fun x hx => hx
  | fetches hsize hok =>
    cases h with
    | fetch hnodup hrest =>
      rename_i missing rest fetched vectors
      refine .store (hnodup.sublist (List.take_sublist _ _))
        (hnodup.sublist (List.drop_sublist _ _)) (fun x hx => ?_) (answered_of_fetch hok)
      refine (hrest x hx).imp_right fun hx => ?_
      rw [← List.take_append_drop batchSize rest] at hx
      exact List.mem_append.mp hx
  | givesUp hfail hpc' hwell hwarmed => exact hwell
  | stores hmore hlast hwarmed =>
    cases h with
    | store hchunk hnodup hrest hanswered =>
      obtain ⟨data, hanswered⟩ := hanswered
      rename_i missing chunk vectors rest fetched
      by_cases hnil : rest = []
      · exact (hlast hnil).2 _
      · obtain ⟨n, rfl⟩ := hmore hnil
        refine .fetch hnodup fun x hx => ?_
        rw [p.cached_store hanswered.length]
        rcases hrest x hx with hc | hc | hc
        · exact Or.inl (Or.inr hc)
        · exact Or.inl (Or.inl hc)
        · exact Or.inr hc

/-- only `warm` returns as `warm` does, and then its texts are cached or pending -/
theorem SectionEffect.warmed (e : SectionEffect batchSize outcomes call p pc p' (.done .warmed)) :
    pc = .done .warmed ∨ ∀ texts, call = .warm texts →
      ∀ x ∈ texts, p'.Cached x ∨ x ∈ p'.pending := by
  cases e with
  | queues hcall =>
    right
    intro texts htexts x hx
    obtain rfl := QueueCall.warm.inj (htexts.symm.trans hcall)
    by_cases hc : p.Cached x
    · exact Or.inl hc
    · refine Or.inr ((mem_collectNew _ _ _ x).mpr (Or.inr ⟨hx, ?_⟩))
      exact Bool.not_eq_true _ ▸ hc
  | reads hpc hpc' hwell hwarmed => exact Or.inl (hwarmed rfl)
  | clears hpc' hwell hwarmed => exact absurd rfl hwarmed
  | givesUp hfails hpc' hwell hwarmed => exact absurd rfl hwarmed
  | stores hmore hlast hwarmed => exact absurd rfl hwarmed

/-- only `warm` makes texts pending -/
theorem SectionEffect.mem_pending (e : SectionEffect batchSize outcomes call p pc p' pc')
    {x : String} (hx : x ∈ p'.pending) :
    x ∈ p.pending ∨ pc' = .done .warmed ∧ ∃ texts, call = .warm texts ∧ x ∈ texts := by
  cases e with
  | queues hcall =>
    refine ((mem_collectNew _ _ _ x).mp hx).imp_right fun h => ?_
    exact ⟨rfl, _, hcall, h.1⟩
  | clears hpc' hwell hwarmed => exact absurd hx List.not_mem_nil
  | _ => exact Or.inl hx

theorem SectionEffect.of_clear {missing : List String}
    (e : SectionEffect batchSize outcomes call p (.clear missing) p' pc') :
    p' = p.clearPending ∧ pc'.missing = missing := by
  cases e with
  | reads hpc hpc' hwell hwarmed => cases hpc
  | collects hpc => cases hpc
  | clears hpc' hwell hwarmed => exact ⟨rfl, hpc'⟩

theorem SectionEffect.of_givesUp {missing rest : List String} {fetched : Nat}
    (e : SectionEffect batchSize outcomes call p (.fetch missing rest fetched) p' pc')
    (hfails : batchSize = 0 ∨ ∃ e, fetchWithRetry (outcomes (rest.take batchSize))
      (rest.take batchSize) = .error e) : p' = p ∧ pc'.missing = [] := by
  cases e with
  | reads hpc hpc' hwell hwarmed => cases hpc
  | collects hpc => cases hpc
  | fetches hsize hok =>
    obtain ⟨e, he⟩ := hfails.resolve_left hsize
    rw [hok] at he
    cases he
  | givesUp hfail hpc' hwell hwarmed => exact ⟨rfl, hpc'⟩

end

/-! ## what a step keeps -/

variable (batchSize outcomes calls) in
theorem effect_step (s : Warming T) (t : T) :
    SectionEffect batchSize (outcomes t) (calls t) s.provider (s.pc t)
      (step batchSize outcomes calls s t).provider ((step batchSize outcomes calls s t).pc t) := by
  rw [pc_step, if_pos rfl]
  exact section_effect batchSize (outcomes t) (calls t) s.provider (s.pc t)

theorem pc_step_of_ne (s : Warming T) {t u : T} (h : u ≠ t) :
    (step batchSize outcomes calls s t).pc u = s.pc u := by
  rw [pc_step, if_neg h]

theorem sound_step {s : Warming T} (h : Sound outcomes calls s) (t : T) :
    Sound outcomes calls (step batchSize outcomes calls s t) := by
  have e := effect_step batchSize outcomes calls s t
  constructor
  · intro x hx
    rcases e.mem_pending hx with hx | ⟨hdone, texts, hcall, hx⟩
    · exact queued_step (h.pending x hx) t
    · exact ⟨t, texts, hcall, hdone, hx⟩
  · intro u
    by_cases hu : u = t
    · subst hu
      exact e.wellHeld (h.held u)
    · rw [pc_step_of_ne s hu]
      exact (h.held u).mono fun x hx => e.cached (h.held t) hx

/-- what a step queues it keeps -/
theorem kept_of_queued {s : Warming T} {t : T} {x : String}
    (hx : Queued calls (Warming.step batchSize outcomes calls s t) x) :
    Queued calls s x ∨ Kept (Warming.step batchSize outcomes calls s t) x := by
  obtain ⟨u, texts, hcall, hdone, hx⟩ := hx
  by_cases hu : u = t
  · subst hu
    have e := effect_step batchSize outcomes calls s u
    rw [hdone] at e
    rcases e.warmed with hpc | hkept
    · exact Or.inl ⟨u, texts, hcall, hpc, hx⟩
    · exact Or.inr ((hkept texts hcall x hx).imp_right Or.inl)
  · rw [pc_step_of_ne s hu] at hdone
    exact Or.inl ⟨u, texts, hcall, hdone, hx⟩

/-- what is kept after a step -/
theorem kept_step (s : Warming T) (t : T) (x : String) :
    Kept (Warming.step batchSize outcomes calls s t) x ↔
      (Warming.step batchSize outcomes calls s t).provider.Cached x ∨
      x ∈ (Warming.step batchSize outcomes calls s t).provider.pending ∨
      x ∈ ((Warming.step batchSize outcomes calls s t).pc t).missing ∨
      ∃ u, u ≠ t ∧ x ∈ (s.pc u).missing := by
  refine or_congr_right (or_congr_right ?_)
  constructor
  · intro h
    obtain ⟨u, hu⟩ := h
    by_cases hut : u = t
    · subst hut
      exact Or.inl hu
    · rw [pc_step_of_ne s hut] at hu
      exact Or.inr ⟨u, hut, hu⟩
  · intro h
    rcases h with h | ⟨u, hut, hu⟩
    · exact ⟨t, h⟩
    · exact ⟨u, by rw [pc_step_of_ne s hut]; exact hu⟩

/-- what a step drops is not kept after it -/
theorem Drops.not_kept {s : Warming T} {t : T} {x : String}
    (hdrops : Drops batchSize outcomes s t x) :
    ¬ Kept (Warming.step batchSize outcomes calls s t) x := by
  have e := effect_step batchSize outcomes calls s t
  rw [kept_step]
  intro hkept
  obtain ⟨hcached, ⟨⟨missing, hpc⟩, -, hothers⟩ |
    ⟨⟨missing, rest, fetched, hpc, hfails⟩, -, hpending, hothers⟩⟩ := hdrops
  · rw [hpc] at e
    obtain ⟨hprovider, hmissing⟩ := e.of_clear
    rw [hprovider, hmissing] at hkept
    rcases hkept with hc | hp | hm | ⟨u, -, hu⟩
    · exact hcached hc
    · exact absurd hp List.not_mem_nil
    · exact hothers t (by rw [hpc]; exact hm)
    · exact hothers u hu
  · rw [hpc] at e
    obtain ⟨hprovider, hmissing⟩ := e.of_givesUp hfails
    rw [hprovider, hmissing] at hkept
    rcases hkept with hc | hp | hm | ⟨u, hut, hu⟩
    · exact hcached hc
    · exact hpending hp
    · exact absurd hm List.not_mem_nil
    · exact hothers u hut hu

/-- a text that leaves the queue for nowhere is dropped by a call that clears it -/
theorem clears_of_lost {s : Warming T} {t : T} {x : String} (hp : x ∈ s.provider.pending)
    (hlost : ¬ Kept (Warming.step batchSize outcomes calls s t) x) :
    Clears s t ∧ ∀ u, x ∉ (s.pc u).missing := by
  have e := effect_step batchSize outcomes calls s t
  rw [kept_step, not_or, not_or, not_or] at hlost
  obtain ⟨-, hpending, hmissing, hothers⟩ := hlost
  have hclears : Clears s t := by
    by_contra hno
    exact hpending (e.pending (fun missing hpc => hno ⟨missing, hpc⟩) hp)
  refine ⟨hclears, fun u hu => ?_⟩
  by_cases hut : u = t
  · subst hut
    obtain ⟨missing, hpc⟩ := hclears
    rw [hpc] at e hu
    rw [e.of_clear.2] at hmissing
    exact hmissing hu
  · exact hothers ⟨u, hut, hu⟩

/-- a text that is lost from a call is dropped by that call, which gives up -/
theorem givesUp_of_lost {s : Warming T} (h : Sound outcomes calls s) {t u : T} {x : String}
    (hu : x ∈ (s.pc u).missing)
    (hlost : ¬ Kept (Warming.step batchSize outcomes calls s t) x) :
    u = t ∧ GivesUp batchSize outcomes s t ∧ x ∉ s.provider.pending := by
  have e := effect_step batchSize outcomes calls s t
  rw [kept_step, not_or, not_or, not_or] at hlost
  obtain ⟨hcached, hpending, hmissing, hothers⟩ := hlost
  have hut : u = t := by
    by_contra hut
    exact hothers ⟨u, hut, hu⟩
  subst hut
  have hgives : GivesUp batchSize outcomes s u := by
    by_contra hno
    rcases e.missing (h.held u) (fun missing rest fetched hpc hfails =>
      hno ⟨missing, rest, fetched, hpc, hfails⟩) hu with hc | hm
    · exact hcached hc
    · exact hmissing hm
  refine ⟨rfl, hgives, ?_⟩
  obtain ⟨missing, rest, fetched, hpc, hfails⟩ := hgives
  rw [hpc] at e
  rw [(e.of_givesUp hfails).1] at hpending
  exact hpending

/-- **a step keeps a text that has been kept exactly when it does not drop it** -/
theorem kept_step_iff {s : Warming T} (h : Sound outcomes calls s) (t : T) {x : String}
    (hx : Kept s x) : Kept (Warming.step batchSize outcomes calls s t) x ↔
      ¬ Drops batchSize outcomes s t x := by
  constructor
  · intro hkept hdrops
    exact hdrops.not_kept hkept
  · intro hkeeps
    by_contra hlost
    have e := effect_step batchSize outcomes calls s t
    have hcached : ¬ s.provider.Cached x := fun hc => hlost (Or.inl (e.cached (h.held t) hc))
    refine hkeeps ⟨hcached, ?_⟩
    rcases hx with hc | hp | ⟨u, hu⟩
    · exact absurd hc hcached
    · obtain ⟨hclears, hnone⟩ := clears_of_lost hp hlost
      exact Or.inl ⟨hclears, hp, hnone⟩
    · obtain ⟨rfl, hgives, hpending⟩ := givesUp_of_lost h hu hlost
      refine Or.inr ⟨hgives, hu, hpending, fun v hvu hv => hlost ?_⟩
      exact (kept_step s u x).mpr (Or.inr (Or.inr (Or.inr ⟨v, hvu, hv⟩)))

/-- what is stored is in line with the answer -/
theorem store_aligned {s : Warming T} (h : Sound outcomes calls s) (t : T) :
    StoresAligned outcomes s (Warming.step batchSize outcomes calls s t) t := by
  intro missing chunk vectors rest fetched hpc
  have hwell := h.held t
  rw [hpc] at hwell
  cases hwell with
  | store hchunk hnodup hrest hanswered =>
    obtain ⟨data, hanswered⟩ := hanswered
    refine ⟨data, hanswered, fun hindex i hi => ?_⟩
    have hprovider : (Warming.step batchSize outcomes calls s t).provider =
        s.provider.store chunk vectors := by
      unfold Warming.step
      simp only [hpc]
      rfl
    rw [hprovider]
    exact s.provider.embedCached_store hchunk hanswered hindex hi

/-! ## runs -/

/-- every text that has been queued is kept -/
def KeepsQueued (calls : T → QueueCall) (s : Warming T) : Prop := ∀ x, Queued calls s x → Kept s x

theorem sound_start (cache : Finmap fun _ : String => List ℚ) :
    Sound outcomes calls (start cache : Warming T) :=
  ⟨fun _ hx => absurd hx List.not_mem_nil, fun _ => .start⟩

theorem keepsQueued_start (cache : Finmap fun _ : String => List ℚ) :
    KeepsQueued calls (start cache : Warming T) := by
  intro x hx
  obtain ⟨t, texts, -, hdone, -⟩ := hx
  cases hdone

/-- **a step keeps what has been queued exactly when it drops none of it** -/
theorem keepsQueued_step_iff {s : Warming T} (h : Sound outcomes calls s)
    (hk : KeepsQueued calls s) (t : T) :
    KeepsQueued calls (Warming.step batchSize outcomes calls s t) ↔
      ∀ x, Queued calls s x → ¬ Drops batchSize outcomes s t x := by
  constructor
  · intro hkeeps x hx
    exact (kept_step_iff h t (hk x hx)).mp (hkeeps x (queued_step hx t))
  · intro hno x hx
    rcases kept_of_queued hx with hx | hkept
    · exact (kept_step_iff h t (hk x hx)).mpr (hno x hx)
    · exact hkept

/-- **when the queue loses nothing**: for every size of the chunks, all calls and whatever the
server answers, in every state of a run each text that has been queued is cached, pending or missing
in a call that has not returned exactly when no step drops one; and what is fetched is always stored
as its positions say -/
theorem queue_keeps_iff (batchSize : Nat) (outcomes : T → List String → Nat → HttpOutcome)
    (calls : T → QueueCall) (cache : Finmap fun _ : String => List ℚ) (sched : List T) :
    ((∀ s, StateOf (Warming.step batchSize outcomes calls) (start cache) sched s →
        KeepsQueued calls s) ∧
      ∀ s t, StepOf (Warming.step batchSize outcomes calls) (start cache) sched s t →
        StoresAligned outcomes s (Warming.step batchSize outcomes calls s t) t) ↔
    ∀ s t, StepOf (Warming.step batchSize outcomes calls) (start cache) sched s t →
      ∀ x, Queued calls s x → ¬ Drops batchSize outcomes s t x := by
  have hsound : ∀ (s : Warming T) t, Sound outcomes calls s →
      Sound outcomes calls (Warming.step batchSize outcomes calls s t) :=
    fun _ t h => sound_step h t
  have hiff := @forall_state_iff _ _ (Warming.step batchSize outcomes calls)
    (Sound outcomes calls) (KeepsQueued calls) (fun _ _ => True)
    (fun s t => ∀ x, Queued calls s x → ¬ Drops batchSize outcomes s t x) hsound
    (fun _ t hs hk _ => keepsQueued_step_iff hs hk t) (start cache) (sound_start cache)
    (keepsQueued_start cache) sched fun _ _ _ => trivial
  rw [← hiff]
  refine and_iff_left fun s t hst => ?_
  exact store_aligned (stateOf_invariant hsound (sound_start cache) hst.state) t

end

section

inductive Loader where
  | queueing
  | loading
deriving DecidableEq

/-- one caller queues a text, the other one loads the queue -/
def loaderCalls : Loader → QueueCall
  | .queueing => .warm ["refactor auth"]
  | .loading => .warmAsync []

/-- the server refuses every request -/
def refused : Loader → List String → Nat → HttpOutcome :=
  fun _ _ _ => .response ⟨401, "401 Unauthorized"⟩ "" (.ok [])

/-- the text is queued, and then the request for it is refused -/
def queuedFirst : List Loader := [.queueing, .loading, .loading, .loading]

/-- the text is queued between the two sections that take the queue -/
def queuedBetween : List Loader := [.loading, .queueing, .loading]

theorem not_kept_refused {s : Warming Loader} (hcached : ¬ s.provider.Cached "refactor auth")
    (hpending : s.provider.pending = []) (hqueueing : (s.pc .queueing).missing = [])
    (hloading : (s.pc .loading).missing = []) : ¬ Kept s "refactor auth" := by
  intro hkept
  rcases hkept with hc | hp | ⟨t, ht⟩
  · exact hcached hc
  · rw [hpending] at hp
    exact absurd hp List.not_mem_nil
  · cases t with
    | queueing =>
      rw [hqueueing] at ht
      exact absurd ht List.not_mem_nil
    | loading =>
      rw [hloading] at ht
      exact absurd ht List.not_mem_nil

/-- either way the text is neither cached nor pending nor missing anywhere -/
theorem queue_drops :
    (∃ s, StateOf (step 64 refused loaderCalls) (start ∅) queuedFirst s ∧
      ¬ KeepsQueued loaderCalls s) ∧
    ∃ s, StateOf (step 64 refused loaderCalls) (start ∅) queuedBetween s ∧
      ¬ KeepsQueued loaderCalls s := by
  have hmem : "refactor auth" ∈ ["refactor auth"] := List.mem_singleton.mpr rfl
  constructor
  · refine ⟨_, stateOf_last _ _, fun hkeeps => ?_⟩
    exact not_kept_refused (by decide) (by decide) (by decide) (by decide)
      (hkeeps "refactor auth" ⟨.queueing, _, rfl, rfl, hmem⟩)
  · refine ⟨_, stateOf_last _ _, fun hkeeps => ?_⟩
    exact not_kept_refused (by decide) (by decide) (by decide) (by decide)
      (hkeeps "refactor auth" ⟨.queueing, _, rfl, rfl, hmem⟩)

end
end Warming
end Epica
