import Epica.Anthropic.Client
import Epica.Openai.Client
import Epica.Lib.Run
import Epica.Core.Bounds
import Epica.Runtime.IndexFreshness

/-!
# Swapping the provider

The two clients ask with the same prompt.  A `Completion` is what a model answers, whichever
provider it is reached through: blocks of text and uses of tools, in order.  `openAiBody` and
`anthropicBody` are how the providers write it down.

* `reflect_persists`     what either client does, reply by reply;
* `swap_reflect_iff`     the clients agree on a reflection exactly when, in the reply to the last
                         attempt, no use of the tool is overlooked behind the use of another one;
* `swap_scenarios_iff`   they agree on scenarios exactly when none is overlooked, and then the
                         runtimes that insert with them run alike.
-/

set_option linter.unusedSectionVars false

namespace Epica.System2
open Lib

/-! ## what either client does -/

section
variable {B : Type}

/-- the attempts up to `n` are made, the pauses between them are `550` and `1100` milliseconds, and
what comes back is what the attempt `n` has ended in -/
structure Persists (request : Request) (replies : Nat → Reply B)
    (attempts : Nat → Except LlmClientError System2Result)
    (out : List (Effect Request) × Except LlmClientError System2Result) (n : Nat) : Prop where
  lt : n < 3
  before : ∀ m < n, (replies m).Transient
  last : (replies n).Transient → n = 2
  effects : out.1 = [.send request, .sleep 550, .send request, .sleep 1100, .send request].take
    (2 * n + 1)
  result : out.2 = attempts n
  inUnit : ∀ result, out.2 = .ok result → InUnit result.revisedConfidence

theorem effects_take (request : Request) {n : Nat} (hn : n < 3) :
    (List.range (n + 1)).flatMap (attemptEffects backoffMs request) =
      [.send request, .sleep 550, .send request, .sleep 1100, .send request].take (2 * n + 1) := by
  have hcases : n = 0 ∨ n = 1 ∨ n = 2 := by omega
  rcases hcases with rfl | rfl | rfl <;> rfl

theorem persists_reflectWith (request : Request) (replies : Nat → Reply B)
    {read : B → Except LlmClientError System2Result}
    (hread : ∀ body, isTransient isRetryable (read body) = false)
    (hunit : ∀ body result, read body = .ok result → InUnit result.revisedConfidence) :
    ∃ n, Persists request replies (fun attempt => readReflection read (replies attempt))
      (reflectWith request fun attempt => readReflection read (replies attempt)) n := by
  obtain ⟨n, hn, h⟩ := reflectWith_spec fun attempt => readReflection read (replies attempt)
  have htransient : ∀ m, isTransient isRetryable (readReflection read (replies m)) = true ↔
      (replies m).Transient := fun m => by
    rw [isTransient_reading hread]
    exact decide_eq_true_iff
  refine ⟨n, hn.lt, fun m hm => (htransient m).mp (hn.before m hm), fun ht => ?_, ?_, ?_, ?_⟩
  · have hthree : n + 1 = 3 := hn.last ((htransient n).mpr ht)
    omega
  · rw [h request]
    exact effects_take request hn.lt
  · rw [h request]
  · intro result hresult
    rw [h request] at hresult
    obtain ⟨body, hbody⟩ := readReflection_ok hresult
    exact hunit body result hbody

end

section
variable [FromJson ConfidenceArgs]

/-- what is read is not an error that is retried, and it is in the unit interval -/
theorem readTool_confidence (missing : String) (found : Option (Except String ConfidenceArgs)) :
    isTransient isRetryable (readTool .deserialize missing ConfidenceArgs.toResult found) = false ∧
      ∀ result, readTool LlmClientError.deserialize missing ConfidenceArgs.toResult found =
        .ok result → InUnit result.revisedConfidence := by
  rcases found with _ | message | parsed
  · exact ⟨rfl, fun result h => by cases h⟩
  · exact ⟨rfl, fun result h => by cases h⟩
  · refine ⟨rfl, fun result h => ?_⟩
    obtain rfl := Except.ok.inj h
    exact inUnit_clamp _

/-- **what either client does, reply by reply** -/
theorem reflect_persists (diagnostic : DiagnosticSignal) :
    (∀ (client : OpenAiLlmClient) (server : OpenAiLlmClient.Server), ∃ n,
      Persists (client.reflectRequest diagnostic) (server (client.reflectRequest diagnostic))
        (client.tryReflect server diagnostic) (client.reflect server diagnostic) n) ∧
    ∀ (client : AnthropicLlmClient) (server : AnthropicLlmClient.Server), ∃ n,
      Persists (client.reflectRequest diagnostic) (server (client.reflectRequest diagnostic))
        (client.tryReflect server diagnostic) (client.reflect server diagnostic) n := by
  constructor
  · intro client server
    exact persists_reflectWith _ _ (fun body => (readTool_confidence _ _).1)
      fun body => (readTool_confidence _ _).2
  · intro client server
    exact persists_reflectWith _ _ (fun msg => (readTool_confidence _ _).1)
      fun msg => (readTool_confidence _ _).2

end

/-! ## completions -/

/-- the input of a tool is an object -/
inductive Block where
  | text (s : String)
  | toolUse (name : String) (input : List (String × Json))

def Block.use : Block → Option (String × Json)
  | .text _ => none
  | .toolUse name input => some (name, .object input)

/-- the blocks of the first choice, and the other choices -/
structure Completion where
  blocks : List Block
  otherChoices : List Choice

namespace Completion

def uses (c : Completion) : List (String × Json) := c.blocks.filterMap Block.use

/-- the first use is of another tool, and behind it the first one of `tool` can be parsed -/
def Overlooked (A : Type) [FromJson A] (tool : String) (c : Completion) : Prop :=
  ∃ first ∈ c.uses.head?, first.1 ≠ tool ∧
    ∃ use ∈ c.uses.find? (fun use => decide (use.1 = tool)),
      (FromJson.fromValue use.2 : Except String A).toOption.isSome = true

end Completion

/-- `print` writes a value down -/
def openAiBody (print : Json → String) (c : Completion) : ChatCompletionResponse :=
  ⟨⟨⟨c.uses.map fun use => ⟨⟨use.1, print use.2⟩⟩⟩⟩ :: c.otherChoices⟩

def anthropicBlock : Block → ContentBlock
  | .text _ => ⟨"text", none, none⟩
  | .toolUse name input => ⟨"tool_use", some name, some (.object input)⟩

def anthropicBody (c : Completion) : MessagesResponse := ⟨c.blocks.map anthropicBlock⟩

theorem call_openAiBody (print : Json → String) (c : Completion) (tool : String) :
    (openAiBody print c).call tool =
      (c.uses.head?.filter fun use => decide (use.1 = tool)).map
        fun use => ⟨⟨use.1, print use.2⟩⟩ := by
  show ((c.uses.map fun use => (⟨⟨use.1, print use.2⟩⟩ : ToolCall)).head?).filter _ = _
  cases c.uses with
  | nil => rfl
  | cons use uses =>
    show (some (⟨⟨use.1, print use.2⟩⟩ : ToolCall)).filter _ = _
    by_cases h : use.1 = tool <;> simp [Option.filter, h]

theorem toolInput_anthropicBody (c : Completion) (tool : String) :
    (anthropicBody c).toolInput tool =
      (c.uses.find? fun use => decide (use.1 = tool)).map Prod.snd := by
  unfold MessagesResponse.toolInput anthropicBody Completion.uses
  induction c.blocks with
  | nil => rfl
  | cons block blocks ih =>
    cases block with
    | text s =>
      rw [List.map_cons, List.find?_cons_of_neg (by simp [anthropicBlock])]
      rw [List.filterMap_cons_none rfl]
      exact ih
    | toolUse name input =>
      have huse : Block.use (.toolUse name input) = some (name, .object input) := rfl
      rw [List.map_cons, List.filterMap_cons_some huse]
      by_cases h : name = tool
      · rw [List.find?_cons_of_pos (by simp [anthropicBlock, h]),
          List.find?_cons_of_pos (by simp [h])]
        rfl
      · rw [List.find?_cons_of_neg (by simp [anthropicBlock, h]),
          List.find?_cons_of_neg (by simp [h])]
        exact ih

/-! ## one reply -/

/-- up to the text of an error of the parser -/
def Alike {E A : Type} (deserialize : String → E) (r r' : Except E A) : Prop :=
  r = r' ∨ ∃ message message', r = .error (deserialize message) ∧
    r' = .error (deserialize message')

/-- a result of a parser -/
def Parsed {E A : Type} (deserialize : String → E) (r : Except E A) : Prop :=
  r.toOption = none → ∃ message, r = .error (deserialize message)

theorem alike_iff_of_parsed {E A : Type} {deserialize : String → E} {r r' : Except E A}
    (h : Parsed deserialize r) (h' : Parsed deserialize r') :
    Alike deserialize r r' ↔ r.toOption = r'.toOption := by
  constructor
  · intro ha
    rcases ha with rfl | ⟨message, message', rfl, rfl⟩
    · rfl
    · rfl
  · intro ho
    cases hr : r.toOption with
    | none =>
      obtain ⟨message, hm⟩ := h hr
      obtain ⟨message', hm'⟩ := h' (ho.symm.trans hr)
      exact Or.inr ⟨message, message', hm, hm'⟩
    | some a =>
      rw [hr] at ho
      left
      cases r with
      | error e => cases hr
      | ok b =>
        cases r' with
        | error e => cases ho
        | ok b' =>
          obtain rfl := Option.some.inj hr
          obtain rfl := Option.some.inj ho
          rfl

/-- the first, if it is one of those, against the first of those -/
theorem head_find_iff {A B : Type} (p : A → Bool) (f : A → Option B) (as : List A) :
    (as.head?.filter p).bind f = (as.find? p).bind f ↔
      ¬ ∃ first ∈ as.head?, p first = false ∧ ∃ a ∈ as.find? p, (f a).isSome = true := by
  cases as with
  | nil => simp
  | cons a as =>
    cases ha : p a with
    | true =>
      rw [List.find?_cons_of_pos ha]
      refine iff_of_true (by simp [Option.filter, ha]) ?_
      intro h
      obtain ⟨first, hfirst, hp, -⟩ := h
      obtain rfl := Option.some.inj hfirst
      rw [ha] at hp
      cases hp
    | false =>
      have hnone : ((a :: as).head?.filter p).bind f = none := by simp [Option.filter, ha]
      rw [hnone]
      constructor
      · intro h hover
        obtain ⟨first, hfirst, hp, b, hb, hsome⟩ := hover
        rw [Option.mem_def.mp hb] at h
        rw [show f b = none from h.symm] at hsome
        cases hsome
      · intro h
        cases hb : (a :: as).find? p with
        | none => rfl
        | some b =>
          cases hfb : f b with
          | none => exact hfb.symm
          | some v => exact absurd ⟨a, rfl, ha, b, hb, by rw [hfb]; rfl⟩ h

section
variable {print : Json → String}

/-- a value that is written down is parsed as the value is; the texts of the errors may differ -/
def Printed (A : Type) [FromJson A] (print : Json → String) : Prop :=
  ∀ v, (FromJson.fromStr (print v) : Except String A).toOption =
    (FromJson.fromValue v : Except String A).toOption

theorem toOption_readTool {E A R : Type} (deserialize : String → E) (missing : String)
    (finish : A → R) (found : Option (Except String A)) :
    (readTool deserialize missing finish found).toOption =
      found.bind fun parsed => parsed.toOption.map finish := by
  rcases found with _ | message | parsed <;> rfl

theorem parsed_readTool {E A R : Type} (deserialize : String → E) (missing : String)
    (finish : A → R) (found : Option (Except String A)) :
    Parsed deserialize (readTool deserialize missing finish found) := by
  intro h
  rcases found with _ | message | parsed
  · exact ⟨missing, rfl⟩
  · exact ⟨message, rfl⟩
  · cases h

/-- **the two clients read the same in a completion exactly when no use is overlooked** -/
theorem readTool_same_iff {E A R : Type} [FromJson A] (h : Printed A print)
    (deserialize : String → E) (missing missing' : String) (finish : A → R) (tool : String)
    (c : Completion) :
    (readTool deserialize missing finish (((openAiBody print c).call tool).map fun call =>
        FromJson.fromStr call.function.arguments)).toOption =
      (readTool deserialize missing' finish
        (((anthropicBody c).toolInput tool).map FromJson.fromValue)).toOption ↔
    ¬ c.Overlooked A tool := by
  rw [toOption_readTool, toOption_readTool, call_openAiBody, toolInput_anthropicBody]
  simp only [Option.map_map, Option.bind_map]
  have hcall : ∀ o : Option (String × Json),
      (o.bind fun use => (FromJson.fromStr (print use.2) : Except String A).toOption.map finish) =
        o.bind fun use => (FromJson.fromValue use.2 : Except String A).toOption.map finish := by
    intro o
    cases o with
    | none => rfl
    | some use => exact congrArg (Option.map finish) (h use.2)
  refine Iff.trans (Eq.congr (hcall _) rfl) ((head_find_iff _ _ _).trans ?_)
  unfold Completion.Overlooked
  simp only [decide_eq_false_iff_not, Option.isSome_map]

theorem readConfidence_alike_iff [FromJson ConfidenceArgs] (h : Printed ConfidenceArgs print)
    (c : Completion) :
    Alike .deserialize (readConfidenceCall (openAiBody print c))
      (readConfidenceInput (anthropicBody c)) ↔ ¬ c.Overlooked ConfidenceArgs "report_confidence" :=
  (alike_iff_of_parsed (parsed_readTool _ _ _ _) (parsed_readTool _ _ _ _)).trans
    (readTool_same_iff h _ _ _ _ _ c)

theorem readScenarios_same_iff [FromJson ScenariosArgs] (h : Printed ScenariosArgs print)
    (c : Completion) :
    (readScenariosCall (openAiBody print c)).toOption =
      (readScenariosInput (anthropicBody c)).toOption ↔
    ¬ c.Overlooked ScenariosArgs "generate_scenarios" := readTool_same_iff h _ _ _ _ _ c

end

/-! ## one attempt -/

def Reply.map {B B' : Type} (f : B → B') : Reply B → Reply B'
  | .notSent message => .notSent message
  | .response status text json => .response status text (json.map f)

theorem Reply.transient_map {B B' : Type} (f : B → B') (reply : Reply B) :
    (reply.map f).Transient ↔ reply.Transient := by
  cases reply <;> exact Iff.rfl

/-- the response is accepted, and a use is overlooked in its completion -/
def Reply.Overlooked (A : Type) [FromJson A] (tool : String) : Reply Completion → Prop
  | .notSent _ => False
  | .response status _ json => status.isSuccess = true ∧ ∃ c, json = .ok c ∧ c.Overlooked A tool

theorem not_client_of_success {status : StatusCode} (h : status.isSuccess = true) :
    status.code ≠ 429 ∧ status.isClientError = false := by
  unfold StatusCode.isSuccess at h
  unfold StatusCode.isClientError
  simp only [Bool.and_eq_true, decide_eq_true_eq] at h
  simp only [Bool.and_eq_false_iff, decide_eq_false_iff_not]
  omega

theorem Reply.Overlooked.not_transient {A : Type} [FromJson A] {tool : String}
    {reply : Reply Completion} (h : reply.Overlooked A tool) : ¬ reply.Transient := by
  cases reply with
  | notSent message => exact h.elim
  | response status text json =>
    intro ht
    obtain ⟨hlimit, -⟩ := not_client_of_success h.1
    rcases ht with ht | ⟨-, ht⟩
    · exact hlimit ht
    · rw [h.1] at ht
      cases ht

section
variable {A : Type} [FromJson A] {tool : String} {status : StatusCode} {text : String}

theorem not_overlooked_of_failed (h : status.isSuccess = false) (json : Except String Completion) :
    ¬ (Reply.response status text json).Overlooked A tool := by
  intro hover
  have hsuccess : status.isSuccess = true := hover.1
  rw [h] at hsuccess
  cases hsuccess

theorem not_overlooked_error (message : String) :
    ¬ (Reply.response status text (.error message)).Overlooked A tool := by
  intro hover
  obtain ⟨-, c, hc, -⟩ := hover
  cases hc

theorem overlooked_ok_iff (h : status.isSuccess = true) (c : Completion) :
    (Reply.response status text (.ok c)).Overlooked A tool ↔ c.Overlooked A tool := by
  constructor
  · intro hover
    obtain ⟨-, c', hc, hover⟩ := hover
    obtain rfl := Except.ok.inj hc
    exact hover
  · exact fun hover => ⟨h, c, rfl, hover⟩

end

theorem alike_refl {E A : Type} (deserialize : String → E) (r : Except E A) :
    Alike deserialize r r := Or.inl rfl

/-- two readers of a completion, and the two replies that carry it -/
theorem readReflection_alike_iff {B B' R A : Type} [FromJson A] {tool : String}
    (encode : Completion → B) (encode' : Completion → B') (read : B → Except LlmClientError R)
    (read' : B' → Except LlmClientError R)
    (h : ∀ c, Alike .deserialize (read (encode c)) (read' (encode' c)) ↔ ¬ c.Overlooked A tool)
    (reply : Reply Completion) :
    Alike .deserialize (readReflection read (reply.map encode))
      (readReflection read' (reply.map encode')) ↔ ¬ reply.Overlooked A tool := by
  cases reply with
  | notSent message => exact iff_of_true (alike_refl _ _) id
  | response status text json =>
    unfold Reply.map readReflection
    simp only
    cases hsuccess : status.isSuccess with
    | false =>
      refine iff_of_true ?_ (not_overlooked_of_failed hsuccess json)
      split
      · exact alike_refl _ _
      · split
        · exact alike_refl _ _
        · exact alike_refl _ _
    | true =>
      obtain ⟨hlimit, hclient⟩ := not_client_of_success hsuccess
      simp only [hlimit, hclient, if_false, Bool.not_true, Bool.false_eq_true]
      cases json with
      | error message => exact iff_of_true (alike_refl _ _) (not_overlooked_error message)
      | ok c => exact (h c).trans (not_congr (overlooked_ok_iff hsuccess c).symm)

theorem readScenarios_reply_iff {B B' R A : Type} [FromJson A] {tool : String}
    (encode : Completion → B) (encode' : Completion → B')
    (read : B → Except ProspectiveClientError R) (read' : B' → Except ProspectiveClientError R)
    (h : ∀ c, (read (encode c)).toOption = (read' (encode' c)).toOption ↔ ¬ c.Overlooked A tool)
    (reply : Reply Completion) :
    (readScenarios read (reply.map encode)).toOption =
      (readScenarios read' (reply.map encode')).toOption ↔ ¬ reply.Overlooked A tool := by
  cases reply with
  | notSent message => exact iff_of_true rfl id
  | response status text json =>
    unfold Reply.map readScenarios
    simp only
    cases hsuccess : status.isSuccess with
    | false =>
      refine iff_of_true ?_ (not_overlooked_of_failed hsuccess json)
      split <;> rfl
    | true =>
      obtain ⟨hlimit, -⟩ := not_client_of_success hsuccess
      simp only [hlimit, if_false, Bool.not_true, Bool.false_eq_true]
      cases json with
      | error message => exact iff_of_true rfl (not_overlooked_error message)
      | ok c => exact (h c).trans (not_congr (overlooked_ok_iff hsuccess c).symm)

/-! ## the two providers -/

/-- what a model answers to a prompt, attempt by attempt -/
abbrev World := String → Nat → Reply Completion

def openAiServer (print : Json → String) (world : World) : OpenAiLlmClient.Server :=
  fun request attempt => (world request.content attempt).map (openAiBody print)

def anthropicServer (world : World) : AnthropicLlmClient.Server :=
  fun request attempt => (world request.content attempt).map anthropicBody

section
variable [FromJson ConfidenceArgs] {print : Json → String}

/-- **the clients send the same prompts after the same pauses, and they agree exactly when no use of
the tool is overlooked in the reply to the last attempt** -/
theorem swap_reflect_iff (hprint : Printed ConfidenceArgs print) (world : World)
    (client : OpenAiLlmClient) (client' : AnthropicLlmClient) (diagnostic : DiagnosticSignal) :
    (client.reflect (openAiServer print world) diagnostic).1.map (Effect.map Request.content) =
        (client'.reflect (anthropicServer world) diagnostic).1.map (Effect.map Request.content) ∧
      (Alike .deserialize (client.reflect (openAiServer print world) diagnostic).2
          (client'.reflect (anthropicServer world) diagnostic).2 ↔
        ∀ n < 3, (∀ m < n, (world (buildSystem2Message diagnostic) m).Transient) →
          ¬ (world (buildSystem2Message diagnostic) n).Overlooked ConfidenceArgs
            "report_confidence") := by
  have htransient : ∀ n,
      isTransient isRetryable (client.tryReflect (openAiServer print world) diagnostic n) =
        decide (world (buildSystem2Message diagnostic) n).Transient := fun n => by
    refine (isTransient_reading (fun body => (readTool_confidence _ _).1) _).trans ?_
    exact decide_eq_decide.mpr (Reply.transient_map _ _)
  have htransient' : ∀ n,
      isTransient isRetryable (client'.tryReflect (anthropicServer world) diagnostic n) =
        decide (world (buildSystem2Message diagnostic) n).Transient := fun n => by
    refine (isTransient_reading (fun msg => (readTool_confidence _ _).1) _).trans ?_
    exact decide_eq_decide.mpr (Reply.transient_map _ _)
  obtain ⟨n, hn, h⟩ := reflectWith_spec (client.tryReflect (openAiServer print world) diagnostic)
  have hn' := hn.congr fun m => (htransient m).trans (htransient' m).symm
  have hout := h (client.reflectRequest diagnostic)
  have hout' := reflectWith_eq hn' (client'.reflectRequest diagnostic)
  have halike := readReflection_alike_iff (openAiBody print) anthropicBody readConfidenceCall
    readConfidenceInput (readConfidence_alike_iff hprint) (world (buildSystem2Message diagnostic) n)
  have hbefore : ∀ m < n, (world (buildSystem2Message diagnostic) m).Transient := fun m hm =>
    decide_eq_true_iff.mp ((htransient m).symm.trans (hn.before m hm))
  unfold OpenAiLlmClient.reflect AnthropicLlmClient.reflect
  rw [hout, hout']
  constructor
  · simp only [List.map_flatMap, map_attemptEffects]
    rfl
  · refine halike.trans ?_
    refine Iff.intro (fun hno m hm hpre hover => ?_) fun hno => hno n hn.lt hbefore
    -- an attempt that is overlooked is not made again, so it is the last one
    have hlast : LastAttempt isRetryable (client.tryReflect (openAiServer print world) diagnostic)
        maxRetries m := by
      refine ⟨hm, fun k hk => (htransient k).trans (decide_eq_true (hpre k hk)), fun ht => ?_⟩
      rw [htransient m] at ht
      exact absurd (decide_eq_true_iff.mp ht) hover.not_transient
    rw [hn.unique hlast] at hno
    exact hno hover

end

/-! an answer of one quarter, after a reply that is `429` -/

def quarterValue : Json :=
  .object [("revised_confidence", .float (1 / 4)), ("reasoning", .string "thin")]

def quarterText : String := "\x7b\"revised_confidence\":0.25,\"reasoning\":\"thin\"\x7d"

def printQuarter (v : Json) : String := if v = quarterValue then quarterText else "null"

/-- the values that are not the quarter are not parsed -/
@[reducible] def parseQuarter : FromJson ConfidenceArgs where
  fromStr s := if s = quarterText then .ok ⟨1 / 4, "thin"⟩ else .error "expected value"
  fromValue v := if v = quarterValue then .ok ⟨1 / 4, "thin"⟩ else .error "invalid type"

theorem printed_quarter : @Printed ConfidenceArgs parseQuarter printQuarter := by
  intro v
  show (if (if v = quarterValue then quarterText else "null") = quarterText then
    Except.ok (⟨1 / 4, "thin"⟩ : ConfidenceArgs) else .error "expected value").toOption =
    (if v = quarterValue then Except.ok (⟨1 / 4, "thin"⟩ : ConfidenceArgs)
      else .error "invalid type").toOption
  by_cases h : v = quarterValue
  · rw [if_pos h, if_pos h, if_pos rfl]
  · have hnull : ¬ "null" = quarterText := by decide +kernel
    rw [if_neg h, if_neg h, if_neg hnull]
    rfl

def afterLimit (blocks : List Block) : World := fun _ attempt =>
  if attempt = 0 then .response ⟨429, "429 Too Many Requests"⟩ "" (.error "")
  else .response ⟨200, "200 OK"⟩ "" (.ok ⟨blocks, []⟩)

def quarterUse : Block :=
  .toolUse "report_confidence"
    [("revised_confidence", .float (1 / 4)), ("reasoning", .string "thin")]

def doubted : DiagnosticSignal := ⟨"goal", 1 / 2, 9 / 10, 2 / 5⟩

/-- the clients agree on a use behind a text, and not on one behind the use of another tool -/
theorem swap_reflect_quarter :
    Alike LlmClientError.deserialize
        (@OpenAiLlmClient.reflect parseQuarter ⟨.new "key"⟩
          (openAiServer printQuarter (afterLimit [.text "so", quarterUse])) doubted).2
        (@AnthropicLlmClient.reflect parseQuarter ⟨.new "key"⟩
          (anthropicServer (afterLimit [.text "so", quarterUse])) doubted).2 ∧
      ¬ Alike LlmClientError.deserialize
        (@OpenAiLlmClient.reflect parseQuarter ⟨.new "key"⟩
          (openAiServer printQuarter (afterLimit [.toolUse "look_up" [], quarterUse])) doubted).2
        (@AnthropicLlmClient.reflect parseQuarter ⟨.new "key"⟩
          (anthropicServer (afterLimit [.toolUse "look_up" [], quarterUse])) doubted).2 := by
  have h := @swap_reflect_iff parseQuarter printQuarter printed_quarter
    (afterLimit [.text "so", quarterUse]) ⟨.new "key"⟩ ⟨.new "key"⟩ doubted
  have h' := @swap_reflect_iff parseQuarter printQuarter printed_quarter
    (afterLimit [.toolUse "look_up" [], quarterUse]) ⟨.new "key"⟩ ⟨.new "key"⟩ doubted
  refine ⟨h.2.mpr fun n _ _ hover => ?_, fun halike => h'.2.mp halike 1 (by decide) ?_ ?_⟩
  · unfold afterLimit at hover
    split at hover
    · exact absurd hover.1 (by decide)
    · obtain ⟨-, c, hc, first, hfirst, hne, -⟩ := hover
      obtain rfl := Except.ok.inj hc
      obtain rfl := Option.some.inj hfirst
      exact hne rfl
  · intro m hm
    obtain rfl : m = 0 := by omega
    exact Or.inl rfl
  · refine ⟨by decide, ⟨[.toolUse "look_up" [], quarterUse], []⟩, rfl, ("look_up", .object []), rfl,
      by decide, ("report_confidence", quarterValue), rfl, ?_⟩
    show (if quarterValue = quarterValue then Except.ok (⟨1 / 4, "thin"⟩ : ConfidenceArgs)
      else .error "invalid type").toOption.isSome = true
    rw [if_pos rfl]
    rfl

/-! ## the prospective index -/

section
variable [FromJson ScenariosArgs] {print : Json → String}

/-- the insertion of `node`, by a runtime with this client; `debug` shows a value -/
def OpenAiLlmClient.insertCall (client : OpenAiLlmClient) (server : OpenAiLlmClient.Server)
    (debug : BeliefValue → String) (node : BeliefNode) (embed : Nat → String → Option (List ℚ)) :
    InsertCall :=
  ⟨node, fun key => (client.generateScenarios server key (debug node.value)).toOption, embed⟩

def AnthropicLlmClient.insertCall (client : AnthropicLlmClient)
    (server : AnthropicLlmClient.Server) (debug : BeliefValue → String) (node : BeliefNode)
    (embed : Nat → String → Option (List ℚ)) : InsertCall :=
  ⟨node, fun key => (client.generateScenarios server key (debug node.value)).toOption, embed⟩

theorem generateScenarios_same_iff (hprint : Printed ScenariosArgs print) (world : World)
    (client : OpenAiLlmClient) (client' : AnthropicLlmClient) (key repr : String) :
    (client.generateScenarios (openAiServer print world) key repr).toOption =
        (client'.generateScenarios (anthropicServer world) key repr).toOption ↔
      ¬ (world (buildProspectiveMessage key repr) 0).Overlooked ScenariosArgs
        "generate_scenarios" :=
  readScenarios_reply_iff (openAiBody print) anthropicBody readScenariosCall readScenariosInput
    (readScenarios_same_iff hprint) (world (buildProspectiveMessage key repr) 0)

/-- **the clients generate the same scenarios exactly when no use of the tool is overlooked, and
where none is, the runtimes run alike, whatever the insertions and the updates are interrupted by**
-/
theorem swap_scenarios_iff (hprint : Printed ScenariosArgs print) (world : World)
    (client : OpenAiLlmClient) (client' : AnthropicLlmClient) (debug : BeliefValue → String) :
    (∀ key repr, (client.generateScenarios (openAiServer print world) key repr).toOption =
        (client'.generateScenarios (anthropicServer world) key repr).toOption ↔
      ¬ (world (buildProspectiveMessage key repr) 0).Overlooked ScenariosArgs
        "generate_scenarios") ∧
    ∀ {T U : Type} {M : Type → Type} {G : Type → Type → Type} [DecidableEq T] [DecidableEq U]
      [SlotMap M] [StableDiGraph G] [Platform] (nodes : T → BeliefNode)
      (embed : T → Nat → String → Option (List ℚ)) (updates : U → UpdateCall) (attached : Bool)
      (s : Indexing T U M G) (turns : List (IndexTurn T U)),
      (∀ t key, ¬ (world (buildProspectiveMessage key (debug (nodes t).value)) 0).Overlooked
        ScenariosArgs "generate_scenarios") →
      run (Indexing.step attached
          (fun t => client.insertCall (openAiServer print world) debug (nodes t) (embed t))
          updates) s turns =
        run (Indexing.step attached
          (fun t => client'.insertCall (anthropicServer world) debug (nodes t) (embed t))
          updates) s turns := by
  refine ⟨generateScenarios_same_iff hprint world client client', ?_⟩
  intro T U M G _ _ _ _ _ nodes embed updates attached s turns hclean
  have hcalls : ∀ t, client.insertCall (openAiServer print world) debug (nodes t) (embed t) =
      client'.insertCall (anthropicServer world) debug (nodes t) (embed t) := by
    intro t
    unfold OpenAiLlmClient.insertCall AnthropicLlmClient.insertCall
    rw [InsertCall.mk.injEq]
    refine ⟨rfl, ?_, rfl⟩
    funext key
    exact (generateScenarios_same_iff hprint world client client' key _).mpr (hclean t key)
  rw [funext hcalls]

end

/-! one scenario -/

def scenarioValue : Json :=
  .object [("scenarios", .array [.object [("query", .string "when do we ship?")]])]

def scenarioText : String :=
  "\x7b\"scenarios\":[\x7b\"query\":\"when do we ship?\"\x7d]\x7d"

def printScenario (v : Json) : String := if v = scenarioValue then scenarioText else "null"

@[reducible] def parseScenario : FromJson ScenariosArgs where
  fromStr s := if s = scenarioText then .ok ⟨[⟨"when do we ship?"⟩]⟩ else .error "expected value"
  fromValue v := if v = scenarioValue then .ok ⟨[⟨"when do we ship?"⟩]⟩ else .error "invalid type"

theorem printed_scenario : @Printed ScenariosArgs parseScenario printScenario := by
  intro v
  show (if (if v = scenarioValue then scenarioText else "null") = scenarioText then
    Except.ok (⟨[⟨"when do we ship?"⟩]⟩ : ScenariosArgs) else .error "expected value").toOption =
    (if v = scenarioValue then Except.ok (⟨[⟨"when do we ship?"⟩]⟩ : ScenariosArgs)
      else .error "invalid type").toOption
  by_cases h : v = scenarioValue
  · rw [if_pos h, if_pos h, if_pos rfl]
  · have hnull : ¬ "null" = scenarioText := by decide +kernel
    rw [if_neg h, if_neg h, if_neg hnull]
    rfl

def answeredWith (blocks : List Block) : World := fun _ _ =>
  .response ⟨200, "200 OK"⟩ "" (.ok ⟨blocks, []⟩)

def scenarioUse : Block :=
  .toolUse "generate_scenarios"
    [("scenarios", .array [.object [("query", .string "when do we ship?")]])]

section
attribute [local instance] Platform.ascii

/-- the scenario is overlooked behind the use of another tool; where it is not, the plan and its
revision run alike with both clients -/
theorem swap_scenarios_planned :
    (@OpenAiLlmClient.generateScenarios parseScenario ⟨.new "key"⟩
        (openAiServer printScenario (answeredWith [.toolUse "look_up" [], scenarioUse]))
        "plan" "").toOption ≠
      (@AnthropicLlmClient.generateScenarios parseScenario ⟨.new "key"⟩
        (anthropicServer (answeredWith [.toolUse "look_up" [], scenarioUse])) "plan" "").toOption ∧
    run (Indexing.step true
        (fun _ => @OpenAiLlmClient.insertCall parseScenario ⟨.new "key"⟩
          (openAiServer printScenario (answeredWith [.text "so", scenarioUse])) (fun _ => "")
          Indexing.plannedAhead.node fun _ _ => none)
        fun _ => Indexing.givenUp) Indexing.aheadStart
        (Indexing.writesAfter [.update (), .update ()]) =
      run (Indexing.step true
        (fun _ => @AnthropicLlmClient.insertCall parseScenario ⟨.new "key"⟩
          (anthropicServer (answeredWith [.text "so", scenarioUse])) (fun _ => "")
          Indexing.plannedAhead.node fun _ _ => none)
        fun _ => Indexing.givenUp) Indexing.aheadStart
        (Indexing.writesAfter [.update (), .update ()]) := by
  have h := @swap_scenarios_iff parseScenario printScenario printed_scenario
    (answeredWith [.toolUse "look_up" [], scenarioUse]) ⟨.new "key"⟩ ⟨.new "key"⟩ fun _ => ""
  have h' := @swap_scenarios_iff parseScenario printScenario printed_scenario
    (answeredWith [.text "so", scenarioUse]) ⟨.new "key"⟩ ⟨.new "key"⟩ fun _ => ""
  refine ⟨fun hsame => (h.1 "plan" "").mp hsame ?_,
    h'.2 (fun _ => Indexing.plannedAhead.node) (fun _ _ _ => none) _ _ _ _ fun t key hover => ?_⟩
  · refine ⟨by decide, ⟨[.toolUse "look_up" [], scenarioUse], []⟩, rfl, ("look_up", .object []),
      rfl, by decide, ("generate_scenarios", scenarioValue), rfl, ?_⟩
    show (if scenarioValue = scenarioValue then
      Except.ok (⟨[⟨"when do we ship?"⟩]⟩ : ScenariosArgs)
        else .error "invalid type").toOption.isSome = true
    rw [if_pos rfl]
    rfl
  · obtain ⟨-, c, hc, first, hfirst, hne, -⟩ := hover
    obtain rfl := Except.ok.inj hc
    obtain rfl := Option.some.inj hfirst
    exact hne rfl

end

end Epica.System2
