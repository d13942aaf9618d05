import Epica.Core.Runs

/-!
# The derived conversions of a struct

`derive(BeliefState)` generates `to_belief_quad` and `from_belief_quad` for a struct.  A struct is
given by the types of its fields and the attributes of its belief fields (`BeliefStruct`); what the
types do under JSON serialization is a `Serde` each.

* `fieldOf_toBeliefQuad`   what is decoded for a field is what was encoded for it, whatever the
                           other fields and the causal edges;
* `decode_encode`          an encoded field comes back, unless the source is `"user"`, where the
                           text of the JSON is read as a string;
* `roundTrip_iff`          when a struct comes back.
-/

set_option linter.unusedSectionVars false

namespace Epica
open Lib

/-- what `serde_json` does with a type: `to_value`, `from_value`, `to_string`, and the default -/
structure Serde (T : Type) where
  toValue : T → Option Json
  fromValue : Json → Option T
  toText : T → Option String
  default : T

namespace Serde
variable {T : Type} (s : Serde T)

/-- `a` comes back from its JSON value -/
def RoundTrips (a : T) : Prop := ∃ v, s.toValue a = some v ∧ s.fromValue v = some a

/-- `a` comes back from a JSON string with its JSON text, or it is the default and the string is
not accepted -/
def TextRestores (a : T) : Prop :=
  s.fromValue (.string ((s.toText a).getD "")) = some a ∨
    s.fromValue (.string ((s.toText a).getD "")) = none ∧ a = s.default

end Serde

/-- the attributes of a belief field, as far as the conversions read them -/
structure BeliefFieldMeta where
  ident : String
  confidence : ℚ
  source : String
  ttlMs : Option Nat
  prospect : Bool
  reflectionThreshold : ℚ
  causalParent : Option String

/-- field names are distinct, and a causal parent is one of them; for names that are not raw
identifiers the compiler checks both -/
structure BeliefStruct where
  Field : String → Type
  serde : ∀ f, Serde (Field f)
  beliefFields : List BeliefFieldMeta
  distinct : (beliefFields.map BeliefFieldMeta.ident).Nodup
  parents : ∀ f ∈ beliefFields, ∀ parent ∈ f.causalParent,
    parent ∈ beliefFields.map BeliefFieldMeta.ident

/-! ## what is generated -/

def genBeliefValue (source : String) (json : Json) (text : String) : BeliefValue :=
  if source = "user" then .asserted text
  else if source = "deterministic" ∨ "env:".toList.isPrefixOf source.toList then
    .deterministic json
  else .inferred json

def genProvenance (source : String) (callId : Uuid) : Provenance :=
  if source = "user" then .userStatement 0
  else if source = "deterministic" ∨ "env:".toList.isPrefixOf source.toList then
    .toolResult source callId
  else .llmInference source callId 0

/-- the shape of the value alone decides how it is read -/
def decodeField {T : Type} (s : Serde T) : BeliefValue → Option T
  | .inferred v => s.fromValue v
  | .deterministic v => s.fromValue v
  | .asserted text => s.fromValue (.string text)
  | .reference _ => none

namespace BeliefStruct

/-- a value of the struct -/
abbrev Value (S : BeliefStruct) := ∀ f, S.Field f

section
variable {M : Type → Type} {G : Type → Type → Type} [SlotMap M] [StableDiGraph G]

def encodeField (S : BeliefStruct) (x : S.Value) (f : BeliefFieldMeta) : BeliefValue :=
  genBeliefValue f.source (((S.serde f.ident).toValue (x f.ident)).getD .null)
    (((S.serde f.ident).toText (x f.ident)).getD "")

/-- `stamp` is the clock reading and the uuid that each statement draws -/
def insertStmt (S : BeliefStruct) (stamp : String → Stamp) (x : S.Value) (q : BeliefQuad M G)
    (f : BeliefFieldMeta) : BeliefId × BeliefQuad M G :=
  let node := BeliefNode.new (stamp f.ident).nowMs f.ident (S.encodeField x f)
    (genProvenance f.source (stamp f.ident).uuid) f.confidence
  q.insert { node with
    reflectionThreshold := f.reflectionThreshold
    prospect := f.prospect
    ttlMs := f.ttlMs }

/-- the inserts, with the ids they bind -/
def insertStmts (S : BeliefStruct) (stamp : String → Stamp) (x : S.Value)
    (fields : List BeliefFieldMeta) : List (String × BeliefId) × BeliefQuad M G :=
  fields.foldl (fun s f =>
    let (id, q) := S.insertStmt stamp x s.2 f
    (s.1 ++ [(f.ident, id)], q)) ([], .new)

def causalEdgeStmt (ids : List (String × BeliefId)) (q : BeliefQuad M G) (f : BeliefFieldMeta) :
    BeliefQuad M G :=
  match f.causalParent with
  | none => q
  | some parent =>
    match ids.lookup parent, ids.lookup f.ident with
    | some parentId, some childId => q.addCausalEdge parentId childId (.inferredFrom [parentId])
    | _, _ => q

def toBeliefQuad (S : BeliefStruct) (stamp : String → Stamp) (x : S.Value) : BeliefQuad M G :=
  let (ids, q) := S.insertStmts stamp x S.beliefFields
  S.beliefFields.foldl (causalEdgeStmt ids) q

def fieldOf (S : BeliefStruct) (q : BeliefQuad M G) (f : String) : Option (S.Field f) :=
  ((SlotMap.iter q.nodes).find? fun e => e.2.key = f).bind fun e =>
    decodeField (S.serde f) e.2.value

/-- what cannot be read becomes the default, and so does what is not a belief -/
def fromBeliefQuad (S : BeliefStruct) (q : BeliefQuad M G) : Option S.Value :=
  some fun f =>
    if f ∈ S.beliefFields.map BeliefFieldMeta.ident then (S.fieldOf q f).getD (S.serde f).default
    else (S.serde f).default

/-! ## what the quad holds -/

variable (S : BeliefStruct) (stamp : String → Stamp) (x : S.Value)

/-- the nodes are those of `fields`, one at least for each -/
structure Holds (fields : List BeliefFieldMeta) (q : BeliefQuad M G) : Prop where
  only : ∀ id n, q.get id = some n → ∃ f ∈ fields, n.key = f.ident ∧ n.value = S.encodeField x f
  all : ∀ f ∈ fields, ∃ id n, q.get id = some n ∧ n.key = f.ident

variable {S x}

theorem Holds.insertStmt {fields : List BeliefFieldMeta} {q : BeliefQuad M G}
    (h : Holds S x fields q) (f : BeliefFieldMeta) :
    Holds S x (fields ++ [f]) (S.insertStmt stamp x q f).2 := by
  constructor
  · intro id n hn
    unfold BeliefStruct.insertStmt at hn
    rw [BeliefQuad.get_insert] at hn
    split at hn
    · obtain rfl := Option.some.inj hn
      exact ⟨f, List.mem_append_right _ List.mem_cons_self, rfl, rfl⟩
    · obtain ⟨g, hg, hkey, hval⟩ := h.only id n hn
      exact ⟨g, List.mem_append_left _ hg, hkey, hval⟩
  · intro g hg
    unfold BeliefStruct.insertStmt
    rcases List.mem_append.mp hg with hg | hg
    · obtain ⟨id, n, hn, hkey⟩ := h.all g hg
      have hold : id ≠ q.nextId := by
        intro e
        have hlive : q.Live q.nextId := BeliefQuad.live_iff.mpr ⟨n, e ▸ hn⟩
        exact BeliefQuad.not_live_nextId q hlive
      refine ⟨id, n, ?_, hkey⟩
      rw [BeliefQuad.get_insert, if_neg hold]
      exact hn
    · rw [List.mem_singleton.mp hg]
      exact ⟨q.nextId, _, by rw [BeliefQuad.get_insert, if_pos rfl], rfl⟩

theorem holds_insertStmts (fields : List BeliefFieldMeta) :
    Holds S x fields (S.insertStmts stamp x fields : _ × BeliefQuad M G).2 := by
  induction fields using List.reverseRecOn with
  | nil =>
    refine ⟨fun id n hn => ?_, fun f hf => absurd hf List.not_mem_nil⟩
    exact absurd (BeliefQuad.live_iff.mpr ⟨n, hn⟩) (BeliefQuad.not_live_new id)
  | append_singleton fields f ih =>
    unfold BeliefStruct.insertStmts at ih ⊢
    rw [List.foldl_append]
    exact ih.insertStmt stamp f

/-- the causal edges leave the nodes alone -/
theorem nodes_causalEdgeStmts (ids : List (String × BeliefId)) (fields : List BeliefFieldMeta)
    (q : BeliefQuad M G) : (fields.foldl (causalEdgeStmt ids) q).nodes = q.nodes := by
  induction fields generalizing q with
  | nil => rfl
  | cons f fields ih =>
    rw [List.foldl_cons, ih]
    unfold causalEdgeStmt
    split
    · rfl
    · split
      · rfl
      · rfl

theorem holds_toBeliefQuad :
    Holds S x S.beliefFields (S.toBeliefQuad stamp x : BeliefQuad M G) := by
  have h : Holds S x S.beliefFields (S.insertStmts stamp x S.beliefFields : _ × BeliefQuad M G).2 :=
    holds_insertStmts stamp S.beliefFields
  have hnodes : (S.toBeliefQuad stamp x : BeliefQuad M G).nodes =
      (S.insertStmts stamp x S.beliefFields : _ × BeliefQuad M G).2.nodes :=
    nodes_causalEdgeStmts _ _ _
  have hget : ∀ id, (S.toBeliefQuad stamp x : BeliefQuad M G).get id =
      (S.insertStmts stamp x S.beliefFields : _ × BeliefQuad M G).2.get id := fun id => by
    unfold BeliefQuad.get
    rw [hnodes]
  constructor
  · intro id n hn
    rw [hget] at hn
    exact h.only id n hn
  · intro f hf
    obtain ⟨id, n, hn, hkey⟩ := h.all f hf
    exact ⟨id, n, (hget id).trans hn, hkey⟩

/-- **what is decoded for a field is what was encoded for it** -/
theorem fieldOf_toBeliefQuad {f : BeliefFieldMeta} (hf : f ∈ S.beliefFields) :
    S.fieldOf (S.toBeliefQuad stamp x : BeliefQuad M G) f.ident =
      decodeField (S.serde f.ident) (S.encodeField x f) := by
  have h : Holds S x S.beliefFields (S.toBeliefQuad stamp x : BeliefQuad M G) :=
    holds_toBeliefQuad stamp
  obtain ⟨id, n, hn, hkey⟩ := h.all f hf
  have hmem := (SlotMap.mem_iter _ _ _).mpr hn
  unfold fieldOf
  cases hfind : (SlotMap.iter (S.toBeliefQuad stamp x : BeliefQuad M G).nodes).find?
      fun e => e.2.key = f.ident with
  | none =>
    have hno := List.find?_eq_none.mp hfind (id, n) hmem
    exact absurd (decide_eq_true hkey) hno
  | some e =>
    have hkey' : e.2.key = f.ident :=
      of_decide_eq_true (@List.find?_some (BeliefId × BeliefNode)
        (fun e => decide (e.2.key = f.ident)) _ _ hfind)
    have hget := (SlotMap.mem_iter _ _ _).mp (List.mem_of_find?_eq_some hfind)
    obtain ⟨g, hg, hgkey, hval⟩ := h.only e.1 e.2 hget
    obtain rfl : g = f :=
      List.inj_on_of_nodup_map S.distinct hg hf (hgkey.symm.trans hkey')
    rw [Option.bind_some, hval]

/-! ## when a field comes back -/

/-- **an encoded field comes back but for the source** `"user"`, which encodes the JSON text and
decodes it as a string -/
theorem decode_encode (x : S.Value) (f : BeliefFieldMeta)
    (h : (S.serde f.ident).RoundTrips (x f.ident)) :
    (decodeField (S.serde f.ident) (S.encodeField x f)).getD (S.serde f.ident).default =
        x f.ident ↔
      (f.source = "user" → (S.serde f.ident).TextRestores (x f.ident)) := by
  obtain ⟨v, hto, hfrom⟩ := h
  unfold encodeField genBeliefValue
  by_cases huser : f.source = "user"
  · rw [if_pos huser]
    simp only [huser, true_imp_iff]
    show ((S.serde f.ident).fromValue (.string (((S.serde f.ident).toText (x f.ident)).getD
      ""))).getD (S.serde f.ident).default = x f.ident ↔ _
    unfold Serde.TextRestores
    cases (S.serde f.ident).fromValue
        (.string (((S.serde f.ident).toText (x f.ident)).getD "")) with
    | none => simp [eq_comm]
    | some a => simp
  · rw [if_neg huser, hto]
    refine iff_of_true ?_ fun e => absurd e huser
    split
    · show ((S.serde f.ident).fromValue v).getD _ = _
      rw [hfrom]
      rfl
    · show ((S.serde f.ident).fromValue v).getD _ = _
      rw [hfrom]
      rfl

/-- **a struct comes back exactly when its `"user"` fields come back from their JSON texts**, for a
value whose belief fields come back from their JSON values -/
theorem roundTrip_iff (x : S.Value)
    (h : ∀ f ∈ S.beliefFields, (S.serde f.ident).RoundTrips (x f.ident)) :
    (∃ y, S.fromBeliefQuad (S.toBeliefQuad stamp x : BeliefQuad M G) = some y ∧
      ∀ f ∈ S.beliefFields, y f.ident = x f.ident) ↔
    ∀ f ∈ S.beliefFields, f.source = "user" → (S.serde f.ident).TextRestores (x f.ident) := by
  have hfield : ∀ f ∈ S.beliefFields,
      (if f.ident ∈ S.beliefFields.map BeliefFieldMeta.ident then
        (S.fieldOf (S.toBeliefQuad stamp x : BeliefQuad M G) f.ident).getD
          (S.serde f.ident).default
      else (S.serde f.ident).default) = x f.ident ↔
        (f.source = "user" → (S.serde f.ident).TextRestores (x f.ident)) := by
    intro f hf
    rw [if_pos (List.mem_map_of_mem hf), fieldOf_toBeliefQuad stamp hf]
    exact decode_encode x f (h f hf)
  constructor
  · intro hy f hf
    obtain ⟨y, hfrom, hback⟩ := hy
    obtain rfl := Option.some.inj hfrom
    exact (hfield f hf).mp (hback f hf)
  · intro hall
    exact ⟨_, rfl, fun f hf => (hfield f hf).mpr (hall f hf)⟩

end

/-! ## a struct of strings -/

/-- strings under `serde_json`; the text is quoted (no character here needs an escape) -/
def stringSerde : Serde String where
  toValue s := some (.string s)
  fromValue
    | .string s => some s
    | _ => none
  toText s := some ("\"" ++ s ++ "\"")
  default := ""

def intentField : BeliefFieldMeta := ⟨"intent", 1 / 2, "user", none, false, 15 / 100, none⟩

def suggestionField : BeliefFieldMeta :=
  ⟨"suggestion", 85 / 100, "llm:inference", none, false, 15 / 100, some "intent"⟩

/-- a belief of the user and one that is inferred from it -/
def twoFieldBeliefs : BeliefStruct where
  Field _ := String
  serde _ := stringSerde
  beliefFields := [intentField, suggestionField]
  distinct := by decide
  parents := by decide

def beliefs : twoFieldBeliefs.Value := fun f => if f = "intent" then "refactor auth" else "use jwt"

/-- the struct comes back, if and only if what the user said does -/
theorem roundTrip_iff_twoFieldBeliefs :
    (∃ y, twoFieldBeliefs.fromBeliefQuad
        (twoFieldBeliefs.toBeliefQuad (fun _ => ⟨0, 0⟩) beliefs : BeliefQuad SlotVec EdgeList) =
          some y ∧ ∀ f ∈ twoFieldBeliefs.beliefFields, y f.ident = beliefs f.ident) ↔
      ∀ f ∈ twoFieldBeliefs.beliefFields, f.source = "user" →
        (twoFieldBeliefs.serde f.ident).TextRestores (beliefs f.ident) :=
  roundTrip_iff (S := twoFieldBeliefs) (fun _ => ⟨0, 0⟩) beliefs
    fun f _ => ⟨.string (beliefs f.ident), rfl, rfl⟩

/-- what the user said comes back in quotes, though it comes back from its JSON value -/
theorem intent_quoted :
    (∀ f ∈ twoFieldBeliefs.beliefFields,
      (twoFieldBeliefs.serde f.ident).RoundTrips (beliefs f.ident)) ∧
    ¬ ∃ y, twoFieldBeliefs.fromBeliefQuad
      (twoFieldBeliefs.toBeliefQuad (fun _ => ⟨0, 0⟩) beliefs : BeliefQuad SlotVec EdgeList) =
        some y ∧ ∀ f ∈ twoFieldBeliefs.beliefFields, y f.ident = beliefs f.ident := by
  refine ⟨fun f _ => ⟨.string (beliefs f.ident), rfl, rfl⟩, ?_⟩
  intro h
  obtain ⟨y, hfrom, hback⟩ := h
  have hquoted : (twoFieldBeliefs.fromBeliefQuad (twoFieldBeliefs.toBeliefQuad (fun _ => ⟨0, 0⟩)
      beliefs : BeliefQuad SlotVec EdgeList)).map (fun y => (show String from y "intent")) =
      some "\"refactor auth\"" := by decide +kernel
  have hsame : (show String from y "intent") = "refactor auth" :=
    hback intentField List.mem_cons_self
  rw [hfrom, Option.map_some, hsame] at hquoted
  exact absurd (Option.some.inj hquoted) (by decide)

end BeliefStruct
end Epica
