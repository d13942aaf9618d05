import Epica.Lib.SlotMap
import Mathlib.Algebra.Order.Field.Rat
import Mathlib.Data.Rat.Defs

/-!
# Beliefs

A `BeliefNode` is one unit of knowledge; its `id` is the slot-map key it is stored under.

Numbers: an `f32` or `f64` is the rational it denotes (confidences are finite), so `+`, `*`,
`<` and `clamp` are exact; differences that are compared with a threshold are rounded as in the code
(`Lib.f32Sub`).  `u32`, `u64` and uuids are naturals.  What the platform computes and
no rational formula gives (`exp`, `sqrt`, the Unicode lowercase map) is a `Platform`.
-/

set_option linter.unusedSectionVars false

namespace Epica

abbrev BeliefId := Lib.KeyData
abbrev Uuid := Nat

class Platform where
  exp : ℚ → ℚ
  sqrt : ℚ → ℚ
  toLowercase : String → String

/-- a platform for texts in ASCII and quads without ttls and embeddings -/
@[reducible] def Platform.ascii : Platform where
  exp _ := 1
  sqrt x := x
  toLowercase s := .ofList (s.toList.map Char.toLower)

/-- `f32::clamp` -/
def clamp (x lo hi : ℚ) : ℚ := if x < lo then lo else if hi < x then hi else x

/-! ## values -/

/-- a `serde_json::Value`; a number is a `u64`, a negative `i64` or a finite `f64` -/
inductive Json where
  | null
  | bool (b : Bool)
  | posInt (n : Nat)
  | negInt (n : Int)
  | float (x : ℚ)
  | string (s : String)
  | array (items : List Json)
  | object (fields : List (String × Json))

mutual

def Json.decEq : (a b : Json) → Decidable (a = b)
  | .null, .null => .isTrue rfl
  | .bool a, .bool b => decidable_of_iff (a = b) (by rw [Json.bool.injEq])
  | .posInt a, .posInt b => decidable_of_iff (a = b) (by rw [Json.posInt.injEq])
  | .negInt a, .negInt b => decidable_of_iff (a = b) (by rw [Json.negInt.injEq])
  | .float a, .float b => decidable_of_iff (a = b) (by rw [Json.float.injEq])
  | .string a, .string b => decidable_of_iff (a = b) (by rw [Json.string.injEq])
  | .array a, .array b =>
    have := Json.decEqItems a b
    decidable_of_iff (a = b) (by rw [Json.array.injEq])
  | .object a, .object b =>
    have := Json.decEqFields a b
    decidable_of_iff (a = b) (by rw [Json.object.injEq])
  | .null, .bool _ | .null, .posInt _ | .null, .negInt _ | .null, .float _
  | .null, .string _ | .null, .array _ | .null, .object _
  | .bool _, .null | .bool _, .posInt _ | .bool _, .negInt _ | .bool _, .float _
  | .bool _, .string _ | .bool _, .array _ | .bool _, .object _
  | .posInt _, .null | .posInt _, .bool _ | .posInt _, .negInt _ | .posInt _, .float _
  | .posInt _, .string _ | .posInt _, .array _ | .posInt _, .object _
  | .negInt _, .null | .negInt _, .bool _ | .negInt _, .posInt _ | .negInt _, .float _
  | .negInt _, .string _ | .negInt _, .array _ | .negInt _, .object _
  | .float _, .null | .float _, .bool _ | .float _, .posInt _ | .float _, .negInt _
  | .float _, .string _ | .float _, .array _ | .float _, .object _
  | .string _, .null | .string _, .bool _ | .string _, .posInt _ | .string _, .negInt _
  | .string _, .float _ | .string _, .array _ | .string _, .object _
  | .array _, .null | .array _, .bool _ | .array _, .posInt _ | .array _, .negInt _
  | .array _, .float _ | .array _, .string _ | .array _, .object _
  | .object _, .null | .object _, .bool _ | .object _, .posInt _ | .object _, .negInt _
  | .object _, .float _ | .object _, .string _ | .object _, .array _ =>
    .isFalse (by intro h; cases h)

def Json.decEqItems : (a b : List Json) → Decidable (a = b)
  | [], [] => .isTrue rfl
  | [], _ :: _ => .isFalse (by intro h; cases h)
  | _ :: _, [] => .isFalse (by intro h; cases h)
  | x :: xs, y :: ys =>
    have := Json.decEq x y
    have := Json.decEqItems xs ys
    decidable_of_iff (x = y ∧ xs = ys) (by rw [List.cons.injEq])

def Json.decEqFields : (a b : List (String × Json)) → Decidable (a = b)
  | [], [] => .isTrue rfl
  | [], _ :: _ => .isFalse (by intro h; cases h)
  | _ :: _, [] => .isFalse (by intro h; cases h)
  | (k, x) :: xs, (l, y) :: ys =>
    have := Json.decEq x y
    have := Json.decEqFields xs ys
    decidable_of_iff ((k = l ∧ x = y) ∧ xs = ys) (by rw [List.cons.injEq, Prod.mk.injEq])

end

instance : DecidableEq Json := Json.decEq

def Json.isNull : Json → Bool
  | .null => true
  | _ => false

inductive BeliefValue where
  /-- a fact from a tool result -/
  | deterministic (v : Json)
  /-- an inference of a model -/
  | inferred (v : Json)
  /-- a user assertion -/
  | asserted (text : String)
  /-- a pointer to another belief -/
  | reference (id : BeliefId)
deriving DecidableEq

inductive Provenance where
  | toolResult (tool : String) (callId : Uuid)
  | llmInference (model : String) (callId : Uuid) (promptHash : Nat)
  | userStatement (turn : Nat)
  | runtimeInference (derivedFrom : List BeliefId)

/-! ## nodes -/

structure BeliefNode where
  id : BeliefId
  key : String
  value : BeliefValue
  provenance : Provenance
  createdAtMs : Nat
  ttlMs : Option Nat
  fastConfidence : ℚ
  slowConfidence : Option ℚ
  reflectionThreshold : ℚ
  prospect : Bool

/-- the `f32` nearest to `0.15` -/
def defaultReflectionThreshold : ℚ := 5033165 / 2 ^ 25

/-- a new node, not yet inserted; `nowMs` is the clock reading -/
def BeliefNode.new (nowMs : Nat) (key : String) (value : BeliefValue) (provenance : Provenance)
    (confidence : ℚ) : BeliefNode where
  id := Lib.KeyData.null
  key := key
  value := value
  provenance := provenance
  createdAtMs := nowMs
  ttlMs := none
  fastConfidence := clamp confidence 0 1
  slowConfidence := none
  reflectionThreshold := defaultReflectionThreshold
  prospect := false

end Epica
