import Epica.Core.Runs
import Epica.Lib.Dot
import Std.Data.String.ToNat

/-!
# The DOT text of a quad

`toDot` writes a quad as a DOT graph: a statement for each node, with its key and value in the
label, for each causal edge and for each semantic edge between two beliefs.

* `closes_formatLabel`      a label stays inside its quotes, whatever the key and the value are;
* `nodeDotId_injective`     two beliefs have two identifiers;
* `toDot_parses`            the text is parsed as these statements and nothing else.
-/

set_option linter.unusedSectionVars false

namespace Epica
open Lib

namespace Viz

/-! ## what is written -/

/-- `str::replace`, of one character -/
def replace (s : String) (c : Char) (new : String) : String :=
  .ofList (s.toList.flatMap fun d => if d = c then new.toList else [d])

def escapeDot (s : String) : String := replace (replace s '\\' "\\\\") '"' "\\\""

def truncate (s : String) (max : Nat) : String :=
  if s.toList.length ≤ max then s else .ofList (s.toList.take max) ++ "…"

/-- `{:.2}` in hundredths; a tie goes to the even one -/
def hundredths (x : ℚ) : Nat :=
  let n := x.num.natAbs * 100 / x.den
  let r := x.num.natAbs * 100 % x.den
  if 2 * r < x.den then n else if x.den < 2 * r then n + 1 else n + n % 2

/-- `format!("{x:.2}")` -/
def twoDecimals (x : ℚ) : String :=
  let n := hundredths x
  (if x < 0 then "-" else "") ++ (n / 100).repr ++ "." ++ (n / 10 % 10).repr ++ (n % 10).repr

/-- `debug` is the `Debug` text of a value -/
def formatLabel (debug : BeliefValue → String) (key : String) (value : BeliefValue)
    (confidence : ℚ) : String :=
  let valueRepr := match value with
    | .asserted s => truncate s 24
    | other => truncate (debug other) 24
  escapeDot key ++ "\\n" ++ escapeDot valueRepr ++ "\\n conf=" ++ twoDecimals confidence

def confidenceColor (c : ℚ) : String :=
  if 7 / 10 ≤ c then "#52c41a" else if 3 / 10 ≤ c then "#faad14" else "#ff4d4f"

/-- the `Debug` text of an id, with what is not alphanumeric replaced -/
def nodeDotId (id : BeliefId) : String :=
  let raw := "BeliefId(" ++ id.idx.repr ++ "v" ++ id.version.repr ++ ")"
  "n_" ++ .ofList (raw.toList.map fun c => if c.isAlphanum then c else '_')

def causalEdgeStyle : CausalEdge → String × String
  | .causes _ _ => ("color=black, penwidth=2", "causes")
  | .inferredFrom _ => ("color=black", "inferred")
  | .counterfactual _ => ("color=gray, style=dotted", "counterfactual")

def semanticEdgeStyle : SemanticEdge → String × String
  | .contradicts => ("color=red, style=dashed, arrowhead=none", "contradicts")
  | .subsumes => ("color=gray, style=dashed", "subsumes")
  | .synonymous => ("color=gray, style=dashed, arrowhead=none", "synonymous")

def header : String :=
  "digraph BeliefQuad \x7b\n" ++
  "  rankdir = LR;\n" ++
  "  node [shape=box, style=filled, fontname=\"Helvetica\", fontsize=10];\n" ++
  "  edge [fontname=\"Helvetica\", fontsize=9];\n" ++
  "\n"

def nodeLine (debug : BeliefValue → String) (e : BeliefId × BeliefNode) : String :=
  let label := formatLabel debug e.2.key e.2.value e.2.fastConfidence
  "  " ++ nodeDotId e.1 ++ " [label=\"" ++ label ++ "\", fillcolor=\"" ++
    confidenceColor e.2.fastConfidence ++ "\"];\n"

def edgeLine (source target : BeliefId) (style label : String) : String :=
  "  " ++ nodeDotId source ++ " -> " ++ nodeDotId target ++ " [" ++ style ++ ", label=\"" ++
    label ++ "\"];\n"

def causalLine (e : BeliefId × BeliefId × CausalEdge) : String :=
  edgeLine e.1 e.2.1 (causalEdgeStyle e.2.2).1 (causalEdgeStyle e.2.2).2

def semanticLine (e : BeliefId × BeliefId × SemanticEdge) : String :=
  edgeLine e.1 e.2.1 (semanticEdgeStyle e.2.2).1 (semanticEdgeStyle e.2.2).2

section
variable {M : Type → Type} {G : Type → Type → Type} [SlotMap M] [StableDiGraph G]

/-- the semantic edges from a belief to another -/
def properSemanticEdges (q : BeliefQuad M G) : List (BeliefId × BeliefId × SemanticEdge) :=
  q.semantic.allEdges.filter fun e => e.1 ≠ e.2.1

def toDot (debug : BeliefValue → String) (q : BeliefQuad M G) : String :=
  header ++
  String.join ((SlotMap.iter q.nodes).map (nodeLine debug)) ++
  "\n" ++
  String.join (q.causal.allEdges.map causalLine) ++
  String.join ((properSemanticEdges q).map semanticLine) ++
  "\x7d\n"

end

/-! ## labels stay inside their quotes -/

theorem toList_replace (s : String) (c : Char) (new : String) :
    (replace s c new).toList = s.toList.flatMap fun d => if d = c then new.toList else [d] :=
  String.toList_ofList

/-- what the two replacements make of a character -/
def escapeChar (c : Char) : List Char :=
  if c = '\\' then ['\\', '\\'] else if c = '"' then ['\\', '"'] else [c]

/-- the second replacement leaves the backslashes of the first alone -/
theorem toList_escapeDot (s : String) : (escapeDot s).toList = s.toList.flatMap escapeChar := by
  unfold escapeDot
  rw [toList_replace, toList_replace, List.flatMap_assoc]
  refine List.flatMap_congr fun c _ => ?_
  unfold escapeChar
  by_cases hslash : c = '\\'
  · rw [if_pos hslash, if_pos hslash]
    rfl
  · rw [if_neg hslash, if_neg hslash, List.flatMap_singleton]
    rfl

theorem closes_escapeChar (c : Char) : Dot.Closes (escapeChar c) := by
  unfold escapeChar
  by_cases hslash : c = '\\'
  · rw [if_pos hslash]
    exact Dot.closes_escape _
  · rw [if_neg hslash]
    by_cases hquote : c = '"'
    · rw [if_pos hquote]
      exact Dot.closes_escape _
    · rw [if_neg hquote]
      exact Dot.closes_singleton hquote hslash

theorem closes_escapeDot (s : String) : Dot.Closes (escapeDot s).toList := by
  rw [toList_escapeDot]
  exact Dot.closes_flatMap fun c _ => closes_escapeChar c

theorem isDigit_of_mem_repr {n : Nat} {c : Char} (hc : c ∈ n.repr.toList) : c.isDigit := by
  rw [Nat.toList_repr] at hc
  exact Nat.isDigit_of_mem_toDigits (by decide) (by decide) hc

theorem closes_repr (n : Nat) : Dot.Closes n.repr.toList := by
  refine Dot.closes_of_plain (List.all_eq_true.mpr fun c hc => ?_)
  have hdigit := isDigit_of_mem_repr hc
  have hquote : c ≠ '"' := by
    intro h
    rw [h] at hdigit
    exact absurd hdigit (by decide)
  have hslash : c ≠ '\\' := by
    intro h
    rw [h] at hdigit
    exact absurd hdigit (by decide)
  rw [Dot.plainChar, Bool.and_eq_true, decide_eq_true_eq, decide_eq_true_eq]
  exact ⟨hquote, hslash⟩

theorem closes_twoDecimals (x : ℚ) : Dot.Closes (twoDecimals x).toList := by
  have hsign : Dot.Closes (if x < 0 then "-" else "").toList := by
    split
    · exact Dot.closes_of_plain (by decide)
    · exact .nil
  have hpoint : Dot.Closes ".".toList := Dot.closes_of_plain (by decide)
  simp only [twoDecimals, String.toList_append]
  exact (((hsign.append (closes_repr _)).append hpoint).append (closes_repr _)).append
    (closes_repr _)

/-- a label stays inside its quotes, whatever is truncated or escaped in it -/
theorem closes_formatLabel (debug : BeliefValue → String) (key : String) (value : BeliefValue)
    (confidence : ℚ) : Dot.Closes (formatLabel debug key value confidence).toList := by
  have hbreak : Dot.Closes "\\n".toList := Dot.closes_escape 'n'
  have hconf : Dot.Closes "\\n conf=".toList := by
    have htext : "\\n conf=".toList = ['\\', 'n'] ++ [' ', 'c', 'o', 'n', 'f', '='] := by
      decide +kernel
    rw [htext]
    exact (Dot.closes_escape 'n').append (Dot.closes_of_plain (by decide))
  have hall : ∀ valueRepr : String, Dot.Closes (escapeDot key ++ "\\n" ++ escapeDot valueRepr ++
      "\\n conf=" ++ twoDecimals confidence).toList := by
    intro valueRepr
    rw [String.toList_append, String.toList_append, String.toList_append, String.toList_append]
    have hkey := (closes_escapeDot key).append hbreak
    have hvalue := (hkey.append (closes_escapeDot valueRepr)).append hconf
    exact hvalue.append (closes_twoDecimals confidence)
  exact hall _

theorem closes_confidenceColor (c : ℚ) : Dot.Closes (confidenceColor c).toList := by
  unfold confidenceColor
  split
  · exact Dot.closes_of_plain (by decide)
  · split
    · exact Dot.closes_of_plain (by decide)
    · exact Dot.closes_of_plain (by decide)

/-! ## identifiers -/

/-- digits are kept, the brackets become underscores -/
theorem toList_nodeDotId (id : BeliefId) : (nodeDotId id).toList =
    "n_BeliefId_".toList ++ (id.idx.repr.toList ++ 'v' :: (id.version.repr.toList ++ ['_'])) := by
  have hkept : ∀ n : Nat, (n.repr.toList.map fun c => if c.isAlphanum then c else '_') =
      n.repr.toList := by
    intro n
    refine (List.map_congr_left fun c hc => ?_).trans (List.map_id _)
    have halnum : c.isAlphanum := by
      unfold Char.isAlphanum
      rw [isDigit_of_mem_repr hc, Bool.or_true]
    exact if_pos halnum
  have hname : ("BeliefId(".toList.map fun c => if c.isAlphanum then c else '_') =
      "BeliefId_".toList := by decide
  simp only [nodeDotId, String.toList_append, String.toList_ofList, List.map_append, hkept, hname,
    List.append_assoc]
  rfl

/-- where the digits end, the version begins -/
theorem nodeDotId_injective : Function.Injective nodeDotId := by
  intro a b h
  have hlist := congrArg String.toList h
  rw [toList_nodeDotId, toList_nodeDotId, List.append_cancel_left_eq] at hlist
  have hv : ('v' : Char).isDigit = false := by decide
  have hsplit : ∀ (n : Nat) (rest : List Char),
      (n.repr.toList ++ 'v' :: rest).takeWhile Char.isDigit = n.repr.toList := by
    intro n rest
    rw [List.takeWhile_append_of_pos fun c hc => isDigit_of_mem_repr hc,
      List.takeWhile_cons_of_neg (by rw [hv]; exact Bool.false_ne_true), List.append_nil]
  have hidx : a.idx.repr.toList = b.idx.repr.toList := by
    rw [← hsplit a.idx (a.version.repr.toList ++ ['_']), hlist, hsplit]
  rw [hidx, List.append_cancel_left_eq, List.cons.injEq] at hlist
  have hversion := List.append_cancel_right hlist.2
  have hidx' := Nat.repr_injective (String.toList_injective hidx)
  have hversion' := Nat.repr_injective (String.toList_injective hversion)
  cases a
  cases b
  exact congrArg₂ KeyData.mk hidx' hversion'

theorem isId_nodeDotId (id : BeliefId) : Dot.IsId (nodeDotId id).toList := by
  have hdigits : ∀ n : Nat, n.repr.toList.all Dot.idChar := by
    intro n
    refine List.all_eq_true.mpr fun c hc => ?_
    unfold Dot.idChar Char.isAlphanum
    rw [isDigit_of_mem_repr hc, Bool.or_true, Bool.true_or]
  have hname : "n_BeliefId_".toList.all Dot.idChar := by decide
  have hv : Dot.idChar 'v' ∧ Dot.idChar '_' := by decide
  rw [toList_nodeDotId]
  refine ⟨List.cons_ne_nil _ _, ?_, .inr (by exact Bool.false_ne_true)⟩
  simp only [List.all_append, List.all_cons, List.all_nil, hname, hdigits, hv.1, hv.2,
    Bool.and_true]

/-- the second character of an identifier is an underscore, which no keyword has -/
theorem not_reserved_nodeDotId (id : BeliefId) : ¬ Dot.reserved (nodeDotId id) := by
  intro h
  unfold Dot.reserved at h
  rw [toList_nodeDotId, decide_eq_true_eq] at h
  have hsecond : ∀ w ∈ ["node", "edge", "graph", "digraph", "subgraph", "strict"].map
      String.toList, w[1]? ≠ some '_' := by decide
  exact hsecond _ h rfl

/-! ## the graph that is read back -/

def attr (name value : String) : Dot.Attr := (.word name, .word value)

def quotedAttr (name body : String) : Dot.Attr := (.word name, .quoted body)

def headerStmts : List Dot.Stmt :=
  [.assign (.word "rankdir") (.word "LR"),
   .defaults "node" [attr "shape" "box", attr "style" "filled", quotedAttr "fontname" "Helvetica",
     attr "fontsize" "10"],
   .defaults "edge" [quotedAttr "fontname" "Helvetica", attr "fontsize" "9"]]

def nodeStmt (debug : BeliefValue → String) (e : BeliefId × BeliefNode) : Dot.Stmt :=
  .node (.word (nodeDotId e.1))
    [quotedAttr "label" (formatLabel debug e.2.key e.2.value e.2.fastConfidence),
     quotedAttr "fillcolor" (confidenceColor e.2.fastConfidence)]

def edgeStmt (source target : BeliefId) (attrs : List Dot.Attr) : Dot.Stmt :=
  .edge (.word (nodeDotId source)) (.word (nodeDotId target)) attrs

def causalAttrs : CausalEdge → List Dot.Attr
  | .causes _ _ => [attr "color" "black", attr "penwidth" "2", quotedAttr "label" "causes"]
  | .inferredFrom _ => [attr "color" "black", quotedAttr "label" "inferred"]
  | .counterfactual _ =>
    [attr "color" "gray", attr "style" "dotted", quotedAttr "label" "counterfactual"]

def semanticAttrs : SemanticEdge → List Dot.Attr
  | .contradicts =>
    [attr "color" "red", attr "style" "dashed", attr "arrowhead" "none",
     quotedAttr "label" "contradicts"]
  | .subsumes => [attr "color" "gray", attr "style" "dashed", quotedAttr "label" "subsumes"]
  | .synonymous =>
    [attr "color" "gray", attr "style" "dashed", attr "arrowhead" "none",
     quotedAttr "label" "synonymous"]

def causalStmt (e : BeliefId × BeliefId × CausalEdge) : Dot.Stmt :=
  edgeStmt e.1 e.2.1 (causalAttrs e.2.2)

def semanticStmt (e : BeliefId × BeliefId × SemanticEdge) : Dot.Stmt :=
  edgeStmt e.1 e.2.1 (semanticAttrs e.2.2)

/-! ## what each line lexes to -/

/-- between two tokens the text `s` is read as `ts`, and another token may follow -/
abbrev Reads (s : String) (ts : List Dot.Token) : Prop := Dot.Lexes (.plain []) s ts (.plain [])

theorem reads_header : Reads header (.word "digraph" :: .word "BeliefQuad" :: .lbrace ::
    headerStmts.flatMap fun st => st.tokens ++ [.semi]) := by
  have hgraph : Reads "digraph BeliefQuad \x7b\n"
      [.word "digraph", .word "BeliefQuad", .lbrace] := by decide +kernel
  have hrankdir : Reads "  rankdir = LR;\n" [.word "rankdir", .equals, .word "LR", .semi] := by
    decide +kernel
  have hnode : Reads "  node [shape=box, style=filled, fontname=\"Helvetica\", fontsize=10];\n"
      [.word "node", .lbracket, .word "shape", .equals, .word "box", .comma, .word "style",
       .equals, .word "filled", .comma, .word "fontname", .equals, .str "Helvetica", .comma,
       .word "fontsize", .equals, .word "10", .rbracket, .semi] := by decide +kernel
  have hedge : Reads "  edge [fontname=\"Helvetica\", fontsize=9];\n"
      [.word "edge", .lbracket, .word "fontname", .equals, .str "Helvetica", .comma,
       .word "fontsize", .equals, .word "9", .rbracket, .semi] := by decide +kernel
  have hblank : Reads "\n" [] := by decide +kernel
  exact (((hgraph.append hrankdir).append hnode).append hedge).append hblank

theorem reads_nodeLine (debug : BeliefValue → String) (e : BeliefId × BeliefNode) :
    Reads (nodeLine debug e) ((nodeStmt debug e).tokens ++ [.semi]) := by
  have hend : Reads "];\n" [.rbracket, .semi] := by decide +kernel
  have hcolor := (closes_confidenceColor e.2.fastConfidence).lexes_quote hend
  have hfill : Dot.Lexes (.plain []) ", fillcolor=\"" [.comma, .word "fillcolor", .equals]
      (.quoted []) := by decide +kernel
  have hlabel := (closes_formatLabel debug e.2.key e.2.value e.2.fastConfidence).lexes_quote
    (hfill.append hcolor)
  have hopen : Dot.Lexes (.plain []) "[label=\"" [.lbracket, .word "label", .equals]
      (.quoted []) := by decide +kernel
  have hid := (isId_nodeDotId e.1).lexes_blank (hopen.append hlabel)
  have hindent : Reads "  " [] := by decide +kernel
  have hall := hindent.append hid
  have htext : nodeLine debug e = "  " ++ (nodeDotId e.1 ++ (" " ++ ("[label=\"" ++
      (formatLabel debug e.2.key e.2.value e.2.fastConfidence ++ ("\"" ++ (", fillcolor=\"" ++
        (confidenceColor e.2.fastConfidence ++ ("\"" ++ "];\n")))))))) := by
    apply String.toList_injective
    simp [nodeLine]
  rw [htext]
  exact hall

theorem reads_edgeLine {source target : BeliefId} {style label : String} {attrs : List Dot.Attr}
    (h : Reads ("[" ++ style ++ ", label=\"" ++ label ++ "\"];\n")
      (.lbracket :: Dot.attrTokens attrs ++ [.semi])) :
    Reads (edgeLine source target style label)
      ((edgeStmt source target attrs).tokens ++ [.semi]) := by
  have htarget := (isId_nodeDotId target).lexes_blank h
  have harrow : Reads "-> " [.arrow] := by decide +kernel
  have hsource := (isId_nodeDotId source).lexes_blank (harrow.append htarget)
  have hindent : Reads "  " [] := by decide +kernel
  have hall := hindent.append hsource
  have htext : edgeLine source target style label = "  " ++ (nodeDotId source ++ (" " ++ ("-> " ++
      (nodeDotId target ++ (" " ++ ("[" ++ style ++ ", label=\"" ++ label ++ "\"];\n")))))) := by
    apply String.toList_injective
    simp [edgeLine]
  rw [htext]
  exact hall

theorem reads_causalLine (e : BeliefId × BeliefId × CausalEdge) :
    Reads (causalLine e) ((causalStmt e).tokens ++ [.semi]) := by
  refine reads_edgeLine ?_
  cases e.2.2 with
  | causes effectSize confidence =>
    simp only [causalEdgeStyle, causalAttrs]
    decide +kernel
  | inferredFrom premises =>
    simp only [causalEdgeStyle, causalAttrs]
    decide +kernel
  | counterfactual antecedent =>
    simp only [causalEdgeStyle, causalAttrs]
    decide +kernel

theorem reads_semanticLine (e : BeliefId × BeliefId × SemanticEdge) :
    Reads (semanticLine e) ((semanticStmt e).tokens ++ [.semi]) := by
  refine reads_edgeLine ?_
  cases e.2.2 with
  | contradicts => decide +kernel
  | subsumes => decide +kernel
  | synonymous => decide +kernel

theorem ok_nodeStmt (debug : BeliefValue → String) (e : BeliefId × BeliefNode) :
    (nodeStmt debug e).Ok := by
  refine ⟨not_reserved_nodeDotId e.1, List.cons_ne_nil _ _, ?_⟩
  intro a ha
  have hlabel : ¬ Dot.reserved "label" := by decide
  have hfill : ¬ Dot.reserved "fillcolor" := by decide
  rcases List.mem_cons.mp ha with e | ha
  · rw [e]
    exact ⟨hlabel, trivial⟩
  · rw [List.mem_singleton.mp ha]
    exact ⟨hfill, trivial⟩

theorem ok_edgeStmt {source target : BeliefId} {attrs : List Dot.Attr} (hne : attrs ≠ [])
    (h : ∀ a ∈ attrs, Dot.Attr.Ok a) : (edgeStmt source target attrs).Ok :=
  ⟨not_reserved_nodeDotId source, not_reserved_nodeDotId target, hne, h⟩

theorem ok_causalStmt (e : BeliefId × BeliefId × CausalEdge) : (causalStmt e).Ok := by
  have hattrs : causalAttrs e.2.2 ≠ [] ∧ ∀ a ∈ causalAttrs e.2.2, Dot.Attr.Ok a := by
    cases e.2.2 with
    | causes effectSize confidence =>
      simp only [causalAttrs]
      decide
    | inferredFrom premises =>
      simp only [causalAttrs]
      decide
    | counterfactual antecedent =>
      simp only [causalAttrs]
      decide
  exact ok_edgeStmt hattrs.1 hattrs.2

theorem ok_semanticStmt (e : BeliefId × BeliefId × SemanticEdge) : (semanticStmt e).Ok := by
  have hattrs : semanticAttrs e.2.2 ≠ [] ∧ ∀ a ∈ semanticAttrs e.2.2, Dot.Attr.Ok a := by
    cases e.2.2 <;> decide
  exact ok_edgeStmt hattrs.1 hattrs.2

section
variable {M : Type → Type} {G : Type → Type → Type} [SlotMap M] [StableDiGraph G]

/-- a statement for each belief, each causal edge and each semantic edge between two beliefs -/
def quadStmts (debug : BeliefValue → String) (q : BeliefQuad M G) : List Dot.Stmt :=
  headerStmts ++ (SlotMap.iter q.nodes).map (nodeStmt debug) ++ q.causal.allEdges.map causalStmt ++
    (properSemanticEdges q).map semanticStmt

theorem ok_quadStmts (debug : BeliefValue → String) (q : BeliefQuad M G) :
    ∀ st ∈ quadStmts debug q, st.Ok := by
  have hheader : ∀ st ∈ headerStmts, st.Ok := by decide
  intro st hst
  unfold quadStmts at hst
  rw [List.mem_append, List.mem_append, List.mem_append] at hst
  rcases hst with ((hst | hst) | hst) | hst
  · exact hheader st hst
  · obtain ⟨e, -, he⟩ := List.mem_map.mp hst
    exact he ▸ ok_nodeStmt debug e
  · obtain ⟨e, -, he⟩ := List.mem_map.mp hst
    exact he ▸ ok_causalStmt e
  · obtain ⟨e, -, he⟩ := List.mem_map.mp hst
    exact he ▸ ok_semanticStmt e

theorem reads_toDot (debug : BeliefValue → String) (q : BeliefQuad M G) :
    Reads (toDot debug q) (.word "digraph" :: .word "BeliefQuad" :: .lbrace ::
      Dot.bodyTokens (quadStmts debug q)) := by
  have hnodes := Dot.Lexes.join (reads_nodeLine debug) (SlotMap.iter q.nodes)
  have hcausal := Dot.Lexes.join reads_causalLine q.causal.allEdges
  have hsemantic := Dot.Lexes.join reads_semanticLine (properSemanticEdges q)
  have hblank : Reads "\n" [] := by decide +kernel
  have hend : Reads "\x7d\n" [.rbrace] := by decide +kernel
  have hall := ((((reads_header.append hnodes).append hblank).append hcausal).append
    hsemantic).append hend
  have htokens : Dot.bodyTokens (quadStmts debug q) =
      (headerStmts.flatMap fun st => st.tokens ++ [.semi]) ++
        ((SlotMap.iter q.nodes).flatMap fun e => (nodeStmt debug e).tokens ++ [.semi]) ++
        (q.causal.allEdges.flatMap fun e => (causalStmt e).tokens ++ [.semi]) ++
        ((properSemanticEdges q).flatMap fun e => (semanticStmt e).tokens ++ [.semi]) ++
        [.rbrace] := by
    unfold Dot.bodyTokens quadStmts
    simp only [List.flatMap_append, List.flatMap_map]
  rw [htokens]
  rw [List.append_nil] at hall
  exact hall

/-- **what a quad says cannot break its text**: a label closes at the quote that is written after
it, no two beliefs share an identifier, and the text is parsed as the header and a statement for
each belief, each causal edge and each semantic edge from a belief to another -/
theorem toDot_parses (debug : BeliefValue → String) (q : BeliefQuad M G) :
    (∀ key value confidence,
      Dot.Closes (formatLabel debug key value confidence).toList ∧
      Dot.Lexes (.quoted []) (formatLabel debug key value confidence ++ "\"")
        [.str (formatLabel debug key value confidence)] (.plain [])) ∧
    Function.Injective nodeDotId ∧
    ((SlotMap.iter q.nodes).map Prod.fst).Nodup ∧
    (∀ id n, (id, n) ∈ SlotMap.iter q.nodes ↔ q.get id = some n) ∧
    Dot.parse (toDot debug q) = some
      ⟨.word "BeliefQuad",
       headerStmts ++ (SlotMap.iter q.nodes).map (nodeStmt debug) ++
        q.causal.allEdges.map causalStmt ++
        (q.semantic.allEdges.filter fun e => e.1 ≠ e.2.1).map semanticStmt⟩ := by
  have hname : (Dot.Id.word "BeliefQuad").Ok := by decide
  have hparse := Dot.parse_eq_some (g := ⟨.word "BeliefQuad", quadStmts debug q⟩) hname
    (ok_quadStmts debug q) (reads_toDot debug q)
  refine ⟨fun key value confidence => ?_, nodeDotId_injective, SlotMap.nodup_iter q.nodes,
    SlotMap.mem_iter q.nodes, hparse⟩
  have hcloses := closes_formatLabel debug key value confidence
  have hends := hcloses.lexes_quote (.nil (.plain []))
  rw [String.append_empty] at hends
  exact ⟨hcloses, hends⟩

/-- a value that would end the label, its statement and the graph -/
example : formatLabel (fun _ => "") "intent" (.asserted "\"]; \x7d \\") (9 / 10) =
    "intent\\n\\\"]; \x7d \\\\\\n conf=0.90" := by decide +kernel

end

end Viz
end Epica
