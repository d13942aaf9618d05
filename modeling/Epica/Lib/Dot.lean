import Mathlib.Data.List.Basic

/-!
# A fragment of DOT

The lexer is a machine that reads one character at a time (`lexStep`).  Inside a quoted string a
backslash takes the next character with it, and any other quote closes the string.  A graph is a
name and statements, each ended by a semicolon.

* `lexFrom_append`        a text is lexed piece by piece;
* `Closes`                the text ends up inside the string it began in, all of it its body;
* `Closes.append`, `closes_escape`   how such texts are built;
* `parse_eq_some`         a text that lexes to the tokens of a graph is parsed as that graph.
-/

set_option linter.unusedSectionVars false

namespace Lib.Dot

/-! ## the lexer -/

inductive Token where
  | word (w : String)
  | str (body : String)
  | lbrace
  | rbrace
  | lbracket
  | rbracket
  | equals
  | comma
  | semi
  | arrow
deriving DecidableEq, Repr

/-- where the lexer stands; the body of a string keeps its backslashes -/
inductive Mode where
  | plain (w : List Char)
  | quoted (body : List Char)
  | backslash (body : List Char)
  | dash
  | bad
deriving DecidableEq, Repr

def idChar (c : Char) : Bool := c.isAlphanum || c = '_'

/-- a numeral, or a name, which does not begin with a digit -/
def IsId (w : List Char) : Prop :=
  w ≠ [] ∧ w.all idChar ∧ (w.all Char.isDigit ∨ ¬ w.head?.any Char.isDigit)

instance (w : List Char) : Decidable (IsId w) := inferInstanceAs (Decidable (_ ∧ _ ∧ _))

/-- the token of the word that ends here, if there is one -/
def endWord (w : List Char) : Option (List Token) :=
  if w = [] then some [] else if IsId w then some [.word (.ofList w)] else none

def delimiter (c : Char) : Option (List Token × Mode) :=
  if c.isWhitespace then some ([], .plain [])
  else if c = '"' then some ([], .quoted [])
  else if c = '-' then some ([], .dash)
  else if c = '{' then some ([.lbrace], .plain [])
  else if c = '}' then some ([.rbrace], .plain [])
  else if c = '[' then some ([.lbracket], .plain [])
  else if c = ']' then some ([.rbracket], .plain [])
  else if c = '=' then some ([.equals], .plain [])
  else if c = ',' then some ([.comma], .plain [])
  else if c = ';' then some ([.semi], .plain [])
  else none

def lexStep : Mode → Char → List Token × Mode
  | .quoted body, c =>
    if c = '"' then ([.str (.ofList body)], .plain [])
    else if c = '\\' then ([], .backslash body)
    else ([], .quoted (body ++ [c]))
  | .backslash body, c => ([], .quoted (body ++ ['\\', c]))
  | .dash, c => if c = '>' then ([.arrow], .plain []) else ([], .bad)
  | .bad, _ => ([], .bad)
  | .plain w, c =>
    if idChar c then ([], .plain (w ++ [c]))
    else match endWord w, delimiter c with
      | some ended, some (ts, m) => (ended ++ ts, m)
      | _, _ => ([], .bad)

def lexFrom : Mode → List Char → List Token × Mode
  | m, [] => ([], m)
  | m, c :: cs =>
    let (ts, m') := lexStep m c
    let (us, last) := lexFrom m' cs
    (ts ++ us, last)

def lex (s : String) : Option (List Token) :=
  match lexFrom (.plain []) s.toList with
  | (ts, .plain w) => (endWord w).map (ts ++ ·)
  | _ => none

theorem lexFrom_append (m : Mode) (s t : List Char) :
    lexFrom m (s ++ t) =
      ((lexFrom m s).1 ++ (lexFrom (lexFrom m s).2 t).1, (lexFrom (lexFrom m s).2 t).2) := by
  induction s generalizing m with
  | nil => rfl
  | cons c s ih =>
    rw [List.cons_append]
    simp only [lexFrom, ih, List.append_assoc]

/-- the text takes the lexer from `m` to `m'` and gives the tokens `ts` -/
def Lexes (m : Mode) (s : String) (ts : List Token) (m' : Mode) : Prop :=
  lexFrom m s.toList = (ts, m')

instance (m : Mode) (s : String) (ts : List Token) (m' : Mode) : Decidable (Lexes m s ts m') :=
  inferInstanceAs (Decidable (lexFrom m s.toList = (ts, m')))

theorem Lexes.append {m m' m'' : Mode} {s t : String} {ts us : List Token} (hs : Lexes m s ts m')
    (ht : Lexes m' t us m'') : Lexes m (s ++ t) (ts ++ us) m'' := by
  unfold Lexes at *
  rw [String.toList_append, lexFrom_append, hs]
  show (ts ++ (lexFrom m' t.toList).1, (lexFrom m' t.toList).2) = _
  rw [ht]

theorem Lexes.nil (m : Mode) : Lexes m "" [] m := rfl

/-- texts that begin and end between tokens -/
theorem Lexes.join {α : Type} {line : α → String} {tokens : α → List Token}
    (h : ∀ a, Lexes (.plain []) (line a) (tokens a) (.plain [])) (as : List α) :
    Lexes (.plain []) (String.join (as.map line)) (as.flatMap tokens) (.plain []) := by
  induction as with
  | nil => exact .nil _
  | cons a as ih =>
    rw [List.map_cons, String.join_cons, List.flatMap_cons]
    exact (h a).append ih

/-! ### words -/

theorem lexFrom_idChars (w s : List Char) (h : s.all idChar) :
    lexFrom (.plain w) s = ([], .plain (w ++ s)) := by
  induction s generalizing w with
  | nil => rw [List.append_nil, lexFrom]
  | cons c s ih =>
    rw [List.all_cons, Bool.and_eq_true] at h
    have hc : lexStep (.plain w) c = ([], .plain (w ++ [c])) := if_pos h.1
    simp only [lexFrom, hc, ih _ h.2, List.append_assoc, List.nil_append, List.singleton_append]

/-- a blank ends the word -/
theorem IsId.lexes_blank {w s : String} {ts : List Token} {m : Mode} (h : IsId w.toList)
    (hs : Lexes (.plain []) s ts m) : Lexes (.plain []) (w ++ (" " ++ s)) (.word w :: ts) m := by
  have hended : endWord w.toList = some [.word w] := by
    unfold endWord
    rw [if_neg h.1, if_pos h, String.ofList_toList]
  have hblank : idChar ' ' = false ∧ delimiter ' ' = some ([], .plain []) := by decide
  have hstep : lexStep (.plain w.toList) ' ' = ([.word w], .plain []) := by
    simp only [lexStep, hended, hblank.1, hblank.2, Bool.false_eq_true, if_false, List.append_nil]
  have hword : Lexes (.plain []) w [] (.plain w.toList) := lexFrom_idChars [] w.toList h.2.1
  have hends : Lexes (.plain w.toList) " " [.word w] (.plain []) := by
    show lexFrom (.plain w.toList) [' '] = _
    simp only [lexFrom, hstep, List.append_nil]
  have hall := hword.append (hends.append hs)
  exact hall

/-! ### quoted strings -/

/-- inside a string the text is all body, and does not close it -/
def Closes (s : List Char) : Prop :=
  ∀ body, lexFrom (.quoted body) s = ([], .quoted (body ++ s))

theorem Closes.nil : Closes [] := fun body => by rw [List.append_nil, lexFrom]

theorem Closes.append {s t : List Char} (hs : Closes s) (ht : Closes t) : Closes (s ++ t) := by
  intro body
  rw [lexFrom_append, hs body]
  show ([] ++ (lexFrom (.quoted (body ++ s)) t).1, (lexFrom (.quoted (body ++ s)) t).2) = _
  rw [ht (body ++ s), List.append_nil, List.append_assoc]

theorem closes_singleton {c : Char} (hquote : c ≠ '"') (hslash : c ≠ '\\') : Closes [c] := by
  intro body
  simp only [lexFrom, lexStep, if_neg hquote, if_neg hslash, List.append_nil]

/-- a backslash takes any character with it -/
theorem closes_escape (c : Char) : Closes ['\\', c] := by
  intro body
  have hquote : ('\\' : Char) ≠ '"' := by decide
  simp only [lexFrom, lexStep, if_neg hquote, if_true, List.append_nil]

theorem closes_flatMap {f : Char → List Char} {s : List Char} (h : ∀ c ∈ s, Closes (f c)) :
    Closes (s.flatMap f) := by
  induction s with
  | nil => exact .nil
  | cons c s ih =>
    rw [List.flatMap_cons]
    exact (h c List.mem_cons_self).append (ih fun d hd => h d (List.mem_cons_of_mem _ hd))

/-- neither a quote nor a backslash -/
def plainChar (c : Char) : Bool := c ≠ '"' && c ≠ '\\'

theorem closes_of_plain {s : List Char} (h : s.all plainChar) : Closes s := by
  have hall : Closes (s.flatMap fun c => [c]) := by
    refine closes_flatMap fun c hc => ?_
    have hplain : plainChar c := List.all_eq_true.mp h c hc
    rw [plainChar, Bool.and_eq_true, decide_eq_true_eq, decide_eq_true_eq] at hplain
    exact closes_singleton hplain.1 hplain.2
  rwa [List.flatMap_singleton'] at hall

/-- the quote after a body closes it, and the body is the token -/
theorem Closes.lexes_quote {body s : String} {ts : List Token} {m : Mode} (h : Closes body.toList)
    (hs : Lexes (.plain []) s ts m) :
    Lexes (.quoted []) (body ++ ("\"" ++ s)) (.str body :: ts) m := by
  have hbody : Lexes (.quoted []) body [] (.quoted body.toList) := h []
  have hends : Lexes (.quoted body.toList) "\"" [.str body] (.plain []) := by
    show lexFrom (.quoted body.toList) ['"'] = _
    simp only [lexFrom, lexStep, if_true, String.ofList_toList, List.append_nil]
  have hall := hbody.append (hends.append hs)
  exact hall

/-! ## the parser -/

inductive Id where
  | word (w : String)
  | quoted (body : String)
deriving DecidableEq, Repr

abbrev Attr := Id × Id

inductive Stmt where
  | assign (name value : Id)
  /-- `node`, `edge` or `graph` -/
  | defaults (kind : String) (attrs : List Attr)
  | node (id : Id) (attrs : List Attr)
  | edge (source target : Id) (attrs : List Attr)
deriving DecidableEq, Repr

structure Graph where
  name : Id
  stmts : List Stmt
deriving DecidableEq, Repr

/-- keywords in any case -/
def reserved (w : String) : Bool :=
  w.toList.map Char.toLower ∈ ["node", "edge", "graph", "digraph", "subgraph", "strict"].map
    String.toList

def kinds : List String := ["node", "edge", "graph"]

def parseId : Token → Option Id
  | .word w => if reserved w then none else some (.word w)
  | .str body => some (.quoted body)
  | _ => none

/-- what is between the brackets, with the closing one -/
def parseAttrs : List Token → Option (List Attr)
  | [k, .equals, v, .rbracket] => do some [(← parseId k, ← parseId v)]
  | k :: .equals :: v :: .comma :: ts => do
    some ((← parseId k, ← parseId v) :: (← parseAttrs ts))
  | _ => none

def parseStmt : List Token → Option Stmt
  | [k, .equals, v] => do some (.assign (← parseId k) (← parseId v))
  | .word w :: .lbracket :: ts =>
    if w ∈ kinds then do some (.defaults w (← parseAttrs ts))
    else do some (.node (← parseId (.word w)) (← parseAttrs ts))
  | .str body :: .lbracket :: ts => do some (.node (.quoted body) (← parseAttrs ts))
  | a :: .arrow :: b :: .lbracket :: ts => do
    some (.edge (← parseId a) (← parseId b) (← parseAttrs ts))
  | _ => none

/-- the statements up to the brace that ends the text; `pending` is the one being read -/
def parseBody : List Token → List Token → Option (List Stmt)
  | [], [.rbrace] => some []
  | pending, .semi :: ts => do some ((← parseStmt pending) :: (← parseBody [] ts))
  | pending, t :: ts => parseBody (pending ++ [t]) ts
  | _, [] => none

def parseTokens : List Token → Option Graph
  | .word "digraph" :: name :: .lbrace :: ts => do some ⟨← parseId name, ← parseBody [] ts⟩
  | _ => none

def parse (s : String) : Option Graph := (lex s).bind parseTokens

/-! ### the tokens of a graph -/

def Id.token : Id → Token
  | .word w => .word w
  | .quoted body => .str body

/-- not a keyword -/
def Id.Ok : Id → Prop
  | .word w => ¬ reserved w
  | .quoted _ => True

instance (id : Id) : Decidable id.Ok :=
  match id with
  | .word w => inferInstanceAs (Decidable (¬ reserved w))
  | .quoted _ => .isTrue trivial

def Attr.Ok (a : Attr) : Prop := a.1.Ok ∧ a.2.Ok

instance (a : Attr) : Decidable a.Ok := inferInstanceAs (Decidable (_ ∧ _))

def Attr.tokens (a : Attr) : List Token := [a.1.token, .equals, a.2.token]

/-- separated by commas, with the closing bracket -/
def attrTokens : List Attr → List Token
  | [] => []
  | [a] => Attr.tokens a ++ [.rbracket]
  | a :: as => Attr.tokens a ++ .comma :: attrTokens as

namespace Stmt

def tokens : Stmt → List Token
  | .assign name value => [name.token, .equals, value.token]
  | .defaults kind attrs => .word kind :: .lbracket :: attrTokens attrs
  | .node id attrs => id.token :: .lbracket :: attrTokens attrs
  | .edge a b attrs => a.token :: .arrow :: b.token :: .lbracket :: attrTokens attrs

/-- no keyword is an id, and a list of attributes is not empty -/
def Ok : Stmt → Prop
  | .assign name value => name.Ok ∧ value.Ok
  | .defaults kind attrs => kind ∈ kinds ∧ attrs ≠ [] ∧ ∀ a ∈ attrs, Attr.Ok a
  | .node id attrs => id.Ok ∧ attrs ≠ [] ∧ ∀ a ∈ attrs, Attr.Ok a
  | .edge a b attrs => a.Ok ∧ b.Ok ∧ attrs ≠ [] ∧ ∀ a ∈ attrs, Attr.Ok a

instance (st : Stmt) : Decidable st.Ok :=
  match st with
  | .assign _ _ => inferInstanceAs (Decidable (_ ∧ _))
  | .defaults _ _ => inferInstanceAs (Decidable (_ ∧ _ ∧ _))
  | .node _ _ => inferInstanceAs (Decidable (_ ∧ _ ∧ _))
  | .edge _ _ _ => inferInstanceAs (Decidable (_ ∧ _ ∧ _ ∧ _))

end Stmt

theorem parseId_token {id : Id} (h : id.Ok) : parseId id.token = some id := by
  cases id with
  | word w => exact if_neg h
  | quoted body => rfl

theorem Id.semi_ne_token (id : Id) : .semi ≠ id.token := by
  cases id <;> exact Token.noConfusion

theorem parseAttrs_attrTokens {as : List Attr} (hne : as ≠ []) (hok : ∀ a ∈ as, Attr.Ok a) :
    parseAttrs (attrTokens as) = some as := by
  induction as with
  | nil => exact absurd rfl hne
  | cons a as ih =>
    obtain ⟨⟨hk, hv⟩, hrest⟩ := List.forall_mem_cons.mp hok
    cases as with
    | nil => simp [attrTokens, Attr.tokens, parseAttrs, parseId_token hk, parseId_token hv]
    | cons b bs =>
      have hbs := ih (List.cons_ne_nil b bs) hrest
      simp [attrTokens, Attr.tokens, parseAttrs, parseId_token hk, parseId_token hv, hbs]

theorem semi_not_mem_attrTokens (as : List Attr) : .semi ∉ attrTokens as := by
  induction as with
  | nil => exact List.not_mem_nil
  | cons a as ih =>
    have hk := a.1.semi_ne_token
    have hv := a.2.semi_ne_token
    cases as with
    | nil => simp [attrTokens, Attr.tokens, hk, hv]
    | cons b bs => simp [attrTokens, Attr.tokens, hk, hv, ih]

namespace Stmt

theorem parseStmt_tokens {st : Stmt} (h : st.Ok) : parseStmt st.tokens = some st := by
  cases st with
  | assign name value =>
    show parseStmt [name.token, .equals, value.token] = _
    simp [parseStmt, parseId_token h.1, parseId_token h.2]
  | defaults kind attrs =>
    obtain ⟨hkind, hne, hattrs⟩ := h
    simp [tokens, parseStmt, hkind, parseAttrs_attrTokens hne hattrs]
  | node id attrs =>
    obtain ⟨hid, hne, hattrs⟩ := h
    cases id with
    | word w =>
      have hkind : w ∉ kinds := by
        intro hw
        apply hid
        have hall : ∀ k ∈ kinds, reserved k := by decide
        exact hall w hw
      have hparse : parseId (.word w) = some (.word w) := parseId_token hid
      simp [tokens, Id.token, parseStmt, hkind, hparse, parseAttrs_attrTokens hne hattrs]
    | quoted body =>
      simp [tokens, Id.token, parseStmt, parseAttrs_attrTokens hne hattrs]
  | edge a b attrs =>
    obtain ⟨ha, hb, hne, hattrs⟩ := h
    show parseStmt (a.token :: .arrow :: b.token :: .lbracket :: attrTokens attrs) = _
    simp [parseStmt, parseId_token ha, parseId_token hb, parseAttrs_attrTokens hne hattrs]

theorem semi_not_mem_tokens (st : Stmt) : .semi ∉ st.tokens := by
  cases st with
  | assign name value => simp [tokens, Id.semi_ne_token]
  | defaults kind attrs => simp [tokens, semi_not_mem_attrTokens]
  | node id attrs => simp [tokens, Id.semi_ne_token, semi_not_mem_attrTokens]
  | edge a b attrs => simp [tokens, Id.semi_ne_token, semi_not_mem_attrTokens]

end Stmt

/-- the tokens before a semicolon are read as one statement -/
theorem parseBody_append_semi (pending ts rest : List Token) (h : .semi ∉ ts) :
    parseBody pending (ts ++ .semi :: rest) =
      (parseStmt (pending ++ ts)).bind fun st => (parseBody [] rest).map (st :: ·) := by
  induction ts generalizing pending with
  | nil =>
    rw [List.append_nil, List.nil_append]
    cases pending <;> simp only [parseBody, Option.bind_eq_bind, Option.map_eq_bind] <;> rfl
  | cons t ts ih =>
    rw [List.mem_cons, not_or] at h
    have hread : parseBody pending (t :: (ts ++ .semi :: rest)) =
        parseBody (pending ++ [t]) (ts ++ .semi :: rest) := by
      rw [parseBody]
      · exact Ne.symm h.1
      · intro _ _ htail
        exact absurd htail (List.append_ne_nil_of_right_ne_nil _ (List.cons_ne_nil _ _))
    rw [List.cons_append, hread, ih _ h.2, List.append_assoc, List.singleton_append]

/-- the statements of a body, with the brace after them -/
def bodyTokens (sts : List Stmt) : List Token :=
  (sts.flatMap fun st => st.tokens ++ [.semi]) ++ [.rbrace]

theorem parseBody_bodyTokens {sts : List Stmt} (h : ∀ st ∈ sts, st.Ok) :
    parseBody [] (bodyTokens sts) = some sts := by
  induction sts with
  | nil => rfl
  | cons st sts ih =>
    obtain ⟨hst, hsts⟩ := List.forall_mem_cons.mp h
    have hcons : bodyTokens (st :: sts) = st.tokens ++ .semi :: bodyTokens sts := by
      unfold bodyTokens
      rw [List.flatMap_cons, List.append_assoc, List.append_assoc, List.singleton_append]
    rw [hcons, parseBody_append_semi [] _ _ st.semi_not_mem_tokens, List.nil_append,
      Stmt.parseStmt_tokens hst, ih hsts]
    rfl

/-- a text that lexes to the tokens of a graph is parsed as it -/
theorem parse_eq_some {s : String} {g : Graph} (hname : g.name.Ok) (hok : ∀ st ∈ g.stmts, st.Ok)
    (hs : Lexes (.plain []) s
      (.word "digraph" :: g.name.token :: .lbrace :: bodyTokens g.stmts) (.plain [])) :
    parse s = some g := by
  have hlex : lex s =
      some (.word "digraph" :: g.name.token :: .lbrace :: bodyTokens g.stmts) := by
    unfold lex
    rw [hs]
    exact congrArg some (List.append_nil _)
  show (lex s).bind parseTokens = _
  rw [hlex]
  show (do some ⟨← parseId g.name.token, ← parseBody [] (bodyTokens g.stmts)⟩ : Option Graph) = _
  rw [parseId_token hname, parseBody_bodyTokens hok]
  rfl

end Lib.Dot
