import Interlingua.Json.Parser

/-!
# Reading compact text back

A textual value is made of strings and objects, and no object has two members with one key. Such a
value is read back from its compact text, if it is not nested too deep.
-/

namespace Interlingua.Json

mutual

def isTextual : Json → Bool
  | str _ => true
  | obj members => areTextual members
  | _ => false

def areTextual : List (String × Json) → Bool
  | [] => true
  | (key, value) :: rest => isTextual value && !rest.any (·.1 = key) && areTextual rest

end

mutual

/-- The number of objects around the innermost value. -/
def height : Json → Nat
  | obj members => heights members + 1
  | _ => 0

def heights : List (String × Json) → Nat
  | [] => 0
  | (_, value) :: rest => max (height value) (heights rest)

end

/-! Strings and tokens. -/

theorem hex4?_control : ∀ n < 0x20,
    hex4? '0' '0' (hexDigit (n / 16)) (hexDigit (n % 16)) = some n := by
  decide

theorem stringBody_escapeChar (c : Char) (rest : List Char) :
    stringBody (escapeChar c ++ rest) = (stringBody rest).map fun (text, rest) => (c :: text, rest) := by
  unfold escapeChar
  split
  · subst_vars; simp [stringBody, shortEscape?]
  split
  · subst_vars; simp [stringBody, shortEscape?]
  split
  · subst_vars; simp [stringBody, shortEscape?]
  split
  · subst_vars; simp [stringBody, shortEscape?]
  split
  · subst_vars; simp [stringBody, shortEscape?]
  split
  · subst_vars; simp [stringBody, shortEscape?]
  split
  · subst_vars; simp [stringBody, shortEscape?]
  split
  · rename_i control
    have high : isHigh c.toNat = false := by simp [isHigh]; omega
    have low : isLow c.toNat = false := by simp [isLow]; omega
    simp [stringBody, hex4?_control c.toNat control, high, low, Char.ofNat_toNat]
  · rename_i _ slash _ _ _ _ _ visible
    simp [stringBody, slash, visible]

theorem stringBody_stringText (cs rest : List Char) :
    stringBody (cs.flatMap escapeChar ++ '"' :: rest) = some (cs, rest) := by
  induction cs with
  | nil => simp [stringBody]
  | cons c cs ih => simp [List.append_assoc, stringBody_escapeChar, ih]

/-- Tokens other than numbers, truth values and null. -/
def Token.isTextual : Token → Bool
  | .scalar (.str _) => true
  | .scalar _ => false
  | _ => true

theorem lex_cons {c : Char} {cs rest : List Char} {token : Token} (visible : isSpace c = false)
    (h : next c cs = some (token, rest)) : lex (c :: cs) = (lex rest).map (token :: ·) := by
  rw [lex.eq_def]
  simp only [visible, Bool.false_eq_true, if_false]
  split
  · next none => simp [none] at h
  · next found =>
    rw [found, Option.some.injEq, Prod.mk.injEq] at h
    rw [h.1, h.2]

theorem lex_text_append {token : Token} (h : token.isTextual = true) (rest : List Char) :
    lex (token.text ++ rest) = (lex rest).map (token :: ·) := by
  cases token with
  | scalar value =>
    cases value with
    | str s =>
      have body := stringBody_stringText s.toList rest
      have start : next '"' (s.toList.flatMap escapeChar ++ '"' :: rest) =
          some (.scalar (.str s), rest) := by
        simp [next, body]
      have text : (Token.scalar (.str s)).text = '"' :: s.toList.flatMap escapeChar ++ ['"'] := rfl
      rw [text, List.append_assoc]
      exact lex_cons (by decide) start
    | _ => cases h
  | _ => exact lex_cons (by decide) rfl

theorem lex_flatMap_text {ts : List Token} (h : ∀ t ∈ ts, t.isTextual = true) :
    lex (ts.flatMap Token.text) = some ts := by
  induction ts with
  | nil => rw [List.flatMap_nil, lex]
  | cons t ts ih =>
    rw [List.flatMap_cons, lex_text_append (h t List.mem_cons_self),
      ih fun t mem => h t (List.mem_cons_of_mem _ mem)]
    rfl

mutual

theorem tokens_isTextual (v : Json) (h : v.isTextual = true) : ∀ t ∈ tokens v, t.isTextual = true :=
  match v with
  | str _ => by simp [tokens, Token.isTextual]
  | obj members => by
    have inner := memberTokens_isTextual members h
    simpa [tokens, Token.isTextual, or_imp, forall_and] using inner
  | null | bool _ | int _ | float _ | arr _ => by cases h

theorem memberTokens_isTextual (members : List (String × Json)) (h : areTextual members = true) :
    ∀ t ∈ memberTokens members, t.isTextual = true :=
  match members with
  | [] => by simp [memberTokens]
  | [(key, value)] => by
    simp only [areTextual, Bool.and_eq_true] at h
    have inner := tokens_isTextual value h.1.1
    simpa [memberTokens, Token.isTextual] using inner
  | (key, value) :: next :: rest => by
    rw [areTextual, Bool.and_eq_true, Bool.and_eq_true] at h
    have inner := tokens_isTextual value h.1.1
    have later := memberTokens_isTextual (next :: rest) h.2
    simpa [memberTokens, Token.isTextual, or_imp, forall_and] using ⟨inner, later⟩

end

/-! The machine. -/

/-- The members of an object without two of one key, the last first. -/
theorem lastMembers_reverse {members : List (String × Json)} (h : areTextual members = true) :
    lastMembers members.reverse = members := by
  rw [lastMembers, List.foldl_reverse]
  induction members with
  | nil => rfl
  | cons m rest ih =>
    obtain ⟨key, value⟩ := m
    simp only [areTextual, Bool.and_eq_true, Bool.not_eq_true'] at h
    rw [List.foldr_cons, ih h.2, h.1.2]
    rfl

section

variable (limit : Nat)

private theorem foldlM_key {earlier : List (String × Json)} {key key' : String} {want : Want}
    {stack : List Frame}
    (keyed : ∀ key', step limit (.inside (.obj earlier key :: stack) want) (.scalar (.str key')) =
      setKey key' (.obj earlier key :: stack)) (ts : List Token) :
    (.scalar (.str key') :: .colon :: ts).foldlM (step limit)
        (.inside (.obj earlier key :: stack) want) =
      ts.foldlM (step limit) (.inside (.obj earlier key' :: stack) .value) := by
  rw [List.foldlM_cons, keyed]
  rfl

mutual

/-- The tokens of a value hand it to what holds it. -/
theorem foldlM_tokens (v : Json) (h : v.isTextual = true) (stack : List Frame)
    (low : stack.length + v.height ≤ limit) (rest : List Token) :
    (tokens v ++ rest).foldlM (step limit) (.inside stack .value) =
      rest.foldlM (step limit) (deliver v stack) :=
  match v with
  | str _ => by simp [tokens, step]
  | obj [] => by
    have opened : stack.length < limit := by simp only [height] at low; omega
    simp [tokens, memberTokens, step, openFrame, opened, closeObj, lastMembers]
  | obj (m :: members) => by
    simp only [height] at low
    have opened : stack.length < limit := by omega
    have inner := foldlM_members (m :: members) (by simp) h stack [] "" .keyOrClose low rest
      fun _ => rfl
    rw [List.append_nil, lastMembers_reverse h] at inner
    simpa [tokens, step, openFrame, opened] using inner
  | null | bool _ | int _ | float _ | arr _ => by cases h

/-- The tokens of members, read where a key may come, and the end of their object. -/
theorem foldlM_members (members : List (String × Json)) (some : members ≠ [])
    (h : areTextual members = true) (stack : List Frame) (earlier : List (String × Json))
    (key : String) (want : Want) (low : stack.length + (heights members + 1) ≤ limit)
    (rest : List Token)
    (keyed : ∀ key', step limit (.inside (.obj earlier key :: stack) want) (.scalar (.str key')) =
      setKey key' (.obj earlier key :: stack)) :
    (memberTokens members ++ .closeObj :: rest).foldlM (step limit)
        (.inside (.obj earlier key :: stack) want) =
      rest.foldlM (step limit) (deliver (.obj (lastMembers (members.reverse ++ earlier))) stack) :=
  match members with
  | [] => absurd rfl some
  | [(key', value)] => by
    simp only [areTextual, Bool.and_eq_true] at h
    simp only [heights] at low
    have inner := foldlM_tokens value h.1.1 (.obj earlier key' :: stack)
      (by rw [List.length_cons]; omega) (.closeObj :: rest)
    rw [memberTokens, List.cons_append, List.cons_append, foldlM_key limit keyed, inner]
    rfl
  | (key', value) :: next :: later => by
    rw [areTextual, Bool.and_eq_true, Bool.and_eq_true] at h
    rw [heights] at low
    have inner := foldlM_tokens value h.1.1 (.obj earlier key' :: stack)
      (by rw [List.length_cons]; omega)
      (.comma :: (memberTokens (next :: later) ++ .closeObj :: rest))
    have tail := foldlM_members (next :: later) (by simp) h.2 stack ((key', value) :: earlier) key'
      .key (by omega) rest fun _ => rfl
    rw [List.reverse_cons, List.append_assoc, List.singleton_append, ← tail, memberTokens]
    simp only [List.cons_append, List.append_assoc]
    rw [foldlM_key limit keyed, inner]
    rfl

end

end

/-- A textual value is read back from its compact text. -/
theorem parse_compact {v : Json} (h : v.isTextual = true) (low : v.height ≤ depthLimit) :
    parse v.compact = some v := by
  have read := foldlM_tokens depthLimit v h [] (by simpa using low) []
  rw [List.append_nil] at read
  simp [parse, parseWithin, compact, lex_flatMap_text (tokens_isTextual v h), read, deliver]

end Interlingua.Json
