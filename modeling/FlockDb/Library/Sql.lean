import Mathlib.Data.List.Basic

/-!
# The tokens of SQL

A statement falls into words, symbols, string literals and quoted identifiers. Inside quotes a
doubled quote stands for one and nothing else is special, so a text whose quotes are doubled
comes back as one token with that text as its value, whatever it contains.
-/

namespace FlockDb.Sql

/-- A token, the quoted ones with the values they stand for. -/
inductive Token where
  | word (text : List Char)
  | symbol (c : Char)
  | literal (value : List Char)
  | identifier (value : List Char)
  deriving DecidableEq

/-- A text with each quote doubled. -/
def doubled (quote : Char) (text : List Char) : List Char :=
  text.flatMap fun c => if c = quote then [quote, quote] else [c]

/-- A text in quotes. -/
def inQuotes (quote : Char) (text : List Char) : List Char :=
  quote :: (doubled quote text ++ [quote])

/-- What follows an opening quote: the value up to the closing quote and what is left. -/
def readQuoted (quote : Char) : List Char → Option (List Char × List Char)
  | [] => none
  | c :: text =>
    if c = quote then
      match text with
      | [] => some ([], [])
      | d :: rest =>
        if d = quote then (readQuoted quote rest).map fun read => (quote :: read.1, read.2)
        else some ([], d :: rest)
    else (readQuoted quote text).map fun read => (c :: read.1, read.2)

/-- A character of a word. -/
def isWordChar (c : Char) : Bool := c.isAlphanum || c = '_'

/-- A character between tokens. -/
def isBlank (c : Char) : Bool := c = ' ' || c = '\t' || c = '\n' || c = '\r'

/-- A text whose quotes are doubled is read back, up to a quote that no other follows. -/
theorem readQuoted_doubled {quote : Char} (text : List Char) {rest : List Char}
    (hrest : rest.head? ≠ some quote) :
    readQuoted quote (doubled quote text ++ quote :: rest) = some (text, rest) := by
  induction text with
  | nil =>
    cases rest with
    | nil => simp [doubled, readQuoted]
    | cons d rest =>
      have hd : d ≠ quote := by simpa using hrest
      simp [doubled, readQuoted, hd]
  | cons c text ih =>
    rw [doubled, List.flatMap_cons, ← doubled]
    by_cases hc : c = quote
    · subst hc
      simp [readQuoted, ih]
    · rw [if_neg hc, List.singleton_append, List.cons_append, readQuoted.eq_def]
      simp [hc, ih]

/-- A text without quotes is its own doubling. -/
theorem doubled_of_notMem {quote : Char} {text : List Char} (h : quote ∉ text) :
    doubled quote text = text := by
  induction text with
  | nil => rfl
  | cons c text ih =>
    rw [List.mem_cons, not_or] at h
    rw [doubled, List.flatMap_cons, ← doubled, if_neg (Ne.symm h.1), ih h.2]
    rfl

/-- Reading a quoted text leaves a shorter one. -/
theorem length_lt_of_readQuoted {quote : Char} {text value rest : List Char}
    (h : readQuoted quote text = some (value, rest)) : rest.length < text.length := by
  fun_induction readQuoted quote text generalizing value with
  | case1 => cases h
  | case2 =>
    obtain ⟨-, rfl⟩ : [] = value ∧ [] = rest := by simpa using h
    simp
  | case3 text ih =>
    obtain ⟨read, hread, hvalue⟩ := Option.map_eq_some_iff.mp h
    obtain ⟨-, rfl⟩ := Prod.mk.inj hvalue
    have hlt := ih hread
    simp only [List.length_cons]
    omega
  | case4 d text hd =>
    obtain ⟨-, rfl⟩ : [] = value ∧ d :: text = rest := by simpa using h
    simp
  | case5 c text hc ih =>
    obtain ⟨read, hread, hvalue⟩ := Option.map_eq_some_iff.mp h
    obtain ⟨-, rfl⟩ := Prod.mk.inj hvalue
    have hlt := ih hread
    simp only [List.length_cons]
    omega

/-- The tokens of a text; a quote that is never closed has none. -/
def tokenise : List Char → Option (List Token)
  | [] => some []
  | c :: text =>
    if isBlank c then tokenise text
    else if c = '\'' then
      match _hread : readQuoted '\'' text with
      | none => none
      | some (value, rest) => (tokenise rest).map (.literal value :: ·)
    else if c = '"' then
      match _hread : readQuoted '"' text with
      | none => none
      | some (value, rest) => (tokenise rest).map (.identifier value :: ·)
    else if isWordChar c then
      (tokenise (text.dropWhile isWordChar)).map (.word (c :: text.takeWhile isWordChar) :: ·)
    else (tokenise text).map (.symbol c :: ·)
  termination_by text => text.length
  decreasing_by
    · simp
    · exact Nat.lt_succ_of_lt (length_lt_of_readQuoted _hread)
    · exact Nat.lt_succ_of_lt (length_lt_of_readQuoted _hread)
    · exact Nat.lt_succ_of_le (List.dropWhile_sublist _).length_le
    · simp

/-- Two quotes in a literal are one quote of its value. -/
example : tokenise "SELECT 'o''brien'".toList =
    some [.word "SELECT".toList, .literal "o'brien".toList] := by decide +kernel

/-- A text ends where a character follows that stops it. -/
theorem takeWhile_append_cons {p : Char → Bool} {c : Char} (hc : p c = false)
    (text rest : List Char) : (text ++ c :: rest).takeWhile p = text.takeWhile p := by
  induction text with
  | nil => rw [List.nil_append, List.takeWhile_cons_of_neg (by simp [hc]), List.takeWhile_nil]
  | cons d text ih =>
    rw [List.cons_append, List.takeWhile_cons, List.takeWhile_cons, ih]

/-- What is left of a text where a character follows that stops it. -/
theorem dropWhile_append_cons {p : Char → Bool} {c : Char} (hc : p c = false)
    (text rest : List Char) :
    (text ++ c :: rest).dropWhile p = text.dropWhile p ++ c :: rest := by
  induction text with
  | nil => rw [List.nil_append, List.dropWhile_cons_of_neg (by simp [hc]), List.dropWhile_nil,
      List.nil_append]
  | cons d text ih =>
    rw [List.cons_append, List.dropWhile_cons, List.dropWhile_cons, ih]
    by_cases hd : p d = true
    · rw [if_pos hd, if_pos hd]
    · rw [if_neg hd, if_neg hd, List.cons_append]

/-- A text without quotes has its own tokens before those of what follows, if that does not
continue its last word. -/
theorem tokenise_append {text : List Char} (hsingle : '\'' ∉ text) (hdouble : '"' ∉ text)
    {c : Char} (hc : isWordChar c = false) (rest : List Char) :
    tokenise (text ++ c :: rest) =
      (tokenise text).bind fun tokens => (tokenise (c :: rest)).map (tokens ++ ·) := by
  induction hlength : text.length using Nat.strongRecOn generalizing text with
  | ind n ih =>
    cases text with
    | nil =>
      rw [List.nil_append, tokenise.eq_1, Option.bind_some]
      exact Option.map_id'.symm
    | cons d text =>
      rw [List.mem_cons, not_or] at hsingle hdouble
      rw [List.length_cons] at hlength
      have htext := ih text.length (by omega) hsingle.2 hdouble.2 rfl
      rw [List.cons_append, tokenise.eq_2, tokenise.eq_2 d text]
      by_cases hblank : isBlank d = true
      · rw [if_pos hblank, if_pos hblank, htext]
      · rw [if_neg hblank, if_neg hblank, if_neg (Ne.symm hsingle.1), if_neg (Ne.symm hsingle.1),
          if_neg (Ne.symm hdouble.1), if_neg (Ne.symm hdouble.1)]
        by_cases hword : isWordChar d = true
        · have hsub := (List.dropWhile_suffix (l := text) isWordChar)
          have hrest := ih (text.dropWhile isWordChar).length
            (by have := hsub.length_le; omega) (fun h => hsingle.2 (hsub.subset h))
            (fun h => hdouble.2 (hsub.subset h)) rfl
          rw [if_pos hword, if_pos hword, takeWhile_append_cons hc, dropWhile_append_cons hc, hrest]
          cases tokenise (text.dropWhile isWordChar) with
          | none => rfl
          | some tokens => cases tokenise (c :: rest) <;> rfl
        · rw [if_neg hword, if_neg hword, htext]
          cases tokenise text with
          | none => rfl
          | some tokens => cases tokenise (c :: rest) <;> rfl

/-- A text in single quotes is one literal with that text as its value. -/
theorem tokenise_literal (value : List Char) {rest : List Char} (hrest : rest.head? ≠ some '\'') :
    tokenise (inQuotes '\'' value ++ rest) = (tokenise rest).map (.literal value :: ·) := by
  have hread : readQuoted '\'' (doubled '\'' value ++ ['\''] ++ rest) = some (value, rest) := by
    rw [List.append_assoc]
    exact readQuoted_doubled value hrest
  rw [inQuotes, List.cons_append, tokenise.eq_2, if_neg (by decide), if_pos rfl]
  split
  · next hnone => rw [hread] at hnone; cases hnone
  · next value' rest' hsome =>
    rw [hread] at hsome
    obtain ⟨rfl, rfl⟩ := Prod.mk.inj (Option.some.inj hsome)
    rfl

/-- A text in double quotes is one identifier with that text as its value. -/
theorem tokenise_identifier (value : List Char) {rest : List Char} (hrest : rest.head? ≠ some '"') :
    tokenise (inQuotes '"' value ++ rest) = (tokenise rest).map (.identifier value :: ·) := by
  have hread : readQuoted '"' (doubled '"' value ++ ['"'] ++ rest) = some (value, rest) := by
    rw [List.append_assoc]
    exact readQuoted_doubled value hrest
  rw [inQuotes, List.cons_append, tokenise.eq_2, if_neg (by decide), if_neg (by decide), if_pos rfl]
  split
  · next hnone => rw [hread] at hnone; cases hnone
  · next value' rest' hsome =>
    rw [hread] at hsome
    obtain ⟨rfl, rfl⟩ := Prod.mk.inj (Option.some.inj hsome)
    rfl

/-- A text without quotes, a literal and the rest have their tokens in that order. -/
theorem tokenise_append_literal {text : List Char} {tokens : List Token}
    (htext : tokenise text = some tokens) (hsingle : '\'' ∉ text) (hdouble : '"' ∉ text)
    (value : List Char) {rest : List Char} (hrest : rest.head? ≠ some '\'') :
    tokenise (text ++ (inQuotes '\'' value ++ rest)) =
      (tokenise rest).map (tokens ++ .literal value :: ·) := by
  rw [inQuotes, List.cons_append, tokenise_append hsingle hdouble (by decide), ← List.cons_append,
    ← inQuotes, tokenise_literal value hrest, htext, Option.bind_some, Option.map_map]
  rfl

/-- A text without quotes, a quoted identifier and the rest have their tokens in that order. -/
theorem tokenise_append_identifier {text : List Char} {tokens : List Token}
    (htext : tokenise text = some tokens) (hsingle : '\'' ∉ text) (hdouble : '"' ∉ text)
    (value : List Char) {rest : List Char} (hrest : rest.head? ≠ some '"') :
    tokenise (text ++ (inQuotes '"' value ++ rest)) =
      (tokenise rest).map (tokens ++ .identifier value :: ·) := by
  rw [inQuotes, List.cons_append, tokenise_append hsingle hdouble (by decide), ← List.cons_append,
    ← inQuotes, tokenise_identifier value hrest, htext, Option.bind_some, Option.map_map]
  rfl

end FlockDb.Sql
