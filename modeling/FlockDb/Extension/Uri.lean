import FlockDb.Library.Cut
import Mathlib

/-!
# The URI of a sleeping database

The extension takes everything it needs to open a sleeping database from a URI
`flock://<pool>/<manifest_hex>?remote=<dir>&cache=<dir>&page_size=<n>&len=<n>`, which it takes
apart by hand. The two numbers go through `std::stoull`, which reads more than numerals.
-/

namespace FlockDb.Extension

open Cut

/-- A `std::string`, as its characters. -/
abbrev Text := List Char

/-- What parsing a URI throws: DuckDB's `InvalidInputException` with its message, or one of the
two exceptions of `std::stoull`. -/
inductive Thrown where
  | invalidInputException (message : Text)
  | invalidArgument
  | outOfRange
  deriving DecidableEq

/-- `FlockUri`. -/
structure FlockUri where
  pool : Text
  manifestHex : Text
  remoteDir : Text
  cacheDir : Text
  pageSize : ℕ
  totalLen : ℕ
  deriving DecidableEq

/-- `kSchemeBare`. -/
def kSchemeBare : Text := "flock:".toList

/-- `std::isspace`, in the C locale. -/
def isSpace (c : Char) : Bool := c = ' ' || (9 ≤ c.toNat && c.toNat ≤ 13)

/-- The number that decimal digits stand for. -/
def decimalValue (digits : Text) : ℕ := Nat.ofDigitChars 10 digits 0

/-- `std::stoull` in base ten: blanks, a sign and as many digits as there are. A negative number
is negated in 64 bits, and what follows the digits is not looked at. -/
def stoull (text : Text) : Except Thrown ℕ :=
  let text := text.dropWhile isSpace
  let negative := text.head? = some '-'
  let text := if text.head? = some '-' ∨ text.head? = some '+' then text.tail else text
  let digits := text.takeWhile Char.isDigit
  if digits = [] then .error .invalidArgument
  else if 2 ^ 64 ≤ decimalValue digits then .error .outOfRange
  else if negative then .ok ((2 ^ 64 - decimalValue digits) % 2 ^ 64)
  else .ok (decimalValue digits)

/-- The parameters of a query, by name. -/
abbrev Params := Text → Option Text

/-- One pair of a query; a piece without `=` is passed over. -/
def storePair (kv : Params) (pair : Text) : Params :=
  match cut '=' pair with
  | none => kv
  | some (key, value) => Function.update kv key (some value)

/-- The loop of `ParseFlockUri` over the pairs of a query. -/
def scanPairs (query : Text) (kv : Params) : Params :=
  if query = [] then kv
  else
    match _hcut : cut '&' query with
    | none => storePair kv query
    | some (pair, rest) => scanPairs rest (storePair kv pair)
  termination_by query.length
  decreasing_by exact length_lt_of_cut _hcut

/-- `require`: a parameter that is there and not empty. -/
def require (path : Text) (kv : Params) (key : Text) : Except Thrown Text :=
  match kv key with
  | none | some [] => .error (.invalidInputException
      ("flock-vfs: '".toList ++ path ++ "' is missing required query parameter '".toList ++ key ++
        "'".toList))
  | some value => .ok value

/-- The fields of a URI that has been taken apart. -/
def readFields (path pool manifestHex : Text) (kv : Params) : Except Thrown FlockUri := do
  let remoteDir ← require path kv "remote".toList
  let cacheDir ← require path kv "cache".toList
  let pageSize ← stoull (← require path kv "page_size".toList)
  let totalLen ← stoull (← require path kv "len".toList)
  return ⟨pool, manifestHex, remoteDir, cacheDir, pageSize, totalLen⟩

/-- `ParseFlockUri`. -/
def parseFlockUri (path : Text) : Except Thrown FlockUri :=
  if ¬kSchemeBare <+: path then
    .error (.invalidInputException ("flock-vfs: '".toList ++ path ++
      "' is not a flock:// path. Expected ".toList ++
      "flock://<pool>/<manifest_hex>?remote=<dir>&cache=<dir>&page_size=<n>&len=<n>".toList))
  else
    let rest := (path.drop kSchemeBare.length).dropWhile (· = '/')
    match cut '?' rest with
    | none => .error (.invalidInputException ("flock-vfs: '".toList ++ path ++
        "' has no query string; the wake parameters (remote, cache, page_size, len) ".toList ++
        "travel in it. Expected ".toList ++
        "flock://<pool>/<manifest_hex>?remote=...&cache=...&page_size=...&len=...".toList))
    | some (authority, query) =>
      match cut '/' authority with
      | none => .error (.invalidInputException ("flock-vfs: '".toList ++ path ++
          "' is missing the '<pool>/<manifest_hex>' segment".toList))
      | some (pool, manifestHex) => readFields path pool manifestHex (scanPairs query fun _ => none)

/-- `std::stoull` looks only at what precedes the first character that is no digit. -/
example : stoull " -1x".toList = .ok (2 ^ 64 - 1) := by decide +kernel

/-- A decimal numeral of a 64-bit number: digits and nothing else. -/
structure Numeral (text : Text) (n : ℕ) : Prop where
  ne_nil : text ≠ []
  digits : ∀ c ∈ text, c.isDigit = true
  value : decimalValue text = n
  fits : n < 2 ^ 64

/-- A number in decimal is a numeral. -/
theorem numeral_toDigits {n : ℕ} (h : n < 2 ^ 64) : Numeral (Nat.toDigits 10 n) n where
  ne_nil := Nat.toDigits_ne_nil
  digits := fun _ hc => Nat.isDigit_of_mem_toDigits (by decide) (by decide) hc
  value := Nat.ofDigitChars_ten_toDigits
  fits := h

/-- A digit is no blank and no sign. -/
theorem of_isDigit {c : Char} (h : c.isDigit = true) :
    isSpace c = false ∧ c ≠ '-' ∧ c ≠ '+' := by
  have hrange : 48 ≤ c.toNat ∧ c.toNat ≤ 57 := by
    rw [Char.isDigit, Bool.and_eq_true, decide_eq_true_iff, decide_eq_true_iff] at h
    exact h
  have hne {d : Char} (hd : d.toNat < 48) : c ≠ d := fun hc => by
    rw [hc] at hrange
    omega
  refine ⟨?_, hne (by decide), hne (by decide)⟩
  rw [isSpace, Bool.or_eq_false_iff]
  refine ⟨decide_eq_false (hne (by decide)), ?_⟩
  rw [Bool.and_eq_false_iff]
  exact .inr (decide_eq_false (by omega))

/-- `std::stoull` reads a numeral as its number. -/
theorem stoull_of_numeral {text : Text} {n : ℕ} (h : Numeral text n) : stoull text = .ok n := by
  obtain ⟨hne, hdigits, rfl, hfits⟩ := h
  cases text with
  | nil => exact absurd rfl hne
  | cons c text =>
    obtain ⟨hspace, hminus, hplus⟩ := of_isDigit (hdigits c List.mem_cons_self)
    have htake : (c :: text).takeWhile Char.isDigit = c :: text :=
      List.takeWhile_eq_self_iff.mpr hdigits
    have hdrop : (c :: text).dropWhile isSpace = c :: text := by
      rw [List.dropWhile_cons, hspace]
      rfl
    simp only [stoull, hdrop, List.head?_cons, Option.some.injEq, hminus, hplus, or_self,
      if_false, htake]
    rw [if_neg (List.cons_ne_nil c text), if_neg (Nat.not_le.mpr hfits)]

/-- `std::stoull` throws exceptions of its own. -/
theorem stoull_error {text message : Text} :
    stoull text ≠ .error (.invalidInputException message) := by
  unfold stoull
  simp only
  split_ifs <;> simp

/-- What a query gives for a name: the text after the first `=` of the last piece between the
`&` whose text before it is the name. -/
def lastValue (query : Text) : Params := fun key =>
  ((query.splitOn '&').filterMap (cut '=')).reverse.lookup key

/-- Storing the pairs of some pieces leaves the last pair of each name. -/
theorem foldl_storePair (pieces : List Text) (kv : Params) (key : Text) :
    pieces.foldl storePair kv key =
      ((pieces.filterMap (cut '=')).reverse.lookup key).or (kv key) := by
  induction pieces generalizing kv with
  | nil => simp
  | cons piece pieces ih =>
    rw [List.foldl_cons, ih, storePair]
    cases hcut : cut '=' piece with
    | none => rw [List.filterMap_cons_none hcut]
    | some pair =>
      obtain ⟨key', value⟩ := pair
      rw [List.filterMap_cons_some hcut, List.reverse_cons, List.lookup_append, Option.or_assoc]
      congr 1
      by_cases hkey : key = key'
      · subst hkey
        simp
      · simp [hkey]

/-- The loop stores the pieces between the `&` in their order. -/
theorem scanPairs_eq_foldl (query : Text) (kv : Params) :
    scanPairs query kv = (query.splitOn '&').foldl storePair kv := by
  fun_induction scanPairs query kv with
  | case1 kv => rfl
  | case2 query kv hne hcut =>
    rw [List.splitOn_eq_singleton (cut_eq_none_iff.mp hcut)]
    rfl
  | case3 query kv hne pair rest hcut ih =>
    obtain ⟨rfl, hpair⟩ := cut_eq_some_iff.mp hcut
    rw [List.splitOn_append_cons_self_of_not_mem hpair, List.foldl_cons, ih]

/-- The loop finds what the query gives. -/
theorem scanPairs_eq (query : Text) : scanPairs query (fun _ => none) = lastValue query := by
  funext key
  rw [scanPairs_eq_foldl, foldl_storePair, Option.or_none]
  rfl

/-- A URI taken apart: the scheme, any number of slashes, the pool up to the next slash, the
manifest id up to the question mark and the query. -/
structure Splits (path pool manifestHex query : Text) : Prop where
  shape : ∃ slashes, path = kSchemeBare ++ (List.replicate slashes '/' ++
    ((pool ++ '/' :: manifestHex) ++ '?' :: query))
  pool_ne_nil : pool ≠ []
  slash_notMem_pool : '/' ∉ pool
  question_notMem_pool : '?' ∉ pool
  question_notMem_manifestHex : '?' ∉ manifestHex

/-- The slashes before a pool are skipped and no more. -/
theorem dropWhile_slashes (slashes : ℕ) {pool : Text} (hne : pool ≠ []) (hslash : '/' ∉ pool)
    (rest : Text) :
    (List.replicate slashes '/' ++ (pool ++ rest)).dropWhile (· = '/') = pool ++ rest := by
  induction slashes with
  | zero =>
    cases pool with
    | nil => exact absurd rfl hne
    | cons c pool =>
      have hc : c ≠ '/' := fun h => hslash (h ▸ List.mem_cons_self)
      simp [hc]
  | succ slashes ih =>
    rw [List.replicate_succ, List.cons_append, List.dropWhile_cons_of_pos (by simp), ih]

/-- The first question mark of a URI ends its manifest id. -/
theorem Splits.cut_question {path pool manifestHex query : Text}
    (h : Splits path pool manifestHex query) :
    cut '?' ((path.drop kSchemeBare.length).dropWhile (· = '/')) =
      some (pool ++ '/' :: manifestHex, query) := by
  obtain ⟨slashes, hpath⟩ := h.shape
  rw [hpath, List.drop_left, List.append_assoc,
    dropWhile_slashes slashes h.pool_ne_nil h.slash_notMem_pool, ← List.append_assoc]
  refine cut_append ?_ query
  rw [List.mem_append, List.mem_cons, not_or, not_or]
  exact ⟨h.question_notMem_pool, by decide, h.question_notMem_manifestHex⟩

/-- A URI is taken apart in one way. -/
theorem Splits.unique {path pool manifestHex query pool' manifestHex' query' : Text}
    (h : Splits path pool manifestHex query) (h' : Splits path pool' manifestHex' query') :
    pool = pool' ∧ manifestHex = manifestHex' ∧ query = query' := by
  have hsame := h.cut_question.symm.trans h'.cut_question
  obtain ⟨hauthority, hquery⟩ := Prod.mk.inj (Option.some.inj hsame)
  have hslash := congrArg (cut '/') hauthority
  rw [cut_append h.slash_notMem_pool, cut_append h'.slash_notMem_pool] at hslash
  obtain ⟨hpool, hmanifestHex⟩ := Prod.mk.inj (Option.some.inj hslash)
  exact ⟨hpool, hmanifestHex, hquery⟩

/-- A URI that is taken apart is read from the parts. -/
theorem parseFlockUri_of_splits {path pool manifestHex query : Text}
    (h : Splits path pool manifestHex query) :
    parseFlockUri path = readFields path pool manifestHex (lastValue query) := by
  obtain ⟨slashes, hpath⟩ := h.shape
  have hprefix : kSchemeBare <+: path := ⟨_, hpath.symm⟩
  rw [parseFlockUri, if_neg (not_not.mpr hprefix)]
  simp only [h.cut_question, cut_append h.slash_notMem_pool, scanPairs_eq]

/-- A URI that cannot be taken apart is refused. -/
theorem parseFlockUri_of_not_splits {path : Text}
    (h : ¬∃ pool manifestHex query, Splits path pool manifestHex query) :
    ∃ message, parseFlockUri path = .error (.invalidInputException message) := by
  rw [parseFlockUri]
  by_cases hprefix : kSchemeBare <+: path
  · rw [if_neg (not_not.mpr hprefix)]
    obtain ⟨text, rfl⟩ := hprefix
    simp only [List.drop_left]
    cases hquestion : cut '?' (text.dropWhile (· = '/')) with
    | none => exact ⟨_, rfl⟩
    | some parts =>
      obtain ⟨authority, query⟩ := parts
      simp only
      cases hslash : cut '/' authority with
      | none => exact ⟨_, rfl⟩
      | some parts =>
        obtain ⟨pool, manifestHex⟩ := parts
        obtain ⟨hrest, hauthority⟩ := cut_eq_some_iff.mp hquestion
        obtain ⟨rfl, hpool⟩ := cut_eq_some_iff.mp hslash
        rw [List.mem_append, List.mem_cons, not_or, not_or] at hauthority
        refine absurd ⟨pool, manifestHex, query, ?_, ?_, hpool, hauthority.1, hauthority.2.2⟩ h
        · have hslashes : text.takeWhile (· = '/') =
              List.replicate (text.takeWhile (· = '/')).length '/' :=
            List.eq_replicate_iff.mpr ⟨rfl, fun c hc => by simpa using List.mem_takeWhile_imp hc⟩
          refine ⟨(text.takeWhile (· = '/')).length, ?_⟩
          rw [← hrest, ← hslashes, List.takeWhile_append_dropWhile]
        · -- after the slashes comes another character
          rintro rfl
          have hhead := List.head?_dropWhile_not (fun c : Char => decide (c = '/')) text
          rw [hrest] at hhead
          simp at hhead
  · rw [if_pos hprefix]
    exact ⟨_, rfl⟩

/-- A parameter that is there and not empty. -/
def Present (kv : Params) (key : String) (value : Text) : Prop :=
  kv key.toList = some value ∧ value ≠ []

/-- A parameter has one value. -/
theorem Present.unique {kv : Params} {key : String} {value value' : Text}
    (h : Present kv key value) (h' : Present kv key value') : value = value' :=
  Option.some.inj (h.1.symm.trans h'.1)

/-- A parameter that is there is found. -/
theorem require_of_present {kv : Params} {key : String} {value : Text}
    (h : Present kv key value) (path : Text) : require path kv key.toList = .ok value := by
  obtain ⟨hvalue, hne⟩ := h
  rw [require, hvalue]
  cases value with
  | nil => exact absurd rfl hne
  | cons c value => rfl

/-- A parameter that is missing is refused. -/
theorem require_of_absent {kv : Params} {key : String} (h : ¬∃ value, Present kv key value)
    (path : Text) :
    ∃ message, require path kv key.toList = .error (.invalidInputException message) := by
  rw [require]
  cases hvalue : kv key.toList with
  | none => exact ⟨_, rfl⟩
  | some value =>
    cases value with
    | nil => exact ⟨_, rfl⟩
    | cons c value => exact absurd ⟨_, hvalue, List.cons_ne_nil c value⟩ h

/-- A string of the grammar, and what it says: a URI with a manifest id and the four
parameters, two of which are numerals. More slashes, more parameters and earlier values of a
name are passed over. -/
structure InGrammar (path : Text) (uri : FlockUri) (query pageSize totalLen : Text) : Prop where
  splits : Splits path uri.pool uri.manifestHex query
  manifestHex_ne_nil : uri.manifestHex ≠ []
  remote_present : Present (lastValue query) "remote" uri.remoteDir
  cache_present : Present (lastValue query) "cache" uri.cacheDir
  pageSize_present : Present (lastValue query) "page_size" pageSize
  pageSize_numeral : Numeral pageSize uri.pageSize
  totalLen_present : Present (lastValue query) "len" totalLen
  totalLen_numeral : Numeral totalLen uri.totalLen

/-- The fields are read from the parameters in their order. -/
theorem readFields_of_present {path pool manifestHex remote cache pageSize totalLen : Text}
    {kv : Params} (hremote : Present kv "remote" remote) (hcache : Present kv "cache" cache)
    (hpageSize : Present kv "page_size" pageSize) (htotalLen : Present kv "len" totalLen) :
    readFields path pool manifestHex kv = do
      let pageSize ← stoull pageSize
      let totalLen ← stoull totalLen
      return ⟨pool, manifestHex, remote, cache, pageSize, totalLen⟩ := by
  rw [readFields, require_of_present hremote, require_of_present hcache,
    require_of_present hpageSize, require_of_present htotalLen]
  rfl

/-- A string of the grammar parses to what it says. -/
theorem parseFlockUri_of_inGrammar {path query pageSize totalLen : Text} {uri : FlockUri}
    (h : InGrammar path uri query pageSize totalLen) : parseFlockUri path = .ok uri := by
  rw [parseFlockUri_of_splits h.splits,
    readFields_of_present h.remote_present h.cache_present h.pageSize_present h.totalLen_present,
    stoull_of_numeral h.pageSize_numeral, stoull_of_numeral h.totalLen_numeral]
  rfl

/-- What is claimed of a string: if the grammar has it, it parses to what it says, and
otherwise it is refused with `InvalidInputException`. -/
def Meets (path : Text) : Prop :=
  (∀ uri query pageSize totalLen, InGrammar path uri query pageSize totalLen →
    parseFlockUri path = .ok uri) ∧
  ((¬∃ uri query pageSize totalLen, InGrammar path uri query pageSize totalLen) →
    ∃ message, parseFlockUri path = .error (.invalidInputException message))

/-- A string that slips through: it has all the parts up to a page size that `std::stoull`
throws at, or all the parts where the manifest id is empty or one of the numbers no numeral. -/
def Slips (path : Text) : Prop :=
  ∃ pool manifestHex query remote cache pageSize, Splits path pool manifestHex query ∧
    Present (lastValue query) "remote" remote ∧ Present (lastValue query) "cache" cache ∧
    Present (lastValue query) "page_size" pageSize ∧
    ((∀ n, stoull pageSize ≠ .ok n) ∨ ∃ totalLen, Present (lastValue query) "len" totalLen ∧
      (manifestHex = [] ∨ (¬∃ n, Numeral pageSize n) ∨ ¬∃ n, Numeral totalLen n))

/-- A string that slips through is not in the grammar. -/
theorem Slips.not_inGrammar {path query pageSize totalLen : Text} {uri : FlockUri}
    (hslips : Slips path) (h : InGrammar path uri query pageSize totalLen) : False := by
  obtain ⟨pool, manifestHex, query', remote, cache, pageSize', hsplits, -, -, hpageSize, hslip⟩ :=
    hslips
  obtain ⟨rfl, rfl, rfl⟩ := hsplits.unique h.splits
  obtain rfl := hpageSize.unique h.pageSize_present
  rcases hslip with hthrows | ⟨totalLen', htotalLen, hempty | hnumeral | hnumeral⟩
  · exact hthrows _ (stoull_of_numeral h.pageSize_numeral)
  · exact h.manifestHex_ne_nil hempty
  · exact hnumeral ⟨_, h.pageSize_numeral⟩
  · obtain rfl := htotalLen.unique h.totalLen_present
    exact hnumeral ⟨_, h.totalLen_numeral⟩

/-- A string that slips through is not refused with `InvalidInputException`. -/
theorem Slips.not_refused {path message : Text} (hslips : Slips path) :
    parseFlockUri path ≠ .error (.invalidInputException message) := by
  obtain ⟨pool, manifestHex, query, remote, cache, pageSize, hsplits, hremote, hcache, hpageSize,
    hslip⟩ := hslips
  rw [parseFlockUri_of_splits hsplits]
  rcases hslip with hthrows | ⟨totalLen, htotalLen, -⟩
  · rw [readFields, require_of_present hremote, require_of_present hcache,
      require_of_present hpageSize]
    dsimp only [bind, Except.bind]
    cases hnumber : stoull pageSize with
    | error e =>
      intro h
      obtain rfl : e = .invalidInputException message := Except.error.inj h
      exact stoull_error hnumber
    | ok n => exact absurd hnumber (hthrows n)
  · rw [readFields_of_present hremote hcache hpageSize htotalLen]
    cases hnumber : stoull pageSize with
    | error e =>
      intro h
      obtain rfl : e = .invalidInputException message := Except.error.inj h
      exact stoull_error hnumber
    | ok n =>
      cases hnumber' : stoull totalLen with
      | error e =>
        intro h
        obtain rfl : e = .invalidInputException message := Except.error.inj h
        exact stoull_error hnumber'
      | ok n' =>
        intro h
        cases h

/-- A string that is not in the grammar and does not slip through is refused. -/
theorem refused_of_not_slips {path : Text} (hslips : ¬Slips path)
    (hgrammar : ¬∃ uri query pageSize totalLen, InGrammar path uri query pageSize totalLen) :
    ∃ message, parseFlockUri path = .error (.invalidInputException message) := by
  by_cases hsplits : ∃ pool manifestHex query, Splits path pool manifestHex query
  · obtain ⟨pool, manifestHex, query, hsplits⟩ := hsplits
    rw [parseFlockUri_of_splits hsplits, readFields]
    by_cases hremote : ∃ remote, Present (lastValue query) "remote" remote
    · obtain ⟨remote, hremote⟩ := hremote
      rw [require_of_present hremote]
      by_cases hcache : ∃ cache, Present (lastValue query) "cache" cache
      · obtain ⟨cache, hcache⟩ := hcache
        rw [require_of_present hcache]
        by_cases hpageSize : ∃ pageSize, Present (lastValue query) "page_size" pageSize
        · obtain ⟨pageSize, hpageSize⟩ := hpageSize
          rw [require_of_present hpageSize]
          dsimp only [bind, Except.bind]
          cases hnumber : stoull pageSize with
          | error e =>
            have hthrows : ∀ n, stoull pageSize ≠ .ok n := by simp [hnumber]
            exact absurd ⟨pool, manifestHex, query, remote, cache, pageSize, hsplits, hremote,
              hcache, hpageSize, .inl hthrows⟩ hslips
          | ok n =>
            by_cases htotalLen : ∃ totalLen, Present (lastValue query) "len" totalLen
            · obtain ⟨totalLen, htotalLen⟩ := htotalLen
              have hall (hslip : manifestHex = [] ∨ (¬∃ n, Numeral pageSize n) ∨
                  ¬∃ n, Numeral totalLen n) : False :=
                hslips ⟨pool, manifestHex, query, remote, cache, pageSize, hsplits, hremote,
                  hcache, hpageSize, .inr ⟨totalLen, htotalLen, hslip⟩⟩
              simp only [imp_false, not_or, not_not] at hall
              obtain ⟨hmanifestHex, ⟨n, hn⟩, ⟨n', hn'⟩⟩ := hall
              exact absurd ⟨⟨pool, manifestHex, remote, cache, n, n'⟩, query, pageSize, totalLen,
                hsplits, hmanifestHex, hremote, hcache, hpageSize, hn, htotalLen, hn'⟩ hgrammar
            · obtain ⟨message, hrequire⟩ := require_of_absent htotalLen path
              rw [hrequire]
              exact ⟨message, rfl⟩
        · obtain ⟨message, hrequire⟩ := require_of_absent hpageSize path
          rw [hrequire]
          exact ⟨message, rfl⟩
      · obtain ⟨message, hrequire⟩ := require_of_absent hcache path
        rw [hrequire]
        exact ⟨message, rfl⟩
    · obtain ⟨message, hrequire⟩ := require_of_absent hremote path
      rw [hrequire]
      exact ⟨message, rfl⟩
  · exact parseFlockUri_of_not_splits hsplits

/-- A string is treated as claimed exactly if it does not slip through. -/
theorem meets_iff (path : Text) : Meets path ↔ ¬Slips path := by
  constructor
  · rintro ⟨-, hrefused⟩ hslips
    obtain ⟨message, herror⟩ := hrefused fun ⟨_, _, _, _, h⟩ => hslips.not_inGrammar h
    exact hslips.not_refused herror
  · intro hslips
    exact ⟨fun _ _ _ _ h => parseFlockUri_of_inGrammar h, refused_of_not_slips hslips⟩

/-- The parameters of a URI, the numbers in decimal. -/
def FlockUri.parameters (uri : FlockUri) : List (Text × Text) :=
  [("remote".toList, uri.remoteDir), ("cache".toList, uri.cacheDir),
    ("page_size".toList, Nat.toDigits 10 uri.pageSize),
    ("len".toList, Nat.toDigits 10 uri.totalLen)]

/-- A URI in the canonical form, with its parameters in some order. -/
def FlockUri.canonical (uri : FlockUri) (slashes : ℕ) (parameters : List (Text × Text)) : Text :=
  kSchemeBare ++ (List.replicate slashes '/' ++ ((uri.pool ++ '/' :: uri.manifestHex) ++ '?' ::
    ['&'].intercalate (parameters.map fun parameter => parameter.1 ++ '=' :: parameter.2)))

/-- Fields that the canonical form can carry: none of them has a character that ends it, and
those that the form cannot leave empty are not. -/
structure FlockUri.Plain (uri : FlockUri) : Prop where
  pool_ne_nil : uri.pool ≠ []
  slash_notMem_pool : '/' ∉ uri.pool
  question_notMem_pool : '?' ∉ uri.pool
  question_notMem_manifestHex : '?' ∉ uri.manifestHex
  remoteDir_ne_nil : uri.remoteDir ≠ []
  ampersand_notMem_remoteDir : '&' ∉ uri.remoteDir
  cacheDir_ne_nil : uri.cacheDir ≠ []
  ampersand_notMem_cacheDir : '&' ∉ uri.cacheDir

/-- No value of a query has the character that ends it. -/
theorem ampersand_notMem_lastValue {query key value : Text}
    (h : lastValue query key = some value) : '&' ∉ value := by
  obtain ⟨before, after, hpairs, -⟩ := List.lookup_eq_some_iff.mp h
  have hmem : (key, value) ∈ (query.splitOn '&').filterMap (cut '=') := by
    rw [← List.mem_reverse, hpairs]
    simp
  obtain ⟨piece, hpiece, hcut⟩ := List.mem_filterMap.mp hmem
  obtain ⟨rfl, -⟩ := cut_eq_some_iff.mp hcut
  have hnotMem := notMem_of_mem_splitOn hpiece
  rw [List.mem_append, List.mem_cons, not_or, not_or] at hnotMem
  exact hnotMem.2.2

/-- Fields that were read are those of the parts and the parameters. -/
theorem readFields_ok {path pool manifestHex : Text} {kv : Params} {uri : FlockUri}
    (h : readFields path pool manifestHex kv = .ok uri) :
    uri.pool = pool ∧ uri.manifestHex = manifestHex ∧ Present kv "remote" uri.remoteDir ∧
      Present kv "cache" uri.cacheDir := by
  rw [readFields] at h
  by_cases hremote : ∃ remote, Present kv "remote" remote
  · obtain ⟨remote, hremote⟩ := hremote
    rw [require_of_present hremote] at h
    by_cases hcache : ∃ cache, Present kv "cache" cache
    · obtain ⟨cache, hcache⟩ := hcache
      rw [require_of_present hcache] at h
      dsimp only [bind, Except.bind] at h
      split at h
      · cases h
      · split at h
        · cases h
        · split at h
          · cases h
          · split at h
            · cases h
            · cases h
              exact ⟨rfl, rfl, hremote, hcache⟩
    · obtain ⟨message, hrequire⟩ := require_of_absent hcache path
      rw [hrequire] at h
      cases h
  · obtain ⟨message, hrequire⟩ := require_of_absent hremote path
    rw [hrequire] at h
    cases h

/-- Whatever a string parses to, its fields are plain. -/
theorem plain_of_parseFlockUri {path : Text} {uri : FlockUri}
    (h : parseFlockUri path = .ok uri) : uri.Plain := by
  by_cases hsplits : ∃ pool manifestHex query, Splits path pool manifestHex query
  · obtain ⟨pool, manifestHex, query, hsplits⟩ := hsplits
    rw [parseFlockUri_of_splits hsplits] at h
    obtain ⟨rfl, rfl, hremote, hcache⟩ := readFields_ok h
    exact ⟨hsplits.pool_ne_nil, hsplits.slash_notMem_pool, hsplits.question_notMem_pool,
      hsplits.question_notMem_manifestHex, hremote.2, ampersand_notMem_lastValue hremote.1,
      hcache.2, ampersand_notMem_lastValue hcache.1⟩
  · obtain ⟨message, herror⟩ := parseFlockUri_of_not_splits hsplits
    rw [herror] at h
    cases h

/-- A decimal number has no `&`. -/
theorem ampersand_notMem_toDigits (n : ℕ) : '&' ∉ Nat.toDigits 10 n := fun h => by
  have hdigit := Nat.isDigit_of_mem_toDigits (by decide) (by decide) h
  cases hdigit

/-- The parameters of a plain URI can be told apart in its query. -/
theorem FlockUri.Plain.parameters {uri : FlockUri} (h : uri.Plain) :
    ∀ parameter ∈ uri.parameters,
      '=' ∉ parameter.1 ∧ '&' ∉ parameter.1 ++ '=' :: parameter.2 := by
  have hvalue {key value : Text} (hkey : '&' ∉ key) (hvalue : '&' ∉ value) :
      '&' ∉ key ++ '=' :: value := by
    rw [List.mem_append, List.mem_cons, not_or, not_or]
    exact ⟨hkey, by decide, hvalue⟩
  simp only [FlockUri.parameters, List.forall_mem_cons]
  exact ⟨⟨by decide, hvalue (by decide) h.ampersand_notMem_remoteDir⟩,
    ⟨by decide, hvalue (by decide) h.ampersand_notMem_cacheDir⟩,
    ⟨by decide, hvalue (by decide) (ampersand_notMem_toDigits _)⟩,
    ⟨by decide, hvalue (by decide) (ampersand_notMem_toDigits _)⟩, fun _ h => by cases h⟩

/-- The query of a plain URI gives its parameters. -/
theorem lastValue_canonical {uri : FlockUri} (h : uri.Plain) {parameters : List (Text × Text)}
    (hperm : parameters.Perm uri.parameters) {key value : Text}
    (hmem : (key, value) ∈ uri.parameters) :
    lastValue (['&'].intercalate
      (parameters.map fun parameter => parameter.1 ++ '=' :: parameter.2)) key = some value := by
  have hparameters : ∀ parameter ∈ parameters,
      '=' ∉ parameter.1 ∧ '&' ∉ parameter.1 ++ '=' :: parameter.2 :=
    fun parameter hparameter => h.parameters parameter (hperm.mem_iff.mp hparameter)
  have hne : parameters ≠ [] := by
    rintro rfl
    have hlength := hperm.length_eq
    cases hlength
  have hpieces : (['&'].intercalate
      (parameters.map fun parameter => parameter.1 ++ '=' :: parameter.2)).splitOn '&' =
      parameters.map fun parameter => parameter.1 ++ '=' :: parameter.2 := by
    refine List.splitOn_intercalate '&' (fun piece hpiece => ?_) (by simpa using hne)
    obtain ⟨parameter, hparameter, rfl⟩ := List.mem_map.mp hpiece
    exact (hparameters parameter hparameter).2
  have hcut : (parameters.map fun parameter => parameter.1 ++ '=' :: parameter.2).filterMap
      (cut '=') = parameters := by
    rw [List.filterMap_map]
    refine (List.filterMap_congr fun parameter hparameter => ?_).trans List.filterMap_some
    exact cut_append (hparameters parameter hparameter).1 _
  have hkeys : (parameters.reverse.map Prod.fst).Nodup := by
    have hperm' := ((List.reverse_perm parameters).trans hperm).map Prod.fst
    rw [hperm'.nodup_iff]
    simp only [FlockUri.parameters, List.map_cons, List.map_nil]
    decide
  rw [lastValue, hpieces, hcut, lookup_eq_some_iff_mem hkeys, List.mem_reverse, hperm.mem_iff]
  exact hmem

/-- The canonical form of a URI parses back to it exactly if its fields are plain. -/
theorem parseFlockUri_canonical {uri : FlockUri} (hpageSize : uri.pageSize < 2 ^ 64)
    (htotalLen : uri.totalLen < 2 ^ 64) (slashes : ℕ) {parameters : List (Text × Text)}
    (hperm : parameters.Perm uri.parameters) :
    parseFlockUri (uri.canonical slashes parameters) = .ok uri ↔ uri.Plain := by
  refine ⟨plain_of_parseFlockUri, fun h => ?_⟩
  have hsplits : Splits (uri.canonical slashes parameters) uri.pool uri.manifestHex
      (['&'].intercalate (parameters.map fun parameter => parameter.1 ++ '=' :: parameter.2)) :=
    ⟨⟨slashes, rfl⟩, h.pool_ne_nil, h.slash_notMem_pool, h.question_notMem_pool,
      h.question_notMem_manifestHex⟩
  have hpresent (key : String) (value : Text) (hmem : (key.toList, value) ∈ uri.parameters)
      (hne : value ≠ []) : Present (lastValue (['&'].intercalate
        (parameters.map fun parameter => parameter.1 ++ '=' :: parameter.2))) key value :=
    ⟨lastValue_canonical h hperm hmem, hne⟩
  rw [parseFlockUri_of_splits hsplits, readFields_of_present
    (hpresent "remote" uri.remoteDir (by simp [FlockUri.parameters]) h.remoteDir_ne_nil)
    (hpresent "cache" uri.cacheDir (by simp [FlockUri.parameters]) h.cacheDir_ne_nil)
    (hpresent "page_size" (Nat.toDigits 10 uri.pageSize) (by simp [FlockUri.parameters])
      Nat.toDigits_ne_nil)
    (hpresent "len" (Nat.toDigits 10 uri.totalLen) (by simp [FlockUri.parameters])
      Nat.toDigits_ne_nil),
    stoull_of_numeral (numeral_toDigits hpageSize), stoull_of_numeral (numeral_toDigits htotalLen)]
  rfl

/-- **When a URI means what it says.** The canonical form of some fields, with any number of
slashes and its parameters in any order, parses back to them exactly if the fields are plain.
A string parses to what it says if it is in the grammar and is refused with
`InvalidInputException` if it is not, exactly if it does not slip through. -/
theorem parseFlockUri_iff (path : Text) :
    (∀ (uri : FlockUri) (slashes : ℕ) (parameters : List (Text × Text)),
      uri.pageSize < 2 ^ 64 → uri.totalLen < 2 ^ 64 → parameters.Perm uri.parameters →
      (parseFlockUri (uri.canonical (slashes + 1) parameters) = .ok uri ↔ uri.Plain)) ∧
    (Meets path ↔ ¬Slips path) :=
  ⟨fun _ slashes _ hpageSize htotalLen hperm =>
    parseFlockUri_canonical hpageSize htotalLen (slashes + 1) hperm, meets_iff path⟩

/-- A URI whose page size is no numeral and whose length is negative. -/
def slippery : Text := "flock:/p/m?remote=/r&cache=/c&page_size=4096kb&len=-1".toList

/-- A URI whose remote directory has an `&`. -/
def ampersand : FlockUri :=
  ⟨"p".toList, "m".toList, "/a&b".toList, "/c".toList, 4096, 1⟩

/-- **A malformed number is read as another one.** A page size of `4096kb` and a length of `-1`
are accepted, and a directory with an `&` is cut off there. -/
theorem parseFlockUri_slippery :
    parseFlockUri slippery =
      .ok ⟨"p".toList, "m".toList, "/r".toList, "/c".toList, 4096, 2 ^ 64 - 1⟩ ∧
    ¬Meets slippery ∧
    parseFlockUri (ampersand.canonical 2 ampersand.parameters) =
      .ok { ampersand with remoteDir := "/a".toList } := by
  refine ⟨by decide +kernel, fun h => ?_, by decide +kernel⟩
  have hsplits : Splits slippery "p".toList "m".toList
      "remote=/r&cache=/c&page_size=4096kb&len=-1".toList :=
    ⟨⟨1, by decide +kernel⟩, by decide, by decide, by decide, by decide⟩
  obtain ⟨message, hrefused⟩ := h.2 fun ⟨uri, query, pageSize, totalLen, hgrammar⟩ => by
    obtain ⟨-, -, rfl⟩ := hsplits.unique hgrammar.splits
    have hvalue : some "4096kb".toList = some pageSize :=
      Eq.trans (by decide +kernel) hgrammar.pageSize_present.1
    have hdigits := hgrammar.pageSize_numeral.digits
    rw [← Option.some.inj hvalue] at hdigits
    exact absurd (hdigits 'k' (by decide)) (by decide)
  have haccepted : parseFlockUri slippery =
      .ok ⟨"p".toList, "m".toList, "/r".toList, "/c".toList, 4096, 2 ^ 64 - 1⟩ := by
    decide +kernel
  rw [haccepted] at hrefused
  cases hrefused

/-- A URI of two directories is read back with its parameters the other way around. -/
theorem parseFlockUri_reversed :
    let uri : FlockUri := ⟨"p".toList, "m".toList, "/r".toList, "/c".toList, 4096, 1500000⟩
    parseFlockUri (uri.canonical 2 uri.parameters.reverse) = .ok uri := by
  intro uri
  refine ((parseFlockUri_iff slippery).1 uri 1 uri.parameters.reverse (by decide) (by decide)
    (List.reverse_perm _)).mpr ?_
  constructor <;> decide

end FlockDb.Extension
