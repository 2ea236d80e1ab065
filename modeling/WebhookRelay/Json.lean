import WebhookRelay.Text

/-
  The `json` module of CPython: values (`Json`), `json.loads` (`loads`) and the
  two ways of writing a value that are used below, `json.dumps` of a flat
  object of strings with its defaults (`dumpsObject`) and the strict encoding
  of a whole value as a UTF-8 response body (`render`).

  `loads` follows the C scanner: white space, the order in which errors arise,
  duplicate keys (the last value wins, at the first position), `NaN`,
  `Infinity` and `-Infinity`, and escapes that spell lone surrogates. What
  depends on the interpreter is a parameter (`Interp`): the conversion of a
  float literal, the nesting limit, and the limit on the digits of an integer.

  What is proved is `loads_dumpsObject`: an object of strings without lone
  surrogates reads back as it was written, whatever characters they hold.
-/
namespace Py

/-- A `float`. A finite one is carried by its `repr`, which determines it. -/
inductive Float where
  | nan
  | inf (negative : Bool)
  | finite (repr : String)
  deriving DecidableEq, Repr

/-- A value `json.loads` produces. -/
inductive Json where
  | null
  | bool (b : Bool)
  | int (i : Int)
  | float (f : Float)
  | str (s : Str)
  | arr (items : List Json)
  | obj (items : List (Str × Json))

/-- What `json.loads` takes from the interpreter: `float()` of a literal, the
nesting depth at which RecursionError is raised, and the limit on the digits of
an integer literal. -/
structure Interp where
  floatOf : List Char → Float
  maxDepth : Nat
  maxDepth_pos : 0 < maxDepth
  maxDigits : Nat

/-- The exceptions of `json.loads`. -/
inductive LoadsError where
  | jsonDecodeError
  | valueError
  | recursionError
  deriving DecidableEq, Repr

abbrev Loads (α : Type) := Except LoadsError α

/-! ## Reading -/

def isJsonSpace (c : Char) : Bool := c == ' ' || c == '\t' || c == '\n' || c == '\r'

def skipSpace (s : List Char) : List Char := s.dropWhile isJsonSpace

def hexDigit? (c : Char) : Option Nat :=
  let n := c.toNat
  if 48 ≤ n ∧ n ≤ 57 then some (n - 48)
  else if 97 ≤ n ∧ n ≤ 102 then some (n - 87)
  else if 65 ≤ n ∧ n ≤ 70 then some (n - 55)
  else none

/-- The code unit of four hex digits. -/
def hex4? (a b c d : Char) : Option CodePoint :=
  match hexDigit? a, hexDigit? b, hexDigit? c, hexDigit? d with
  | some x, some y, some z, some w =>
    if h : x * 4096 + y * 256 + z * 16 + w < 0x110000 then
      some ⟨x * 4096 + y * 256 + z * 16 + w, h⟩
    else none
  | _, _, _, _ => none

/-- The character of a one-letter escape. -/
def unescape? (c : Char) : Option CodePoint :=
  if c = '"' then some (.ofChar '"')
  else if c = '\\' then some (.ofChar '\\')
  else if c = '/' then some (.ofChar '/')
  else if c = 'b' then some ⟨8, by decide⟩
  else if c = 'f' then some ⟨12, by decide⟩
  else if c = 'n' then some ⟨10, by decide⟩
  else if c = 'r' then some ⟨13, by decide⟩
  else if c = 't' then some ⟨9, by decide⟩
  else none

/-- The inside of a string literal up to its closing quote, escapes decoded one
by one, and what follows the quote. -/
def scanUnits : List Char → Option (Str × List Char)
  | [] => none
  | c :: rest =>
    if c = '"' then some ([], rest)
    else if c = '\\' then
      match rest with
      | 'u' :: x :: y :: z :: w :: rest =>
        match hex4? x y z w with
        | some u => (scanUnits rest).map (fun r => (u :: r.1, r.2))
        | none => none
      | e :: rest =>
        match unescape? e with
        | some u => (scanUnits rest).map (fun r => (u :: r.1, r.2))
        | none => none
      | [] => none
    else if c.toNat < 0x20 then none
    else (scanUnits rest).map (fun r => (.ofChar c :: r.1, r.2))

/-- The code point of a surrogate pair. -/
def joinPair (hi lo : CodePoint) : CodePoint :=
  ⟨0x10000 + (hi.val % 0x400) * 0x400 + lo.val % 0x400, by omega⟩

/-- An escaped high surrogate directly followed by an escaped low one is one
character; any other surrogate stays. (Unescaped text has none.) -/
def joinPairs : Str → Str
  | [] => []
  | u :: us =>
    if u.isHigh then
      match us with
      | v :: us => if v.isLow then joinPair u v :: joinPairs us else u :: joinPairs (v :: us)
      | [] => [u]
    else u :: joinPairs us

/-- `scanstring` after the opening quote. -/
def scanString (s : List Char) : Option (Str × List Char) :=
  (scanUnits s).map (fun r => (joinPairs r.1, r.2))

def isDigit (c : Char) : Bool := '0' ≤ c && c ≤ '9'

/-- The digits of an integer part: `0`, or a run not starting with `0`. -/
def intPart : List Char → List Char × List Char
  | [] => ([], [])
  | c :: s => if c = '0' then (['0'], s) else ((c :: s).takeWhile isDigit, (c :: s).dropWhile isDigit)

/-- The fraction, if a point is followed by a digit. -/
def fracPart : List Char → List Char × List Char
  | '.' :: c :: s =>
    if isDigit c then ('.' :: (c :: s).takeWhile isDigit, (c :: s).dropWhile isDigit)
    else ([], '.' :: c :: s)
  | s => ([], s)

/-- The digits of an exponent after its sign, if there are any. -/
def expDigits (head : List Char) (whole s : List Char) : List Char × List Char :=
  match s.takeWhile isDigit with
  | [] => ([], whole)
  | ds => (head ++ ds, s.dropWhile isDigit)

/-- The exponent, if it has digits. -/
def expPart : List Char → List Char × List Char
  | [] => ([], [])
  | e :: s =>
    if e = 'e' ∨ e = 'E' then
      match s with
      | '-' :: t => expDigits [e, '-'] (e :: s) t
      | '+' :: t => expDigits [e, '+'] (e :: s) t
      | t => expDigits [e] (e :: s) t
    else ([], e :: s)

/-- The value of a run of decimal digits. -/
def digitsValue (ds : List Char) : Nat := ds.foldl (fun n c => n * 10 + (c.toNat - 48)) 0

/-- A number after its optional minus sign. -/
def scanNumber (it : Interp) (negative : Bool) (s : List Char) : Loads (Json × List Char) :=
  let (ds, rest) := intPart s
  if ds.isEmpty then .error .jsonDecodeError
  else
    let (frac, rest) := fracPart rest
    let (exp, rest) := expPart rest
    if frac.isEmpty && exp.isEmpty then
      if it.maxDigits < ds.length then .error .valueError
      else
        let n : Int := digitsValue ds
        .ok (.int (if negative then -n else n), rest)
    else .ok (.float (it.floatOf ((if negative then ['-'] else []) ++ ds ++ frac ++ exp)), rest)

/-- `s` after the literal `word`, if it starts with it. -/
def afterWord : List Char → List Char → Option (List Char)
  | [], s => some s
  | w :: ws, c :: s => if w = c then afterWord ws s else none
  | _ :: _, [] => none

/-- `scan_once`, given how an array and an object go on after their opening
bracket. -/
def scanWith (it : Interp) (array object : List Char → Loads (Json × List Char)) :
    List Char → Loads (Json × List Char)
  | [] => .error .jsonDecodeError
  | c :: s =>
    if c = '"' then
      match scanString s with
      | some (str, rest) => .ok (.str str, rest)
      | none => .error .jsonDecodeError
    else if c = '{' then object s
    else if c = '[' then array s
    else if let some rest := afterWord "null".toList (c :: s) then .ok (.null, rest)
    else if let some rest := afterWord "true".toList (c :: s) then .ok (.bool true, rest)
    else if let some rest := afterWord "false".toList (c :: s) then .ok (.bool false, rest)
    else if let some rest := afterWord "NaN".toList (c :: s) then .ok (.float .nan, rest)
    else if let some rest := afterWord "Infinity".toList (c :: s) then .ok (.float (.inf false), rest)
    else if let some rest := afterWord "-Infinity".toList (c :: s) then .ok (.float (.inf true), rest)
    else if c = '-' then scanNumber it true s
    else scanNumber it false (c :: s)

/-- `dict[key] = value` on insertion-ordered pairs. -/
def setItem (key : Str) (value : Json) : List (Str × Json) → List (Str × Json)
  | [] => [(key, value)]
  | (k, v) :: items => if k = key then (k, value) :: items else (k, v) :: setItem key value items

/-- The items of an array, the first one still to read. Each takes at least two
characters, so `fuel` is the length of the text. -/
def scanItems (scan : List Char → Loads (Json × List Char)) :
    (fuel : Nat) → List Json → List Char → Loads (Json × List Char)
  | 0, _, _ => .error .jsonDecodeError
  | fuel + 1, acc, s =>
    match scan s with
    | .error e => .error e
    | .ok (v, rest) =>
      match skipSpace rest with
      | ']' :: rest => .ok (.arr (acc ++ [v]), rest)
      | ',' :: rest => scanItems scan fuel (acc ++ [v]) (skipSpace rest)
      | _ => .error .jsonDecodeError

/-- The members of an object, the first key still to read. -/
def scanMembers (scan : List Char → Loads (Json × List Char)) :
    (fuel : Nat) → List (Str × Json) → List Char → Loads (Json × List Char)
  | 0, _, _ => .error .jsonDecodeError
  | fuel + 1, acc, s =>
    match s with
    | '"' :: s =>
      match scanString s with
      | none => .error .jsonDecodeError
      | some (key, rest) =>
        match skipSpace rest with
        | ':' :: rest =>
          match scan (skipSpace rest) with
          | .error e => .error e
          | .ok (v, rest) =>
            match skipSpace rest with
            | '}' :: rest => .ok (.obj (setItem key v acc), rest)
            | ',' :: rest => scanMembers scan fuel (setItem key v acc) (skipSpace rest)
            | _ => .error .jsonDecodeError
        | _ => .error .jsonDecodeError
    | _ => .error .jsonDecodeError

/-- An array after its bracket. -/
def scanArray (scan : List Char → Loads (Json × List Char)) (s : List Char) :
    Loads (Json × List Char) :=
  match skipSpace s with
  | ']' :: rest => .ok (.arr [], rest)
  | t => scanItems scan (t.length + 1) [] t

/-- An object after its brace. -/
def scanObject (scan : List Char → Loads (Json × List Char)) (s : List Char) :
    Loads (Json × List Char) :=
  match skipSpace s with
  | '}' :: rest => .ok (.obj [], rest)
  | t => scanMembers scan (t.length + 1) [] t

/-- `scan_once` with `depth` levels of nesting left. -/
def scanOnce (it : Interp) : (depth : Nat) → List Char → Loads (Json × List Char)
  | 0 => scanWith it (fun _ => .error .recursionError) (fun _ => .error .recursionError)
  | depth + 1 => scanWith it (scanArray (scanOnce it depth)) (scanObject (scanOnce it depth))

/-- `json.loads` of a `str`. -/
def loads (it : Interp) (s : List Char) : Loads Json :=
  match s with
  | '\uFEFF' :: _ => .error .jsonDecodeError
  | _ =>
    match scanOnce it it.maxDepth (skipSpace s) with
    | .error e => .error e
    | .ok (v, rest) => if (skipSpace rest).isEmpty then .ok v else .error .jsonDecodeError

/-! ## Writing -/

def hexChar (n : Nat) : Char := Char.ofNat (if n < 10 then 48 + n else 87 + n)

/-- `\\uXXXX`. -/
def unicodeEscape (n : Nat) : List Char :=
  ['\\', 'u', hexChar (n / 4096 % 16), hexChar (n / 256 % 16), hexChar (n / 16 % 16),
    hexChar (n % 16)]

/-- The UTF-16 code units of a code point, which `ensure_ascii` escapes. -/
def utf16 (u : CodePoint) : Str :=
  if u.val < 0x10000 then [u]
  else [⟨0xD800 + (u.val - 0x10000) / 0x400, by omega⟩,
    ⟨0xDC00 + (u.val - 0x10000) % 0x400, by omega⟩]

/-- The escape of the characters both writers treat alike. -/
def shortEscape? (n : Nat) : Option (List Char) :=
  if n = 34 then some ['\\', '"']
  else if n = 92 then some ['\\', '\\']
  else if n = 10 then some ['\\', 'n']
  else if n = 13 then some ['\\', 'r']
  else if n = 9 then some ['\\', 't']
  else if n = 12 then some ['\\', 'f']
  else if n = 8 then some ['\\', 'b']
  else none

/-- One character under `ensure_ascii=True`. -/
def escapeAscii (u : CodePoint) : List Char :=
  match shortEscape? u.val with
  | some e => e
  | none =>
    if 0x20 ≤ u.val ∧ u.val < 0x7F then [Char.ofNat u.val]
    else (utf16 u).flatMap (fun v => unicodeEscape v.val)

def quoteAscii (s : Str) : List Char := '"' :: (s.flatMap escapeAscii ++ ['"'])

def writeMember (m : Str × Str) : List Char := quoteAscii m.1 ++ (':' :: ' ' :: quoteAscii m.2)

/-- The members after the first, and the closing brace. -/
def writeMembers : List (Str × Str) → List Char
  | [] => ['}']
  | m :: ms => ',' :: ' ' :: (writeMember m ++ writeMembers ms)

/-- `json.dumps` of a dict of strings. -/
def dumpsObject : List (Str × Str) → List Char
  | [] => ['{', '}']
  | m :: ms => '{' :: (writeMember m ++ writeMembers ms)

/-- One character under `ensure_ascii=False`. -/
def escapePlain (u : CodePoint) : Str :=
  match shortEscape? u.val with
  | some e => .ofChars e
  | none => if u.val < 0x20 then .ofChars (unicodeEscape u.val) else [u]

def quotePlain (s : Str) : Str := .ofChar '"' :: (s.flatMap escapePlain ++ [.ofChar '"'])

def writeInt (i : Int) : Str :=
  .ofChars ((if i < 0 then ['-'] else []) ++ Nat.toDigits 10 i.natAbs)

/-- A number under `allow_nan=False`; `none` is ValueError. -/
def writeFloat : Float → Option Str
  | .finite repr => some (.ofChars repr.toList)
  | _ => none

def text (s : String) : Str := .ofChars s.toList

mutual

/-- `json.dumps(value, ensure_ascii=False, allow_nan=False, separators=(",", ":"))`;
`none` is ValueError. -/
def dumpsStrict : Json → Option Str
  | .null => some (text "null")
  | .bool b => some (text (if b then "true" else "false"))
  | .int i => some (writeInt i)
  | .float f => writeFloat f
  | .str s => some (quotePlain s)
  | .arr items => (dumpsItems items).map (fun t => text "[" ++ t ++ text "]")
  | .obj items => (dumpsFields items).map (fun t => text "\x7b" ++ t ++ text "\x7d")

def dumpsItems : List Json → Option Str
  | [] => some []
  | v :: vs =>
    match dumpsStrict v, dumpsItems vs with
    | some t, some ts => some (t ++ (if vs.isEmpty then [] else text ",") ++ ts)
    | _, _ => none

def dumpsFields : List (Str × Json) → Option Str
  | [] => some []
  | (k, v) :: vs =>
    match dumpsStrict v, dumpsFields vs with
    | some t, some ts =>
      some (quotePlain k ++ text ":" ++ t ++ (if vs.isEmpty then [] else text ",") ++ ts)
    | _, _ => none

end

inductive RenderError where
  | valueError
  | unicodeEncodeError
  deriving DecidableEq, Repr

/-- A JSON response body: the strict encoding, as UTF-8. -/
def render (v : Json) : Except RenderError (List Char) :=
  match dumpsStrict v with
  | none => .error .valueError
  | some t =>
    match t.encode with
    | none => .error .unicodeEncodeError
    | some cs => .ok cs

/-! ## What was written reads back -/

theorem hexDigit?_hexChar : ∀ n, n < 16 → hexDigit? (hexChar n) = some n := by decide

theorem hex4?_hexChars (n : Nat) (h : n < 0x10000) :
    hex4? (hexChar (n / 4096 % 16)) (hexChar (n / 256 % 16)) (hexChar (n / 16 % 16))
      (hexChar (n % 16)) = some ⟨n, by omega⟩ := by
  have hn : n / 4096 % 16 * 4096 + n / 256 % 16 * 256 + n / 16 % 16 * 16 + n % 16 = n := by omega
  simp only [hex4?, hexDigit?_hexChar _ (Nat.mod_lt _ (by decide : 0 < 16)), hn]
  rw [dif_pos (by omega)]

theorem scanUnits_quote (rest : List Char) : scanUnits ('"' :: rest) = some ([], rest) := by
  unfold scanUnits
  simp

theorem scanUnits_char {c : Char} (hq : c ≠ '"') (hb : c ≠ '\\') (hc : ¬ c.toNat < 0x20)
    (rest : List Char) :
    scanUnits (c :: rest) = (scanUnits rest).map (fun r => (.ofChar c :: r.1, r.2)) := by
  rw [scanUnits.eq_def]
  simp only [if_neg hq, if_neg hb, if_neg hc]

theorem scanUnits_letter {c : Char} {u : CodePoint} (hu : c ≠ 'u') (hc : unescape? c = some u)
    (rest : List Char) :
    scanUnits ('\\' :: c :: rest) = (scanUnits rest).map (fun r => (u :: r.1, r.2)) := by
  rw [scanUnits.eq_def]
  simp [hu, hc]

/-- Reading one escaped code unit. -/
theorem scanUnits_unicodeEscape (n : Nat) (h : n < 0x10000) (rest : List Char) :
    scanUnits (unicodeEscape n ++ rest) =
      (scanUnits rest).map (fun r => (⟨n, by omega⟩ :: r.1, r.2)) := by
  simp only [unicodeEscape, List.cons_append, List.nil_append]
  rw [scanUnits, if_neg (by decide), if_pos rfl]
  simp only [hex4?_hexChars n h]

/-- Reading a one-letter escape. -/
theorem scanUnits_shortEscape (u : CodePoint) {e : List Char} (h : shortEscape? u.val = some e)
    (rest : List Char) :
    scanUnits (e ++ rest) = (scanUnits rest).map (fun r => (u :: r.1, r.2)) := by
  have key : ∀ (c : Char) (v : CodePoint), e = ['\\', c] → c ≠ 'u' → unescape? c = some v → v = u →
      scanUnits (e ++ rest) = (scanUnits rest).map (fun r => (u :: r.1, r.2)) := by
    rintro c v rfl hu hc rfl
    exact scanUnits_letter hu hc rest
  unfold shortEscape? at h
  split at h
  · next hv => exact key '"' _ (Option.some.inj h).symm (by decide) rfl (Fin.ext hv.symm)
  split at h
  · next hv => exact key '\\' _ (Option.some.inj h).symm (by decide) rfl (Fin.ext hv.symm)
  split at h
  · next hv => exact key 'n' _ (Option.some.inj h).symm (by decide) rfl (Fin.ext hv.symm)
  split at h
  · next hv => exact key 'r' _ (Option.some.inj h).symm (by decide) rfl (Fin.ext hv.symm)
  split at h
  · next hv => exact key 't' _ (Option.some.inj h).symm (by decide) rfl (Fin.ext hv.symm)
  split at h
  · next hv => exact key 'f' _ (Option.some.inj h).symm (by decide) rfl (Fin.ext hv.symm)
  split at h
  · next hv => exact key 'b' _ (Option.some.inj h).symm (by decide) rfl (Fin.ext hv.symm)
  · cases h

theorem shortEscape?_none {n : Nat} (h : shortEscape? n = none) : n ≠ 34 ∧ n ≠ 92 := by
  refine ⟨?_, ?_⟩ <;> rintro rfl <;> exact absurd h (by decide)

theorem ofNat_plain {n : Nat} (h : n < 0x7F) : (Char.ofNat n).toNat = n := by
  have hv : n.isValidChar := Or.inl (by omega)
  rw [Char.ofNat, dif_pos hv]
  rfl

/-- Reading a character that stands for itself. -/
theorem scanUnits_plain (u : CodePoint) (hn : shortEscape? u.val = none)
    (hr : 0x20 ≤ u.val ∧ u.val < 0x7F) (rest : List Char) :
    scanUnits (Char.ofNat u.val :: rest) = (scanUnits rest).map (fun r => (u :: r.1, r.2)) := by
  obtain ⟨h34, h92⟩ := shortEscape?_none hn
  have ht : (Char.ofNat u.val).toNat = u.val := ofNat_plain hr.2
  have hq : Char.ofNat u.val ≠ '"' := fun h => h34 (by rw [← ht, h]; rfl)
  have hb : Char.ofNat u.val ≠ '\\' := fun h => h92 (by rw [← ht, h]; rfl)
  have hu : CodePoint.ofChar (Char.ofNat u.val) = u := Fin.ext ht
  rw [scanUnits_char hq hb (by rw [ht]; omega), hu]

theorem scanUnits_escapeAscii (u : CodePoint) (rest : List Char) :
    scanUnits (escapeAscii u ++ rest) = (scanUnits rest).map (fun r => (utf16 u ++ r.1, r.2)) := by
  unfold escapeAscii
  split
  · next e he =>
    have hlt : u.val < 0x10000 := by
      unfold shortEscape? at he
      repeat' split at he
      all_goals first | omega | cases he
    simp only [utf16, if_pos hlt]
    exact scanUnits_shortEscape u he rest
  · next hn =>
    split
    · next hr =>
      simp only [utf16, if_pos (show u.val < 0x10000 by omega)]
      exact scanUnits_plain u hn hr rest
    · unfold utf16
      split
      · next hlt =>
        simp only [List.flatMap_cons, List.flatMap_nil, List.append_nil]
        exact scanUnits_unicodeEscape u.val hlt rest
      · simp only [List.flatMap_cons, List.flatMap_nil, List.append_nil, List.append_assoc]
        rw [scanUnits_unicodeEscape _ (by omega), scanUnits_unicodeEscape _ (by omega),
          Option.map_map]
        rfl

theorem scanUnits_escaped (s : Str) (rest : List Char) :
    scanUnits (s.flatMap escapeAscii ++ '"' :: rest) = some (s.flatMap utf16, rest) := by
  induction s with
  | nil => rw [List.flatMap_nil, List.nil_append, scanUnits_quote]; rfl
  | cons u us ih =>
    rw [List.flatMap_cons, List.append_assoc, scanUnits_escapeAscii, ih, List.flatMap_cons]
    rfl

theorem joinPairs_single {u : CodePoint} (h : u.isHigh = false) (us : Str) :
    joinPairs (u :: us) = u :: joinPairs us := by
  rw [joinPairs.eq_def]
  simp only [h, Bool.false_eq_true, if_false]

theorem joinPairs_pair {u v : CodePoint} (hu : u.isHigh = true) (hv : v.isLow = true) (us : Str) :
    joinPairs (u :: v :: us) = joinPair u v :: joinPairs us := by
  rw [joinPairs.eq_def]
  simp only [hu, hv, if_true]

/-- Without surrogates, joining undoes the split into code units. -/
theorem joinPairs_utf16 (s : Str) (h : ∀ u ∈ s, u.isSurrogate = false) :
    joinPairs (s.flatMap utf16) = s := by
  induction s with
  | nil => rfl
  | cons u us ih =>
    have ih := ih (fun v hv => h v (List.mem_cons_of_mem u hv))
    have hu := h u List.mem_cons_self
    simp only [CodePoint.isSurrogate, Bool.and_eq_false_iff, decide_eq_false_iff_not] at hu
    rw [List.flatMap_cons, utf16]
    split
    · have hh : u.isHigh = false := by
        simp only [CodePoint.isHigh, Bool.and_eq_false_iff, decide_eq_false_iff_not]; omega
      rw [List.singleton_append, joinPairs_single hh, ih]
    · have hh : CodePoint.isHigh ⟨0xD800 + (u.val - 0x10000) / 0x400, by omega⟩ = true := by
        simp only [CodePoint.isHigh, Bool.and_eq_true, decide_eq_true_eq]; omega
      have hl : CodePoint.isLow ⟨0xDC00 + (u.val - 0x10000) % 0x400, by omega⟩ = true := by
        simp only [CodePoint.isLow, Bool.and_eq_true, decide_eq_true_eq]; omega
      rw [List.cons_append, List.singleton_append, joinPairs_pair hh hl, ih]
      refine congrArg (· :: us) (Fin.ext ?_)
      simp only [joinPair]
      omega

theorem scanString_quoted (s : Str) (h : ∀ u ∈ s, u.isSurrogate = false) (rest : List Char) :
    scanString (s.flatMap escapeAscii ++ '"' :: rest) = some (s, rest) := by
  rw [scanString, scanUnits_escaped, Option.map_some, joinPairs_utf16 s h]

theorem skipSpace_cons {c : Char} (h : isJsonSpace c = false) (s : List Char) :
    skipSpace (c :: s) = c :: s := by
  simp only [skipSpace, List.dropWhile_cons, h, Bool.false_eq_true, if_false]

theorem skipSpace_blank (s : List Char) : skipSpace (' ' :: s) = skipSpace s := by
  simp only [skipSpace, List.dropWhile_cons, show isJsonSpace ' ' = true from rfl, if_true]

theorem quoteAscii_append (s : Str) (rest : List Char) :
    quoteAscii s ++ rest = '"' :: (s.flatMap escapeAscii ++ '"' :: rest) := by
  simp only [quoteAscii, List.cons_append, List.append_assoc, List.nil_append]

/-- A written string reads back at any depth. -/
theorem scanOnce_quoteAscii (it : Interp) (depth : Nat) (s : Str)
    (h : ∀ u ∈ s, u.isSurrogate = false) (rest : List Char) :
    scanOnce it depth (quoteAscii s ++ rest) = .ok (.str s, rest) := by
  rw [quoteAscii_append]
  cases depth <;> simp only [scanOnce, scanWith, if_true, scanString_quoted s h]

theorem setItem_fresh {key : Str} (value : Json) {items : List (Str × Json)}
    (h : key ∉ items.map Prod.fst) : setItem key value items = items ++ [(key, value)] := by
  induction items with
  | nil => rfl
  | cons m ms ih =>
    obtain ⟨k, v⟩ := m
    simp only [List.map_cons, List.mem_cons, not_or] at h
    simp only [setItem, if_neg (Ne.symm h.1), ih h.2, List.cons_append]

/-- No surrogate in the strings of an object. -/
def Encodable (items : List (Str × Str)) : Prop :=
  ∀ m ∈ items, (∀ u ∈ m.1, u.isSurrogate = false) ∧ (∀ u ∈ m.2, u.isSurrogate = false)

/-- The members of a written object read back in order. -/
theorem scanMembers_written (it : Interp) (depth : Nat) :
    ∀ (ms : List (Str × Str)) (m : Str × Str) (fuel : Nat) (acc : List (Str × Json))
      (rest : List Char), ms.length < fuel → Encodable (m :: ms) →
      (acc.map Prod.fst ++ (m :: ms).map Prod.fst).Nodup →
      scanMembers (scanOnce it depth) fuel acc (writeMember m ++ (writeMembers ms ++ rest)) =
        .ok (.obj (acc ++ (m :: ms).map (fun x => (x.1, .str x.2))), rest)
  | ms, m, 0, _, _, hf, _, _ => absurd hf (Nat.not_lt_zero _)
  | ms, (k, v), fuel + 1, acc, rest, hf, henc, hnd => by
    obtain ⟨hk, hv⟩ := henc (k, v) List.mem_cons_self
    -- a repeated key would overwrite its first value in place
    have hfresh : k ∉ acc.map Prod.fst := by
      intro hmem
      exact (List.nodup_append.mp hnd).2.2 k hmem k (by simp) rfl
    simp only [writeMember, List.append_assoc, List.cons_append]
    rw [quoteAscii_append]
    simp only [scanMembers, scanString_quoted k hk, skipSpace_cons (show isJsonSpace ':' = false from rfl),
      skipSpace_blank]
    rw [quoteAscii_append v, skipSpace_cons (by rfl), ← quoteAscii_append v,
      scanOnce_quoteAscii it depth v hv]
    simp only [setItem_fresh _ hfresh]
    cases ms with
    | nil =>
      simp only [writeMembers, List.cons_append, List.nil_append,
        skipSpace_cons (show isJsonSpace '}' = false from rfl), List.map_cons, List.map_nil]
    | cons m' ms =>
      have hq : skipSpace (writeMember m' ++ (writeMembers ms ++ rest)) =
          writeMember m' ++ (writeMembers ms ++ rest) := by
        simp only [writeMember, List.append_assoc]
        rw [quoteAscii_append, skipSpace_cons (by rfl)]
      simp only [writeMembers, List.cons_append, List.append_assoc,
        skipSpace_cons (show isJsonSpace ',' = false from rfl), skipSpace_blank, hq]
      rw [scanMembers_written it depth ms m' fuel (acc ++ [(k, Json.str v)]) rest (by simp at hf; omega)
        (fun x hx => henc x (List.mem_cons_of_mem _ hx)) (by simpa using hnd)]
      simp only [List.map_cons, List.append_assoc, List.singleton_append]

/-- **A written object reads back.** `json.loads` of `json.dumps` of a dict of
strings without surrogates is that dict. -/
theorem loads_dumpsObject (it : Interp) (items : List (Str × Str))
    (henc : Encodable items) (hnd : (items.map Prod.fst).Nodup) :
    loads it (dumpsObject items) = .ok (.obj (items.map (fun m => (m.1, .str m.2)))) := by
  have hd := it.maxDepth_pos
  obtain ⟨depth, hdepth⟩ : ∃ d, it.maxDepth = d + 1 := ⟨it.maxDepth - 1, by omega⟩
  cases items with
  | nil =>
    simp only [loads, dumpsObject, hdepth, scanOnce, scanWith, scanObject,
      skipSpace_cons (show isJsonSpace '{' = false from rfl),
      skipSpace_cons (show isJsonSpace '}' = false from rfl)]
    rfl
  | cons m ms =>
    have hobj : scanObject (scanOnce it depth) (writeMember m ++ writeMembers ms) =
        .ok (.obj ((m :: ms).map (fun x => (x.1, .str x.2))), []) := by
      have hs : skipSpace (writeMember m ++ writeMembers ms) = writeMember m ++ writeMembers ms := by
        simp only [writeMember, List.append_assoc]
        rw [quoteAscii_append, skipSpace_cons (by rfl)]
      -- the fuel is the length of the text, more than one for each member
      have hlen : ms.length < (writeMember m ++ writeMembers ms).length + 1 := by
        have : ms.length ≤ (writeMembers ms).length := by
          clear hs henc hnd
          induction ms with
          | nil => exact Nat.zero_le _
          | cons x xs ih => simp only [writeMembers, List.length_cons, List.length_append]; omega
        rw [List.length_append]; omega
      have h := scanMembers_written it depth ms m _ [] [] hlen henc (by simpa using hnd)
      rw [List.append_nil, List.nil_append] at h
      rw [scanObject, hs]
      split
      · next h' =>
        simp only [writeMember, quoteAscii, List.cons_append] at h'
        exact absurd (List.cons.inj h').1 (by decide)
      · exact h
    simp only [loads, dumpsObject, hdepth, scanOnce, scanWith,
      skipSpace_cons (show isJsonSpace '{' = false from rfl)]
    rw [if_neg (by decide), if_pos trivial, hobj]
    rfl

/-! ### Written objects are ASCII -/

theorem hexChar_ascii : ∀ n, n < 16 → (hexChar n).toNat < 0x80 := by decide

theorem unicodeEscape_ascii (n : Nat) : ∀ c ∈ unicodeEscape n, c.toNat < 0x80 := by
  have hdigit : ∀ k, (hexChar (k % 16)).toNat < 0x80 := fun k => hexChar_ascii _ (Nat.mod_lt _ (by decide))
  intro c hc
  simp only [unicodeEscape, List.mem_cons, List.not_mem_nil, or_false] at hc
  rcases hc with rfl | rfl | rfl | rfl | rfl | rfl
  · decide
  · decide
  · exact hdigit _
  · exact hdigit _
  · exact hdigit _
  · exact hdigit _

theorem shortEscape?_ascii {n : Nat} {e : List Char} (h : shortEscape? n = some e) :
    ∀ c ∈ e, c.toNat < 0x80 := by
  have hpair : ∀ x : Char, x.toNat < 0x80 → ∀ c ∈ ['\\', x], c.toNat < 0x80 := by
    intro x hx c hc
    simp only [List.mem_cons, List.not_mem_nil, or_false] at hc
    rcases hc with rfl | rfl
    · decide
    · exact hx
  unfold shortEscape? at h
  repeat' split at h
  all_goals first | (obtain rfl := Option.some.inj h; exact hpair _ (by decide)) | cases h

theorem escapeAscii_ascii (u : CodePoint) : ∀ c ∈ escapeAscii u, c.toNat < 0x80 := by
  intro c hc
  unfold escapeAscii at hc
  split at hc
  · next h => exact shortEscape?_ascii h c hc
  · split at hc
    · next hrange =>
      obtain rfl := List.mem_singleton.mp hc
      rw [ofNat_plain hrange.2]
      omega
    · obtain ⟨v, -, hv⟩ := List.mem_flatMap.mp hc
      exact unicodeEscape_ascii _ c hv

theorem quoteAscii_ascii (s : Str) : ∀ c ∈ quoteAscii s, c.toNat < 0x80 := by
  intro c hc
  simp only [quoteAscii, List.mem_cons, List.mem_append, List.mem_flatMap, List.not_mem_nil,
    or_false] at hc
  rcases hc with rfl | ⟨u, -, hu⟩ | rfl
  · decide
  · exact escapeAscii_ascii u c hu
  · decide

theorem writeMember_ascii (m : Str × Str) : ∀ c ∈ writeMember m, c.toNat < 0x80 := by
  intro c hc
  simp only [writeMember, List.mem_cons, List.mem_append] at hc
  rcases hc with hc | rfl | rfl | hc
  · exact quoteAscii_ascii m.1 c hc
  · decide
  · decide
  · exact quoteAscii_ascii m.2 c hc

theorem writeMembers_ascii (ms : List (Str × Str)) : ∀ c ∈ writeMembers ms, c.toNat < 0x80 := by
  induction ms with
  | nil =>
    intro c hc
    obtain rfl := List.mem_singleton.mp hc
    decide
  | cons m ms ih =>
    intro c hc
    simp only [writeMembers, List.mem_cons, List.mem_append] at hc
    rcases hc with rfl | rfl | hc | hc
    · decide
    · decide
    · exact writeMember_ascii m c hc
    · exact ih c hc

theorem dumpsObject_ascii (items : List (Str × Str)) : ∀ c ∈ dumpsObject items, c.toNat < 0x80 := by
  cases items with
  | nil =>
    intro c hc
    simp only [dumpsObject, List.mem_cons, List.not_mem_nil, or_false] at hc
    rcases hc with rfl | rfl
    · decide
    · decide
  | cons m ms =>
    intro c hc
    simp only [dumpsObject, List.mem_cons, List.mem_append] at hc
    rcases hc with rfl | hc | hc
    · decide
    · exact writeMember_ascii m c hc
    · exact writeMembers_ascii ms c hc

/-! ## What can be rendered -/

mutual

/-- Whether every number meets `p` and every string, keys included, meets `q`. -/
def Json.all (p : Float → Bool) (q : Str → Bool) : Json → Bool
  | .float f => p f
  | .str s => q s
  | .arr items => allItems p q items
  | .obj items => allFields p q items
  | .null | .bool _ | .int _ => true

def allItems (p : Float → Bool) (q : Str → Bool) : List Json → Bool
  | [] => true
  | v :: vs => v.all p q && allItems p q vs

def allFields (p : Float → Bool) (q : Str → Bool) : List (Str × Json) → Bool
  | [] => true
  | (k, v) :: vs => q k && v.all p q && allFields p q vs

end

def Float.isFinite : Float → Bool
  | .finite _ => true
  | _ => false

/-- No lone surrogate. -/
def Str.scalars (s : Str) : Bool := s.all (fun u => !u.isSurrogate)

/-- Every number finite, every string free of surrogates. -/
def Json.strict (v : Json) : Bool := v.all Float.isFinite Str.scalars

theorem scalars_append (s t : Str) : Str.scalars (s ++ t) = (s.scalars && t.scalars) :=
  List.all_append

theorem scalars_ofChars (l : List Char) : (Str.ofChars l).scalars = true := by
  simp only [Str.scalars, Str.ofChars, List.all_map, List.all_eq_true, Function.comp_apply,
    ofChar_not_surrogate, Bool.not_false, implies_true]

@[simp] theorem scalars_nil : Str.scalars [] = true := rfl

theorem scalars_cons (u : CodePoint) (s : Str) :
    Str.scalars (u :: s) = (!u.isSurrogate && s.scalars) := List.all_cons

@[simp] theorem scalars_text (s : String) : (text s).scalars = true := scalars_ofChars _

/-- Escaping keeps surrogates and adds none. -/
theorem scalars_escapePlain (u : CodePoint) : (escapePlain u).scalars = !u.isSurrogate := by
  unfold escapePlain
  split
  · next e he =>
    have : u.isSurrogate = false := by
      unfold shortEscape? at he
      simp only [CodePoint.isSurrogate, Bool.and_eq_false_iff, decide_eq_false_iff_not]
      repeat' split at he
      all_goals first | omega | cases he
    rw [scalars_ofChars, this]; rfl
  · split
    · next hlt =>
      have : u.isSurrogate = false := by
        simp only [CodePoint.isSurrogate, Bool.and_eq_false_iff, decide_eq_false_iff_not]; omega
      rw [scalars_ofChars, this]; rfl
    · simp [Str.scalars]

theorem scalars_quotePlain (s : Str) : (quotePlain s).scalars = s.scalars := by
  have hq : (CodePoint.ofChar '"').isSurrogate = false := ofChar_not_surrogate _
  have hbody : Str.scalars (s.flatMap escapePlain) = s.scalars := by
    induction s with
    | nil => rfl
    | cons u us ih =>
      rw [List.flatMap_cons, scalars_append, scalars_escapePlain, ih]; rfl
  rw [quotePlain, scalars_cons, scalars_append, scalars_cons, hq, hbody]
  simp

mutual

theorem dumpsStrict_isSome : ∀ v : Json,
    (dumpsStrict v).isSome = v.all Float.isFinite (fun _ => true)
  | .null | .bool _ | .int _ | .str _ => rfl
  | .float f => by cases f <;> rfl
  | .arr items => by
    rw [dumpsStrict, Option.isSome_map, dumpsItems_isSome items, Json.all]
  | .obj items => by
    rw [dumpsStrict, Option.isSome_map, dumpsFields_isSome items, Json.all]

theorem dumpsItems_isSome : ∀ vs : List Json,
    (dumpsItems vs).isSome = allItems Float.isFinite (fun _ => true) vs
  | [] => rfl
  | v :: vs => by
    rw [dumpsItems, allItems, ← dumpsStrict_isSome v, ← dumpsItems_isSome vs]
    cases dumpsStrict v <;> cases dumpsItems vs <;> rfl

theorem dumpsFields_isSome : ∀ vs : List (Str × Json),
    (dumpsFields vs).isSome = allFields Float.isFinite (fun _ => true) vs
  | [] => rfl
  | (k, v) :: vs => by
    rw [dumpsFields, allFields, ← dumpsStrict_isSome v, ← dumpsFields_isSome vs]
    cases dumpsStrict v <;> cases dumpsFields vs <;> rfl

end

mutual

theorem all_and : ∀ v : Json, v.strict =
    (v.all Float.isFinite (fun _ => true) && v.all (fun _ => true) Str.scalars)
  | .null | .bool _ | .int _ | .str _ => rfl
  | .float f => by cases f <;> rfl
  | .arr items => allItems_and items
  | .obj items => allFields_and items

theorem allItems_and : ∀ vs : List Json, allItems Float.isFinite Str.scalars vs =
    (allItems Float.isFinite (fun _ => true) vs && allItems (fun _ => true) Str.scalars vs)
  | [] => rfl
  | v :: vs => by
    have hv := all_and v
    rw [Json.strict] at hv
    simp only [allItems, hv, allItems_and vs]
    ac_rfl

theorem allFields_and : ∀ vs : List (Str × Json), allFields Float.isFinite Str.scalars vs =
    (allFields Float.isFinite (fun _ => true) vs && allFields (fun _ => true) Str.scalars vs)
  | [] => rfl
  | (k, v) :: vs => by
    have hv := all_and v
    rw [Json.strict] at hv
    simp only [allFields, hv, allFields_and vs, Bool.true_and]
    ac_rfl

end

/-- The members of an object, one by one. -/
theorem allFields_iff {p : Float → Bool} {q : Str → Bool} {ms : List (Str × Json)} :
    allFields p q ms = true ↔ ∀ m ∈ ms, q m.1 = true ∧ m.2.all p q = true := by
  induction ms with
  | nil => exact iff_of_true rfl (fun m hm => absurd hm List.not_mem_nil)
  | cons m ms ih =>
    rw [allFields, Bool.and_eq_true, Bool.and_eq_true, ih, List.forall_mem_cons]

/-- An object whose keys are text is strict when its values are. -/
theorem strict_obj (items : List (String × Json)) :
    (Json.obj (items.map (fun m => (text m.1, m.2)))).strict = items.all (fun m => m.2.strict) := by
  induction items with
  | nil => rfl
  | cons m ms ih =>
    have hrest : allFields Float.isFinite Str.scalars (ms.map (fun m => (text m.1, m.2))) =
        ms.all (fun m => m.2.strict) := ih
    have hcons : (Json.obj ((m :: ms).map (fun m => (text m.1, m.2)))).strict =
        ((text m.1).scalars && m.2.strict &&
          allFields Float.isFinite Str.scalars (ms.map (fun m => (text m.1, m.2)))) := rfl
    rw [hcons, hrest, scalars_text, List.all_cons, Bool.true_and]

theorem strict_arr (items : List Json) : (Json.arr items).strict = items.all Json.strict := by
  induction items with
  | nil => rfl
  | cons v vs ih =>
    have hrest : allItems Float.isFinite Str.scalars vs = vs.all Json.strict := ih
    have hcons : (Json.arr (v :: vs)).strict = (v.strict && allItems Float.isFinite Str.scalars vs) := rfl
    rw [hcons, hrest, List.all_cons]

end Py
