import Mathlib.Algebra.Group.Nat.Defs
import Mathlib.Data.List.Chain
import Mathlib.Data.List.Nodup
import Mathlib.Data.List.TakeWhile
import Mathlib.Data.Nat.Init
import WebhookRelay.Json

/-
  `json.dumps` in general. A `Style` has the arguments that matter
  (`ensure_ascii`, `allow_nan`, the blanks of the default separators), and
  `written` is the text of a value in a style; the strict encoding of response
  bodies is one style (`written_compact`), and the standard style has a text for
  every value (`written_ascii`). Unescaped, a text can be encoded if no string in
  the value has a surrogate (`encodes_iff`), which together with the numbers decides
  what a response can carry (`render_ok_iff`). The encoder recurses on the C stack, so
  `json.dumps` raises RecursionError for a value nested deeper than the stack has
  room for (`dumps`).

  The leaves are read back here: strings, in both ways of escaping
  (`scanString_quote`), and number literals (`scanNumber_append`).
-/
namespace Py

/-- How `json.dumps` writes. -/
structure Style where
  ensureAscii : Bool
  allowNan : Bool
  blanks : Bool

/-- The defaults of `json.dumps`. -/
def Style.standard : Style := ⟨true, true, true⟩

/-- `ensure_ascii=False, allow_nan=False, separators=(",", ":")`. -/
def Style.compact : Style := ⟨false, false, false⟩

namespace Style

variable (st : Style)

/-- `item_separator`. -/
def itemSep : Str := text (if st.blanks then ", " else ",")

/-- `key_separator`. -/
def keySep : Str := text (if st.blanks then ": " else ":")

def escape (u : CodePoint) : Str := if st.ensureAscii then .ofChars (escapeAscii u) else escapePlain u

def quote (s : Str) : Str := .ofChar '"' :: (s.flatMap st.escape ++ [.ofChar '"'])

/-- A float; `none` is ValueError. -/
def float : Float → Option Str
  | .finite repr => some (.ofChars repr.toList)
  | .nan => if st.allowNan then some (text "NaN") else none
  | .inf negative => if st.allowNan then some (text (if negative then "-Infinity" else "Infinity")) else none

end Style

mutual

/-- The text of a value; `none` is ValueError, for a number the style has no word
for. -/
def written (st : Style) : Json → Option Str
  | .null => some (text "null")
  | .bool b => some (text (if b then "true" else "false"))
  | .int i => some (writeInt i)
  | .float f => st.float f
  | .str s => some (st.quote s)
  | .arr items => (writtenArr st items).map (fun t => text "[" ++ t ++ text "]")
  | .obj items => (writtenObj st items).map (fun t => text "\x7b" ++ t ++ text "\x7d")

def writtenArr (st : Style) : List Json → Option Str
  | [] => some []
  | v :: vs =>
    match written st v, writtenArr st vs with
    | some t, some ts => some (t ++ (if vs.isEmpty then [] else st.itemSep) ++ ts)
    | _, _ => none

def writtenObj (st : Style) : List (Str × Json) → Option Str
  | [] => some []
  | (k, v) :: vs =>
    match written st v, writtenObj st vs with
    | some t, some ts =>
      some (st.quote k ++ st.keySep ++ t ++ (if vs.isEmpty then [] else st.itemSep) ++ ts)
    | _, _ => none

end

/-! ## The room for it -/

mutual

/-- How deep a value nests, where a value that is no container counts `leaf`. -/
def Json.levels (leaf : Nat) : Json → Nat
  | .null | .bool _ | .int _ | .float _ | .str _ => leaf
  | .arr items => Json.levelsArr leaf items + 1
  | .obj items => Json.levelsObj leaf items + 1

def Json.levelsArr (leaf : Nat) : List Json → Nat
  | [] => 0
  | v :: vs => max (v.levels leaf) (Json.levelsArr leaf vs)

def Json.levelsObj (leaf : Nat) : List (Str × Json) → Nat
  | [] => 0
  | (_, v) :: vs => max (v.levels leaf) (Json.levelsObj leaf vs)

end

/-- The containers around the innermost value. -/
def Json.depth (v : Json) : Nat := v.levels 0

/-- `json.dumps` where the recursion limit leaves room for so many containers in
each other; `none` is ValueError or RecursionError. -/
def dumps (room : Nat) (st : Style) (v : Json) : Option Str := if v.depth ≤ room then written st v else none

theorem dumps_eq_some {room : Nat} {st : Style} {v : Json} {t : Str} :
    dumps room st v = some t ↔ v.depth ≤ room ∧ written st v = some t := by
  rw [dumps]
  split
  · next h => simp only [h, true_and]
  · next h => simp only [h, false_and, reduceCtorEq]

variable {leaf n : Nat}

theorem levelsArr_le {items : List Json} : Json.levelsArr leaf items ≤ n ↔ ∀ v ∈ items, v.levels leaf ≤ n := by
  induction items with
  | nil => simp [Json.levelsArr]
  | cons v vs ih => rw [Json.levelsArr, Nat.max_le, ih, List.forall_mem_cons]

theorem levelsObj_le {items : List (Str × Json)} :
    Json.levelsObj leaf items ≤ n ↔ ∀ m ∈ items, m.2.levels leaf ≤ n := by
  induction items with
  | nil => simp [Json.levelsObj]
  | cons m ms ih => rw [Json.levelsObj, Nat.max_le, ih, List.forall_mem_cons]

/-- Induction on a value by the values in it. -/
theorem Json.parts {P : Json → Prop} (null : P .null) (bool : ∀ b, P (.bool b)) (int : ∀ i, P (.int i))
    (float : ∀ f, P (.float f)) (str : ∀ s, P (.str s)) (arr : ∀ items, (∀ v ∈ items, P v) → P (.arr items))
    (obj : ∀ items, (∀ m ∈ items, P m.2) → P (.obj items)) (v : Json) : P v :=
  @Json.rec P (fun items => ∀ v ∈ items, P v) (fun items => ∀ m ∈ items, P m.2) (fun m => P m.2)
    null bool int float str arr obj (List.forall_mem_nil _) (fun _ _ hv hvs => List.forall_mem_cons.mpr ⟨hv, hvs⟩)
    (List.forall_mem_nil _) (fun _ _ hm hms => List.forall_mem_cons.mpr ⟨hm, hms⟩) (fun _ _ h => h) v

/-- A value is no deeper than it is high. -/
theorem Json.depth_le (v : Json) : v.depth ≤ v.levels 1 := by
  induction v using Json.parts with
  | null | bool _ | int _ | float _ | str _ => exact Nat.zero_le _
  | arr items ih =>
    exact Nat.succ_le_succ (levelsArr_le.mpr (fun v hv => (ih v hv).trans (levelsArr_le.mp (Nat.le_refl _) v hv)))
  | obj items ih =>
    exact Nat.succ_le_succ (levelsObj_le.mpr (fun m hm => (ih m hm).trans (levelsObj_le.mp (Nat.le_refl _) m hm)))

example : (Json.arr [.arr [], .int 1, .arr [.int 2]]).levels 0 = 2 := by decide
example : (Json.arr [.arr [], .int 1, .arr [.int 2]]).levels 1 = 3 := by decide

/-! ## The strict encoding -/

mutual

/-- The strict encoding is a style. -/
theorem written_compact : ∀ v : Json, written .compact v = dumpsStrict v
  | .null | .bool _ | .int _ | .str _ => rfl
  | .float f => by cases f <;> rfl
  | .arr items => by rw [written, dumpsStrict, writtenArr_compact items]
  | .obj items => by rw [written, dumpsStrict, writtenObj_compact items]

theorem writtenArr_compact : ∀ vs : List Json, writtenArr .compact vs = dumpsItems vs
  | [] => rfl
  | v :: vs => by
    rw [writtenArr, dumpsItems, written_compact v, writtenArr_compact vs]
    rfl

theorem writtenObj_compact : ∀ vs : List (Str × Json), writtenObj .compact vs = dumpsFields vs
  | [] => rfl
  | (k, v) :: vs => by
    rw [writtenObj, dumpsFields, written_compact v, writtenObj_compact vs]
    rfl

end

/-! ## What can be rendered -/

theorem scalars_quote {st : Style} (h : st.ensureAscii = false) (s : Str) : (st.quote s).scalars = s.scalars := by
  have hescape : st.escape = escapePlain := by
    funext u
    rw [Style.escape, h, if_neg Bool.false_ne_true]
  rw [Style.quote, hescape]
  exact scalars_quotePlain s

mutual

/-- Unescaped, the text of a value has a surrogate exactly when one of its strings
has. -/
theorem written_scalars {st : Style} (h : st.ensureAscii = false) : ∀ (v : Json) (t : Str), written st v = some t →
    t.scalars = v.all (fun _ => true) Str.scalars
  | .null, t, ht | .bool _, t, ht | .int _, t, ht => by
    simp only [written, Option.some.injEq] at ht
    subst ht
    rw [Json.all]
    all_goals first | exact scalars_text _ | exact scalars_ofChars _
  | .float f, t, ht => by
    rw [written] at ht
    unfold Style.float at ht
    repeat' split at ht
    all_goals cases ht
    all_goals exact scalars_ofChars _
  | .str s, t, ht => by
    simp only [written, Option.some.injEq] at ht
    subst ht
    exact scalars_quote h s
  | .arr items, t, ht => by
    simp only [written, Option.map_eq_some_iff] at ht
    obtain ⟨t', ht', rfl⟩ := ht
    simp only [scalars_append, scalars_text, Bool.true_and, Bool.and_true]
    exact writtenArr_scalars h items t' ht'
  | .obj items, t, ht => by
    simp only [written, Option.map_eq_some_iff] at ht
    obtain ⟨t', ht', rfl⟩ := ht
    simp only [scalars_append, scalars_text, Bool.true_and, Bool.and_true]
    exact writtenObj_scalars h items t' ht'

theorem writtenArr_scalars {st : Style} (h : st.ensureAscii = false) : ∀ (vs : List Json) (t : Str),
    writtenArr st vs = some t → t.scalars = allItems (fun _ => true) Str.scalars vs
  | [], t, ht => by
    simp only [writtenArr, Option.some.injEq] at ht
    subst ht
    rfl
  | v :: vs, t, ht => by
    rw [writtenArr] at ht
    split at ht
    · next t1 t2 h1 h2 =>
      obtain rfl := Option.some.inj ht
      rw [allItems, ← written_scalars h v t1 h1, ← writtenArr_scalars h vs t2 h2]
      cases vs <;> simp [scalars_append, Style.itemSep]
    · cases ht

theorem writtenObj_scalars {st : Style} (h : st.ensureAscii = false) : ∀ (ms : List (Str × Json)) (t : Str),
    writtenObj st ms = some t → t.scalars = allFields (fun _ => true) Str.scalars ms
  | [], t, ht => by
    simp only [writtenObj, Option.some.injEq] at ht
    subst ht
    rfl
  | (k, v) :: ms, t, ht => by
    rw [writtenObj] at ht
    split at ht
    · next t1 t2 h1 h2 =>
      obtain rfl := Option.some.inj ht
      rw [allFields, ← written_scalars h v t1 h1, ← writtenObj_scalars h ms t2 h2]
      cases ms <;> simp [scalars_append, scalars_quote h, Style.itemSep, Style.keySep, Bool.and_assoc]
    · cases ht

end

/-- A text that is not escaped encodes if the strings in it have no surrogate. -/
theorem encodes_iff {st : Style} (h : st.ensureAscii = false) {v : Json} {t : Str} (ht : written st v = some t) :
    (∃ cs, t.encode = some cs) ↔ v.all (fun _ => true) Str.scalars = true := by
  rw [← written_scalars h v t ht, Str.scalars, ← encode_isSome, Option.isSome_iff_exists]

/-- **What a response can carry.** A value is rendered exactly when every
number in it is finite and no string in it has a lone surrogate. -/
theorem render_ok_iff (v : Json) : (∃ cs, render v = .ok cs) ↔ v.strict = true := by
  have hsome := dumpsStrict_isSome v
  rw [all_and, ← hsome, Bool.and_eq_true]
  unfold render
  split
  · next hn => simp [hn]
  · next t ht =>
    have henc := encode_isSome t
    have hplain : Style.compact.ensureAscii = false := rfl
    rw [← written_scalars hplain v t ((written_compact v).trans ht), Str.scalars, ← henc, ht]
    split
    · next he => simp [he]
    · next cs he => simp [he]

/-! ## The standard style -/

theorem escape_ascii {st : Style} (h : st.ensureAscii = true) (s : Str) :
    s.flatMap st.escape = Str.ofChars (s.flatMap escapeAscii) := by
  rw [Str.ofChars, List.map_flatMap]
  apply List.flatMap_congr
  intro u _
  simp only [Style.escape, h, if_true]
  rfl

theorem quote_ascii {st : Style} (h : st.ensureAscii = true) (s : Str) : ∃ l, st.quote s = .ofChars l := by
  refine ⟨'"' :: (s.flatMap escapeAscii ++ ['"']), ?_⟩
  rw [Style.quote, escape_ascii h, Str.ofChars, Str.ofChars, List.map_cons, List.map_append]
  rfl

theorem ofChars_append (l m : List Char) : Str.ofChars (l ++ m) = Str.ofChars l ++ Str.ofChars m :=
  List.map_append

/-- A separator, where there is one. -/
theorem sep_ascii (b : Bool) (s : String) : ∃ l, (if b then [] else text s) = Str.ofChars l := by
  cases b
  · exact ⟨s.toList, rfl⟩
  · exact ⟨[], rfl⟩

mutual

/-- With both flags up every value is written, in ASCII. -/
theorem written_ascii {st : Style} (ha : st.ensureAscii = true) (hn : st.allowNan = true) :
    ∀ v : Json, ∃ l, written st v = some (.ofChars l)
  | .null => ⟨_, rfl⟩
  | .bool b => ⟨_, rfl⟩
  | .int i => ⟨_, rfl⟩
  | .float f => by
    cases f with
    | nan => exact ⟨_, by rw [written, Style.float, if_pos hn]; rfl⟩
    | inf negative => exact ⟨_, by rw [written, Style.float, if_pos hn]; rfl⟩
    | finite repr => exact ⟨_, rfl⟩
  | .str s => by
    obtain ⟨l, hl⟩ := quote_ascii ha s
    exact ⟨l, by rw [written, hl]⟩
  | .arr items => by
    obtain ⟨l, hl⟩ := writtenArr_ascii ha hn items
    refine ⟨"[".toList ++ l ++ "]".toList, ?_⟩
    rw [written, hl, ofChars_append, ofChars_append]
    rfl
  | .obj items => by
    obtain ⟨l, hl⟩ := writtenObj_ascii ha hn items
    refine ⟨"\x7b".toList ++ l ++ "\x7d".toList, ?_⟩
    rw [written, hl, ofChars_append, ofChars_append]
    rfl

theorem writtenArr_ascii {st : Style} (ha : st.ensureAscii = true) (hn : st.allowNan = true) :
    ∀ vs : List Json, ∃ l, writtenArr st vs = some (.ofChars l)
  | [] => ⟨[], rfl⟩
  | v :: vs => by
    obtain ⟨l, hl⟩ := written_ascii ha hn v
    obtain ⟨m, hm⟩ := writtenArr_ascii ha hn vs
    obtain ⟨sep, hsep⟩ := sep_ascii vs.isEmpty (if st.blanks then ", " else ",")
    refine ⟨l ++ sep ++ m, ?_⟩
    rw [writtenArr, hl, hm, ofChars_append, ofChars_append, ← hsep]
    rfl

theorem writtenObj_ascii {st : Style} (ha : st.ensureAscii = true) (hn : st.allowNan = true) :
    ∀ ms : List (Str × Json), ∃ l, writtenObj st ms = some (.ofChars l)
  | [] => ⟨[], rfl⟩
  | (k, v) :: ms => by
    obtain ⟨key, hkey⟩ := quote_ascii ha k
    obtain ⟨l, hl⟩ := written_ascii ha hn v
    obtain ⟨m, hm⟩ := writtenObj_ascii ha hn ms
    obtain ⟨sep, hsep⟩ := sep_ascii ms.isEmpty (if st.blanks then ", " else ",")
    refine ⟨key ++ (if st.blanks then ": " else ":").toList ++ l ++ sep ++ m, ?_⟩
    rw [writtenObj, hl, hm, hkey, ofChars_append, ofChars_append, ofChars_append, ofChars_append, ← hsep]
    rfl

end

/-- `json.dumps` with its defaults fails for want of room only. -/
theorem dumps_standard {room : Nat} {v : Json} : (dumps room .standard v).isSome = true ↔ v.depth ≤ room := by
  obtain ⟨l, hl⟩ : ∃ l, written .standard v = some (.ofChars l) := written_ascii rfl rfl v
  rw [Option.isSome_iff_exists]
  constructor
  · rintro ⟨t, ht⟩
    exact (dumps_eq_some.mp ht).1
  · exact fun h => ⟨_, dumps_eq_some.mpr ⟨h, hl⟩⟩

/-! ## Encoding -/

theorem encode_append {s t : Str} {cs : List Char} :
    Str.encode (s ++ t) = some cs ↔ ∃ a b, s.encode = some a ∧ t.encode = some b ∧ cs = a ++ b := by
  induction s generalizing cs with
  | nil =>
    constructor
    · intro h
      exact ⟨[], cs, rfl, h, rfl⟩
    · intro h
      obtain ⟨a, b, ha, hb, rfl⟩ := h
      cases ha
      exact hb
  | cons u us ih =>
    rw [List.cons_append, Str.encode, Str.encode]
    cases hu : u.toChar? with
    | none =>
      constructor
      · intro h
        cases h
      · intro h
        obtain ⟨a, b, ha, -, -⟩ := h
        cases ha
    | some c =>
      constructor
      · intro h
        cases hrest : Str.encode (us ++ t) with
        | none =>
          rw [hrest] at h
          cases h
        | some ds =>
          rw [hrest] at h
          cases h
          obtain ⟨a, b, ha, hb, rfl⟩ := ih.mp hrest
          exact ⟨c :: a, b, by rw [ha], hb, rfl⟩
      · intro h
        obtain ⟨a, b, ha, hb, rfl⟩ := h
        cases hus : Str.encode us with
        | none =>
          rw [hus] at ha
          cases ha
        | some a' =>
          rw [hus] at ha
          cases ha
          rw [ih.mpr ⟨a', b, hus, hb, rfl⟩]
          rfl

/-- Text in front of a `str` encodes as itself. -/
theorem encode_ofChars_append {l : List Char} {t : Str} {cs : List Char} :
    Str.encode (.ofChars l ++ t) = some cs ↔ ∃ b, t.encode = some b ∧ cs = l ++ b := by
  rw [encode_append, encode_ofChars]
  constructor
  · intro h
    obtain ⟨a, b, ha, hb, rfl⟩ := h
    cases ha
    exact ⟨b, hb, rfl⟩
  · intro h
    obtain ⟨b, hb, rfl⟩ := h
    exact ⟨l, b, rfl, hb, rfl⟩

theorem encode_append_ofChars {l : List Char} {t : Str} {cs : List Char} :
    Str.encode (t ++ .ofChars l) = some cs ↔ ∃ a, t.encode = some a ∧ cs = a ++ l := by
  rw [encode_append, encode_ofChars]
  constructor
  · intro h
    obtain ⟨a, b, ha, hb, rfl⟩ := h
    cases hb
    exact ⟨a, ha, rfl⟩
  · intro h
    obtain ⟨a, ha, rfl⟩ := h
    exact ⟨a, l, ha, rfl, rfl⟩

/-! ## Strings -/

/-- No high surrogate is directly followed by a low one. -/
def Str.Joined (s : Str) : Prop := s.IsChain (fun u v => ¬ (u.isHigh = true ∧ v.isLow = true))

theorem joinPairs_apart {u v : CodePoint} (hv : v.isLow = false) (us : Str) :
    joinPairs (u :: v :: us) = u :: joinPairs (v :: us) := by
  cases hu : u.isHigh with
  | false => exact joinPairs_single hu _
  | true =>
    rw [joinPairs.eq_def]
    simp only [hu, hv, if_true, Bool.false_eq_true, if_false]

/-- A code point as its UTF-16 units, the first of which is low only for a low
surrogate. -/
theorem utf16_head (u : CodePoint) : ∃ v vs, utf16 u = v :: vs ∧ (v.isLow = true → u.isLow = true) := by
  unfold utf16
  split
  · exact ⟨u, [], rfl, id⟩
  · refine ⟨_, _, rfl, ?_⟩
    intro h
    simp only [CodePoint.isLow, Bool.and_eq_true, decide_eq_true_eq] at h
    omega

/-- Joining undoes the split into code units. -/
theorem joinPairs_utf16_of_joined {s : Str} (h : s.Joined) : joinPairs (s.flatMap utf16) = s := by
  induction s with
  | nil => rfl
  | cons u us ih =>
    have ih := ih h.tail
    rw [List.flatMap_cons]
    by_cases hlt : u.val < 0x10000
    · rw [utf16, if_pos hlt, List.singleton_append]
      cases us with
      | nil =>
        cases hu : u.isHigh with
        | false => exact joinPairs_single hu []
        | true =>
          rw [List.flatMap_nil, joinPairs.eq_def]
          simp only [hu, if_true]
      | cons v vs =>
        cases hu : u.isHigh with
        | false => rw [joinPairs_single hu, ih]
        | true =>
          -- what follows begins with no low surrogate
          obtain ⟨x, xs, hx, hlow⟩ := utf16_head v
          have hnot : x.isLow = false := by
            cases hl : x.isLow with
            | false => rfl
            | true => exact absurd ⟨hu, hlow hl⟩ (List.isChain_cons_cons.mp h).1
          rw [List.flatMap_cons, hx, List.cons_append, joinPairs_apart hnot]
          rw [List.flatMap_cons, hx, List.cons_append] at ih
          rw [ih]
    · have hlt' := u.isLt
      have hh : CodePoint.isHigh ⟨0xD800 + (u.val - 0x10000) / 0x400, by omega⟩ = true := by
        simp only [CodePoint.isHigh, Bool.and_eq_true, decide_eq_true_eq]
        omega
      have hl : CodePoint.isLow ⟨0xDC00 + (u.val - 0x10000) % 0x400, by omega⟩ = true := by
        simp only [CodePoint.isLow, Bool.and_eq_true, decide_eq_true_eq]
        omega
      rw [utf16, if_neg hlt, List.cons_append, List.singleton_append, joinPairs_pair hh hl, ih]
      apply congrArg (· :: us)
      apply Fin.ext
      simp only [joinPair]
      omega

theorem joinPair_beyond (u v : CodePoint) : (joinPair u v).isHigh = false ∧ (joinPair u v).isLow = false := by
  have hval : (joinPair u v).val = 0x10000 + (u.val % 0x400) * 0x400 + v.val % 0x400 := rfl
  simp only [CodePoint.isHigh, CodePoint.isLow, Bool.and_eq_false_iff, decide_eq_false_iff_not, hval]
  omega

theorem joinPairs_head {v x : CodePoint} {us xs : Str} (h : joinPairs (v :: us) = x :: xs) (hv : v.isLow = false) :
    x.isLow = false := by
  cases hh : v.isHigh with
  | false =>
    rw [joinPairs_single hh] at h
    cases h
    exact hv
  | true =>
    cases us with
    | nil =>
      rw [joinPairs.eq_def] at h
      simp only [hh, if_true] at h
      cases h
      exact hv
    | cons w ws =>
      cases hw : w.isLow with
      | false =>
        rw [joinPairs_apart hw] at h
        cases h
        exact hv
      | true =>
        rw [joinPairs_pair hh hw] at h
        cases h
        exact (joinPair_beyond v w).2

/-- Joining leaves no pair behind. -/
theorem joinPairs_joined (s : Str) : (joinPairs s).Joined := by
  fun_induction joinPairs s with
  | case1 => exact .nil
  | case2 u hu v us hv ih =>
    apply List.isChain_cons.mpr ⟨_, ih⟩
    intro y _ h
    rw [(joinPair_beyond u v).1] at h
    exact Bool.false_ne_true h.1
  | case3 u hu v us hv ih =>
    apply List.isChain_cons.mpr ⟨_, ih⟩
    intro y hy h
    cases hjoin : joinPairs (v :: us) with
    | nil =>
      rw [hjoin] at hy
      cases hy
    | cons x xs =>
      rw [hjoin] at hy
      cases hy
      rw [joinPairs_head hjoin (Bool.eq_false_iff.mpr hv)] at h
      exact Bool.false_ne_true h.2
  | case4 u hu => exact .singleton u
  | case5 u us hu ih =>
    apply List.isChain_cons.mpr ⟨_, ih⟩
    intro y _ h
    exact hu h.1

/-- Without surrogates there is nothing to join. -/
theorem joinPairs_scalars {s : Str} (h : ∀ u ∈ s, u.isSurrogate = false) : joinPairs s = s := by
  induction s with
  | nil => rfl
  | cons u us ih =>
    have hu := h u List.mem_cons_self
    have hhigh : u.isHigh = false := by
      simp only [CodePoint.isSurrogate, CodePoint.isHigh, Bool.and_eq_false_iff, decide_eq_false_iff_not] at hu ⊢
      omega
    rw [joinPairs_single hhigh, ih (fun v hv => h v (List.mem_cons_of_mem u hv))]

/-- Reading a character written under `ensure_ascii=False`. -/
theorem scanUnits_escapePlain {u : CodePoint} {e : List Char} (h : (escapePlain u).encode = some e)
    (rest : List Char) :
    scanUnits (e ++ rest) = (scanUnits rest).map (fun r => (u :: r.1, r.2)) ∧ u.isSurrogate = false := by
  have hscalar : u.isSurrogate = false := by
    have hsome := encode_isSome (escapePlain u)
    rw [h] at hsome
    have hs : (escapePlain u).scalars = true := hsome.symm
    rw [scalars_escapePlain] at hs
    simpa using hs
  refine ⟨?_, hscalar⟩
  unfold escapePlain at h
  split at h
  · next e' he =>
    rw [encode_ofChars] at h
    cases h
    exact scanUnits_shortEscape u he rest
  · next hn =>
    split at h
    · next hlt =>
      rw [encode_ofChars] at h
      cases h
      exact scanUnits_unicodeEscape u.val (by omega) rest
    · next hge =>
      -- the character stands for itself
      have hvalid := (isValidChar_iff u).mpr hscalar
      have hc : (Char.ofNat u.val).toNat = u.val := by
        rw [Char.ofNat, dif_pos hvalid]
        rfl
      have htoChar : u.toChar? = some (Char.ofNat u.val) := if_pos hvalid
      simp only [Str.encode, htoChar] at h
      cases h
      obtain ⟨h34, h92⟩ := shortEscape?_none hn
      have hq : Char.ofNat u.val ≠ '"' := fun heq => h34 (by rw [← hc, heq]; rfl)
      have hb : Char.ofNat u.val ≠ '\\' := fun heq => h92 (by rw [← hc, heq]; rfl)
      have hu : CodePoint.ofChar (Char.ofNat u.val) = u := Fin.ext hc
      rw [List.singleton_append, scanUnits_char hq hb (by rw [hc]; exact hge), hu]

theorem scanUnits_plainText {s : Str} {cs : List Char} (h : Str.encode (s.flatMap escapePlain) = some cs)
    (rest : List Char) :
    scanUnits (cs ++ '"' :: rest) = some (s, rest) ∧ ∀ u ∈ s, u.isSurrogate = false := by
  induction s generalizing cs with
  | nil =>
    cases h
    refine ⟨scanUnits_quote rest, ?_⟩
    intro u hu
    cases hu
  | cons u us ih =>
    rw [List.flatMap_cons, encode_append] at h
    obtain ⟨e, ds, he, hds, rfl⟩ := h
    obtain ⟨hscan, hscalars⟩ := ih hds
    obtain ⟨hfirst, hu⟩ := scanUnits_escapePlain he (ds ++ '"' :: rest)
    refine ⟨?_, List.forall_mem_cons.mpr ⟨hu, hscalars⟩⟩
    rw [List.append_assoc, hfirst, hscan]
    rfl

/-- **A written string reads back**, in either style. -/
theorem scanString_quote {st : Style} {s : Str} (hs : s.Joined) {cs : List Char}
    (h : (st.quote s).encode = some cs) :
    ∃ body, cs = '"' :: body ∧ ∀ rest, scanString (body ++ rest) = some (s, rest) := by
  have hopen : st.quote s = .ofChars ['"'] ++ (s.flatMap st.escape ++ .ofChars ['"']) := rfl
  rw [hopen, encode_ofChars_append] at h
  obtain ⟨b, hb, rfl⟩ := h
  obtain ⟨body, hbody, rfl⟩ := encode_append_ofChars.mp hb
  refine ⟨body ++ ['"'], rfl, ?_⟩
  intro rest
  rw [List.append_assoc, List.singleton_append, scanString]
  cases hascii : st.ensureAscii with
  | true =>
    rw [escape_ascii hascii, encode_ofChars] at hbody
    cases hbody
    rw [scanUnits_escaped, Option.map_some, joinPairs_utf16_of_joined hs]
  | false =>
    have hescape : s.flatMap st.escape = s.flatMap escapePlain := by
      apply List.flatMap_congr
      intro u _
      simp only [Style.escape, hascii, Bool.false_eq_true, if_false]
    rw [hescape] at hbody
    obtain ⟨hscan, hscalars⟩ := scanUnits_plainText hbody rest
    rw [hscan, Option.map_some, joinPairs_scalars hscalars]

/-! ## Numbers -/

/-- One or more digits. -/
def Digits (ds : List Char) : Prop := ds ≠ [] ∧ ∀ c ∈ ds, isDigit c = true

def IntPart (ds : List Char) : Prop := ds = ['0'] ∨ (Digits ds ∧ ds.head? ≠ some '0')

def FracPart (fs : List Char) : Prop := fs = [] ∨ ∃ ds, Digits ds ∧ fs = '.' :: ds

def ExpPart (es : List Char) : Prop :=
  es = [] ∨ ∃ e sign ds, (e = 'e' ∨ e = 'E') ∧ (sign = [] ∨ sign = ['-'] ∨ sign = ['+']) ∧ Digits ds ∧
    es = e :: (sign ++ ds)

/-- A float literal as JSON admits it. -/
def FloatLiteral (cs : List Char) : Prop :=
  ∃ (negative : Bool) (ds fs es : List Char), IntPart ds ∧ FracPart fs ∧ ExpPart es ∧ ¬ (fs = [] ∧ es = []) ∧
    cs = (if negative then ['-'] else []) ++ ds ++ fs ++ es

/-- Text that does not go on with a digit. -/
def NoDigit (s : List Char) : Prop := ∀ c ∈ s.head?, isDigit c = false

/-- What follows a value inside a text that `written` has written. -/
def Stops (s : List Char) : Prop := ∀ c ∈ s.head?, c = ',' ∨ c = ']' ∨ c = '}'

theorem Stops.noDigit {s : List Char} (h : Stops s) : NoDigit s := by
  intro c hc
  rcases h c hc with rfl | rfl | rfl <;> decide

theorem takeWhile_digits {ds rest : List Char} (hds : ∀ c ∈ ds, isDigit c = true) (hrest : NoDigit rest) :
    (ds ++ rest).takeWhile isDigit = ds ∧ (ds ++ rest).dropWhile isDigit = rest := by
  have hstop : rest.takeWhile isDigit = [] ∧ rest.dropWhile isDigit = rest := by
    cases rest with
    | nil => exact ⟨rfl, rfl⟩
    | cons c cs =>
      have hc := hrest c rfl
      simp only [List.takeWhile_cons, List.dropWhile_cons, hc, Bool.false_eq_true, if_false, and_self]
  rw [List.takeWhile_append_of_pos hds, List.dropWhile_append_of_pos hds, hstop.1, hstop.2, List.append_nil]
  exact ⟨rfl, rfl⟩

theorem intPart_append {ds rest : List Char} (hds : IntPart ds) (hrest : NoDigit rest) :
    intPart (ds ++ rest) = (ds, rest) := by
  rcases hds with rfl | ⟨⟨hne, hall⟩, hhead⟩
  · rfl
  · obtain ⟨htake, hdrop⟩ := takeWhile_digits hall hrest
    cases ds with
    | nil => exact absurd rfl hne
    | cons c ds =>
      have hc : c ≠ '0' := by
        intro heq
        exact hhead (congrArg some heq)
      rw [List.cons_append] at htake hdrop ⊢
      rw [intPart, if_neg hc, htake, hdrop]

theorem fracPart_append {fs rest : List Char} (hfs : FracPart fs) (hrest : NoDigit rest)
    (hdot : rest.head? ≠ some '.') : fracPart (fs ++ rest) = (fs, rest) := by
  rcases hfs with rfl | ⟨ds, ⟨hne, hall⟩, rfl⟩
  · rw [List.nil_append, fracPart.eq_def]
    split
    · exact absurd rfl hdot
    · rfl
  · obtain ⟨htake, hdrop⟩ := takeWhile_digits hall hrest
    cases ds with
    | nil => exact absurd rfl hne
    | cons c ds =>
      have hc := hall c List.mem_cons_self
      rw [List.cons_append] at htake hdrop
      rw [List.cons_append, List.cons_append, fracPart, if_pos hc, htake, hdrop]

theorem expDigits_append (head whole : List Char) {ds rest : List Char} (hds : Digits ds) (hrest : NoDigit rest) :
    expDigits head whole (ds ++ rest) = (head ++ ds, rest) := by
  obtain ⟨htake, hdrop⟩ := takeWhile_digits hds.2 hrest
  rw [expDigits, htake, hdrop]
  cases ds with
  | nil => exact absurd rfl hds.1
  | cons c ds => rfl

theorem expPart_append {es rest : List Char} (hes : ExpPart es) (hrest : NoDigit rest)
    (hexp : ∀ c ∈ rest.head?, c ≠ 'e' ∧ c ≠ 'E') : expPart (es ++ rest) = (es, rest) := by
  rcases hes with rfl | ⟨e, sign, ds, he, hsign, hds, rfl⟩
  · cases rest with
    | nil => rfl
    | cons c cs =>
      obtain ⟨h1, h2⟩ := hexp c rfl
      rw [List.nil_append, expPart.eq_def]
      simp only [h1, h2, or_self, if_false]
  · rcases hsign with rfl | rfl | rfl
    · cases ds with
      | nil => exact absurd rfl hds.1
      | cons c ds =>
        have hc := hds.2 c List.mem_cons_self
        rw [List.nil_append, List.cons_append, expPart.eq_def]
        simp only [he, if_true]
        split
        · next heq =>
          cases heq
          exact absurd hc (by decide)
        · next heq =>
          cases heq
          exact absurd hc (by decide)
        · exact expDigits_append [e] _ hds hrest
    · have hdigits := expDigits_append [e, '-'] (e :: ('-' :: (ds ++ rest))) hds hrest
      rw [List.cons_append, expPart.eq_def]
      simp only [he, if_true]
      exact hdigits
    · have hdigits := expDigits_append [e, '+'] (e :: ('+' :: (ds ++ rest))) hds hrest
      rw [List.cons_append, expPart.eq_def]
      simp only [he, if_true]
      exact hdigits

/-- Reading a number literal. -/
theorem scanNumber_append (it : Interp) (negative : Bool) {ds fs es rest : List Char} (hds : IntPart ds)
    (hfs : FracPart fs) (hes : ExpPart es) (hrest : Stops rest) :
    scanNumber it negative (ds ++ (fs ++ (es ++ rest))) =
      if fs.isEmpty && es.isEmpty then
        if it.maxDigits < ds.length then .error .valueError
        else .ok (.int (if negative then -(digitsValue ds : Int) else digitsValue ds), rest)
      else .ok (.float (it.floatOf ((if negative then ['-'] else []) ++ ds ++ fs ++ es)), rest) := by
  have hexp : ∀ c ∈ rest.head?, c ≠ 'e' ∧ c ≠ 'E' := by
    intro c hc
    rcases hrest c hc with rfl | rfl | rfl <;> decide
  have hafter : NoDigit (es ++ rest) ∧ (es ++ rest).head? ≠ some '.' := by
    rcases hes with rfl | ⟨e, sign, digits, he, -, -, rfl⟩
    · refine ⟨hrest.noDigit, ?_⟩
      intro hdot
      rcases hrest '.' hdot with h | h | h <;> exact absurd h (by decide)
    · rw [List.cons_append]
      constructor
      · intro c hc
        cases hc
        rcases he with rfl | rfl <;> decide
      · intro hdot
        rcases he with rfl | rfl <;> exact absurd (Option.some.inj hdot) (by decide)
  have hfraction : NoDigit (fs ++ (es ++ rest)) := by
    rcases hfs with rfl | ⟨digits, -, rfl⟩
    · exact hafter.1
    · intro c hc
      cases hc
      decide
  have hne : ds.isEmpty = false := by
    rcases hds with rfl | ⟨⟨hne, -⟩, -⟩
    · rfl
    · cases ds with
      | nil => exact absurd rfl hne
      | cons c ds => rfl
  simp only [scanNumber, intPart_append hds hfraction, fracPart_append hfs hafter.1 hafter.2,
    expPart_append hes hrest.noDigit hexp, hne, Bool.false_eq_true, if_false]

theorem digitsValue_eq (ds : List Char) : digitsValue ds = Nat.ofDigitChars 10 ds 0 := by
  rw [digitsValue, Nat.ofDigitChars_eq_foldl]
  congr 1
  funext n c
  rw [Nat.mul_comm]
  rfl

theorem digitsValue_lt {ds : List Char} (h : ∀ c ∈ ds, isDigit c = true) : digitsValue ds < 10 ^ ds.length := by
  rw [digitsValue_eq]
  induction ds with
  | nil => decide
  | cons c ds ih =>
    have ih := ih (fun x hx => h x (List.mem_cons_of_mem c hx))
    have hc : c.toNat - 48 < 10 := by
      have hdigit := h c List.mem_cons_self
      simp only [isDigit, Bool.and_eq_true, decide_eq_true_eq] at hdigit
      have hle : c.toNat ≤ 57 := hdigit.2
      omega
    rw [Nat.ofDigitChars_cons, Nat.ofDigitChars_eq_ofDigitChars_zero, List.length_cons, Nat.pow_succ]
    have hmul : 10 ^ ds.length * (c.toNat - 48) ≤ 10 ^ ds.length * 9 := Nat.mul_le_mul_left _ (by omega)
    simp only [Nat.mul_zero, Nat.zero_add]
    show 10 ^ ds.length * (c.toNat - 48) + _ < _
    omega

theorem toDigits_isDigit {n : Nat} {c : Char} (h : c ∈ Nat.toDigits 10 n) : isDigit c = true :=
  Nat.isDigit_of_mem_toDigits (by decide) (by decide) h

/-- The digits of a number have no leading zero. -/
theorem toDigits_head {n : Nat} (hn : 0 < n) : (Nat.toDigits 10 n).head? ≠ some '0' := by
  induction n using Nat.strongRecOn with
  | ind n ih =>
    by_cases hlt : n < 10
    · rw [Nat.toDigits_of_lt_base hlt]
      have hdigit : ∀ k, k < 10 → 0 < k → some k.digitChar ≠ some '0' := by decide
      exact hdigit n hlt hn
    · rw [Nat.toDigits_of_base_le (by decide) (by omega), List.head?_append_of_ne_nil _ Nat.toDigits_ne_nil]
      exact ih (n / 10) (by omega) (by omega)

theorem intPart_toDigits (n : Nat) : IntPart (Nat.toDigits 10 n) := by
  rcases Nat.eq_zero_or_pos n with rfl | hn
  · exact .inl (Nat.toDigits_zero 10)
  · exact .inr ⟨⟨Nat.toDigits_ne_nil, fun c hc => toDigits_isDigit hc⟩, toDigits_head hn⟩

/-- The parts `scanNumber` finds are digits. -/
theorem intPart_digits {s ds rest : List Char} (h : intPart s = (ds, rest)) : ∀ c ∈ ds, isDigit c = true := by
  cases s with
  | nil =>
    cases h
    intro c hc
    cases hc
  | cons c s =>
    rw [intPart] at h
    split at h
    · cases h
      intro x hx
      rw [List.mem_singleton.mp hx]
      decide
    · cases h
      intro x hx
      exact List.mem_takeWhile_imp hx

/-- The integer part is that of a literal. -/
theorem intPart_literal {s ds rest : List Char} (h : intPart s = (ds, rest)) (hne : ds ≠ []) : IntPart ds := by
  have hdigits := intPart_digits h
  cases s with
  | nil =>
    cases h
    exact absurd rfl hne
  | cons c s =>
    rw [intPart] at h
    split at h
    · cases h
      exact .inl rfl
    · next hzero =>
      cases h
      refine .inr ⟨⟨hne, hdigits⟩, ?_⟩
      rw [List.takeWhile_cons] at hne ⊢
      split at hne
      · next hc =>
        rw [if_pos hc, List.head?_cons]
        intro heq
        exact hzero (Option.some.inj heq)
      · exact absurd rfl hne

theorem fracPart_literal {s fs rest : List Char} (h : fracPart s = (fs, rest)) : FracPart fs := by
  rw [fracPart.eq_def] at h
  split at h
  · next c s =>
    split at h
    · next hc =>
      cases h
      refine .inr ⟨(c :: s).takeWhile isDigit, ⟨?_, fun x hx => List.mem_takeWhile_imp hx⟩, rfl⟩
      rw [List.takeWhile_cons, if_pos hc]
      exact List.cons_ne_nil c _
    · cases h
      exact .inl rfl
  · cases h
    exact .inl rfl

theorem expDigits_literal {e : Char} (he : e = 'e' ∨ e = 'E') {sign whole s es rest : List Char}
    (hsign : sign = [] ∨ sign = ['-'] ∨ sign = ['+']) (h : expDigits (e :: sign) whole s = (es, rest)) :
    ExpPart es := by
  unfold expDigits at h
  split at h
  · cases h
    exact .inl rfl
  · next hne =>
    cases h
    exact .inr ⟨e, sign, s.takeWhile isDigit, he, hsign, ⟨hne, fun x hx => List.mem_takeWhile_imp hx⟩, rfl⟩

theorem expPart_literal {s es rest : List Char} (h : expPart s = (es, rest)) : ExpPart es := by
  cases s with
  | nil =>
    cases h
    exact .inl rfl
  | cons e s =>
    rw [expPart.eq_def] at h
    simp only at h
    split at h
    · next he =>
      split at h
      · exact expDigits_literal he (.inr (.inl rfl)) h
      · exact expDigits_literal he (.inr (.inr rfl)) h
      · exact expDigits_literal he (.inl rfl) h
    · cases h
      exact .inl rfl

/-! ## The scanner at a value -/

theorem afterWord_ne {w c : Char} (h : w ≠ c) (ws s : List Char) : afterWord (w :: ws) (c :: s) = none := by
  rw [afterWord, if_neg h]

theorem afterWord_first {word : String} {w c : Char} {ws : List Char} (hword : word.toList = w :: ws) (h : w ≠ c)
    (s : List Char) : afterWord word.toList (c :: s) = none := by
  rw [hword]
  exact afterWord_ne h ws s

section

variable (it : Interp) (array object : List Char → Loads (Json × List Char))

/-- A value that starts with a digit is a number. -/
theorem scanWith_digit {c : Char} (hc : isDigit c = true) (s : List Char) :
    scanWith it array object (c :: s) = scanNumber it false (c :: s) := by
  have hopen : ∀ d : Char, isDigit d = false → c ≠ d := by
    intro d hd heq
    rw [heq, hd] at hc
    cases hc
  have hne : ∀ d : Char, isDigit d = false → d ≠ c := fun d hd => Ne.symm (hopen d hd)
  have hnull : afterWord "null".toList (c :: s) = none := afterWord_first rfl (hne 'n' (by decide)) s
  have htrue : afterWord "true".toList (c :: s) = none := afterWord_first rfl (hne 't' (by decide)) s
  have hfalse : afterWord "false".toList (c :: s) = none := afterWord_first rfl (hne 'f' (by decide)) s
  have hnan : afterWord "NaN".toList (c :: s) = none := afterWord_first rfl (hne 'N' (by decide)) s
  have hinf : afterWord "Infinity".toList (c :: s) = none := afterWord_first rfl (hne 'I' (by decide)) s
  have hneg : afterWord "-Infinity".toList (c :: s) = none := afterWord_first rfl (hne '-' (by decide)) s
  rw [scanWith, if_neg (hopen '"' (by decide)), if_neg (hopen '{' (by decide)), if_neg (hopen '[' (by decide))]
  simp only [hnull, htrue, hfalse, hnan, hinf, hneg, if_neg (hopen '-' (by decide))]

/-- A minus sign before a digit begins a number. -/
theorem scanWith_minus {c : Char} (hc : isDigit c = true) (s : List Char) :
    scanWith it array object ('-' :: c :: s) = scanNumber it true (c :: s) := by
  have hne : 'I' ≠ c := by
    intro heq
    rw [← heq] at hc
    cases hc
  have hneg : afterWord "-Infinity".toList ('-' :: c :: s) = none := by
    have hword : "-Infinity".toList = '-' :: 'I' :: "nfinity".toList := rfl
    rw [hword, afterWord, if_pos rfl]
    exact afterWord_ne hne _ s
  have hnull : afterWord "null".toList ('-' :: c :: s) = none := afterWord_first rfl (by decide : 'n' ≠ '-') _
  have htrue : afterWord "true".toList ('-' :: c :: s) = none := afterWord_first rfl (by decide : 't' ≠ '-') _
  have hfalse : afterWord "false".toList ('-' :: c :: s) = none := afterWord_first rfl (by decide : 'f' ≠ '-') _
  have hnan : afterWord "NaN".toList ('-' :: c :: s) = none := afterWord_first rfl (by decide : 'N' ≠ '-') _
  have hinf : afterWord "Infinity".toList ('-' :: c :: s) = none := afterWord_first rfl (by decide : 'I' ≠ '-') _
  rw [scanWith, if_neg (by decide), if_neg (by decide), if_neg (by decide)]
  simp only [hnull, htrue, hfalse, hnan, hinf, hneg, if_true]

theorem IntPart.head {ds : List Char} (h : IntPart ds) : ∃ c cs, ds = c :: cs ∧ isDigit c = true := by
  rcases h with rfl | ⟨⟨hne, hall⟩, -⟩
  · exact ⟨'0', [], rfl, by decide⟩
  · obtain ⟨c, cs, rfl⟩ := List.exists_cons_of_ne_nil hne
    exact ⟨c, cs, rfl, hall c List.mem_cons_self⟩

/-- A sign and digits begin a number. -/
theorem scanWith_number (negative : Bool) {ds : List Char} (hds : IntPart ds) (s : List Char) :
    scanWith it array object ((if negative then ['-'] else []) ++ (ds ++ s)) = scanNumber it negative (ds ++ s) := by
  obtain ⟨c, cs, rfl, hc⟩ := hds.head
  cases negative with
  | true => exact scanWith_minus it array object hc (cs ++ s)
  | false => exact scanWith_digit it array object hc (cs ++ s)

/-- The literals. -/
theorem scanWith_words (rest : List Char) :
    scanWith it array object ("null".toList ++ rest) = .ok (.null, rest) ∧
    scanWith it array object ("true".toList ++ rest) = .ok (.bool true, rest) ∧
    scanWith it array object ("false".toList ++ rest) = .ok (.bool false, rest) ∧
    scanWith it array object ("NaN".toList ++ rest) = .ok (.float .nan, rest) ∧
    scanWith it array object ("Infinity".toList ++ rest) = .ok (.float (.inf false), rest) ∧
    scanWith it array object ("-Infinity".toList ++ rest) = .ok (.float (.inf true), rest) :=
  ⟨rfl, rfl, rfl, rfl, rfl, rfl⟩

end

end Py
