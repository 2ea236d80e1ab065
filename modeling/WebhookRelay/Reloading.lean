import WebhookRelay.Serialization

/-
  `json.loads` undoes `json.dumps`. `Json.Fits` says which values an interpreter
  holds: integers within the limit on digits, floats that read back from their
  `repr`, strings in which no high surrogate meets a low one, objects without a
  repeated key, nesting within the limit.

  What is proved:
    1. `loads_written`: a value that fits, written in any style and encoded, reads
       back as it was;
    2. `loads_keeps`: what `json.loads` returns has every property that the steps
       of its scanner keep; so it fits (`loads_fits`), nests within the limit
       (`loads_depth`) and repeats no key (`loads_keyed`);
    3. `standard_reads`: what fits can be written, and so what `json.loads` made
       of a text survives being written and read again.
-/
namespace Py

/-! ## What was written reads back -/

/-- A float that reads back from its `repr`. -/
def Float.Reads (it : Interp) (f : Float) : Prop :=
  ∀ repr, f = .finite repr → FloatLiteral repr.toList ∧ it.floatOf repr.toList = .finite repr

/-- The values the interpreter holds, with `depth` levels of nesting. -/
inductive Json.Fits (it : Interp) : (depth : Nat) → Json → Prop where
  | null {d : Nat} : Fits it d .null
  | bool {d : Nat} (b : Bool) : Fits it d (.bool b)
  | int {d : Nat} {i : Int} (h : (Nat.toDigits 10 i.natAbs).length ≤ it.maxDigits) : Fits it d (.int i)
  | float {d : Nat} {f : Float} (h : f.Reads it) : Fits it d (.float f)
  | str {d : Nat} {s : Str} (h : s.Joined) : Fits it d (.str s)
  | arr {d : Nat} {items : List Json} (h : ∀ v ∈ items, Fits it d v) : Fits it (d + 1) (.arr items)
  | obj {d : Nat} {items : List (Str × Json)} (hkeys : ∀ m ∈ items, m.1.Joined)
      (hnodup : (items.map Prod.fst).Nodup) (h : ∀ m ∈ items, Fits it d m.2) : Fits it (d + 1) (.obj items)

/-- An interpreter with room for more reads floats as this one does. -/
structure Interp.Within (it it' : Interp) : Prop where
  floats : it'.floatOf = it.floatOf
  digits : it.maxDigits ≤ it'.maxDigits

/-- What fits one interpreter fits a larger one, and a greater depth. -/
theorem Json.Fits.mono {it it' : Interp} (hw : it.Within it') {d : Nat} {v : Json} (h : v.Fits it d) :
    ∀ {d'}, d ≤ d' → v.Fits it' d' := by
  induction h with
  | null =>
    intro d' _
    exact .null
  | bool b =>
    intro d' _
    exact .bool b
  | int h =>
    intro d' _
    exact .int (h.trans hw.digits)
  | float h =>
    intro d' _
    apply Json.Fits.float
    intro repr hrepr
    rw [hw.floats]
    exact h repr hrepr
  | str h =>
    intro d' _
    exact .str h
  | arr _ ih =>
    intro d' hd
    obtain ⟨e, rfl⟩ : ∃ e, d' = e + 1 := ⟨d' - 1, by omega⟩
    exact .arr (fun v hv => ih v hv (Nat.le_of_succ_le_succ hd))
  | obj hkeys hnodup _ ih =>
    intro d' hd
    obtain ⟨e, rfl⟩ : ∃ e, d' = e + 1 := ⟨d' - 1, by omega⟩
    exact .obj hkeys hnodup (fun m hm => ih m hm (Nat.le_of_succ_le_succ hd))

/-- The characters a written value can start with. -/
def Opening (c : Char) : Prop := c ∈ ['"', '{', '[', 'n', 't', 'f', 'N', 'I', '-'] ∨ isDigit c = true

theorem Opening.ne {c d : Char} (h : Opening c) (hd : d ∉ ['"', '{', '[', 'n', 't', 'f', 'N', 'I', '-'])
    (hdigit : isDigit d = false) : c ≠ d := by
  intro heq
  subst heq
  rcases h with h | h
  · exact hd h
  · rw [hdigit] at h
    cases h

theorem Opening.no_space {c : Char} (h : Opening c) : isJsonSpace c = false := by
  simp only [isJsonSpace, Bool.or_eq_false_iff, beq_eq_false_iff_ne]
  exact ⟨⟨⟨h.ne (by decide) (by decide), h.ne (by decide) (by decide)⟩, h.ne (by decide) (by decide)⟩,
    h.ne (by decide) (by decide)⟩

/-- A value, written in the style, is read by `scan` and starts as values do. -/
def ReadsBack (st : Style) (scan : List Char → Loads (Json × List Char)) (v : Json) : Prop :=
  ∀ t cs, written st v = some t → t.encode = some cs →
    (∃ c cs', cs = c :: cs' ∧ Opening c) ∧ ∀ rest, Stops rest → scan (cs ++ rest) = .ok (v, rest)

theorem stops_cons {c : Char} (h : c = ',' ∨ c = ']' ∨ c = '}') (s : List Char) : Stops (c :: s) := by
  intro d hd
  cases hd
  exact h

theorem scanOnce_eq (it : Interp) (d : Nat) : ∃ array object, scanOnce it d = scanWith it array object := by
  cases d with
  | zero => exact ⟨_, _, rfl⟩
  | succ d => exact ⟨_, _, rfl⟩

section

variable {it : Interp} {st : Style} {scan : List Char → Loads (Json × List Char)}

/-- What a number is written with. -/
theorem opening_number (negative : Bool) {ds : List Char} (hds : IntPart ds) (s : List Char) :
    ∃ c cs, (if negative then ['-'] else []) ++ (ds ++ s) = c :: cs ∧ Opening c := by
  obtain ⟨c, cs, rfl, hc⟩ := hds.head
  cases negative with
  | true => exact ⟨'-', c :: (cs ++ s), rfl, .inl (by decide)⟩
  | false => exact ⟨c, cs ++ s, rfl, .inr hc⟩

theorem readsBack_int {d : Nat} {i : Int} (h : (Nat.toDigits 10 i.natAbs).length ≤ it.maxDigits) :
    ReadsBack st (scanOnce it d) (.int i) := by
  intro t cs ht hcs
  obtain ⟨array, object, hscan⟩ := scanOnce_eq it d
  simp only [written, Option.some.injEq] at ht
  subst ht
  rw [writeInt, encode_ofChars] at hcs
  cases hcs
  have hparts := intPart_toDigits i.natAbs
  have hvalue : digitsValue (Nat.toDigits 10 i.natAbs) = i.natAbs := by
    rw [digitsValue_eq, Nat.ofDigitChars_ten_toDigits]
  have hsign : (if i < 0 then ['-'] else []) = if decide (i < 0) = true then ['-'] else [] := by
    simp only [decide_eq_true_eq]
  have hint : (if decide (i < 0) = true then -(i.natAbs : Int) else i.natAbs) = i := by
    simp only [decide_eq_true_eq]
    split <;> omega
  rw [hsign]
  constructor
  · have hopen := opening_number (decide (i < 0)) hparts []
    rwa [List.append_nil] at hopen
  · intro rest hrest
    have hread := scanNumber_append it (decide (i < 0)) hparts (.inl rfl) (.inl rfl) hrest
    simp only [List.nil_append, List.isEmpty_nil, Bool.and_self, if_true, if_neg (Nat.not_lt.mpr h), hvalue,
      hint] at hread
    rw [hscan, List.append_assoc, scanWith_number it array object _ hparts, hread]

theorem readsBack_float {d : Nat} {f : Float} (h : f.Reads it) : ReadsBack st (scanOnce it d) (.float f) := by
  intro t cs ht hcs
  obtain ⟨array, object, hscan⟩ := scanOnce_eq it d
  rw [written] at ht
  cases f with
  | nan =>
    simp only [Style.float] at ht
    split at ht
    · cases ht
      rw [text, encode_ofChars] at hcs
      cases hcs
      refine ⟨⟨'N', ['a', 'N'], rfl, .inl (by decide)⟩, ?_⟩
      intro rest _
      rw [hscan]
      exact (scanWith_words it array object rest).2.2.2.1
    · cases ht
  | inf negative =>
    simp only [Style.float] at ht
    split at ht
    · cases ht
      rw [text, encode_ofChars] at hcs
      cases hcs
      cases negative with
      | true =>
        refine ⟨⟨'-', "Infinity".toList, rfl, .inl (by decide)⟩, ?_⟩
        intro rest _
        rw [hscan]
        exact (scanWith_words it array object rest).2.2.2.2.2
      | false =>
        refine ⟨⟨'I', "nfinity".toList, rfl, .inl (by decide)⟩, ?_⟩
        intro rest _
        rw [hscan]
        exact (scanWith_words it array object rest).2.2.2.2.1
    · cases ht
  | finite repr =>
    simp only [Style.float, Option.some.injEq] at ht
    subst ht
    rw [encode_ofChars] at hcs
    cases hcs
    obtain ⟨⟨negative, ds, fs, es, hds, hfs, hes, hne, hrepr⟩, hfloat⟩ := h repr rfl
    rw [hrepr] at hfloat
    constructor
    · rw [hrepr, List.append_assoc, List.append_assoc]
      exact opening_number negative hds (fs ++ es)
    · intro rest hrest
      have hread := scanNumber_append it negative hds hfs hes hrest
      have hboth : (fs.isEmpty && es.isEmpty) = false := by
        rw [Bool.and_eq_false_iff, List.isEmpty_eq_false_iff, List.isEmpty_eq_false_iff]
        by_cases hf : fs = []
        · exact .inr (fun he => hne ⟨hf, he⟩)
        · exact .inl hf
      rw [hboth, if_neg Bool.false_ne_true, hfloat] at hread
      have happend : repr.toList ++ rest = (if negative then ['-'] else []) ++ (ds ++ (fs ++ (es ++ rest))) := by
        rw [hrepr]
        simp only [List.append_assoc]
      rw [hscan, happend, scanWith_number it array object negative hds, hread]

theorem readsBack_str {d : Nat} {s : Str} (h : s.Joined) : ReadsBack st (scanOnce it d) (.str s) := by
  intro t cs ht hcs
  obtain ⟨array, object, hscan⟩ := scanOnce_eq it d
  simp only [written, Option.some.injEq] at ht
  subst ht
  obtain ⟨body, rfl, hbody⟩ := scanString_quote h hcs
  refine ⟨⟨'"', body, rfl, .inl (by decide)⟩, ?_⟩
  intro rest _
  rw [hscan, List.cons_append, scanWith, if_pos rfl, hbody rest]

/-- A separator is its character and blanks, which the reader skips. -/
theorem itemSep_chars (st : Style) :
    ∃ bs, st.itemSep = .ofChars (',' :: bs) ∧ ∀ s, skipSpace (bs ++ s) = skipSpace s := by
  cases h : st.blanks with
  | true =>
    refine ⟨[' '], ?_, fun s => skipSpace_blank s⟩
    rw [Style.itemSep, h]
    rfl
  | false =>
    refine ⟨[], ?_, fun s => rfl⟩
    rw [Style.itemSep, h]
    rfl

theorem keySep_chars (st : Style) :
    ∃ bs, st.keySep = .ofChars (':' :: bs) ∧ ∀ s, skipSpace (bs ++ s) = skipSpace s := by
  cases h : st.blanks with
  | true =>
    refine ⟨[' '], ?_, fun s => skipSpace_blank s⟩
    rw [Style.keySep, h]
    rfl
  | false =>
    refine ⟨[], ?_, fun s => rfl⟩
    rw [Style.keySep, h]
    rfl

theorem writtenArr_cons {v : Json} {vs : List Json} {t : Str} (h : writtenArr st (v :: vs) = some t) :
    ∃ tv ts, written st v = some tv ∧ writtenArr st vs = some ts ∧
      t = tv ++ (if vs.isEmpty then [] else st.itemSep) ++ ts := by
  rw [writtenArr] at h
  split at h
  · next tv ts hv hvs =>
    cases h
    exact ⟨tv, ts, hv, hvs, rfl⟩
  · cases h

theorem writtenObj_cons {k : Str} {v : Json} {ms : List (Str × Json)} {t : Str}
    (h : writtenObj st ((k, v) :: ms) = some t) :
    ∃ tv ts, written st v = some tv ∧ writtenObj st ms = some ts ∧
      t = st.quote k ++ st.keySep ++ tv ++ (if ms.isEmpty then [] else st.itemSep) ++ ts := by
  rw [writtenObj] at h
  split at h
  · next tv ts hv hvs =>
    cases h
    exact ⟨tv, ts, hv, hvs, rfl⟩
  · cases h

/-- The items of an array, read as they were written. -/
theorem scanItems_written (acc : List Json) {v : Json} {vs : List Json} {fuel : Nat} {t : Str} {cs : List Char}
    (hread : ∀ x ∈ v :: vs, ReadsBack st scan x) (hfuel : vs.length < fuel)
    (ht : writtenArr st (v :: vs) = some t) (hcs : t.encode = some cs) (rest : List Char) :
    (∃ c cs', cs = c :: cs' ∧ Opening c) ∧
      scanItems scan fuel acc (cs ++ ']' :: rest) = .ok (.arr (acc ++ v :: vs), rest) := by
  induction vs generalizing v fuel acc t cs with
  | nil =>
    obtain ⟨tv, ts, hv, hvs, rfl⟩ := writtenArr_cons ht
    cases hvs
    rw [List.isEmpty_nil, if_pos rfl, List.append_nil, List.append_nil] at hcs
    obtain ⟨hopen, hscan⟩ := hread v List.mem_cons_self tv cs hv hcs
    refine ⟨hopen, ?_⟩
    cases fuel with
    | zero => exact absurd hfuel (Nat.not_lt_zero _)
    | succ fuel =>
      have hvalue := hscan (']' :: rest) (stops_cons (.inr (.inl rfl)) rest)
      have hskip : skipSpace (']' :: rest) = ']' :: rest := skipSpace_cons (by decide) rest
      simp only [scanItems, hvalue, hskip]
  | cons v' vs ih =>
    obtain ⟨tv, ts, hv, hvs, rfl⟩ := writtenArr_cons ht
    obtain ⟨bs, hsep, hblank⟩ := itemSep_chars st
    rw [List.isEmpty_cons, if_neg Bool.false_ne_true, hsep, List.append_assoc, encode_append] at hcs
    obtain ⟨cv, csep, hcv, hcsep, rfl⟩ := hcs
    obtain ⟨cts, hcts, rfl⟩ := encode_ofChars_append.mp hcsep
    obtain ⟨⟨c, cv', rfl, hc⟩, hscan⟩ := hread v List.mem_cons_self tv cv hv hcv
    refine ⟨⟨c, _, rfl, hc⟩, ?_⟩
    cases fuel with
    | zero => exact absurd hfuel (Nat.not_lt_zero _)
    | succ fuel =>
      have hlen : vs.length < fuel := by
        rw [List.length_cons] at hfuel
        omega
      obtain ⟨⟨c', cts', rfl, hc'⟩, hrest⟩ := ih (acc ++ [v])
        (fun x hx => hread x (List.mem_cons_of_mem v hx)) hlen hvs hcts
      -- the value, the comma and its blanks, and the rest of the items
      have hvalue := hscan (',' :: (bs ++ (c' :: cts' ++ ']' :: rest))) (stops_cons (.inl rfl) _)
      have hskip : skipSpace (',' :: (bs ++ (c' :: cts' ++ ']' :: rest))) =
          ',' :: (bs ++ (c' :: cts' ++ ']' :: rest)) := skipSpace_cons (by decide) _
      have hnext : skipSpace (bs ++ (c' :: cts' ++ ']' :: rest)) = c' :: cts' ++ ']' :: rest := by
        rw [hblank, List.cons_append, skipSpace_cons hc'.no_space]
      have htext : c :: cv' ++ (',' :: bs ++ c' :: cts') ++ ']' :: rest =
          c :: cv' ++ ',' :: (bs ++ (c' :: cts' ++ ']' :: rest)) := by
        simp only [List.append_assoc, List.cons_append]
      rw [htext]
      simp only [scanItems, hvalue, hskip, hnext, hrest, List.append_assoc, List.singleton_append]

/-- The members of an object, read as they were written. -/
theorem scanMembers_writtenObj (acc : List (Str × Json)) {m : Str × Json} {ms : List (Str × Json)} {fuel : Nat} {t : Str}
    {cs : List Char} (hkeys : ∀ x ∈ m :: ms, x.1.Joined) (hread : ∀ x ∈ m :: ms, ReadsBack st scan x.2)
    (hnodup : (acc.map Prod.fst ++ (m :: ms).map Prod.fst).Nodup) (hfuel : ms.length < fuel)
    (ht : writtenObj st (m :: ms) = some t) (hcs : t.encode = some cs) (rest : List Char) :
    (∃ cs', cs = '"' :: cs') ∧
      scanMembers scan fuel acc (cs ++ '}' :: rest) = .ok (.obj (acc ++ m :: ms), rest) := by
  induction ms generalizing m fuel acc t cs with
  | nil =>
    obtain ⟨k, v⟩ := m
    obtain ⟨tv, ts, hv, hvs, rfl⟩ := writtenObj_cons ht
    cases hvs
    obtain ⟨ks, hsep, hkblank⟩ := keySep_chars st
    rw [List.isEmpty_nil, if_pos rfl, List.append_nil, List.append_nil, hsep, List.append_assoc,
      encode_append] at hcs
    obtain ⟨ck, csep, hck, hcsep, rfl⟩ := hcs
    obtain ⟨cv, hcv, rfl⟩ := encode_ofChars_append.mp hcsep
    obtain ⟨body, rfl, hkey⟩ := scanString_quote (hkeys (k, v) List.mem_cons_self) hck
    obtain ⟨⟨c, cv', rfl, hc⟩, hscan⟩ := hread (k, v) List.mem_cons_self tv cv hv hcv
    refine ⟨⟨_, rfl⟩, ?_⟩
    cases fuel with
    | zero => exact absurd hfuel (Nat.not_lt_zero _)
    | succ fuel =>
      have hfresh : k ∉ acc.map Prod.fst := by
        intro hmem
        exact (List.nodup_append.mp hnodup).2.2 k hmem k List.mem_cons_self rfl
      have hvalue := hscan ('}' :: rest) (stops_cons (.inr (.inr rfl)) rest)
      have hcolon : skipSpace (':' :: (ks ++ (c :: cv' ++ '}' :: rest))) =
          ':' :: (ks ++ (c :: cv' ++ '}' :: rest)) := skipSpace_cons (by decide) _
      have hnext : skipSpace (ks ++ (c :: cv' ++ '}' :: rest)) = c :: cv' ++ '}' :: rest := by
        rw [hkblank, List.cons_append, skipSpace_cons hc.no_space]
      have hclose : skipSpace ('}' :: rest) = '}' :: rest := skipSpace_cons (by decide) rest
      have htext : '"' :: body ++ (':' :: ks ++ c :: cv') ++ '}' :: rest =
          '"' :: (body ++ ':' :: (ks ++ (c :: cv' ++ '}' :: rest))) := by
        simp only [List.append_assoc, List.cons_append]
      rw [htext]
      simp only [scanMembers, hkey, hcolon, hnext, hvalue, hclose, setItem_fresh v hfresh]
  | cons m' ms ih =>
    obtain ⟨k, v⟩ := m
    obtain ⟨tv, ts, hv, hvs, rfl⟩ := writtenObj_cons ht
    obtain ⟨ks, hksep, hkblank⟩ := keySep_chars st
    obtain ⟨bs, hsep, hblank⟩ := itemSep_chars st
    rw [List.isEmpty_cons, if_neg Bool.false_ne_true, hksep, hsep, List.append_assoc, List.append_assoc,
      List.append_assoc, encode_append] at hcs
    obtain ⟨ck, crest, hck, hcrest, rfl⟩ := hcs
    obtain ⟨cafter, hcafter, rfl⟩ := encode_ofChars_append.mp hcrest
    obtain ⟨cv, csep, hcv, hcsep, rfl⟩ := encode_append.mp hcafter
    obtain ⟨cts, hcts, rfl⟩ := encode_ofChars_append.mp hcsep
    obtain ⟨body, rfl, hkey⟩ := scanString_quote (hkeys (k, v) List.mem_cons_self) hck
    obtain ⟨⟨c, cv', rfl, hc⟩, hscan⟩ := hread (k, v) List.mem_cons_self tv cv hv hcv
    refine ⟨⟨_, rfl⟩, ?_⟩
    cases fuel with
    | zero => exact absurd hfuel (Nat.not_lt_zero _)
    | succ fuel =>
      have hfresh : k ∉ acc.map Prod.fst := by
        intro hmem
        exact (List.nodup_append.mp hnodup).2.2 k hmem k List.mem_cons_self rfl
      have hlen : ms.length < fuel := by
        rw [List.length_cons] at hfuel
        omega
      have hnodup' : ((acc ++ [(k, v)]).map Prod.fst ++ (m' :: ms).map Prod.fst).Nodup := by
        rw [List.map_append, List.append_assoc]
        exact hnodup
      obtain ⟨⟨cts', rfl⟩, hrest⟩ := ih (acc ++ [(k, v)])
        (fun x hx => hkeys x (List.mem_cons_of_mem _ hx)) (fun x hx => hread x (List.mem_cons_of_mem _ hx))
        hnodup' hlen hvs hcts
      -- the key, the colon, the value, the comma, and the rest of the members
      have hvalue := hscan (',' :: (bs ++ ('"' :: cts' ++ '}' :: rest))) (stops_cons (.inl rfl) _)
      have hcolon : skipSpace (':' :: (ks ++ (c :: cv' ++ ',' :: (bs ++ ('"' :: cts' ++ '}' :: rest))))) =
          ':' :: (ks ++ (c :: cv' ++ ',' :: (bs ++ ('"' :: cts' ++ '}' :: rest)))) := skipSpace_cons (by decide) _
      have hnext : skipSpace (ks ++ (c :: cv' ++ ',' :: (bs ++ ('"' :: cts' ++ '}' :: rest)))) =
          c :: cv' ++ ',' :: (bs ++ ('"' :: cts' ++ '}' :: rest)) := by
        rw [hkblank, List.cons_append, skipSpace_cons hc.no_space]
      have hcomma : skipSpace (',' :: (bs ++ ('"' :: cts' ++ '}' :: rest))) =
          ',' :: (bs ++ ('"' :: cts' ++ '}' :: rest)) := skipSpace_cons (by decide) _
      have hmembers : skipSpace (bs ++ ('"' :: cts' ++ '}' :: rest)) = '"' :: cts' ++ '}' :: rest := by
        rw [hblank, List.cons_append, skipSpace_cons (by decide)]
      have htext : '"' :: body ++ (':' :: ks ++ (c :: cv' ++ (',' :: bs ++ '"' :: cts'))) ++ '}' :: rest =
          '"' :: (body ++ ':' :: (ks ++ (c :: cv' ++ ',' :: (bs ++ ('"' :: cts' ++ '}' :: rest))))) := by
        simp only [List.append_assoc, List.cons_append]
      rw [htext]
      simp only [scanMembers, hkey, hcolon, hnext, hvalue, hcomma, hmembers, setItem_fresh v hfresh, hrest,
        List.append_assoc, List.singleton_append]

/-- Each item is written with a character at least. -/
theorem length_writtenArr {vs : List Json} {t : Str} {cs : List Char}
    (hread : ∀ x ∈ vs, ReadsBack st scan x) (ht : writtenArr st vs = some t) (hcs : t.encode = some cs) :
    vs.length ≤ cs.length := by
  induction vs generalizing t cs with
  | nil => exact Nat.zero_le _
  | cons v vs ih =>
    obtain ⟨tv, ts, hv, hvs, rfl⟩ := writtenArr_cons ht
    rw [List.append_assoc, encode_append] at hcs
    obtain ⟨cv, crest, hcv, hcrest, rfl⟩ := hcs
    obtain ⟨csep, cts, -, hcts, rfl⟩ := encode_append.mp hcrest
    obtain ⟨⟨c, cv', rfl, -⟩, -⟩ := hread v List.mem_cons_self tv cv hv hcv
    have hlen := ih (fun x hx => hread x (List.mem_cons_of_mem v hx)) hvs hcts
    simp only [List.length_append, List.length_cons]
    omega

theorem length_writtenObj {ms : List (Str × Json)} {t : Str} {cs : List Char}
    (hread : ∀ x ∈ ms, ReadsBack st scan x.2) (ht : writtenObj st ms = some t) (hcs : t.encode = some cs) :
    ms.length ≤ cs.length := by
  induction ms generalizing t cs with
  | nil => exact Nat.zero_le _
  | cons m ms ih =>
    obtain ⟨k, v⟩ := m
    obtain ⟨tv, ts, hv, hvs, rfl⟩ := writtenObj_cons ht
    rw [List.append_assoc, List.append_assoc, encode_append] at hcs
    obtain ⟨ckey, crest, -, hcrest, rfl⟩ := hcs
    obtain ⟨cv, crest', hcv, hcrest', rfl⟩ := encode_append.mp hcrest
    obtain ⟨csep, cts, -, hcts, rfl⟩ := encode_append.mp hcrest'
    obtain ⟨⟨c, cv', rfl, -⟩, -⟩ := hread (k, v) List.mem_cons_self tv cv hv hcv
    have hlen := ih (fun x hx => hread x (List.mem_cons_of_mem _ hx)) hvs hcts
    simp only [List.length_append, List.length_cons]
    omega

theorem readsBack_arr {d : Nat} {items : List Json} (hread : ∀ v ∈ items, ReadsBack st (scanOnce it d) v) :
    ReadsBack st (scanOnce it (d + 1)) (.arr items) := by
  intro t cs ht hcs
  rw [written, Option.map_eq_some_iff] at ht
  obtain ⟨t', ht', rfl⟩ := ht
  have hopen : text "[" ++ t' ++ text "]" = Str.ofChars ['['] ++ (t' ++ Str.ofChars [']']) := List.append_assoc ..
  rw [hopen, encode_ofChars_append] at hcs
  obtain ⟨b, hb, rfl⟩ := hcs
  obtain ⟨cs', hcs', rfl⟩ := encode_append_ofChars.mp hb
  refine ⟨⟨'[', cs' ++ [']'], rfl, .inl (by decide)⟩, ?_⟩
  intro rest _
  have harray : scanOnce it (d + 1) ('[' :: (cs' ++ ']' :: rest)) = scanArray (scanOnce it d) (cs' ++ ']' :: rest) := rfl
  have htext : ['['] ++ (cs' ++ [']']) ++ rest = '[' :: (cs' ++ ']' :: rest) := by
    simp only [List.append_assoc, List.cons_append, List.nil_append]
  rw [htext, harray]
  cases items with
  | nil =>
    cases ht'
    cases hcs'
    rfl
  | cons v vs =>
    have hlen := length_writtenArr hread ht' hcs'
    have hfuel : vs.length < (cs' ++ ']' :: rest).length + 1 := by
      rw [List.length_cons] at hlen
      rw [List.length_append]
      omega
    obtain ⟨⟨c, cs'', rfl, hc⟩, hitems⟩ := scanItems_written [] hread hfuel ht' hcs' rest
    have hskip : skipSpace (c :: cs'' ++ ']' :: rest) = c :: cs'' ++ ']' :: rest := skipSpace_cons hc.no_space _
    rw [scanArray, hskip]
    split
    · next heq => exact absurd (List.cons.inj heq).1 (hc.ne (by decide) (by decide))
    · exact hitems

theorem readsBack_obj {d : Nat} {items : List (Str × Json)} (hkeys : ∀ m ∈ items, m.1.Joined)
    (hnodup : (items.map Prod.fst).Nodup) (hread : ∀ m ∈ items, ReadsBack st (scanOnce it d) m.2) :
    ReadsBack st (scanOnce it (d + 1)) (.obj items) := by
  intro t cs ht hcs
  rw [written, Option.map_eq_some_iff] at ht
  obtain ⟨t', ht', rfl⟩ := ht
  have hopen : text "\x7b" ++ t' ++ text "\x7d" = Str.ofChars ['{'] ++ (t' ++ Str.ofChars ['}']) :=
    List.append_assoc ..
  rw [hopen, encode_ofChars_append] at hcs
  obtain ⟨b, hb, rfl⟩ := hcs
  obtain ⟨cs', hcs', rfl⟩ := encode_append_ofChars.mp hb
  refine ⟨⟨'{', cs' ++ ['}'], rfl, .inl (by decide)⟩, ?_⟩
  intro rest _
  have hobject : scanOnce it (d + 1) ('{' :: (cs' ++ '}' :: rest)) = scanObject (scanOnce it d) (cs' ++ '}' :: rest) :=
    rfl
  have htext : ['{'] ++ (cs' ++ ['}']) ++ rest = '{' :: (cs' ++ '}' :: rest) := by
    simp only [List.append_assoc, List.cons_append, List.nil_append]
  rw [htext, hobject]
  cases items with
  | nil =>
    cases ht'
    cases hcs'
    rfl
  | cons m ms =>
    have hlen := length_writtenObj hread ht' hcs'
    have hfuel : ms.length < (cs' ++ '}' :: rest).length + 1 := by
      rw [List.length_cons] at hlen
      rw [List.length_append]
      omega
    obtain ⟨⟨cs'', rfl⟩, hmembers⟩ := scanMembers_writtenObj [] hkeys hread hnodup hfuel ht' hcs' rest
    have hskip : skipSpace ('"' :: cs'' ++ '}' :: rest) = '"' :: cs'' ++ '}' :: rest := skipSpace_cons (by decide) _
    rw [scanObject, hskip]
    exact hmembers

/-- A value that fits is read as it was written, in any style. -/
theorem readsBack_of_fits {d : Nat} {v : Json} (h : v.Fits it d) (st : Style) : ReadsBack st (scanOnce it d) v := by
  induction h with
  | @null d =>
    intro t cs ht hcs
    obtain ⟨array, object, hscan⟩ := scanOnce_eq it d
    cases ht
    rw [text, encode_ofChars] at hcs
    cases hcs
    refine ⟨⟨'n', ['u', 'l', 'l'], rfl, .inl (by decide)⟩, ?_⟩
    intro rest _
    rw [hscan]
    exact (scanWith_words it array object rest).1
  | @bool d b =>
    intro t cs ht hcs
    obtain ⟨array, object, hscan⟩ := scanOnce_eq it d
    cases ht
    rw [text, encode_ofChars] at hcs
    cases hcs
    cases b with
    | true =>
      refine ⟨⟨'t', ['r', 'u', 'e'], rfl, .inl (by decide)⟩, ?_⟩
      intro rest _
      rw [hscan]
      exact (scanWith_words it array object rest).2.1
    | false =>
      refine ⟨⟨'f', ['a', 'l', 's', 'e'], rfl, .inl (by decide)⟩, ?_⟩
      intro rest _
      rw [hscan]
      exact (scanWith_words it array object rest).2.2.1
  | int h => exact readsBack_int h
  | float h => exact readsBack_float h
  | str h => exact readsBack_str h
  | arr _ ih => exact readsBack_arr ih
  | obj hkeys hnodup _ ih => exact readsBack_obj hkeys hnodup ih

/-- **What was written reads back.** `json.loads` of `json.dumps` of a value
that fits, in any style that can write and encode it, is the value. -/
theorem loads_written {v : Json} (h : v.Fits it it.maxDepth) {t : Str} {cs : List Char} (ht : written st v = some t)
    (hcs : t.encode = some cs) : loads it cs = .ok v := by
  obtain ⟨⟨c, cs', rfl, hc⟩, hread⟩ := readsBack_of_fits h st t cs ht hcs
  have hnil : Stops [] := by
    intro d hd
    cases hd
  have hscan := hread [] hnil
  rw [List.append_nil] at hscan
  rw [loads.eq_def]
  split
  · next heq => exact absurd (List.cons.inj heq).1 (hc.ne (by decide) (by decide))
  · rw [skipSpace_cons hc.no_space, hscan]
    rfl

end

/-! ## What was read -/

/-- A property of values at a depth that every value the scanner builds has, if
the values it is built from have it one level down. -/
structure Interp.Keeps (it : Interp) (P : Nat → Json → Prop) : Prop where
  null {d : Nat} : P d .null
  bool {d : Nat} (b : Bool) : P d (.bool b)
  int {d : Nat} {i : Int} (h : (Nat.toDigits 10 i.natAbs).length ≤ it.maxDigits) : P d (.int i)
  word {d : Nat} {f : Float} (h : ∀ repr, f ≠ .finite repr) : P d (.float f)
  float {d : Nat} {literal : List Char} (h : FloatLiteral literal) : P d (.float (it.floatOf literal))
  str {d : Nat} {s : Str} (h : s.Joined) : P d (.str s)
  arr {d : Nat} {items : List Json} (h : ∀ v ∈ items, P d v) : P (d + 1) (.arr items)
  obj {d : Nat} {items : List (Str × Json)} (hkeys : ∀ m ∈ items, m.1.Joined)
    (hnodup : (items.map Prod.fst).Nodup) (h : ∀ m ∈ items, P d m.2) : P (d + 1) (.obj items)

section

variable {it : Interp} {P : Nat → Json → Prop} {Q : Json → Prop} {d : Nat}
  {scan : List Char → Loads (Json × List Char)}

/-- What the scanner returns has the property. -/
def Scans (Q : Json → Prop) (scan : List Char → Loads (Json × List Char)) : Prop :=
  ∀ s v rest, scan s = .ok (v, rest) → Q v

theorem scanString_joined {s : List Char} {str : Str} {rest : List Char} (h : scanString s = some (str, rest)) :
    str.Joined := by
  rw [scanString, Option.map_eq_some_iff] at h
  obtain ⟨⟨units, rest'⟩, -, hjoin⟩ := h
  cases hjoin
  exact joinPairs_joined units

theorem scanNumber_keeps (hP : it.Keeps P) {negative : Bool} {s : List Char} {v : Json} {rest : List Char}
    (h : scanNumber it negative s = .ok (v, rest)) : P d v := by
  unfold scanNumber at h
  cases hint : intPart s with
  | mk ds r =>
    simp only [hint] at h
    split at h
    · cases h
    · next hne =>
      split at h
      · split at h
        · cases h
        · next hdigits =>
          cases h
          apply hP.int
          have hds := intPart_digits hint
          have hpos : 0 < ds.length := by
            cases ds with
            | nil => exact absurd rfl hne
            | cons c ds => exact Nat.succ_pos _
          have habs : (if negative then -(digitsValue ds : Int) else digitsValue ds).natAbs = digitsValue ds := by
            cases negative
            · exact Int.natAbs_natCast _
            · exact (Int.natAbs_neg _).trans (Int.natAbs_natCast _)
          rw [habs]
          exact ((Nat.length_toDigits_le_iff (by decide) hpos).mpr (digitsValue_lt hds)).trans (Nat.not_lt.mp hdigits)
      · next hfloat =>
        cases h
        apply hP.float
        refine ⟨negative, ds, _, _, intPart_literal hint ?_, fracPart_literal rfl, expPart_literal rfl, ?_, rfl⟩
        · intro hds
          exact hne (List.isEmpty_iff.mpr hds)
        · intro hempty
          exact hfloat (Bool.and_eq_true_iff.mpr
            ⟨List.isEmpty_iff.mpr hempty.1, List.isEmpty_iff.mpr hempty.2⟩)

theorem scanWith_keeps (hP : it.Keeps P) {array object : List Char → Loads (Json × List Char)}
    (harray : Scans (P d) array) (hobject : Scans (P d) object) : Scans (P d) (scanWith it array object) := by
  intro s v rest h
  cases s with
  | nil => cases h
  | cons c s =>
    rw [scanWith] at h
    split at h
    · split at h
      · next str rest' hstr =>
        cases h
        exact hP.str (scanString_joined hstr)
      · cases h
    split at h
    · exact hobject s v rest h
    split at h
    · exact harray s v rest h
    split at h
    · cases h
      exact hP.null
    split at h
    · cases h
      exact hP.bool true
    split at h
    · cases h
      exact hP.bool false
    split at h
    · cases h
      apply hP.word
      intro repr hrepr
      cases hrepr
    split at h
    · cases h
      apply hP.word
      intro repr hrepr
      cases hrepr
    split at h
    · cases h
      apply hP.word
      intro repr hrepr
      cases hrepr
    split at h
    · exact scanNumber_keeps hP h
    · exact scanNumber_keeps hP h

theorem scanItems_keeps (hP : it.Keeps P) (hscan : Scans (P d) scan) {fuel : Nat} {acc : List Json}
    (hacc : ∀ v ∈ acc, P d v) {s : List Char} {v : Json} {rest : List Char}
    (h : scanItems scan fuel acc s = .ok (v, rest)) : P (d + 1) v := by
  induction fuel generalizing acc s with
  | zero => cases h
  | succ fuel ih =>
    rw [scanItems] at h
    split at h
    · cases h
    · next x rest' hx =>
      have hnew : ∀ y ∈ acc ++ [x], P d y := by
        intro y hy
        rcases List.mem_append.mp hy with hy | hy
        · exact hacc y hy
        · rw [List.mem_singleton.mp hy]
          exact hscan _ _ _ hx
      split at h
      · cases h
        exact hP.arr hnew
      · exact ih hnew h
      · cases h

/-- The keys of a dict after an assignment. -/
theorem setItem_keys (key : Str) (value : Json) (items : List (Str × Json)) :
    (key ∈ items.map Prod.fst → (setItem key value items).map Prod.fst = items.map Prod.fst) ∧
      (key ∉ items.map Prod.fst → (setItem key value items).map Prod.fst = items.map Prod.fst ++ [key]) := by
  induction items with
  | nil => exact ⟨fun h => absurd h List.not_mem_nil, fun _ => rfl⟩
  | cons m items ih =>
    obtain ⟨k, v⟩ := m
    obtain ⟨hold, hnew⟩ := ih
    by_cases hk : k = key
    · subst hk
      simp only [setItem, if_true, List.map_cons, List.mem_cons, true_or, not_true_eq_false, implies_true,
        false_implies, and_self]
    · simp only [setItem, if_neg hk, List.map_cons, List.mem_cons, Ne.symm hk, false_or, List.cons_append]
      exact ⟨fun h => congrArg (k :: ·) (hold h), fun h => congrArg (k :: ·) (hnew h)⟩

theorem setItem_nodup {key : Str} {value : Json} {items : List (Str × Json)} (h : (items.map Prod.fst).Nodup) :
    ((setItem key value items).map Prod.fst).Nodup := by
  obtain ⟨hold, hnew⟩ := setItem_keys key value items
  by_cases hkey : key ∈ items.map Prod.fst
  · rw [hold hkey]
    exact h
  · rw [hnew hkey, List.nodup_append]
    refine ⟨h, List.nodup_singleton key, ?_⟩
    intro a ha b hb heq
    rw [List.mem_singleton.mp hb] at heq
    exact hkey (heq ▸ ha)

theorem mem_setItem {key : Str} {value : Json} {items : List (Str × Json)} {m : Str × Json}
    (h : m ∈ setItem key value items) : m = (key, value) ∨ m ∈ items := by
  induction items with
  | nil => exact .inl (List.mem_singleton.mp h)
  | cons x items ih =>
    obtain ⟨k, v⟩ := x
    rw [setItem] at h
    split at h
    · next hk =>
      rcases List.mem_cons.mp h with rfl | h
      · exact .inl (by rw [hk])
      · exact .inr (List.mem_cons_of_mem _ h)
    · rcases List.mem_cons.mp h with rfl | h
      · exact .inr List.mem_cons_self
      · rcases ih h with h | h
        · exact .inl h
        · exact .inr (List.mem_cons_of_mem _ h)

/-- The members of a dict that was assigned to key by key. -/
structure Members (Q : Json → Prop) (items : List (Str × Json)) : Prop where
  keys : ∀ m ∈ items, m.1.Joined
  nodup : (items.map Prod.fst).Nodup
  values : ∀ m ∈ items, Q m.2

theorem Members.nil : Members Q [] := by
  refine ⟨?_, List.nodup_nil, ?_⟩
  · intro m hm
    cases hm
  · intro m hm
    cases hm

theorem Members.setItem {items : List (Str × Json)} (h : Members Q items) {key : Str} {value : Json}
    (hkey : key.Joined) (hvalue : Q value) : Members Q (setItem key value items) := by
  refine ⟨?_, ?_, ?_⟩
  · intro m hm
    rcases mem_setItem hm with rfl | hm
    · exact hkey
    · exact h.keys m hm
  · exact setItem_nodup h.nodup
  · intro m hm
    rcases mem_setItem hm with rfl | hm
    · exact hvalue
    · exact h.values m hm

/-- `base.update(extras)` of a dict. -/
def updated (base extras : List (Str × Json)) : List (Str × Json) := extras.foldl (fun d m => setItem m.1 m.2 d) base

theorem lookup_setItem (key key' : Str) (value : Json) (items : List (Str × Json)) :
    (setItem key value items).lookup key' = if key' = key then some value else items.lookup key' := by
  induction items with
  | nil =>
    rw [setItem, List.lookup_cons]
    by_cases h : key' = key
    · rw [if_pos h, h, beq_self_eq_true]
    · rw [if_neg h, beq_false_of_ne h]
  | cons m items ih =>
    obtain ⟨k, v⟩ := m
    rw [setItem]
    by_cases hk : k = key
    · rw [if_pos hk, List.lookup_cons, List.lookup_cons, hk]
      by_cases h : key' = key
      · rw [if_pos h, h, beq_self_eq_true]
      · rw [if_neg h, beq_false_of_ne h]
    · rw [if_neg hk, List.lookup_cons, List.lookup_cons, ih]
      by_cases h : key' = k
      · have hne : key' ≠ key := by
          rw [h]
          exact hk
        rw [beq_iff_eq.mpr h]
        exact (if_neg hne).symm
      · rw [beq_false_of_ne h]

/-- What is assigned last wins. -/
theorem lookup_updated {base extras : List (Str × Json)} (h : (extras.map Prod.fst).Nodup) (key : Str) :
    (updated base extras).lookup key = (extras.lookup key).or (base.lookup key) := by
  induction extras generalizing base with
  | nil => rfl
  | cons m ms ih =>
    obtain ⟨k, v⟩ := m
    obtain ⟨hnew, hrest⟩ := List.nodup_cons.mp h
    have hstep : updated base ((k, v) :: ms) = updated (setItem k v base) ms := rfl
    rw [hstep, ih hrest, lookup_setItem, List.lookup_cons]
    by_cases hk : key = k
    · have hnone : ms.lookup key = none := by
        rw [List.lookup_eq_none_iff]
        intro m hm
        rw [bne_iff_ne]
        intro heq
        exact hnew (List.mem_map.mpr ⟨m, hm, heq.symm.trans hk⟩)
      rw [hnone, if_pos hk, hk, beq_self_eq_true]
      rfl
    · rw [if_neg hk, beq_false_of_ne hk]

theorem mem_updated {base extras : List (Str × Json)} {m : Str × Json} (h : m ∈ updated base extras) :
    m ∈ base ∨ m ∈ extras := by
  induction extras generalizing base with
  | nil => exact .inl h
  | cons x xs ih =>
    have hstep : updated base (x :: xs) = updated (setItem x.1 x.2 base) xs := rfl
    rw [hstep] at h
    rcases ih h with h | h
    · rcases mem_setItem h with rfl | h
      · exact .inr List.mem_cons_self
      · exact .inl h
    · exact .inr (List.mem_cons_of_mem x h)

theorem Members.updated {base extras : List (Str × Json)} (h : Members Q base) (hkeys : ∀ m ∈ extras, m.1.Joined)
    (hvalues : ∀ m ∈ extras, Q m.2) : Members Q (updated base extras) := by
  induction extras generalizing base with
  | nil => exact h
  | cons m ms ih =>
    obtain ⟨hkey, hkeys⟩ := List.forall_mem_cons.mp hkeys
    obtain ⟨hvalue, hvalues⟩ := List.forall_mem_cons.mp hvalues
    exact ih (h.setItem hkey hvalue) hkeys hvalues

theorem scanMembers_keeps (hP : it.Keeps P) (hscan : Scans (P d) scan) {fuel : Nat} {acc : List (Str × Json)}
    (hacc : Members (P d) acc) {s : List Char} {v : Json} {rest : List Char}
    (h : scanMembers scan fuel acc s = .ok (v, rest)) : P (d + 1) v := by
  induction fuel generalizing acc s with
  | zero => cases h
  | succ fuel ih =>
    rw [scanMembers.eq_def] at h
    simp only at h
    split at h
    · split at h
      · cases h
      · next key rest' hkey =>
        split at h
        · split at h
          · cases h
          · next x rest'' hx =>
            have hnew := hacc.setItem (scanString_joined hkey) (hscan _ _ _ hx)
            split at h
            · cases h
              exact hP.obj hnew.keys hnew.nodup hnew.values
            · exact ih hnew h
            · cases h
        · cases h
    · cases h

theorem scanOnce_keeps (hP : it.Keeps P) : ∀ d, Scans (P d) (scanOnce it d)
  | 0 => by
    apply scanWith_keeps hP
    · intro s v rest h
      cases h
    · intro s v rest h
      cases h
  | d + 1 => by
    apply scanWith_keeps hP
    · intro s v rest h
      rw [scanArray] at h
      split at h
      · cases h
        apply hP.arr
        intro x hx
        cases hx
      · apply scanItems_keeps hP (scanOnce_keeps hP d) _ h
        intro x hx
        cases hx
    · intro s v rest h
      rw [scanObject] at h
      split at h
      · cases h
        have hnil : Members (P d) [] := .nil
        exact hP.obj hnil.keys hnil.nodup hnil.values
      · exact scanMembers_keeps hP (scanOnce_keeps hP d) .nil h

/-- **What `json.loads` returns.** It has every property its steps keep. -/
theorem loads_keeps (hP : it.Keeps P) {s : List Char} {v : Json} (h : loads it s = .ok v) : P it.maxDepth v := by
  rw [loads.eq_def] at h
  split at h
  · cases h
  · split at h
    · cases h
    · next x rest hx =>
      split at h
      · cases h
        exact scanOnce_keeps hP _ _ _ _ hx
      · cases h

/-- `repr` writes floats as literals, and `float` reads them back. -/
def Interp.Faithful (it : Interp) : Prop := ∀ literal, FloatLiteral literal → (it.floatOf literal).Reads it

theorem loads_fits (hit : it.Faithful) {s : List Char} {v : Json} (h : loads it s = .ok v) :
    v.Fits it it.maxDepth := by
  apply loads_keeps (P := fun d v => v.Fits it d) _ h
  exact ⟨.null, .bool, .int, fun h => .float (fun repr hrepr => absurd hrepr (h repr)),
    fun h => .float (hit _ h), .str, .arr, .obj⟩

/-- No object in the value has a key twice. -/
inductive Json.Keyed : Json → Prop where
  | null : Keyed .null
  | bool (b : Bool) : Keyed (.bool b)
  | int (i : Int) : Keyed (.int i)
  | float (f : Float) : Keyed (.float f)
  | str (s : Str) : Keyed (.str s)
  | arr {items : List Json} (h : ∀ v ∈ items, Keyed v) : Keyed (.arr items)
  | obj {items : List (Str × Json)} (hnodup : (items.map Prod.fst).Nodup) (h : ∀ m ∈ items, Keyed m.2) :
      Keyed (.obj items)

theorem loads_keyed {s : List Char} {v : Json} (h : loads it s = .ok v) : v.Keyed := by
  apply loads_keeps (P := fun _ v => v.Keyed) _ h
  exact ⟨.null, .bool, fun _ => .int _, fun _ => .float _, fun _ => .float _, fun _ => .str _, .arr,
    fun _ hnodup h => .obj hnodup h⟩

/-- `json.loads` nests no deeper than its limit. -/
theorem loads_depth {s : List Char} {v : Json} (h : loads it s = .ok v) : v.depth ≤ it.maxDepth := by
  apply loads_keeps (P := fun d v => v.depth ≤ d) _ h
  exact ⟨Nat.zero_le _, fun _ => Nat.zero_le _, fun _ => Nat.zero_le _, fun _ => Nat.zero_le _,
    fun _ => Nat.zero_le _, fun _ => Nat.zero_le _, fun h => Nat.succ_le_succ (levelsArr_le.mpr h),
    fun _ _ h => Nat.succ_le_succ (levelsObj_le.mpr h)⟩

/-- The standard style can write everything, and what fits is read back. -/
theorem standard_reads {v : Json} (h : v.Fits it it.maxDepth) :
    ∃ cs, (written .standard v).bind Str.encode = some cs ∧ loads it cs = .ok v := by
  obtain ⟨l, hl⟩ : ∃ l, written .standard v = some (.ofChars l) := written_ascii rfl rfl v
  refine ⟨l, ?_, loads_written h hl (encode_ofChars l)⟩
  rw [hl]
  exact encode_ofChars l

end

end Py
