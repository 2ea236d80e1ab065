import WebhookRelay.Reloading

/-
  What `json.dumps` writes is one line. Every control character of a string is
  escaped, and nothing else that is written has any, so the text of a value, in
  any style, has no character below U+0020 (`printable_written`): a reader that
  splits a stream at line feeds finds in it exactly the values written to it.
  A style that allows NaN can write every value (`written_some`). A stream of lines
  that is cut anywhere keeps the lines before the cut (`splitLines_cut`).
-/
namespace Py

/-- No character below U+0020. -/
def Printable (s : Str) : Prop := ∀ u ∈ s, 0x20 ≤ u.val

theorem printable_append {s t : Str} : Printable (s ++ t) ↔ Printable s ∧ Printable t := List.forall_mem_append

theorem printable_ofChars {l : List Char} : Printable (.ofChars l) ↔ ∀ c ∈ l, 0x20 ≤ c.toNat := by
  rw [Printable, Str.ofChars]
  exact List.forall_mem_map

theorem all_printable {l : List Char} (h : l.all (fun c => decide (0x20 ≤ c.toNat)) = true) :
    ∀ c ∈ l, 0x20 ≤ c.toNat := fun c hc => of_decide_eq_true (List.all_eq_true.mp h c hc)

/-! ## Escapes -/

theorem hexChar_printable (n : Nat) : 0x20 ≤ (hexChar (n % 16)).toNat := by
  have hall : ∀ k < 16, 0x20 ≤ (hexChar k).toNat := by decide
  exact hall _ (Nat.mod_lt n (by decide))

theorem unicodeEscape_printable (n : Nat) : ∀ c ∈ unicodeEscape n, 0x20 ≤ c.toNat := by
  simp only [unicodeEscape, List.forall_mem_cons, List.not_mem_nil, false_implies, implies_true, and_true]
  exact ⟨by decide, by decide, hexChar_printable _, hexChar_printable _, hexChar_printable _, hexChar_printable _⟩

theorem shortEscape_printable {n : Nat} {e : List Char} (h : shortEscape? n = some e) : ∀ c ∈ e, 0x20 ≤ c.toNat := by
  unfold shortEscape? at h
  repeat' split at h
  all_goals cases h
  all_goals exact all_printable rfl

theorem ofNat_printable : ∀ n < 0x7F, 0x20 ≤ n → 0x20 ≤ (Char.ofNat n).toNat := by decide

section

variable {st : Style}

theorem escape_printable (u : CodePoint) : Printable (st.escape u) := by
  unfold Style.escape
  split
  · rw [printable_ofChars]
    unfold escapeAscii
    split
    · next h => exact shortEscape_printable h
    · split
      · next h =>
        intro c hc
        rw [List.mem_singleton.mp hc]
        exact ofNat_printable u.val h.2 h.1
      · intro c hc
        obtain ⟨v, -, hv⟩ := List.mem_flatMap.mp hc
        exact unicodeEscape_printable v.val c hv
  · unfold escapePlain
    split
    · next h =>
      rw [printable_ofChars]
      exact shortEscape_printable h
    · split
      · rw [printable_ofChars]
        exact unicodeEscape_printable u.val
      · next h =>
        intro v hv
        rw [List.mem_singleton.mp hv]
        exact Nat.not_lt.mp h

theorem quote_printable (s : Str) : Printable (st.quote s) := by
  have hquote : Printable (.ofChars ['"']) := printable_ofChars.mpr (all_printable rfl)
  have hbody : Printable (s.flatMap st.escape) := by
    intro u hu
    obtain ⟨v, -, hv⟩ := List.mem_flatMap.mp hu
    exact escape_printable v u hv
  show Printable ([.ofChar '"'] ++ (s.flatMap st.escape ++ [.ofChar '"']))
  exact printable_append.mpr ⟨hquote, printable_append.mpr ⟨hbody, hquote⟩⟩

theorem text_printable {s : String} (h : s.toList.all (fun c => decide (0x20 ≤ c.toNat)) = true) : Printable (text s) :=
  printable_ofChars.mpr (all_printable h)

theorem itemSep_printable : Printable st.itemSep := by
  unfold Style.itemSep
  split <;> exact text_printable (by decide +kernel)

theorem keySep_printable : Printable st.keySep := by
  unfold Style.keySep
  split <;> exact text_printable (by decide +kernel)

/-! ## Numbers -/

theorem digit_printable {c : Char} (h : isDigit c = true) : 0x20 ≤ c.toNat := by
  rw [isDigit, Bool.and_eq_true, decide_eq_true_eq, decide_eq_true_eq] at h
  have hle : 48 ≤ c.toNat := h.1
  omega

theorem IntPart.printable {ds : List Char} (h : IntPart ds) : ∀ c ∈ ds, 0x20 ≤ c.toNat := by
  rcases h with rfl | ⟨⟨-, hall⟩, -⟩
  · exact all_printable rfl
  · exact fun c hc => digit_printable (hall c hc)

theorem FloatLiteral.printable {cs : List Char} (h : FloatLiteral cs) : ∀ c ∈ cs, 0x20 ≤ c.toNat := by
  obtain ⟨negative, ds, fs, es, hds, hfs, hes, -, rfl⟩ := h
  have hsign : ∀ c ∈ (if negative then ['-'] else []), 0x20 ≤ c.toNat := by
    cases negative <;> exact all_printable rfl
  have hfrac : ∀ c ∈ fs, 0x20 ≤ c.toNat := by
    rcases hfs with rfl | ⟨fs', ⟨-, hall⟩, rfl⟩
    · exact all_printable rfl
    · exact List.forall_mem_cons.mpr ⟨by decide, fun c hc => digit_printable (hall c hc)⟩
  have hexp : ∀ c ∈ es, 0x20 ≤ c.toNat := by
    rcases hes with rfl | ⟨e, sign, es', he, hs, ⟨-, hall⟩, rfl⟩
    · exact all_printable rfl
    · refine List.forall_mem_cons.mpr ⟨?_, List.forall_mem_append.mpr ⟨?_, fun c hc => digit_printable (hall c hc)⟩⟩
      · rcases he with rfl | rfl <;> decide
      · rcases hs with rfl | rfl | rfl <;> exact all_printable rfl
  simp only [List.forall_mem_append]
  exact ⟨⟨⟨hsign, hds.printable⟩, hfrac⟩, hexp⟩

theorem writeInt_printable (i : Int) : Printable (writeInt i) := by
  rw [writeInt, printable_ofChars, List.forall_mem_append]
  constructor
  · split <;> exact all_printable rfl
  · exact fun c hc => digit_printable (toDigits_isDigit hc)

/-! ## Values -/

theorem writtenArr_printable {vs : List Json} {t : Str} (hvs : ∀ v ∈ vs, ∀ t, written st v = some t → Printable t)
    (h : writtenArr st vs = some t) : Printable t := by
  induction vs generalizing t with
  | nil =>
    cases h
    intro u hu
    cases hu
  | cons v vs ih =>
    obtain ⟨tv, ts, hv, hts, rfl⟩ := writtenArr_cons h
    have hsep : Printable (if vs.isEmpty then [] else st.itemSep) := by
      split
      · intro u hu
        cases hu
      · exact itemSep_printable
    have hitem := hvs v List.mem_cons_self tv hv
    have hrest := ih (fun x hx => hvs x (List.mem_cons_of_mem v hx)) hts
    simp only [printable_append]
    exact ⟨⟨hitem, hsep⟩, hrest⟩

theorem writtenObj_printable {ms : List (Str × Json)} {t : Str}
    (hms : ∀ m ∈ ms, ∀ t, written st m.2 = some t → Printable t) (h : writtenObj st ms = some t) : Printable t := by
  induction ms generalizing t with
  | nil =>
    cases h
    intro u hu
    cases hu
  | cons m ms ih =>
    obtain ⟨k, v⟩ := m
    obtain ⟨tv, ts, hv, hts, rfl⟩ := writtenObj_cons h
    have hsep : Printable (if ms.isEmpty then [] else st.itemSep) := by
      split
      · intro u hu
        cases hu
      · exact itemSep_printable
    have hvalue := hms (k, v) List.mem_cons_self tv hv
    have hrest := ih (fun x hx => hms x (List.mem_cons_of_mem _ hx)) hts
    simp only [printable_append]
    exact ⟨⟨⟨⟨quote_printable k, keySep_printable⟩, hvalue⟩, hsep⟩, hrest⟩

/-- **One line.** What is written for a value has no control character. -/
theorem printable_written {it : Interp} {d : Nat} {v : Json} (hv : v.Fits it d) {t : Str} (h : written st v = some t) :
    Printable t := by
  induction hv generalizing t with
  | null =>
    cases h
    exact text_printable (by decide +kernel)
  | bool b =>
    cases h
    cases b <;> exact text_printable (by decide +kernel)
  | int _ =>
    cases h
    exact writeInt_printable _
  | @float d f hf =>
    rw [written] at h
    cases f with
    | finite repr =>
      cases h
      exact printable_ofChars.mpr (hf repr rfl).1.printable
    | nan =>
      rw [Style.float] at h
      split at h <;> cases h
      exact text_printable (by decide +kernel)
    | inf negative =>
      rw [Style.float] at h
      split at h <;> cases h
      cases negative <;> exact text_printable (by decide +kernel)
  | str _ =>
    cases h
    exact quote_printable _
  | arr _ ih =>
    rw [written] at h
    obtain ⟨ts, hts, rfl⟩ := Option.map_eq_some_iff.mp h
    have hitems := writtenArr_printable (fun v hv t ht => ih v hv ht) hts
    simp only [printable_append]
    exact ⟨⟨text_printable (by decide +kernel), hitems⟩, text_printable (by decide +kernel)⟩
  | obj _ _ _ ih =>
    rw [written] at h
    obtain ⟨ts, hts, rfl⟩ := Option.map_eq_some_iff.mp h
    have hmembers := writtenObj_printable (fun m hm t ht => ih m hm ht) hts
    simp only [printable_append]
    exact ⟨⟨text_printable (by decide +kernel), hmembers⟩, text_printable (by decide +kernel)⟩

/-! ## Values that are always written -/

theorem writtenArr_some {vs : List Json} (h : ∀ v ∈ vs, ∃ t, written st v = some t) : ∃ t, writtenArr st vs = some t := by
  induction vs with
  | nil => exact ⟨[], rfl⟩
  | cons v vs ih =>
    obtain ⟨⟨t, ht⟩, hvs⟩ := List.forall_mem_cons.mp h
    obtain ⟨ts, hts⟩ := ih hvs
    exact ⟨t ++ (if vs.isEmpty then [] else st.itemSep) ++ ts, by simp only [writtenArr, ht, hts]⟩

theorem writtenObj_some {ms : List (Str × Json)} (h : ∀ m ∈ ms, ∃ t, written st m.2 = some t) :
    ∃ t, writtenObj st ms = some t := by
  induction ms with
  | nil => exact ⟨[], rfl⟩
  | cons m ms ih =>
    obtain ⟨k, v⟩ := m
    obtain ⟨⟨t, ht⟩, hms⟩ := List.forall_mem_cons.mp h
    obtain ⟨ts, hts⟩ := ih hms
    exact ⟨st.quote k ++ st.keySep ++ t ++ (if ms.isEmpty then [] else st.itemSep) ++ ts,
      by simp only [writtenObj, ht, hts]⟩

/-- A style that allows NaN writes every value that fits. -/
theorem written_some (hn : st.allowNan = true) {it : Interp} {d : Nat} {v : Json} (hv : v.Fits it d) :
    ∃ t, written st v = some t := by
  induction hv with
  | null => exact ⟨_, rfl⟩
  | bool b => exact ⟨_, rfl⟩
  | int _ => exact ⟨_, rfl⟩
  | @float d f _ =>
    rw [written]
    cases f with
    | finite repr => exact ⟨_, rfl⟩
    | nan =>
      rw [Style.float, if_pos hn]
      exact ⟨_, rfl⟩
    | inf negative =>
      rw [Style.float, if_pos hn]
      exact ⟨_, rfl⟩
  | str _ => exact ⟨_, rfl⟩
  | arr _ ih =>
    obtain ⟨ts, hts⟩ := writtenArr_some ih
    rw [written, hts]
    exact ⟨_, rfl⟩
  | obj _ _ _ ih =>
    obtain ⟨ts, hts⟩ := writtenObj_some ih
    rw [written, hts]
    exact ⟨_, rfl⟩

end

/-! ## Streams of lines -/

def lineFeed : CodePoint := .ofChar '\n'

/-- The complete lines of a stream, and what follows the last line feed. -/
def splitLines : Str → List Str × Str
  | [] => ([], [])
  | u :: s =>
    if u = lineFeed then
      ([] :: (splitLines s).1, (splitLines s).2)
    else
      match (splitLines s).1 with
      | [] => ([], u :: (splitLines s).2)
      | line :: lines => ((u :: line) :: lines, (splitLines s).2)

theorem Printable.not_lineFeed {s : Str} (h : Printable s) {u : CodePoint} (hu : u ∈ s) : u ≠ lineFeed := by
  intro heq
  have hle := h u hu
  rw [heq] at hle
  revert hle
  decide

theorem splitLines_tail {s : Str} (h : Printable s) : splitLines s = ([], s) := by
  induction s with
  | nil => rfl
  | cons u s ih =>
    have hrest := ih (fun v hv => h v (List.mem_cons_of_mem u hv))
    simp only [splitLines, if_neg (h.not_lineFeed List.mem_cons_self), hrest]

theorem splitLines_line {line : Str} (h : Printable line) (s : Str) :
    splitLines (line ++ lineFeed :: s) = (line :: (splitLines s).1, (splitLines s).2) := by
  induction line with
  | nil =>
    rw [List.nil_append, splitLines, if_pos rfl]
  | cons u line ih =>
    have hrest := ih (fun v hv => h v (List.mem_cons_of_mem u hv))
    simp only [List.cons_append, splitLines, if_neg (h.not_lineFeed List.mem_cons_self), hrest]

/-- A stream splits into the lines that were written to it. -/
theorem splitLines_lines {lines : List Str} (h : ∀ line ∈ lines, Printable line) :
    splitLines (lines.flatMap (· ++ [lineFeed])) = (lines, []) := by
  induction lines with
  | nil => rfl
  | cons line lines ih =>
    obtain ⟨hline, hlines⟩ := List.forall_mem_cons.mp h
    rw [List.flatMap_cons, List.append_assoc, List.singleton_append, splitLines_line hline, ih hlines]

/-- A prefix of a line and what follows it ends in the line, or goes on after it. -/
theorem prefix_line {s line rest : Str} (h : s <+: line ++ lineFeed :: rest) :
    s <+: line ∨ ∃ s', s = line ++ lineFeed :: s' ∧ s' <+: rest := by
  induction line generalizing s with
  | nil =>
    rcases List.prefix_cons_iff.mp h with rfl | ⟨s', rfl, hs'⟩
    · exact .inl (List.nil_prefix)
    · exact .inr ⟨s', rfl, hs'⟩
  | cons u line ih =>
    rcases List.prefix_cons_iff.mp h with rfl | ⟨t, rfl, ht⟩
    · exact .inl (List.nil_prefix)
    · rcases ih ht with hin | ⟨s', rfl, hs'⟩
      · exact .inl (List.cons_prefix_cons.mpr ⟨rfl, hin⟩)
      · exact .inr ⟨s', rfl, hs'⟩

/-- A stream of lines that is cut anywhere still has the lines before the cut,
and the start of the next. -/
theorem splitLines_cut {lines : List Str} (h : ∀ line ∈ lines, Printable line) {s : Str}
    (hs : s <+: lines.flatMap (· ++ [lineFeed])) :
    ∃ k tail, splitLines s = (lines.take k, tail) ∧ s = (lines.take k).flatMap (· ++ [lineFeed]) ++ tail := by
  induction lines generalizing s with
  | nil =>
    rw [List.prefix_nil.mp hs]
    exact ⟨0, [], rfl, rfl⟩
  | cons line lines ih =>
    obtain ⟨hline, hlines⟩ := List.forall_mem_cons.mp h
    rw [List.flatMap_cons, List.append_assoc] at hs
    rcases prefix_line hs with hin | ⟨s', rfl, hs'⟩
    · refine ⟨0, s, ?_, rfl⟩
      rw [List.take_zero]
      exact splitLines_tail (fun u hu => hline u (hin.subset hu))
    · obtain ⟨k, tail, hsplit, hcut⟩ := ih hlines hs'
      refine ⟨k + 1, tail, ?_, ?_⟩
      · rw [splitLines_line hline, hsplit, List.take_succ_cons]
      · rw [List.take_succ_cons, List.flatMap_cons, hcut]
        simp only [List.append_assoc, List.cons_append, List.nil_append]

end Py
