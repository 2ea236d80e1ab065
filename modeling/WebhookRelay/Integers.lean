import WebhookRelay.Serialization

/-
  `int` on a string, and `str` on an integer. `Spells` is the grammar of the
  digits: decimal digits of any script, with single underscores between them.
  `intOf` accepts such digits with a sign in front and white space around, within
  the limit of the interpreter, and nothing else (`intOf_iff`), and what `str`
  writes reads back (`intOf_str`).
-/
namespace Py

/-- The white space `int` takes: that of `str.strip` without U+001C to U+001F. -/
def isIntSpace (c : Char) : Bool := isSpace c && !(0x1C ≤ c.toNat && c.toNat ≤ 0x1F)

section

/- `unicodedata.decimal`, and the limit on the digits of a literal. -/
variable (decimal : Char → Option (Fin 10)) (maxDigits : Nat)

def digitValue (c : Char) : Option Nat :=
  if isDigit c then some (c.toNat - 48)
  else if c.toNat < 0x80 || isSpace c then none
  else (decimal c).map Fin.val

/-- Digits with single underscores between them. -/
def readDigits : List Char → Option (List Nat)
  | [] => none
  | c :: cs =>
    match digitValue decimal c, cs with
    | none, _ => none
    | some d, [] => some [d]
    | some d, '_' :: cs' => (readDigits cs').map (d :: ·)
    | some d, c' :: cs' => (readDigits (c' :: cs')).map (d :: ·)

def readSign : List Char → Bool × List Char
  | '-' :: cs => (true, cs)
  | '+' :: cs => (false, cs)
  | cs => (false, cs)

def trim (space : Char → Bool) (cs : List Char) : List Char := ((cs.dropWhile space).reverse.dropWhile space).reverse

def valueOf (ds : List Nat) : Nat := ds.foldl (fun n d => n * 10 + d) 0

def signed (negative : Bool) (n : Nat) : Int := if negative then -n else n

/-- `int(s)`; `none` is ValueError. -/
def intOf (s : String) : Option Int :=
  let (negative, cs) := readSign (trim isIntSpace s.toList)
  match readDigits decimal cs with
  | none => none
  | some ds => if maxDigits < ds.length then none else some (signed negative (valueOf ds))

end

/-- `str(i)`. -/
def strInt (i : Int) : String := String.ofList ((if i < 0 then ['-'] else []) ++ Nat.toDigits 10 i.natAbs)

/-! ## Trimming -/

section

variable {space : Char → Bool}

/-- What is trimmed is space around what is left. -/
theorem trim_split (space : Char → Bool) (cs : List Char) :
    ∃ lead trail, cs = lead ++ trim space cs ++ trail ∧ (∀ c ∈ lead, space c = true) ∧
      ∀ c ∈ trail, space c = true := by
  refine ⟨cs.takeWhile space, ((cs.dropWhile space).reverse.takeWhile space).reverse, ?_, ?_, ?_⟩
  · rw [trim, List.append_assoc, ← List.reverse_append, List.takeWhile_append_dropWhile, List.reverse_reverse,
      List.takeWhile_append_dropWhile]
  · intro c hc
    exact List.mem_takeWhile_imp hc
  · intro c hc
    exact List.mem_takeWhile_imp (List.mem_reverse.mp hc)

theorem dropWhile_append_space {lead cs : List Char} (hlead : ∀ c ∈ lead, space c = true)
    (hcs : ∀ c ∈ cs.head?, space c = false) : (lead ++ cs).dropWhile space = cs := by
  rw [List.dropWhile_append_of_pos hlead]
  cases cs with
  | nil => rfl
  | cons c cs =>
    have hc : space c = false := hcs c rfl
    rw [List.dropWhile_cons_of_neg (by rw [hc]; exact Bool.false_ne_true)]

/-- Only the space around a text is trimmed. -/
theorem trim_eq {lead cs trail : List Char} (hlead : ∀ c ∈ lead, space c = true)
    (htrail : ∀ c ∈ trail, space c = true) (hhead : ∀ c ∈ cs.head?, space c = false)
    (hlast : ∀ c ∈ cs.getLast?, space c = false) : trim space (lead ++ cs ++ trail) = cs := by
  have hmem : ∀ c ∈ trail.reverse, space c = true := fun c hc => htrail c (List.mem_reverse.mp hc)
  have hrev : ∀ c ∈ cs.reverse.head?, space c = false := by
    rw [List.head?_reverse]
    exact hlast
  cases cs with
  | nil =>
    have hall : ∀ c ∈ lead ++ [] ++ trail, space c = true := by
      simp only [List.append_nil, List.mem_append]
      exact fun c hc => hc.elim (hlead c) (htrail c)
    rw [trim, List.dropWhile_eq_nil_iff.mpr hall]
    rfl
  | cons c cs =>
    rw [trim, List.append_assoc, dropWhile_append_space hlead (by simpa using hhead), List.reverse_append,
      dropWhile_append_space hmem hrev, List.reverse_reverse]

theorem trim_initial (space : Char → Bool) (cs : List Char) : trim space cs <+: cs.dropWhile space := by
  have hsuffix := List.dropWhile_suffix space (l := (cs.dropWhile space).reverse)
  exact List.reverse_suffix.mp (by rw [trim, List.reverse_reverse]; exact hsuffix)

theorem head_dropWhile (space : Char → Bool) (cs : List Char) : ∀ c ∈ (cs.dropWhile space).head?, space c = false := by
  intro c hc
  have hnot := List.head?_dropWhile_not space cs
  rw [Option.mem_def.mp hc] at hnot
  exact hnot

/-- A trimmed text has no space at its ends. -/
theorem trim_ends (space : Char → Bool) (cs : List Char) :
    (∀ c ∈ (trim space cs).head?, space c = false) ∧ ∀ c ∈ (trim space cs).getLast?, space c = false := by
  constructor
  · intro c hc
    obtain ⟨rest, hrest⟩ := trim_initial space cs
    apply head_dropWhile space cs c
    rw [← hrest, List.head?_append, Option.mem_def.mp hc]
    rfl
  · rw [trim, List.getLast?_reverse]
    exact head_dropWhile space _

theorem trim_trim (space : Char → Bool) (cs : List Char) : trim space (trim space cs) = trim space cs := by
  obtain ⟨hhead, hlast⟩ := trim_ends space cs
  have hnil : ∀ c ∈ ([] : List Char), space c = true := fun c hc => absurd hc List.not_mem_nil
  have htrim := trim_eq hnil hnil hhead hlast
  rwa [List.nil_append, List.append_nil] at htrim

theorem mem_of_mem_trim {cs : List Char} {c : Char} (h : c ∈ trim space cs) : c ∈ cs :=
  (List.dropWhile_suffix space).subset ((trim_initial space cs).subset h)

end

/-! ## The grammar -/

section

variable {decimal : Char → Option (Fin 10)} {maxDigits : Nat}

/-- The characters spell the digits. -/
inductive Spells (decimal : Char → Option (Fin 10)) : List Char → List Nat → Prop where
  | last {c : Char} {d : Nat} (h : digitValue decimal c = some d) : Spells decimal [c] [d]
  | next {c : Char} {d : Nat} {cs : List Char} {ds : List Nat} (h : digitValue decimal c = some d)
      (hs : Spells decimal cs ds) : Spells decimal (c :: cs) (d :: ds)
  | grouped {c : Char} {d : Nat} {cs : List Char} {ds : List Nat} (h : digitValue decimal c = some d)
      (hs : Spells decimal cs ds) : Spells decimal (c :: '_' :: cs) (d :: ds)

theorem digitValue_lt {c : Char} {d : Nat} (h : digitValue decimal c = some d) : d < 10 := by
  unfold digitValue at h
  split at h
  · next hc =>
    cases h
    simp only [isDigit, Bool.and_eq_true, decide_eq_true_eq] at hc
    have hle : c.toNat ≤ 57 := hc.2
    omega
  · split at h
    · cases h
    · obtain ⟨d, -, rfl⟩ := Option.map_eq_some_iff.mp h
      exact d.isLt

theorem isDigit_not_space {c : Char} (h : isDigit c = true) : isSpace c = false := by
  simp only [isDigit, Bool.and_eq_true, decide_eq_true_eq] at h
  have hlow : 48 ≤ c.toNat := h.1
  have hhigh : c.toNat ≤ 57 := h.2
  simp only [isSpace, Bool.or_eq_false_iff, Bool.and_eq_false_iff, decide_eq_false_iff_not, beq_eq_false_iff_ne]
  omega

theorem digitValue_not_space {c : Char} {d : Nat} (h : digitValue decimal c = some d) : isSpace c = false := by
  unfold digitValue at h
  split at h
  · next hc => exact isDigit_not_space hc
  · split at h
    · cases h
    · next hc =>
      rw [Bool.or_eq_true, not_or] at hc
      exact (Bool.not_eq_true _).mp hc.2

theorem Spells.digits {cs : List Char} {ds : List Nat} (h : Spells decimal cs ds) : ∀ d ∈ ds, d < 10 := by
  induction h with
  | last h =>
    intro d hd
    rw [List.mem_singleton.mp hd]
    exact digitValue_lt h
  | next h _ ih | grouped h _ ih => exact List.forall_mem_cons.mpr ⟨digitValue_lt h, ih⟩

/-- Spelled digits begin and end with a digit. -/
theorem Spells.ends {cs : List Char} {ds : List Nat} (h : Spells decimal cs ds) :
    (∃ c d, cs.head? = some c ∧ digitValue decimal c = some d) ∧
      ∃ c d, cs.getLast? = some c ∧ digitValue decimal c = some d := by
  induction h with
  | @last c d h => exact ⟨⟨c, d, rfl, h⟩, ⟨c, d, rfl, h⟩⟩
  | @next c d cs ds h _ ih =>
    obtain ⟨c', d', hlast, hd'⟩ := ih.2
    refine ⟨⟨c, d, rfl, h⟩, ⟨c', d', ?_, hd'⟩⟩
    rw [List.getLast?_cons, hlast]
    rfl
  | @grouped c d cs ds h _ ih =>
    obtain ⟨c', d', hlast, hd'⟩ := ih.2
    refine ⟨⟨c, d, rfl, h⟩, ⟨c', d', ?_, hd'⟩⟩
    rw [List.getLast?_cons, List.getLast?_cons, hlast]
    rfl

theorem Spells.length_pos {cs : List Char} {ds : List Nat} (h : Spells decimal cs ds) : 0 < ds.length := by
  cases h <;> exact Nat.succ_pos _

theorem readDigits_spells {cs : List Char} {ds : List Nat} (h : readDigits decimal cs = some ds) :
    Spells decimal cs ds := by
  fun_induction readDigits decimal cs generalizing ds with
  | case1 => cases h
  | case2 => cases h
  | case3 c d hd =>
    cases h
    exact .last hd
  | case4 c d cs' hd ih =>
    obtain ⟨ds', hds', rfl⟩ := Option.map_eq_some_iff.mp h
    exact .grouped hd (ih hds')
  | case5 c d c' cs' _ hd ih =>
    obtain ⟨ds', hds', rfl⟩ := Option.map_eq_some_iff.mp h
    exact .next hd (ih hds')

theorem readDigits_of_spells {cs : List Char} {ds : List Nat} (h : Spells decimal cs ds) :
    readDigits decimal cs = some ds := by
  induction h with
  | last h =>
    rw [readDigits.eq_def]
    simp only [h]
  | @next c d cs ds h hs ih =>
    obtain ⟨c', d', hhead, hd'⟩ := hs.ends.1
    obtain ⟨cs', rfl⟩ := List.head?_eq_some_iff.mp hhead
    have hne : c' ≠ '_' := by
      intro heq
      rw [heq] at hd'
      cases hd'
    rw [readDigits.eq_def]
    simp only [h]
    rw [ih]
    rfl
  | grouped h _ ih =>
    rw [readDigits.eq_def]
    simp only [h, ih, Option.map_some]

theorem readSign_eq (cs : List Char) : ∃ sign, (sign = [] ∨ sign = ['+'] ∨ sign = ['-']) ∧
    cs = sign ++ (readSign cs).2 ∧ (readSign cs).1 = (sign == ['-']) := by
  unfold readSign
  split
  · exact ⟨['-'], .inr (.inr rfl), rfl, rfl⟩
  · exact ⟨['+'], .inr (.inl rfl), rfl, rfl⟩
  · exact ⟨[], .inl rfl, rfl, rfl⟩

/-- A sign is read off digits that are spelled. -/
theorem readSign_append {sign cs : List Char} {ds : List Nat} (hsign : sign = [] ∨ sign = ['+'] ∨ sign = ['-'])
    (hcs : Spells decimal cs ds) : readSign (sign ++ cs) = (sign == ['-'], cs) := by
  rcases hsign with rfl | rfl | rfl
  · obtain ⟨c, d, hhead, hd⟩ := hcs.ends.1
    obtain ⟨cs', rfl⟩ := List.head?_eq_some_iff.mp hhead
    show readSign (c :: cs') = _
    unfold readSign
    split
    · next heq =>
      rw [(List.cons.inj heq).1] at hd
      cases hd
    · next heq =>
      rw [(List.cons.inj heq).1] at hd
      cases hd
    · rfl
  · rfl
  · rfl

/-- A signed spelling has no space at its ends. -/
theorem signed_ends {sign cs : List Char} {ds : List Nat} (hsign : sign = [] ∨ sign = ['+'] ∨ sign = ['-'])
    (hcs : Spells decimal cs ds) : (∀ c ∈ (sign ++ cs).head?, isIntSpace c = false) ∧
      ∀ c ∈ (sign ++ cs).getLast?, isIntSpace c = false := by
  have hdigit : ∀ {c : Char} {d : Nat}, digitValue decimal c = some d → isIntSpace c = false := by
    intro c d h
    rw [isIntSpace, digitValue_not_space h, Bool.false_and]
  obtain ⟨⟨c, d, hhead, hd⟩, ⟨c', d', hlast, hd'⟩⟩ := hcs.ends
  constructor
  · intro x hx
    rcases hsign with rfl | rfl | rfl
    · rw [List.nil_append, hhead, Option.mem_some_iff] at hx
      exact hx ▸ hdigit hd
    · cases hx
      decide
    · cases hx
      decide
  · intro x hx
    rw [List.getLast?_append, hlast, Option.some_or, Option.mem_some_iff] at hx
    exact hx ▸ hdigit hd'

/-- **What `int` accepts.** -/
theorem intOf_iff {s : String} {i : Int} : intOf decimal maxDigits s = some i ↔
    ∃ lead sign cs trail ds, s.toList = lead ++ (sign ++ cs) ++ trail ∧ (∀ c ∈ lead, isIntSpace c = true) ∧
      (∀ c ∈ trail, isIntSpace c = true) ∧ (sign = [] ∨ sign = ['+'] ∨ sign = ['-']) ∧ Spells decimal cs ds ∧
      ds.length ≤ maxDigits ∧ i = signed (sign == ['-']) (valueOf ds) := by
  constructor
  · intro h
    simp only [intOf] at h
    split at h
    · cases h
    · next ds hds =>
      split at h
      · cases h
      · next hlength =>
        obtain ⟨lead, trail, hsplit, hlead, htrail⟩ := trim_split isIntSpace s.toList
        obtain ⟨sign, hsign, hcs, hnegative⟩ := readSign_eq (trim isIntSpace s.toList)
        refine ⟨lead, sign, _, trail, ds, ?_, hlead, htrail, hsign, readDigits_spells hds, Nat.not_lt.mp hlength, ?_⟩
        · rw [← hcs]
          exact hsplit
        · rw [← hnegative]
          exact (Option.some.inj h).symm
  · rintro ⟨lead, sign, cs, trail, ds, hs, hlead, htrail, hsign, hcs, hlength, rfl⟩
    obtain ⟨hhead, hlast⟩ := signed_ends hsign hcs
    simp only [intOf, hs, trim_eq hlead htrail hhead hlast, readSign_append hsign hcs, readDigits_of_spells hcs,
      if_neg (Nat.not_lt.mpr hlength)]

/-! ## What `str` writes -/

theorem valueOf_lt {ds : List Nat} (h : ∀ d ∈ ds, d < 10) : valueOf ds < 10 ^ ds.length := by
  induction ds using List.reverseRecOn with
  | nil => decide
  | append_singleton ds d ih =>
    have hd : d < 10 := h d (List.mem_append_right _ List.mem_cons_self)
    have hds := ih (fun x hx => h x (List.mem_append_left _ hx))
    calc valueOf (ds ++ [d])
        = valueOf ds * 10 + d := by rw [valueOf, List.foldl_append]; rfl
      _ < 10 ^ ds.length * 10 := by omega
      _ = 10 ^ (ds ++ [d]).length := by rw [List.length_append, List.length_singleton, Nat.pow_succ]

theorem spells_digits {cs : List Char} (hne : cs ≠ []) (h : ∀ c ∈ cs, isDigit c = true) :
    Spells decimal cs (cs.map (fun c => c.toNat - 48)) := by
  induction cs with
  | nil => exact absurd rfl hne
  | cons c cs ih =>
    obtain ⟨hc, hcs⟩ := List.forall_mem_cons.mp h
    have hd : digitValue decimal c = some (c.toNat - 48) := if_pos hc
    cases cs with
    | nil => exact .last hd
    | cons c' cs => exact .next hd (ih (List.cons_ne_nil _ _) hcs)

/-- The digits of a number have its value. -/
theorem valueOf_toDigits (n : Nat) : valueOf ((Nat.toDigits 10 n).map (fun c => c.toNat - 48)) = n := by
  calc valueOf ((Nat.toDigits 10 n).map (fun c => c.toNat - 48))
      = digitsValue (Nat.toDigits 10 n) := List.foldl_map
    _ = Nat.ofDigitChars 10 (Nat.toDigits 10 n) 0 := digitsValue_eq _
    _ = n := Nat.ofDigitChars_toDigits (by decide) (by decide)

/-- `int(str(i))` is `i`. -/
theorem intOf_str {i : Int} (h : (Nat.toDigits 10 i.natAbs).length ≤ maxDigits) :
    intOf decimal maxDigits (strInt i) = some i := by
  have hdigits : Spells decimal (Nat.toDigits 10 i.natAbs) _ :=
    spells_digits Nat.toDigits_ne_nil (fun c hc => toDigits_isDigit hc)
  refine intOf_iff.mpr ⟨[], if i < 0 then ['-'] else [], _, [], _, ?_, ?_, ?_, ?_, hdigits, ?_, ?_⟩
  · rw [strInt, String.toList_ofList, List.nil_append, List.append_nil]
  · intro c hc
    cases hc
  · intro c hc
    cases hc
  · split
    · exact .inr (.inr rfl)
    · exact .inl rfl
  · rw [List.length_map]
    exact h
  · rw [valueOf_toDigits]
    split
    · show i = -(i.natAbs : Int)
      omega
    · show i = (i.natAbs : Int)
      omega

/-- What `int` has read, `str` writes within the same limit. -/
theorem intOf_length {s : String} {i : Int} (h : intOf decimal maxDigits s = some i) :
    (Nat.toDigits 10 i.natAbs).length ≤ maxDigits := by
  obtain ⟨_, sign, _, _, ds, -, -, -, -, hds, hlength, rfl⟩ := intOf_iff.mp h
  have habs : (signed (sign == ['-']) (valueOf ds)).natAbs = valueOf ds := by
    unfold signed
    split
    · exact Int.natAbs_neg _
    · rfl
  rw [habs]
  exact ((Nat.length_toDigits_le_iff (by decide) hds.length_pos).mpr (valueOf_lt hds.digits)).trans hlength

end

example : intOf (fun _ => none) 4300 " -1_000 " = some (-1000) := by decide +kernel
example : intOf (fun _ => none) 4300 "1__0" = none := by decide +kernel

end Py
