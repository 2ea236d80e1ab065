import Mathlib.Data.Finset.Card
import Mathlib.Data.Set.Basic
import Mathlib.Order.Basic

/-
  Keyset pagination. A traversal reads the keys of a set in descending order,
  page by page; it remembers no position but the last key it returned, and the
  set may change between two pages.

  What is proved, for any linear order:
    1. `IsPage.of_sorted`: taking `limit` items of the sorted keys after the
       cursor, with one more to look ahead, is a page;
    2. `Progress.page`: a page keeps the keys seen descending, and passes over no
       key that stays in the set;
    3. `Counted.pages`: over a set that does not change, the traversal ends with
       page number `max 1 ⌈n / limit⌉`, and not before.
-/
namespace Keyset

variable {κ : Type} [LinearOrder κ]

/-- The keys a traversal has still to come to. -/
def After : Option κ → κ → Prop
  | none, _ => True
  | some c, k => k < c

/-- A page of the keys of `S`: the greatest ones after the cursor, descending,
and whether there are more. -/
structure IsPage (S : Set κ) (limit : Nat) (cursor : Option κ) (page : List κ) (more : Bool) : Prop where
  sorted : page.Pairwise (fun a b => b < a)
  sound : ∀ k ∈ page, k ∈ S ∧ After cursor k
  short : page.length ≤ limit
  rest : ∀ k ∈ S, After cursor k → k ∉ page → more = true ∧ ∀ x ∈ page, k < x
  full : more = true → page.length = limit ∧ ∃ k ∈ S, After cursor k ∧ k ∉ page

/-- The cursor after a page: its last key, if there are more. -/
def nextCursor (cursor : Option κ) (page : List κ) (more : Bool) : Option κ :=
  if more then page.getLast? else cursor

/-- The first `limit` of the sorted keys after the cursor are a page. -/
theorem IsPage.of_sorted {S : Set κ} (limit : Nat) {cursor : Option κ} {keys : List κ}
    (hs : keys.Pairwise (fun a b => b < a)) (hmem : ∀ k, k ∈ keys ↔ k ∈ S ∧ After cursor k) :
    IsPage S limit cursor (keys.take limit) (decide (limit < keys.length)) := by
  have hsplit : (keys.take limit ++ keys.drop limit).Pairwise (fun a b => b < a) := by
    rw [List.take_append_drop]
    exact hs
  obtain ⟨htake, -, hcross⟩ := List.pairwise_append.mp hsplit
  -- a key after the cursor that is not on the page is among the dropped ones
  have hdropped : ∀ k ∈ S, After cursor k → k ∉ keys.take limit → k ∈ keys.drop limit := by
    intro k hk hafter hnot
    have hin : k ∈ keys.take limit ++ keys.drop limit := by
      rw [List.take_append_drop]
      exact (hmem k).mpr ⟨hk, hafter⟩
    rcases List.mem_append.mp hin with hin | hin
    · exact absurd hin hnot
    · exact hin
  refine ⟨htake, ?_, ?_, ?_, ?_⟩
  · intro k hk
    exact (hmem k).mp (List.mem_of_mem_take hk)
  · rw [List.length_take]
    exact Nat.min_le_left _ _
  · intro k hk hafter hnot
    have hin := hdropped k hk hafter hnot
    refine ⟨?_, fun x hx => hcross x hx k hin⟩
    have hpos := List.length_pos_of_mem hin
    rw [List.length_drop] at hpos
    exact decide_eq_true (by omega)
  · intro hmore
    have hlt : limit < keys.length := of_decide_eq_true hmore
    refine ⟨by rw [List.length_take]; exact Nat.min_eq_left (Nat.le_of_lt hlt), ?_⟩
    have hne : keys.drop limit ≠ [] := by
      intro hnil
      have hlen := List.length_drop (i := limit) (l := keys)
      rw [hnil, List.length_nil] at hlen
      omega
    obtain ⟨k, hk⟩ := List.exists_mem_of_ne_nil _ hne
    obtain ⟨hkS, hafter⟩ := (hmem k).mp (List.mem_of_mem_drop hk)
    refine ⟨k, hkS, hafter, ?_⟩
    intro hin
    exact lt_irrefl k (hcross k hin k hk)

/-! ## Progress -/

/-- Where a traversal stands: what it has seen is descending and above the
cursor, and every key of `K` has been seen or is still to come. -/
structure Progress (K : Set κ) (cursor : Option κ) (ended : Bool) (seen : List κ) : Prop where
  sorted : seen.Pairwise (fun a b => b < a)
  above : ended = false → ∀ k ∈ seen, ¬ After cursor k
  passed : ∀ k ∈ K, k ∈ seen ∨ (ended = false ∧ After cursor k)

theorem Progress.start (K : Set κ) : Progress K none false ([] : List κ) := by
  refine ⟨.nil, ?_, fun k _ => .inr ⟨rfl, trivial⟩⟩
  intro _ k hk
  cases hk

theorem Progress.mono {K K' : Set κ} {cursor : Option κ} {ended : Bool} {seen : List κ}
    (h : Progress K cursor ended seen) (hK : K' ⊆ K) : Progress K' cursor ended seen :=
  ⟨h.sorted, h.above, fun k hk => h.passed k (hK hk)⟩

/-- Keys still to come are below those seen. -/
theorem Progress.lt_seen {K : Set κ} {cursor : Option κ} {seen : List κ} (h : Progress K cursor false seen)
    {k x : κ} (hk : After cursor k) (hx : x ∈ seen) : k < x := by
  have hnot := h.above rfl x hx
  cases cursor with
  | none => exact absurd trivial hnot
  | some c => exact lt_of_lt_of_le hk (not_lt.mp hnot)

/-- A key below the whole page comes after the next cursor. -/
theorem after_next {limit : Nat} (hl : 0 < limit) {S : Set κ} {cursor : Option κ} {page : List κ}
    (hp : IsPage S limit cursor page true) {k : κ} :
    (∀ x ∈ page, k < x) ↔ After (nextCursor cursor page true) k := by
  have hne : page ≠ [] := by
    intro hnil
    have hlen := (hp.full rfl).1
    rw [hnil, List.length_nil] at hlen
    omega
  have hnext : nextCursor cursor page true = some (page.getLast hne) := List.getLast?_eq_some_getLast hne
  rw [hnext]
  constructor
  · intro h
    exact h _ (List.getLast_mem hne)
  · intro h x hx
    -- the last key of a descending page is its least
    have hle : page.getLast hne ≤ x := by
      have hsorted := hp.sorted
      rw [← List.dropLast_append_getLast hne] at hx hsorted
      obtain ⟨-, -, hcross⟩ := List.pairwise_append.mp hsorted
      rcases List.mem_append.mp hx with hx | hx
      · exact le_of_lt (hcross x hx _ (List.mem_singleton_self _))
      · exact le_of_eq (List.mem_singleton.mp hx).symm
    exact lt_of_lt_of_le h hle

/-- A page of a set that has all the kept keys makes progress. -/
theorem Progress.page {K S : Set κ} {limit : Nat} {cursor : Option κ} {seen page : List κ} {more : Bool}
    (h : Progress K cursor false seen) (hl : 0 < limit) (hK : K ⊆ S) (hp : IsPage S limit cursor page more) :
    Progress K (nextCursor cursor page more) (!more) (seen ++ page) := by
  refine ⟨?_, ?_, ?_⟩
  · refine List.pairwise_append.mpr ⟨h.sorted, hp.sorted, ?_⟩
    intro x hx k hk
    exact h.lt_seen (hp.sound k hk).2 hx
  · intro hended k hk hafter
    obtain rfl : more = true := by simpa using hended
    -- a key after the next cursor is below the whole page, and so below all that was seen
    have hbelow := (after_next hl hp).mpr hafter
    rcases List.mem_append.mp hk with hk | hk
    · have hne : page ≠ [] := by
        intro hnil
        have hlen := (hp.full rfl).1
        rw [hnil, List.length_nil] at hlen
        omega
      obtain ⟨x, hx⟩ := List.exists_mem_of_ne_nil page hne
      have hlt : k < k :=
        calc k < x := hbelow x hx
          _ < k := h.lt_seen (hp.sound x hx).2 hk
      exact lt_irrefl k hlt
    · exact lt_irrefl k (hbelow k hk)
  · intro k hk
    rcases h.passed k hk with hseen | ⟨-, hafter⟩
    · exact .inl (List.mem_append_left _ hseen)
    · by_cases hin : k ∈ page
      · exact .inl (List.mem_append_right _ hin)
      · obtain ⟨rfl, hbelow⟩ := hp.rest k (hK hk) hafter hin
        exact .inr ⟨rfl, (after_next hl hp).mp hbelow⟩

/-! ## Counting pages -/

/-- What a traversal has returned after a number of pages, over a set that does
not change. -/
structure Counted (S : Finset κ) (limit : Nat) (ended : Bool) (seen : List κ) (pages : Nat) : Prop where
  sub : ∀ k ∈ seen, k ∈ S
  running : ended = false → seen.length = pages * limit ∧ (pages ≠ 0 → ∃ k ∈ S, k ∉ seen)
  closed : ended = true → 0 < pages ∧ seen.length ≤ pages * limit ∧
    (pages = 1 ∨ (pages - 1) * limit < seen.length)

omit [LinearOrder κ] in
theorem Counted.start (S : Finset κ) (limit : Nat) : Counted S limit false [] 0 := by
  refine ⟨?_, fun _ => ⟨by rw [Nat.zero_mul]; rfl, fun h => absurd rfl h⟩, nofun⟩
  intro k hk
  cases hk

theorem Counted.page {S : Finset κ} {limit pages : Nat} {cursor : Option κ} {seen page : List κ}
    {more : Bool} (h : Counted S limit false seen pages) (hprog : Progress (↑S) cursor false seen)
    (hp : IsPage (↑S) limit cursor page more) : Counted S limit (!more) (seen ++ page) (pages + 1) := by
  obtain ⟨hlen, hleft⟩ := h.running rfl
  have hsucc : (pages + 1) * limit = pages * limit + limit := Nat.succ_mul pages limit
  refine ⟨?_, ?_, ?_⟩
  · intro k hk
    rcases List.mem_append.mp hk with hk | hk
    · exact h.sub k hk
    · exact (hp.sound k hk).1
  · intro hended
    obtain rfl : more = true := by simpa using hended
    obtain ⟨hfull, k, hkS, hafter, hnot⟩ := hp.full rfl
    refine ⟨by rw [List.length_append, hlen, hfull, hsucc], ?_⟩
    intro _
    refine ⟨k, hkS, ?_⟩
    intro hk
    rcases List.mem_append.mp hk with hk | hk
    · exact lt_irrefl k (hprog.lt_seen hafter hk)
    · exact hnot hk
  · intro hended
    obtain rfl : more = false := by simpa using hended
    have hshort := hp.short
    refine ⟨Nat.succ_pos _, by rw [List.length_append]; omega, ?_⟩
    by_cases hz : pages = 0
    · exact .inl (by rw [hz])
    · -- the page before promised at least one key
      refine .inr ?_
      obtain ⟨k, hkS, hnot⟩ := hleft hz
      have hpage : k ∈ page := by
        rcases hprog.passed k hkS with hk | ⟨-, hafter⟩
        · exact absurd hk hnot
        · by_contra hout
          have hmore := (hp.rest k hkS hafter hout).1
          cases hmore
      have hpos := List.length_pos_of_mem hpage
      rw [Nat.add_sub_cancel, List.length_append, hlen]
      omega

/-- The number of full pages, the last one possibly short, that `n` items fill. -/
theorem eq_ceil {n limit pages : Nat} (hl : 0 < limit) (hpos : 0 < pages) (hle : n ≤ pages * limit)
    (hlast : pages = 1 ∨ (pages - 1) * limit < n) : pages = max 1 ((n + limit - 1) / limit) := by
  rcases hlast with rfl | hlast
  · have hlt : (n + limit - 1) / limit < 2 := Nat.div_lt_of_lt_mul (by omega)
    omega
  · have hsplit : pages * limit = (pages - 1) * limit + limit := by
      rw [← Nat.succ_mul, Nat.succ_eq_add_one, Nat.sub_add_cancel hpos]
    have hsucc : (pages + 1) * limit = pages * limit + limit := Nat.succ_mul pages limit
    have hceil : (n + limit - 1) / limit = pages := Nat.div_eq_of_lt_le (by omega) (by omega)
    rw [hceil]
    exact (max_eq_right hpos).symm

/-- The number of pages over a set that does not change. -/
theorem Counted.pages {S : Finset κ} {limit pages : Nat} {cursor : Option κ} {ended : Bool} {seen : List κ}
    (h : Counted S limit ended seen pages) (hprog : Progress (↑S) cursor ended seen) (hl : 0 < limit) :
    pages ≤ max 1 ((S.card + limit - 1) / limit) ∧
      (ended = true ↔ pages = max 1 ((S.card + limit - 1) / limit)) := by
  have hnodup : seen.Nodup := hprog.sorted.imp (fun hlt => (ne_of_lt hlt).symm)
  have hsub : seen.toFinset ⊆ S := fun k hk => h.sub k (List.mem_toFinset.mp hk)
  have hcard : seen.toFinset.card = seen.length := List.toFinset_card_of_nodup hnodup
  cases ended with
  | false =>
    obtain ⟨hlen, hleft⟩ := h.running rfl
    have hlt : pages < max 1 ((S.card + limit - 1) / limit) := by
      by_cases hz : pages = 0
      · rw [hz]
        exact lt_of_lt_of_le Nat.one_pos (le_max_left _ _)
      · obtain ⟨k, hkS, hnot⟩ := hleft hz
        -- the pages so far were full and something is left
        have hss : seen.toFinset ⊂ S :=
          Finset.ssubset_iff_subset_ne.mpr ⟨hsub, fun he => hnot (List.mem_toFinset.mp (he ▸ hkS))⟩
        have hmore : pages * limit < S.card := by
          rw [← hlen, ← hcard]
          exact Finset.card_lt_card hss
        refine lt_of_lt_of_le ?_ (le_max_right _ _)
        apply (Nat.lt_div_iff_mul_lt hl).mpr
        omega
    exact ⟨le_of_lt hlt, nofun, fun he => absurd hlt (by rw [he]; exact lt_irrefl _)⟩
  | true =>
    obtain ⟨hpos, hle, hlast⟩ := h.closed rfl
    have hall : seen.toFinset = S := by
      apply Finset.Subset.antisymm hsub
      intro k hk
      rcases hprog.passed k hk with hseen | ⟨hf, -⟩
      · exact List.mem_toFinset.mpr hseen
      · cases hf
    have hn : S.card = seen.length := by rw [← hall, hcard]
    have heq : pages = max 1 ((S.card + limit - 1) / limit) := by
      rw [hn]
      exact eq_ceil hl hpos hle hlast
    exact ⟨le_of_eq heq, fun _ => heq, fun _ => rfl⟩

end Keyset
