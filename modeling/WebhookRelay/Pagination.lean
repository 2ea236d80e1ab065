import Mathlib.Order.RelClasses
import WebhookRelay.Keyset
import WebhookRelay.Reads

/-
  The pages of `GET /events`. `list_events` orders the rows by (received_at, id)
  and resumes after the key in its cursor, which makes its pages those of
  `Keyset`.

  What is proved:
    1. `cursorParameter_encodeCursor`: the cursor of a row decodes to its key;
    2. `candidates_sorted`: the rows after a cursor are strictly descending;
    3. `listEvents_page`: what `list_events` answers is a page of the keys of the
       matching rows, and its `next_cursor` is the next cursor.
-/
namespace WebhookRelay

open Py Transition Keyset

/-! ## The cursor codec -/

theorem encodeCursor_ascii (d : Datetime) (id : String) : isAscii (encodeCursor d id) = true := by
  apply List.all_eq_true.mpr
  intro c hc
  rw [encodeCursor, String.toList_ofList] at hc
  exact decide_eq_true (b64encode_ascii _ c hc)

/-- The object of a cursor, as it is written. -/
def cursorFields (d : Datetime) (id : String) : List (Str × Str) :=
  [(text "ts", .ofChars (asUtc d).isoformat), (text "id", text id)]

theorem cursor_raw (d : Datetime) (id : String) :
    b64decode (encodeCursor d id).toList = some (asciiBytes (dumpsObject (cursorFields d id))) := by
  rw [encodeCursor, String.toList_ofList, b64decode_b64encode]
  rfl

theorem cursor_text (d : Datetime) (id : String) :
    utf8Decode (asciiBytes (dumpsObject (cursorFields d id))) = some (dumpsObject (cursorFields d id)) :=
  utf8Decode_ascii _ (dumpsObject_ascii _)

theorem encodeCursor_ne_empty (d : Datetime) (id : String) : encodeCursor d id ≠ "" := by
  intro h
  have hraw := cursor_raw d id
  rw [h] at hraw
  cases hraw

theorem cursor_object (env : Env) (d : Datetime) (id : String) :
    loads env.json (dumpsObject (cursorFields d id)) =
      .ok (.obj [(text "ts", .str (.ofChars (asUtc d).isoformat)), (text "id", .str (text id))]) := by
  have hchars : ∀ l : List Char, ∀ u ∈ Str.ofChars l, u.isSurrogate = false := by
    intro l u hu
    obtain ⟨c, -, rfl⟩ := List.mem_map.mp hu
    exact ofChar_not_surrogate c
  have henc : Encodable (cursorFields d id) := by
    intro m hm
    simp only [cursorFields, List.mem_cons, List.not_mem_nil, or_false] at hm
    rcases hm with rfl | rfl
    · exact ⟨hchars _, hchars _⟩
    · exact ⟨hchars _, hchars _⟩
  have hkeys : ((cursorFields d id).map Prod.fst).Nodup := by
    have hnodup : [text "ts", text "id"].Nodup := by decide
    exact hnodup
  have h := loads_dumpsObject env.json (cursorFields d id) henc hkeys
  rw [h]
  rfl

theorem cursor_ts (d : Datetime) : fromisoformatStr (.ofChars (asUtc d).isoformat) = some (d.utc, some 0) := by
  rw [asUtc, fromisoformatStr_isoformat]

theorem subscript_ts (ts id : Json) : subscript (.obj [(text "ts", ts), (text "id", id)]) (text "ts") = some ts := by
  rw [subscript]
  exact List.lookup_cons_self

theorem subscript_id (ts id : Json) : subscript (.obj [(text "ts", ts), (text "id", id)]) (text "id") = some id := by
  have hkeys : text "id" ≠ text "ts" := by decide
  rw [subscript, List.lookup_cons, beq_false_of_ne hkeys]
  exact List.lookup_cons_self

/-- What `_decode_cursor` makes of a cursor whose parts are all there. -/
theorem decodeCursor_of_parts {env : Env} {cursor : String} {raw : List UInt8} {decoded : List Char}
    {payload : Json} {s i : Str} {ts : Moment × Option Int} {aware : Datetime}
    (hascii : isAscii cursor = true) (hraw : b64decode cursor.toList = some raw)
    (hdecoded : utf8Decode raw = some decoded) (hpayload : loads env.json decoded = .ok payload)
    (hs : subscript payload (text "ts") = some (.str s)) (hts : fromisoformatStr s = some ts)
    (haware : Datetime.make? ts.1 (some (ts.2.getD 0)) = some aware)
    (hi : subscript payload (text "id") = some (.str i)) :
    decodeCursor env cursor = .ok (asUtc aware, i) := by
  have hdecode : decodeCursor? env cursor = some (asUtc aware, i) := by
    simp [decodeCursor?, hascii, hraw, hdecoded, hpayload, hs, hts, haware, hi, guard, Except.toOption]
  rw [decodeCursor, hdecode]

/-- A cursor decodes to the datetime and the id it was made of. -/
theorem decodeCursor_encodeCursor (env : Env) (d : Datetime) (id : String) :
    decodeCursor env (encodeCursor d id) = .ok (asUtc d, text id) := by
  have h := decodeCursor_of_parts (encodeCursor_ascii d id) (cursor_raw d id) (cursor_text d id)
    (cursor_object env d id) (subscript_ts _ _) (cursor_ts d) (Datetime.make?_utc d.utc) (subscript_id _ _)
  rw [h, asUtc, Datetime.utc_ofUtc, asUtc]

/-- The parameter made of a cursor binds the row's place. -/
theorem cursorParameter_encodeCursor (env : Env) (d : Datetime) (id : String) :
    cursorParameter env (some (encodeCursor d id)) = .ok (some (d.utc, id)) := by
  have hid : (text id).encode = some id.toList := encode_ofChars _
  simp only [cursorParameter, if_neg (encodeCursor_ne_empty d id), decodeCursor_encodeCursor, bind, Except.bind,
    hid, String.ofList_toList, asUtc, Datetime.utc_ofUtc]

/-! ## Keys -/

/-- A place in `ORDER BY received_at, id`, ids compared by the collation. -/
structure PageKey (coll : Collation) where
  receivedAt : Moment
  id : String

section

variable {coll : Collation}

def PageKey.Before (a b : PageKey coll) : Prop :=
  a.receivedAt < b.receivedAt ∨ (a.receivedAt = b.receivedAt ∧ coll.lt a.id b.id = true)

instance : DecidableRel (@PageKey.Before coll) :=
  fun a b => inferInstanceAs (Decidable (a.receivedAt < b.receivedAt ∨ (a.receivedAt = b.receivedAt ∧ _)))

theorem PageKey.before_irrefl (a : PageKey coll) : ¬ a.Before a := by
  rintro (h | ⟨-, h⟩)
  · exact lt_irrefl _ h
  · rw [coll.irrefl] at h
    cases h

theorem PageKey.before_trans {a b c : PageKey coll} (hab : a.Before b) (hbc : b.Before c) : a.Before c := by
  rcases hab with hab | ⟨hab, hlt⟩
  · rcases hbc with hbc | ⟨hbc, -⟩
    · exact .inl (lt_trans hab hbc)
    · exact .inl (hbc ▸ hab)
  · rcases hbc with hbc | ⟨hbc, hlt'⟩
    · exact .inl (hab ▸ hbc)
    · exact .inr ⟨hab.trans hbc, coll.trans _ _ _ hlt hlt'⟩

theorem PageKey.before_connected {a b : PageKey coll} (hab : ¬ a.Before b) (hba : ¬ b.Before a) : a = b := by
  have hts : a.receivedAt = b.receivedAt :=
    le_antisymm (not_lt.mp (fun h => hba (.inl h))) (not_lt.mp (fun h => hab (.inl h)))
  have hid : a.id = b.id := by
    apply coll.connected
    · exact Bool.eq_false_iff.mpr (fun h => hab (.inr ⟨hts, h⟩))
    · exact Bool.eq_false_iff.mpr (fun h => hba (.inr ⟨hts.symm, h⟩))
  cases a
  cases b
  cases hts
  cases hid
  rfl

instance : IsStrictTotalOrder (PageKey coll) PageKey.Before where
  irrefl := PageKey.before_irrefl
  trans _ _ _ := PageKey.before_trans
  trichotomous _ _ := PageKey.before_connected

instance : LinearOrder (PageKey coll) := linearOrderOfSTO PageKey.Before

theorem PageKey.lt_def {a b : PageKey coll} : a < b ↔
    a.receivedAt < b.receivedAt ∨ (a.receivedAt = b.receivedAt ∧ coll.lt a.id b.id = true) :=
  Iff.rfl

def IntakeColumns.key (coll : Collation) (c : IntakeColumns) : PageKey coll := ⟨c.receivedAt.utc, c.id⟩

def EventItem.key (coll : Collation) (x : EventItem) : PageKey coll := ⟨x.receivedAt.utc, x.eventId⟩

/-- The values a cursor with this key binds. -/
def PageKey.bound (k : PageKey coll) : Moment × String := (k.receivedAt, k.id)

@[simp] theorem eventItem_key (e : Event) : (eventItem e).key coll = e.key coll := by
  rw [EventItem.key, eventItem, asUtc, Datetime.utc_ofUtc, IntakeColumns.key]

theorem below_iff (k : PageKey coll) (e : Event) : below coll k.receivedAt k.id e ↔ e.key coll < k := Iff.rfl

theorem notAfter_iff {a b : Event} : notAfter coll a b ↔ b.key coll ≤ a.key coll := by
  have h : notAfter coll a b ↔ ¬ a.key coll < b.key coll := Iff.rfl
  rw [h, not_lt]

instance : Std.Total (notAfter coll) where
  total a b := by
    rw [notAfter_iff, notAfter_iff]
    exact le_total _ _

instance : IsTrans Event (notAfter coll) where
  trans a b c hab hbc := by
    rw [notAfter_iff] at hab hbc ⊢
    exact le_trans hbc hab

end

/-! ## Pages -/

/-- The rows a filter lets through. -/
def matching (source : Option String) (s : Store) : List Event := s.rows.filter (sourceMatches source)

def matchingKeys (coll : Collation) (source : Option String) (s : Store) : Finset (PageKey coll) :=
  ((matching source s).map (fun e => e.key coll)).toFinset

theorem mem_matchingKeys {coll : Collation} {source : Option String} {s : Store} {k : PageKey coll} :
    k ∈ matchingKeys coll source s ↔ ∃ e ∈ s.rows, sourceMatches source e = true ∧ e.key coll = k := by
  simp only [matchingKeys, matching, List.mem_toFinset, List.mem_map, List.mem_filter, and_assoc]

/-- Different rows have different keys. -/
theorem matchingKeys_card (coll : Collation) (source : Option String) (s : Store) :
    (matchingKeys coll source s).card = (matching source s).length := by
  have hids : ((matching source s).map (fun e => e.id)).Nodup :=
    (List.filter_sublist.map _).nodup s.ids_nodup
  have hmap : (matching source s).map (fun e => e.id) =
      ((matching source s).map (fun e => e.key coll)).map PageKey.id := by
    rw [List.map_map]
    rfl
  rw [hmap] at hids
  rw [matchingKeys, List.toFinset_card_of_nodup hids.of_map, List.length_map]

section

variable {coll : Collation} {s : Store} {limit : Nat} {source : Option String}

/-- The rows after the cursor, in the order of the SELECT and before its LIMIT. -/
def candidates (coll : Collation) (s : Store) (source : Option String) (c : Option (PageKey coll)) :
    List Event :=
  (s.rows.filter (fun e => sourceMatches source e &&
    (match c.map PageKey.bound with
      | none => true
      | some b => decide (below coll b.1 b.2 e)))).insertionSort (notAfter coll)

theorem mem_candidates {c : Option (PageKey coll)} {e : Event} :
    e ∈ candidates coll s source c ↔
      e ∈ s.rows ∧ sourceMatches source e = true ∧ After c (e.key coll) := by
  cases c with
  | none =>
    simp only [candidates, List.mem_insertionSort, List.mem_filter, Option.map_none, Bool.and_true, After,
      and_true]
  | some k =>
    simp only [candidates, List.mem_insertionSort, List.mem_filter, Option.map_some, PageKey.bound,
      Bool.and_eq_true, decide_eq_true_eq, After, below_iff]

theorem candidates_perm (s : Store) (source : Option String) (c : Option (PageKey coll)) : ∃ rows : List Event,
    rows.Sublist s.rows ∧ (candidates coll s source c).Perm rows :=
  ⟨_, List.filter_sublist, List.perm_insertionSort _ _⟩

/-- The candidates are in strictly descending order of their keys. -/
theorem candidates_sorted (c : Option (PageKey coll)) :
    ((candidates coll s source c).map (fun e => e.key coll)).Pairwise (fun a b => b < a) := by
  have hle : (candidates coll s source c).Pairwise (fun a b => b.key coll ≤ a.key coll) :=
    (List.pairwise_insertionSort (notAfter coll) _).imp notAfter_iff.mp
  have hids : ((candidates coll s source c).map (fun e => e.id)).Nodup := by
    obtain ⟨rows, hsub, hperm⟩ := candidates_perm s source c
    exact (hperm.map _).nodup_iff.mpr ((hsub.map _).nodup s.ids_nodup)
  have hne : (candidates coll s source c).Pairwise (fun a b => a.id ≠ b.id) := List.pairwise_map.mp hids
  refine List.pairwise_map.mpr ((hle.and hne).imp ?_)
  rintro a b ⟨hab, hid⟩
  exact lt_of_le_of_ne hab (fun h => hid (congrArg PageKey.id h).symm)

theorem makePage_events (rows : List Event) (limit : Nat) :
    (makePage (rows.take (limit + 1)) limit).events = (rows.take limit).map eventItem := by
  rw [makePage, List.take_take, Nat.min_eq_left (Nat.le_succ limit)]

/-- One row more than the page is enough to know whether there are more. -/
theorem makePage_cases (rows : List Event) (hl : 0 < limit) :
    (¬ limit < rows.length ∧ (makePage (rows.take (limit + 1)) limit).nextCursor = none) ∨
      (limit < rows.length ∧ ∃ tail, (rows.take limit).getLast? = some tail ∧
        (makePage (rows.take (limit + 1)) limit).nextCursor = some (encodeCursor tail.receivedAt tail.id)) := by
  have hmore : limit < (rows.take (limit + 1)).length ↔ limit < rows.length := by
    rw [List.length_take]
    omega
  rw [makePage, List.take_take, Nat.min_eq_left (Nat.le_succ limit)]
  simp only [hmore]
  by_cases hlt : limit < rows.length
  · have hne : rows.take limit ≠ [] := by
      intro hnil
      have hlen := congrArg List.length hnil
      rw [List.length_take, List.length_nil] at hlen
      omega
    have htail := List.getLast?_eq_some_getLast hne
    exact .inr ⟨hlt, _, htail, by rw [htail]; exact if_pos hlt⟩
  · refine .inl ⟨hlt, ?_⟩
    cases (rows.take limit).getLast? with
    | none => rfl
    | some tail => exact if_neg hlt

/-- What `list_events` answers is a page of the matching rows, and its
`next_cursor` stands for the key of its last row. -/
theorem listEvents_page (env : Env) (s : Store) (source : Option String) {cursor : Option String} {c : Option (PageKey coll)} (hl : 0 < limit)
    (hc : cursorParameter env cursor = .ok (c.map PageKey.bound)) :
    ∃ page, listEvents env coll s limit cursor source = .ok page ∧
      (∀ x ∈ page.events, ∃ e ∈ s.rows, sourceMatches source e = true ∧ x = eventItem e) ∧
      IsPage (↑(matchingKeys coll source s)) limit c (page.events.map (fun x => x.key coll))
        page.nextCursor.isSome ∧
      (page.nextCursor.isSome = true → cursorParameter env page.nextCursor =
        .ok ((nextCursor c (page.events.map (fun x => x.key coll)) true).map PageKey.bound)) := by
  have hlist : listEvents env coll s limit cursor source =
      .ok (makePage ((candidates coll s source c).take (limit + 1)) limit) := by
    rw [listEvents, hc]
    rfl
  have hmem : ∀ k, k ∈ (candidates coll s source c).map (fun e => e.key coll) ↔
      k ∈ (↑(matchingKeys coll source s) : Set (PageKey coll)) ∧ After c k := by
    intro k
    simp only [List.mem_map, mem_candidates, Finset.mem_coe, mem_matchingKeys]
    constructor
    · intro h'
      obtain ⟨e, ⟨he, hm, hafter⟩, rfl⟩ := h'
      exact ⟨⟨e, he, hm, rfl⟩, hafter⟩
    · intro h'
      obtain ⟨⟨e, he, hm, rfl⟩, hafter⟩ := h'
      exact ⟨e, ⟨he, hm, hafter⟩, rfl⟩
  have hpage := IsPage.of_sorted limit (candidates_sorted c) hmem
  have hkeys : (makePage ((candidates coll s source c).take (limit + 1)) limit).events.map
      (fun x => x.key coll) = ((candidates coll s source c).map (fun e => e.key coll)).take limit := by
    rw [makePage_events, List.map_map, ← List.map_take]
    exact List.map_congr_left (fun e _ => eventItem_key e)
  rw [List.length_map, ← hkeys] at hpage
  refine ⟨_, hlist, ?_, ?_⟩
  · intro x hx
    rw [makePage_events] at hx
    obtain ⟨e, he, rfl⟩ := List.mem_map.mp hx
    obtain ⟨hin, hm, -⟩ := mem_candidates.mp (List.mem_of_mem_take he)
    exact ⟨e, hin, hm, rfl⟩
  · rcases makePage_cases (candidates coll s source c) hl with ⟨hlt, hnext⟩ | ⟨hlt, tail, htail, hnext⟩
    · rw [decide_eq_false hlt] at hpage
      rw [hnext]
      exact ⟨hpage, nofun⟩
    · rw [decide_eq_true hlt] at hpage
      rw [hnext]
      refine ⟨hpage, fun _ => ?_⟩
      -- the last key of the page is the key of the row the cursor was made of
      have hlast : nextCursor c ((makePage ((candidates coll s source c).take (limit + 1)) limit).events.map
          (fun x => x.key coll)) true = some (tail.key coll) := by
        rw [nextCursor, if_pos rfl, hkeys, ← List.map_take, List.getLast?_map, htail, Option.map_some]
      rw [hlast, cursorParameter_encodeCursor]
      rfl

end

end WebhookRelay
