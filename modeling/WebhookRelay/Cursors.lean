import WebhookRelay.Authentication
import WebhookRelay.Traversals

/-
  Cursors from anywhere. One the service made decodes to what it was made of
  (`cursor_round_trip`). One a client made up is refused, or stands for a pair of
  an instant and an id, and what is answered is the page below that pair
  (`IsTop`), but for an id with a surrogate, which no parameter of a query can
  have (`forged_cursor_iff`).
-/
namespace WebhookRelay

open Py Transition Keyset

/-! ## Cursors of the service -/

theorem Datetime.ofUtc_inj {m m' : Moment} (h : Datetime.ofUtc m = Datetime.ofUtc m') : m = m' := by
  have hutc := congrArg Datetime.utc h
  rw [Datetime.utc_ofUtc, Datetime.utc_ofUtc] at hutc
  exact hutc

/-- **Cursor round trip.** The cursor of any datetime and id decodes to the same
instant in UTC and the same id, so equal cursors stand for the same instant and
id. -/
theorem cursor_round_trip (env : Env) (receivedAt : Datetime) (eventId : String) :
    decodeCursor env (encodeCursor receivedAt eventId) = .ok (.ofUtc receivedAt.utc, text eventId) ∧
      ∀ receivedAt' eventId', encodeCursor receivedAt eventId = encodeCursor receivedAt' eventId' ↔
        receivedAt.utc = receivedAt'.utc ∧ eventId = eventId' := by
  refine ⟨decodeCursor_encodeCursor env receivedAt eventId, ?_⟩
  intro receivedAt' eventId'
  constructor
  · intro h
    have hdecoded : (Except.ok (asUtc receivedAt, text eventId) : Except PyExc (Datetime × Str)) =
        .ok (asUtc receivedAt', text eventId') :=
      calc .ok (asUtc receivedAt, text eventId)
          _ = decodeCursor env (encodeCursor receivedAt eventId) := (decodeCursor_encodeCursor ..).symm
          _ = decodeCursor env (encodeCursor receivedAt' eventId') := by rw [h]
          _ = .ok (asUtc receivedAt', text eventId') := decodeCursor_encodeCursor ..
    simp only [Except.ok.injEq, Prod.mk.injEq] at hdecoded
    exact ⟨Datetime.ofUtc_inj hdecoded.1, text_inj.mp hdecoded.2⟩
  · intro h
    obtain ⟨hutc, rfl⟩ := h
    rw [encodeCursor, encodeCursor, asUtc, asUtc, hutc]

/-! ## Cursors of a client -/

/-- The rows a filter lets through whose (received_at, id) is below the pair. -/
def rowsBelow (coll : Collation) (s : Store) (source : Option String) (ts : Moment) (id : String) : List Event :=
  (matching source s).filter (fun e => decide (below coll ts id e))

/-- The page has the `limit` greatest of the rows, in descending order, and a
`next_cursor` if there are more. -/
def IsTop (coll : Collation) (rows : List Event) (limit : Nat) (page : EventsListResponse) : Prop :=
  ∃ top rest, (top ++ rest).Perm rows ∧ (top ++ rest).Pairwise (fun a b => b.key coll < a.key coll) ∧
    top.length = min limit rows.length ∧ page.events = top.map eventItem ∧
    (page.nextCursor.isSome = true ↔ rest ≠ [])

/-- `list_events` refuses the cursor, or answers with the page below the pair it
decodes to. -/
def CursorAnswered (env : Env) (coll : Collation) (s : Store) (limit : Nat) (cursor : String)
    (source : Option String) : Prop :=
  listEvents env coll s limit (some cursor) source = .error (.httpException 400 "Invalid cursor") ∨
    ∃ ts id page, decodeCursor env cursor = .ok (.ofUtc ts, text id) ∧
      listEvents env coll s limit (some cursor) source = .ok page ∧
      IsTop coll (rowsBelow coll s source ts id) limit page

section

variable {coll : Collation}

theorem candidates_rowsBelow (s : Store) (source : Option String) (k : PageKey coll) :
    (candidates coll s source (some k)).Perm (rowsBelow coll s source k.receivedAt k.id) := by
  have hfilter : rowsBelow coll s source k.receivedAt k.id =
      s.rows.filter (fun e => sourceMatches source e && decide (below coll k.receivedAt k.id e)) := by
    rw [rowsBelow, matching, List.filter_filter]
    exact List.filter_congr (fun e _ => Bool.and_comm _ _)
  rw [hfilter]
  exact List.perm_insertionSort _ _

/-- What the query and the page make of the rows below a place. -/
theorem makePage_isTop (s : Store) (source : Option String) (k : PageKey coll) {limit : Nat} (hl : 0 < limit) :
    IsTop coll (rowsBelow coll s source k.receivedAt k.id) limit
      (makePage ((candidates coll s source (some k)).take (limit + 1)) limit) := by
  have hperm := candidates_rowsBelow s source k
  refine ⟨(candidates coll s source (some k)).take limit, (candidates coll s source (some k)).drop limit,
    ?_, ?_, ?_, makePage_events _ limit, ?_⟩
  · rw [List.take_append_drop]
    exact hperm
  · rw [List.take_append_drop]
    exact List.pairwise_map.mp (candidates_sorted (some k))
  · rw [List.length_take, hperm.length_eq]
  · rw [ne_eq, List.drop_eq_nil_iff, Nat.not_le]
    rcases makePage_cases (candidates coll s source (some k)) hl with ⟨hlt, hnext⟩ | ⟨hlt, tail, -, hnext⟩
    · rw [hnext]
      exact iff_of_false Bool.false_ne_true hlt
    · rw [hnext]
      exact iff_of_true rfl hlt

end

theorem decodeCursor?_utc {env : Env} {cursor : String} {r : Datetime × Str} (h : decodeCursor? env cursor = some r) :
    r.1 = .ofUtc r.1.utc := by
  have hutc : ∀ aware, asUtc aware = .ofUtc (asUtc aware).utc := by
    intro aware
    rw [asUtc, Datetime.utc_ofUtc]
  simp only [decodeCursor?, bind, Option.bind_eq_some_iff] at h
  obtain ⟨-, -, -, -, -, -, payload, -, h⟩ := h
  split at h
  · obtain ⟨ts, -, h⟩ := Option.bind_eq_some_iff.mp h
    obtain ⟨aware, -, h⟩ := Option.bind_eq_some_iff.mp h
    obtain ⟨id, -, h⟩ := Option.bind_eq_some_iff.mp h
    obtain rfl := Option.some.inj h
    exact hutc aware
  · cases h

/-- A cursor is refused, or decodes to an instant in UTC. -/
theorem decodeCursor_cases (env : Env) (cursor : String) :
    decodeCursor env cursor = .error (.httpException 400 "Invalid cursor") ∨
      ∃ ts id, decodeCursor env cursor = .ok (.ofUtc ts, id) := by
  unfold decodeCursor
  cases hd : decodeCursor? env cursor with
  | none => exact .inl rfl
  | some r => exact .inr ⟨r.1.utc, r.2, by rw [← decodeCursor?_utc hd]⟩

theorem toChar?_eq_some {u : CodePoint} {c : Char} (h : u.toChar? = some c) : u = .ofChar c := by
  unfold CodePoint.toChar? at h
  split at h
  · next hv =>
    cases h
    apply Fin.ext
    show u.val = (Char.ofNat u.val).toNat
    rw [Char.ofNat, dif_pos hv]
    rfl
  · cases h

/-- What encodes is text without surrogates. -/
theorem encode_eq_some {id : Str} {chars : List Char} (h : id.encode = some chars) : id = .ofChars chars := by
  induction id generalizing chars with
  | nil =>
    cases h
    rfl
  | cons u us ih =>
    rw [Str.encode] at h
    split at h
    · next c cs hc hcs =>
      cases h
      rw [toChar?_eq_some hc, ih hcs]
      rfl
    · cases h

/-- The bound values of the SELECT, for a cursor that decodes. -/
theorem cursorParameter_decoded {env : Env} {cursor : String} {ts : Datetime} {id : Str} (hc : cursor ≠ "")
    (hd : decodeCursor env cursor = .ok (ts, id)) :
    (∀ chars, id.encode = some chars →
        cursorParameter env (some cursor) = .ok (some (ts.utc, String.ofList chars))) ∧
      (id.encode = none → cursorParameter env (some cursor) = .error .unicodeEncodeError) := by
  rw [cursorParameter, if_neg hc, hd]
  refine ⟨?_, ?_⟩
  · intro chars he
    simp only [bind, Except.bind, he]
  · intro he
    simp only [bind, Except.bind, he]

/-- **Forged cursors.** Any text in the cursor parameter is refused with 400 or
answered with the page below the pair it decodes to, if and only if the decoded
id has no surrogate. -/
theorem forged_cursor_iff (env : Env) (coll : Collation) (s : Store) {limit : Nat} (hl : 1 ≤ limit ∧ limit ≤ 100)
    {cursor : String} (hc : cursor ≠ "") (source : Option String) :
    CursorAnswered env coll s limit cursor source ↔
      ∀ ts id, decodeCursor env cursor = .ok (ts, id) → ∀ u ∈ id, u.isSurrogate = false := by
  have hclean : ∀ id : Str, id.encode.isSome = true ↔ ∀ u ∈ id, u.isSurrogate = false := by
    intro id
    rw [encode_isSome, List.all_eq_true]
    simp only [Bool.not_eq_true']
  rcases decodeCursor_cases env cursor with hd | ⟨ts, id, hd⟩
  · refine iff_of_true (.inl ?_) ?_
    · rw [listEvents, cursorParameter, if_neg hc, hd]
      rfl
    · intro ts id h
      rw [hd] at h
      cases h
  · obtain ⟨hbound, hraised⟩ := cursorParameter_decoded hc hd
    cases he : id.encode with
    | some chars =>
      obtain rfl := encode_eq_some he
      refine iff_of_true (.inr ⟨ts, String.ofList chars, _, ?_, ?_, makePage_isTop s source
        ⟨ts, String.ofList chars⟩ hl.1⟩) ?_
      · rw [hd, text, String.toList_ofList]
      · rw [listEvents, hbound _ he, Datetime.utc_ofUtc]
        rfl
      · intro ts' id' h
        rw [hd] at h
        cases h
        exact (hclean _).mp (by rw [he]; rfl)
    | none =>
      have hlist : listEvents env coll s limit (some cursor) source = .error .unicodeEncodeError := by
        rw [listEvents, hraised he]
        rfl
      refine iff_of_false ?_ ?_
      · intro h
        rcases h with h | ⟨_, _, page, -, h, -⟩
        · rw [hlist] at h
          cases h
        · rw [hlist] at h
          cases h
      · intro h
        have hsome := (hclean id).mpr (h _ id hd)
        rw [he] at hsome
        cases hsome

/-- The encoding of `{"ts":"0001-01-01T00:00:00.000015x+00:00","id":"b"}`, with a timestamp
that no `isoformat` prints. -/
def forgedCursor : String := "eyJ0cyI6IjAwMDEtMDEtMDFUMDA6MDA6MDAuMDAwMDE1eCswMDowMCIsImlkIjoiYiJ9"

/-- It stands for a place between the rows, and the page is the greatest row below
that place. -/
theorem forged_cursor_iff_page : CursorAnswered sampleEnv codePointOrder tiedRows 1 forgedCursor none ∧
    (listEvents sampleEnv codePointOrder tiedRows 1 (some forgedCursor) none).toOption.map
      (fun page => (page.events.map (fun x => x.eventId), page.nextCursor.isSome)) =
      some ([(sampleRow 2 10).id], true) := by
  have hd : (decodeCursor sampleEnv forgedCursor).toOption.map Prod.snd = some (text "b") := by decide +kernel
  refine ⟨?_, by decide +kernel⟩
  apply (forged_cursor_iff sampleEnv codePointOrder tiedRows (by decide) (by decide) none).mpr
  intro ts id h
  rw [h] at hd
  obtain rfl := Option.some.inj hd
  intro u hu
  obtain ⟨c, -, rfl⟩ := List.mem_map.mp hu
  exact ofChar_not_surrogate c

/-- The encoding of an object with a timestamp and the id U+D800. -/
def surrogateCursor : String := "eyJ0cyI6IjIwMjQtMDEtMDEiLCJpZCI6Ilx1ZDgwMCJ9"

/-- It decodes, and the query then raises UnicodeEncodeError. -/
theorem surrogate_cursor_raises :
    (decodeCursor sampleEnv surrogateCursor).toOption.map Prod.snd = some [⟨0xD800, by decide⟩] ∧
      listEvents sampleEnv codePointOrder .empty 50 (some surrogateCursor) none = .error .unicodeEncodeError ∧
      ¬ CursorAnswered sampleEnv codePointOrder .empty 50 surrogateCursor none := by
  have hd : (decodeCursor sampleEnv surrogateCursor).toOption.map Prod.snd = some [⟨0xD800, by decide⟩] := by
    decide +kernel
  have hlist : listEvents sampleEnv codePointOrder .empty 50 (some surrogateCursor) none =
      .error .unicodeEncodeError := by
    obtain ⟨r, hr, hid⟩ := Option.map_eq_some_iff.mp hd
    cases hdec : decodeCursor sampleEnv surrogateCursor with
    | error exc =>
      rw [hdec] at hr
      cases hr
    | ok r' =>
      rw [hdec] at hr
      obtain rfl := Option.some.inj hr
      rw [listEvents, cursorParameter, if_neg (by decide), hdec]
      simp only [bind, Except.bind, hid]
      rfl
  refine ⟨hd, hlist, ?_⟩
  intro h
  rcases h with h | ⟨_, _, page, -, h, -⟩
  · rw [hlist] at h
    cases h
  · rw [hlist] at h
    cases h

end WebhookRelay
