import WebhookRelay.Reloading

/-
  What `response_model` makes of a payload before it is rendered. A `dict[str, Any]`
  goes through pydantic's serializer in its JSON mode: a number that is not finite
  becomes null, a lone surrogate in a key becomes replacement characters, keys that
  are then equal are one key, and a value that nests too deep is an error. Strings
  that are values are left as they are, so a lone surrogate in one of them is met
  only by the encoder of the response.

  What is proved:
    1. `serialized_of_strict`: strict JSON without a repeated key comes out as it
       went in;
    2. `serialized_strict`: exactly which values are strict when they come out
       (`Json.showable`);
    3. `serialized_fits`, `serialized_levels`: what comes out fits an interpreter
       that held what went in, and nests no deeper.
-/
namespace Py

/-! ## The serializer -/

/-- U+FFFD. -/
def replacementCharacter : CodePoint := ⟨0xFFFD, by decide⟩

/-- A key that the serializer writes (`to_string_lossy`). The three bytes that
encode a surrogate are no UTF-8, and each is replaced. -/
def Str.lossy (s : Str) : Str :=
  s.flatMap (fun u => if u.isSurrogate then List.replicate 3 replacementCharacter else [u])

mutual

/-- A value in the JSON mode of the serializer. -/
def Json.serialized : Json → Json
  | .null => .null
  | .bool b => .bool b
  | .int i => .int i
  | .float f => if f.isFinite then .float f else .null
  | .str s => .str s
  | .arr items => .arr (serializedArr items)
  | .obj items => .obj (updated [] (serializedObj items))

def serializedArr : List Json → List Json
  | [] => []
  | v :: vs => v.serialized :: serializedArr vs

def serializedObj : List (Str × Json) → List (Str × Json)
  | [] => []
  | (k, v) :: ms => (k.lossy, v.serialized) :: serializedObj ms

end

/-- A `dict[str, Any]` in the JSON mode. The serializer counts a level for every
value below the dict, leaves included, and `none` is its ValueError where there
are more than it has room for. -/
def serializeDict (room : Nat) : Json → Option Json
  | .obj items => if Json.levelsObj 1 items ≤ room then some (Json.obj items).serialized else none
  -- the model's own validation lets nothing else through
  | .null | .bool _ | .int _ | .float _ | .str _ | .arr _ => none

theorem serializeDict_eq_some {room : Nat} {items : List (Str × Json)} {v : Json} :
    serializeDict room (.obj items) = some v ↔
      (Json.obj items).levels 1 ≤ room + 1 ∧ v = (Json.obj items).serialized := by
  rw [serializeDict, Json.levels, Nat.add_le_add_iff_right]
  split
  · next h => simp only [h, Option.some.injEq, true_and, eq_comm]
  · next h => simp only [h, false_and, reduceCtorEq]

theorem serializedArr_eq_map (items : List Json) : serializedArr items = items.map Json.serialized := by
  induction items with
  | nil => rfl
  | cons v vs ih => rw [serializedArr, ih, List.map_cons]

theorem serializedObj_eq_map (items : List (Str × Json)) :
    serializedObj items = items.map (fun m => (m.1.lossy, m.2.serialized)) := by
  induction items with
  | nil => rfl
  | cons m ms ih => rw [serializedObj, ih, List.map_cons]

/-! ## Keys -/

theorem lossy_of_scalars {s : Str} (h : s.scalars = true) : s.lossy = s := by
  induction s with
  | nil => rfl
  | cons u us ih =>
    rw [scalars_cons, Bool.and_eq_true, Bool.not_eq_true'] at h
    have hu : Str.lossy (u :: us) = u :: Str.lossy us := by
      rw [Str.lossy, List.flatMap_cons, if_neg (by rw [h.1]; exact Bool.false_ne_true)]
      rfl
    rw [hu, ih h.2]

/-- What replaces a surrogate is none. -/
theorem scalars_lossy (s : Str) : s.lossy.scalars = true := by
  rw [Str.scalars, List.all_eq_true]
  intro u hu
  obtain ⟨v, -, hv⟩ := List.mem_flatMap.mp hu
  split at hv
  · rw [List.eq_of_mem_replicate hv]
    rfl
  · next h =>
    rw [List.mem_singleton.mp hv, Bool.not_eq_true']
    exact Bool.eq_false_iff.mpr h

theorem joined_of_scalars {s : Str} (h : s.scalars = true) : s.Joined := by
  rw [Str.Joined, List.isChain_iff_getElem]
  intro i hi hpair
  have hnot := List.all_eq_true.mp h s[i] (List.getElem_mem _)
  have hhigh := hpair.1
  simp only [CodePoint.isHigh, CodePoint.isSurrogate, Bool.and_eq_true, Bool.not_eq_true',
    Bool.and_eq_false_iff, decide_eq_true_eq, decide_eq_false_iff_not] at hhigh hnot
  omega

/-! ## Strict values -/

theorem strict_items (items : List Json) : (Json.arr items).strict = true ↔ ∀ v ∈ items, v.strict = true := by
  rw [strict_arr, List.all_eq_true]

theorem strict_members (items : List (Str × Json)) :
    (Json.obj items).strict = true ↔ ∀ m ∈ items, m.1.scalars = true ∧ m.2.strict = true := allFields_iff

/-- Assigning distinct keys to an empty dict lists them. -/
theorem updated_nodup {base extras : List (Str × Json)} (h : (base.map Prod.fst ++ extras.map Prod.fst).Nodup) :
    updated base extras = base ++ extras := by
  induction extras generalizing base with
  | nil => exact (List.append_nil base).symm
  | cons m ms ih =>
    have hfresh : m.1 ∉ base.map Prod.fst := fun hmem =>
      (List.nodup_append.mp h).2.2 m.1 hmem m.1 List.mem_cons_self rfl
    have hstep : updated base (m :: ms) = updated (base ++ [m]) ms := by
      rw [← setItem_fresh m.2 hfresh]
      rfl
    rw [hstep, ih, List.append_assoc]
    · rfl
    · rw [List.map_append, List.append_assoc]
      exact h

/-- **Strict JSON is served as it is stored.** -/
theorem serialized_of_strict {v : Json} (hkeyed : v.Keyed) (h : v.strict = true) : v.serialized = v := by
  induction hkeyed with
  | null | bool _ | int _ | str _ => rfl
  | float f =>
    have hfinite : f.isFinite = true := h
    rw [Json.serialized, if_pos hfinite]
  | @arr items _ ih =>
    have hitems : items.map Json.serialized = items :=
      (List.map_congr_left (fun v hv => ih v hv ((strict_items items).mp h v hv))).trans (List.map_id items)
    rw [Json.serialized, serializedArr_eq_map, hitems]
  | @obj items hnodup _ ih =>
    have hitems : items.map (fun m => (m.1.lossy, m.2.serialized)) = items := by
      refine (List.map_congr_left (fun m hm => ?_)).trans (List.map_id items)
      obtain ⟨hkey, hvalue⟩ := (strict_members items).mp h m hm
      exact Prod.ext (lossy_of_scalars hkey) (ih m hm hvalue)
    have hlisted : updated [] items = items := updated_nodup hnodup
    rw [Json.serialized, serializedObj_eq_map, hitems, hlisted]

/-! ## What can be shown -/

mutual

/-- No lone surrogate in a string that is a value. A value does not count under a
key that is written like a later key of its object. -/
def Json.showable : Json → Bool
  | .str s => s.scalars
  | .arr items => showableArr items
  | .obj items => showableObj items
  | .null | .bool _ | .int _ | .float _ => true

def showableArr : List Json → Bool
  | [] => true
  | v :: vs => v.showable && showableArr vs

def showableObj : List (Str × Json) → Bool
  | [] => true
  | (k, v) :: ms => (v.showable || ms.any (fun m => m.1.lossy = k.lossy)) && showableObj ms

end

theorem showableArr_iff {items : List Json} : showableArr items = true ↔ ∀ v ∈ items, v.showable = true := by
  induction items with
  | nil => exact ⟨fun _ v hv => absurd hv List.not_mem_nil, fun _ => rfl⟩
  | cons v vs ih => rw [showableArr, Bool.and_eq_true, ih, List.forall_mem_cons]

/-- An assignment replaces what the key had. -/
theorem forall_mem_setItem {R : Str × Json → Prop} {key : Str} {value : Json} {items : List (Str × Json)}
    (hnodup : (items.map Prod.fst).Nodup) :
    (∀ m ∈ setItem key value items, R m) ↔ R (key, value) ∧ ∀ m ∈ items, m.1 = key ∨ R m := by
  induction items with
  | nil =>
    rw [setItem, List.forall_mem_singleton]
    exact ⟨fun h => ⟨h, fun m hm => absurd hm List.not_mem_nil⟩, And.left⟩
  | cons x xs ih =>
    obtain ⟨k, v⟩ := x
    obtain ⟨hnew, hrest⟩ := List.nodup_cons.mp hnodup
    rw [setItem, List.forall_mem_cons]
    by_cases hk : k = key
    · subst hk
      -- the other members have other keys
      have hother : (∀ m ∈ xs, R m) ↔ ∀ m ∈ xs, m.1 = k ∨ R m := by
        refine forall₂_congr (fun m hm => ?_)
        have hne : m.1 ≠ k := fun heq => hnew (List.mem_map.mpr ⟨m, hm, heq⟩)
        simp only [hne, false_or]
      rw [if_pos rfl, List.forall_mem_cons, hother]
      simp only [true_or, true_and]
    · rw [if_neg hk, List.forall_mem_cons, ih hrest]
      simp only [hk, false_or]
      exact and_left_comm

/-- The value that each key has last has the property. -/
def LastHave (R : Str × Json → Prop) : List (Str × Json) → Prop
  | [] => True
  | m :: ms => (m.1 ∈ ms.map Prod.fst ∨ R m) ∧ LastHave R ms

/-- An update leaves of each key the value it had last. -/
theorem forall_mem_updated {R : Str × Json → Prop} {base extras : List (Str × Json)}
    (hnodup : (base.map Prod.fst).Nodup) :
    (∀ m ∈ updated base extras, R m) ↔
      (∀ m ∈ base, m.1 ∈ extras.map Prod.fst ∨ R m) ∧ LastHave R extras := by
  induction extras generalizing base with
  | nil =>
    simp only [List.map_nil, List.not_mem_nil, false_or, LastHave, and_true]
    rfl
  | cons x xs ih =>
    have hstep : updated base (x :: xs) = updated (setItem x.1 x.2 base) xs := rfl
    rw [hstep, ih (setItem_nodup hnodup), forall_mem_setItem hnodup, LastHave, List.map_cons]
    simp only [List.mem_cons, or_assoc]
    exact ⟨fun h => ⟨h.1.2, h.1.1, h.2⟩, fun h => ⟨⟨h.2.1, h.1⟩, h.2.2⟩⟩

theorem showableObj_iff {items : List (Str × Json)}
    (h : ∀ m ∈ items, (m.2.serialized.strict = true ↔ m.2.showable = true)) :
    LastHave (fun m => m.2.strict = true) (serializedObj items) ↔ showableObj items = true := by
  induction items with
  | nil => exact ⟨fun _ => rfl, fun _ => trivial⟩
  | cons m ms ih =>
    obtain ⟨hm, hms⟩ := List.forall_mem_cons.mp h
    have hkey : m.1.lossy ∈ (serializedObj ms).map Prod.fst ↔ ms.any (fun x => x.1.lossy = m.1.lossy) = true := by
      rw [serializedObj_eq_map, List.map_map, List.mem_map, List.any_eq_true]
      simp only [Function.comp_apply, decide_eq_true_eq]
    rw [serializedObj, LastHave, showableObj, Bool.and_eq_true, Bool.or_eq_true, ← ih hms, ← hkey, ← hm, or_comm]

/-- **What is strict when it comes out.** -/
theorem serialized_strict (v : Json) : v.serialized.strict = true ↔ v.showable = true := by
  induction v using Json.parts with
  | null | bool _ | int _ => exact ⟨fun _ => rfl, fun _ => rfl⟩
  | float f =>
    rw [Json.serialized]
    split
    · next h => exact ⟨fun _ => rfl, fun _ => h⟩
    · exact ⟨fun _ => rfl, fun _ => rfl⟩
  | str s => exact Iff.rfl
  | arr items ih =>
    rw [Json.serialized, strict_items, serializedArr_eq_map, List.forall_mem_map, Json.showable, showableArr_iff]
    exact forall₂_congr ih
  | obj items ih =>
    have hkeys : ∀ m ∈ updated [] (serializedObj items), m.1.scalars = true := by
      intro m hm
      rcases mem_updated hm with hm | hm
      · cases hm
      · rw [serializedObj_eq_map] at hm
        obtain ⟨x, -, rfl⟩ := List.mem_map.mp hm
        exact scalars_lossy x.1
    have hvalues : (Json.obj (updated [] (serializedObj items))).strict = true ↔
        ∀ m ∈ updated [] (serializedObj items), m.2.strict = true := by
      rw [strict_members]
      exact ⟨fun h m hm => (h m hm).2, fun h m hm => ⟨hkeys m hm, h m hm⟩⟩
    have hnil : (([] : List (Str × Json)).map Prod.fst).Nodup := List.nodup_nil
    rw [Json.serialized, hvalues, forall_mem_updated hnil, showableObj_iff ih, Json.showable]
    exact and_iff_right (List.forall_mem_nil _)

/-- Strict values are showable. -/
theorem showable_of_strict (v : Json) (h : v.strict = true) : v.showable = true := by
  induction v using Json.parts with
  | null | bool _ | int _ | float _ => rfl
  | str s => exact h
  | arr items ih =>
    rw [Json.showable, showableArr_iff]
    exact fun v hv => ih v hv ((strict_items items).mp h v hv)
  | obj items ih =>
    rw [Json.showable]
    induction items with
    | nil => rfl
    | cons m ms ihms =>
      obtain ⟨hm, hms⟩ := List.forall_mem_cons.mp ih
      obtain ⟨hstrict, hrest⟩ := List.forall_mem_cons.mp ((strict_members _).mp h)
      rw [showableObj, hm hstrict.2, Bool.true_or, Bool.true_and]
      exact ihms hms ((strict_members ms).mpr hrest)

/-! ## What comes out -/

/-- The serializer adds no level. -/
theorem serialized_levels (leaf : Nat) (v : Json) : v.serialized.levels leaf ≤ v.levels leaf := by
  induction v using Json.parts with
  | null | bool _ | int _ | str _ => exact Nat.le_refl _
  | float f =>
    rw [Json.serialized]
    split <;> exact Nat.le_refl _
  | arr items ih =>
    rw [Json.serialized, serializedArr_eq_map, Json.levels, Json.levels]
    apply Nat.succ_le_succ
    rw [levelsArr_le, List.forall_mem_map]
    exact fun v hv => (ih v hv).trans (levelsArr_le.mp (Nat.le_refl _) v hv)
  | obj items ih =>
    rw [Json.serialized, serializedObj_eq_map, Json.levels, Json.levels]
    apply Nat.succ_le_succ
    rw [levelsObj_le]
    intro m hm
    rcases mem_updated hm with hm | hm
    · cases hm
    · obtain ⟨x, hx, rfl⟩ := List.mem_map.mp hm
      exact (ih x hx).trans (levelsObj_le.mp (Nat.le_refl _) x hx)

/-- The serializer keeps what fits. -/
theorem serialized_fits {it : Interp} {d : Nat} {v : Json} (h : v.Fits it d) : v.serialized.Fits it d := by
  induction h with
  | null => exact .null
  | bool b => exact .bool b
  | int h => exact .int h
  | float h =>
    rw [Json.serialized]
    split
    · exact .float h
    · exact .null
  | str h => exact .str h
  | arr _ ih =>
    rw [Json.serialized, serializedArr_eq_map]
    apply Json.Fits.arr
    rw [List.forall_mem_map]
    exact ih
  | @obj d items _ _ _ ih =>
    rw [Json.serialized, serializedObj_eq_map]
    have hmembers : Members (fun v => v.Fits it d)
        (updated [] (items.map (fun m => (m.1.lossy, m.2.serialized)))) := by
      apply Members.nil.updated
      · rw [List.forall_mem_map]
        exact fun m _ => joined_of_scalars (scalars_lossy m.1)
      · rw [List.forall_mem_map]
        exact ih
    exact .obj hmembers.keys hmembers.nodup hmembers.values

/-- What fits needs no more room than its containers. -/
theorem Json.Fits.shrink {it : Interp} {d : Nat} {v : Json} (h : v.Fits it d) :
    ∀ {n : Nat}, v.depth ≤ n → v.Fits it n := by
  induction h with
  | null =>
    intro n _
    exact .null
  | bool b =>
    intro n _
    exact .bool b
  | int h =>
    intro n _
    exact .int h
  | float h =>
    intro n _
    exact .float h
  | str h =>
    intro n _
    exact .str h
  | arr _ ih =>
    intro n hn
    obtain ⟨e, rfl⟩ : ∃ e, n = e + 1 := ⟨n - 1, by rw [Json.depth, Json.levels] at hn; omega⟩
    exact .arr (fun v hv => ih v hv (levelsArr_le.mp (Nat.le_of_succ_le_succ hn) v hv))
  | obj hkeys hnodup _ ih =>
    intro n hn
    obtain ⟨e, rfl⟩ : ∃ e, n = e + 1 := ⟨n - 1, by rw [Json.depth, Json.levels] at hn; omega⟩
    exact .obj hkeys hnodup (fun m hm => ih m hm (levelsObj_le.mp (Nat.le_of_succ_le_succ hn) m hm))

end Py
