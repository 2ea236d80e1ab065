import WebhookRelay.Intake

/-
  What the two credential checks decide. `verifyWebhookSignature` and
  `requireAdminToken` compare the header with `compare_digest`, which raises
  TypeError outside ASCII, and the first encodes the secret before. What is
  proved, for every header, secret, token and body:
    1. `verify_ok_iff`, `adminBy_of_ok`: a check that returns has found the
       secret empty, or the header equal to the digest or the token;
    2. `authentication_decided`: exactly when a check ends as a check should,
       in a return or in its own HTTPException.
-/
namespace WebhookRelay

open Py

theorem strAscii_text (s : String) : strAscii (text s) = isAscii s := by
  unfold strAscii isAscii text Str.ofChars
  rw [List.all_map]
  rfl

theorem text_inj {a b : String} : text a = text b ↔ a = b := by
  constructor
  · intro h
    have henc : Str.encode (text a) = Str.encode (text b) := congrArg Str.encode h
    rw [text, text, encode_ofChars, encode_ofChars] at henc
    exact String.toList_inj.mp (Option.some.inj henc)
  · intro h
    rw [h]

/-- A digest is ASCII text. -/
theorem HexDigest.ascii (d : HexDigest) : isAscii d.text = true := by
  apply List.all_eq_true.mpr
  intro c hc
  have hhex := d.hexLower c hc
  simp only [isHexLower, Bool.or_eq_true, Bool.and_eq_true, decide_eq_true_eq] at hhex
  apply decide_eq_true
  obtain ⟨-, hle⟩ | ⟨-, hle⟩ := hhex
  · exact Nat.lt_of_le_of_lt (show c.toNat ≤ 57 from hle) (by omega)
  · exact Nat.lt_of_le_of_lt (show c.toNat ≤ 102 from hle) (by omega)

theorem HexDigest.ne_empty (d : HexDigest) : d.text ≠ "" := by
  intro h
  have hlen := d.length_eq
  rw [h] at hlen
  cases hlen

section

variable {a b : Str}

theorem compareDigest_ascii (ha : strAscii a = true) (hb : strAscii b = true) :
    compareDigest a b = .ok (a == b) := by
  rw [compareDigest, ha, hb]
  rfl

theorem compareDigest_nonAscii (h : ¬ (strAscii a = true ∧ strAscii b = true)) :
    compareDigest a b =
      .error (.typeError "comparing strings with non-ASCII characters is not supported") := by
  rw [← Bool.and_eq_true] at h
  rw [compareDigest, if_neg h]

end

/-! ## The signature -/

/-- The stripped header is the digest of the body under the secret. -/
def SignedBy (env : Env) (rawBody : List UInt8) (signatureHeader : Option String) (secret : Str) : Prop :=
  ∃ key signature, secret.encode = some key ∧ signatureHeader = some signature ∧
    strip signature = (env.hmacSha256 (String.ofList key) rawBody).text

/-- The check ends in a return exactly for an empty secret or a signed body, and
otherwise in a 401. -/
def SignatureDecided (env : Env) (rawBody : List UInt8) (signatureHeader : Option String)
    (secret : Str) : Prop :=
  (verifyWebhookSignature env rawBody signatureHeader secret = .ok () ↔
      secret = [] ∨ SignedBy env rawBody signatureHeader secret) ∧
    (¬ (secret = [] ∨ SignedBy env rawBody signatureHeader secret) →
      ∃ detail, verifyWebhookSignature env rawBody signatureHeader secret =
        .error (.httpException 401 detail))

section

variable {env : Env} {rawBody : List UInt8} {signatureHeader : Option String} {signature : String}
  {secret : Str} {key : List Char}

theorem verify_disabled : verifyWebhookSignature env rawBody signatureHeader [] = .ok () :=
  if_pos rfl

theorem verify_missing (hs : secret ≠ []) (hh : signatureHeader.getD "" = "") :
    verifyWebhookSignature env rawBody signatureHeader secret =
      .error (.httpException 401 "Missing webhook signature") := by
  unfold verifyWebhookSignature
  rw [if_neg hs]
  cases signatureHeader with
  | none => rfl
  | some signature => exact if_pos hh

theorem verify_unencodable (hs : secret ≠ []) (hne : signature ≠ "") (hk : secret.encode = none) :
    verifyWebhookSignature env rawBody (some signature) secret = .error .unicodeEncodeError := by
  simp only [verifyWebhookSignature, if_neg hs, if_neg hne, hk]

theorem verify_nonAscii (hs : secret ≠ []) (hne : signature ≠ "") (hk : secret.encode = some key)
    (ha : isAscii (strip signature) = false) :
    verifyWebhookSignature env rawBody (some signature) secret =
      .error (.typeError "comparing strings with non-ASCII characters is not supported") := by
  have hbad : ¬ (strAscii (text (env.hmacSha256 (String.ofList key) rawBody).text) = true ∧
      strAscii (text (strip signature)) = true) := by
    rw [strAscii_text (strip signature), ha]
    exact fun h => nomatch h.2
  simp only [verifyWebhookSignature, if_neg hs, if_neg hne, hk, compareDigest_nonAscii hbad]
  rfl

theorem verify_ascii (hs : secret ≠ []) (hne : signature ≠ "") (hk : secret.encode = some key)
    (ha : isAscii (strip signature) = true) :
    verifyWebhookSignature env rawBody (some signature) secret =
      if strip signature = (env.hmacSha256 (String.ofList key) rawBody).text then .ok ()
      else .error (.httpException 401 "Invalid webhook signature") := by
  have hd : strAscii (text (env.hmacSha256 (String.ofList key) rawBody).text) = true := by
    rw [strAscii_text, HexDigest.ascii]
  have hs' : strAscii (text (strip signature)) = true := by
    rw [strAscii_text, ha]
  simp only [verifyWebhookSignature, if_neg hs, if_neg hne, hk, compareDigest_ascii hd hs', bind,
    Except.bind, beq_iff_eq, text_inj]
  by_cases h : strip signature = (env.hmacSha256 (String.ofList key) rawBody).text
  · rw [if_pos h, if_pos h.symm]
  · rw [if_neg h, if_neg (fun hs => h hs.symm)]

theorem signedBy_iff (hk : secret.encode = some key) :
    SignedBy env rawBody (some signature) secret ↔
      strip signature = (env.hmacSha256 (String.ofList key) rawBody).text := by
  constructor
  · intro h'
    obtain ⟨key', signature', hk', hs', hsame⟩ := h'
    rw [hk] at hk'
    cases hk'
    cases hs'
    exact hsame
  · intro hsame
    exact ⟨key, signature, hk, rfl, hsame⟩

/-- A signed body has a header that is not empty. -/
theorem SignedBy.present (h : SignedBy env rawBody signatureHeader secret) :
    signatureHeader.getD "" ≠ "" := by
  obtain ⟨key, signature, -, rfl, hsame⟩ := h
  intro hempty
  rw [show signature = "" from hempty] at hsame
  exact HexDigest.ne_empty _ hsame.symm

theorem not_signed_unencodable (hk : secret.encode = none) :
    ¬ SignedBy env rawBody signatureHeader secret := by
  intro h'
  obtain ⟨key, signature, hk', -⟩ := h'
  rw [hk] at hk'
  cases hk'

theorem not_signed_nonAscii (ha : isAscii (strip signature) = false) :
    ¬ SignedBy env rawBody (some signature) secret := by
  intro h'
  obtain ⟨key, signature', -, hs, hsame⟩ := h'
  cases hs
  rw [hsame, HexDigest.ascii] at ha
  cases ha

/-- How the check of a header that is present ends. -/
theorem verify_present (env : Env) (rawBody : List UInt8) (signature : String) (hs : secret ≠ [])
    (hne : signature ≠ "") :
    let v := verifyWebhookSignature env rawBody (some signature) secret
    (SignedBy env rawBody (some signature) secret ∧ secret.encode.isSome ∧
        isAscii (strip signature) = true ∧ v = .ok ()) ∨
      ¬ SignedBy env rawBody (some signature) secret ∧
        ((secret.encode.isSome ∧ isAscii (strip signature) = true ∧
            v = .error (.httpException 401 "Invalid webhook signature")) ∨
          ¬ (secret.encode.isSome ∧ isAscii (strip signature) = true) ∧
            ∃ exc, v = .error exc ∧ ∀ status detail, exc ≠ .httpException status detail) := by
  intro v
  cases hk : secret.encode with
  | none =>
    refine .inr ⟨not_signed_unencodable hk, .inr ⟨?_, _, verify_unencodable hs hne hk, fun _ _ => nofun⟩⟩
    exact fun h => nomatch h.1
  | some key =>
    cases ha : isAscii (strip signature) with
    | false =>
      refine .inr ⟨not_signed_nonAscii ha, .inr ⟨?_, _, verify_nonAscii hs hne hk ha, fun _ _ => nofun⟩⟩
      exact fun h => nomatch h.2
    | true =>
      have hv : v = _ := verify_ascii hs hne hk ha
      rw [signedBy_iff hk]
      by_cases hsame : strip signature = (env.hmacSha256 (String.ofList key) rawBody).text
      · rw [if_pos hsame] at hv
        exact .inl ⟨hsame, rfl, rfl, hv⟩
      · rw [if_neg hsame] at hv
        exact .inr ⟨hsame, .inl ⟨rfl, rfl, hv⟩⟩

/-- A check that returns was not needed, or has found the body signed. -/
theorem verify_ok_iff : verifyWebhookSignature env rawBody signatureHeader secret = .ok () ↔
    secret = [] ∨ SignedBy env rawBody signatureHeader secret := by
  by_cases hs : secret = []
  · subst hs
    exact iff_of_true verify_disabled (.inl rfl)
  by_cases hh : signatureHeader.getD "" = ""
  · refine iff_of_false ?_ (fun h => h.elim hs (fun h => h.present hh))
    rw [verify_missing hs hh]
    exact nofun
  cases signatureHeader with
  | none => exact absurd rfl hh
  | some signature =>
    obtain ⟨hsigned, -, -, hv⟩ | ⟨hunsigned, ⟨-, -, hv⟩ | ⟨-, exc, hv, -⟩⟩ :=
      verify_present env rawBody signature hs hh
    · exact iff_of_true hv (.inr hsigned)
    · exact iff_of_false (by rw [hv]; exact nofun) (fun h => h.elim hs hunsigned)
    · exact iff_of_false (by rw [hv]; exact nofun) (fun h => h.elim hs hunsigned)

/-- The check decides as it should unless the encoding or the comparison raises. -/
theorem signatureDecided_iff : SignatureDecided env rawBody signatureHeader secret ↔
    secret = [] ∨ signatureHeader.getD "" = "" ∨
      (secret.encode.isSome ∧ isAscii (strip (signatureHeader.getD "")) = true) := by
  by_cases hs : secret = []
  · exact iff_of_true ⟨verify_ok_iff, fun h => absurd (.inl hs) h⟩ (.inl hs)
  by_cases hh : signatureHeader.getD "" = ""
  · exact iff_of_true ⟨verify_ok_iff, fun _ => ⟨_, verify_missing hs hh⟩⟩ (.inr (.inl hh))
  cases signatureHeader with
  | none => exact absurd rfl hh
  | some signature =>
    obtain ⟨hsigned, hk, ha, -⟩ | ⟨hunsigned, ⟨hk, ha, hv⟩ | ⟨hbad, exc, hv, hexc⟩⟩ :=
      verify_present env rawBody signature hs hh
    · exact iff_of_true ⟨verify_ok_iff, fun h => absurd (.inr hsigned) h⟩ (.inr (.inr ⟨hk, ha⟩))
    · exact iff_of_true ⟨verify_ok_iff, fun _ => ⟨_, hv⟩⟩ (.inr (.inr ⟨hk, ha⟩))
    · refine iff_of_false (fun h => ?_) (fun h => h.elim hs (fun h => h.elim hh hbad))
      obtain ⟨detail, h401⟩ := h.2 (fun h => h.elim hs hunsigned)
      rw [hv] at h401
      exact hexc 401 detail (Except.error.inj h401)

end

/-! ## The admin token -/

/-- The header is the token. -/
def AdminBy (headerToken : Option String) (expectedToken : Str) : Prop :=
  ∃ token, headerToken = some token ∧ text token = expectedToken

/-- The check ends in a 403 exactly for an empty token, returns exactly for a
header equal to a token that is not empty, and otherwise ends in a 401. -/
def AdminDecided (headerToken : Option String) (expectedToken : Str) : Prop :=
  ((∃ detail, requireAdminToken headerToken expectedToken = .error (.httpException 403 detail)) ↔
      expectedToken = []) ∧
    (requireAdminToken headerToken expectedToken = .ok () ↔
      expectedToken ≠ [] ∧ AdminBy headerToken expectedToken) ∧
    (expectedToken ≠ [] ∧ ¬ AdminBy headerToken expectedToken →
      ∃ detail, requireAdminToken headerToken expectedToken = .error (.httpException 401 detail))

section

variable {headerToken : Option String} {token : String} {expectedToken : Str}

theorem admin_disabled : requireAdminToken headerToken [] =
    .error (.httpException 403 "Admin endpoint disabled") :=
  if_pos rfl

theorem admin_missing (he : expectedToken ≠ []) (hh : headerToken.getD "" = "") :
    requireAdminToken headerToken expectedToken =
      .error (.httpException 401 "Invalid admin token") := by
  unfold requireAdminToken
  rw [if_neg he]
  cases headerToken with
  | none => rfl
  | some token => exact if_pos hh

theorem admin_nonAscii (he : expectedToken ≠ []) (hne : token ≠ "")
    (ha : ¬ (isAscii token = true ∧ strAscii expectedToken = true)) :
    requireAdminToken (some token) expectedToken =
      .error (.typeError "comparing strings with non-ASCII characters is not supported") := by
  rw [← strAscii_text] at ha
  simp only [requireAdminToken, if_neg he, if_neg hne, compareDigest_nonAscii ha]
  rfl

theorem admin_ascii (he : expectedToken ≠ []) (hne : token ≠ "") (ht : isAscii token = true)
    (ha : strAscii expectedToken = true) :
    requireAdminToken (some token) expectedToken =
      if text token = expectedToken then .ok ()
      else .error (.httpException 401 "Invalid admin token") := by
  rw [← strAscii_text] at ht
  simp only [requireAdminToken, if_neg he, if_neg hne, compareDigest_ascii ht ha, bind, Except.bind,
    beq_iff_eq]

theorem adminBy_some : AdminBy (some token) expectedToken ↔ text token = expectedToken := by
  constructor
  · intro h'
    obtain ⟨token', h, hsame⟩ := h'
    cases h
    exact hsame
  · intro hsame
    exact ⟨token, rfl, hsame⟩

theorem not_adminBy_missing (he : expectedToken ≠ []) (hh : headerToken.getD "" = "") :
    ¬ AdminBy headerToken expectedToken := by
  intro h'
  obtain ⟨token, rfl, hsame⟩ := h'
  rw [show token = "" from hh] at hsame
  exact he hsame.symm

/-- How the check of a header that is present ends. -/
theorem admin_present (token : String) (he : expectedToken ≠ []) (hne : token ≠ "") :
    let v := requireAdminToken (some token) expectedToken
    (isAscii token = true ∧ strAscii expectedToken = true ∧
        v = if text token = expectedToken then .ok ()
          else .error (.httpException 401 "Invalid admin token")) ∨
      ¬ (isAscii token = true ∧ strAscii expectedToken = true) ∧
        ∃ exc, v = .error exc ∧ ∀ status detail, exc ≠ .httpException status detail := by
  intro v
  by_cases ha : isAscii token = true ∧ strAscii expectedToken = true
  · exact .inl ⟨ha.1, ha.2, admin_ascii he hne ha.1 ha.2⟩
  · exact .inr ⟨ha, _, admin_nonAscii he hne ha, fun _ _ => nofun⟩

/-- The check decides as it should unless the comparison raises. -/
theorem adminDecided_iff : AdminDecided headerToken expectedToken ↔
    expectedToken = [] ∨ headerToken.getD "" = "" ∨
      (isAscii (headerToken.getD "") = true ∧ strAscii expectedToken = true) := by
  by_cases he : expectedToken = []
  · subst he
    refine iff_of_true ⟨iff_of_true ⟨_, admin_disabled⟩ rfl, ?_, fun h => absurd rfl h.1⟩ (.inl rfl)
    exact iff_of_false (by rw [admin_disabled]; exact nofun) (fun h => h.1 rfl)
  by_cases hh : headerToken.getD "" = ""
  · have hmissing := admin_missing he hh
    refine iff_of_true ⟨iff_of_false ?_ he, iff_of_false ?_ ?_, fun _ => ⟨_, hmissing⟩⟩
      (.inr (.inl hh))
    · intro h'
      obtain ⟨detail, h⟩ := h'
      rw [hmissing] at h
      cases h
    · rw [hmissing]
      exact nofun
    · exact fun h => not_adminBy_missing he hh h.2
  cases headerToken with
  | none => exact absurd rfl hh
  | some token =>
    unfold AdminDecided
    rw [adminBy_some]
    obtain ⟨ht, ha, hv⟩ | ⟨hbad, exc, hv, hexc⟩ := admin_present token he hh
    · refine iff_of_true ?_ (.inr (.inr ⟨ht, ha⟩))
      rw [show requireAdminToken (some token) expectedToken = _ from hv]
      by_cases hsame : text token = expectedToken
      · rw [if_pos hsame]
        exact ⟨iff_of_false nofun he, iff_of_true rfl ⟨he, hsame⟩, fun h => absurd hsame h.2⟩
      · rw [if_neg hsame]
        exact ⟨iff_of_false nofun he, iff_of_false nofun (fun h => hsame h.2), fun _ => ⟨_, rfl⟩⟩
    · refine iff_of_false (fun h => ?_) (fun h => h.elim he (fun h => h.elim hh hbad))
      rw [show requireAdminToken (some token) expectedToken = _ from hv] at h
      -- an exception that is no HTTPException rules out a return as well as a 401
      by_cases hsame : text token = expectedToken
      · cases h.2.1.mpr ⟨he, hsame⟩
      · obtain ⟨detail, h401⟩ := h.2.2 ⟨he, hsame⟩
        exact hexc 401 detail (Except.error.inj h401)

/-- A check that returns has found the header equal to a token. -/
theorem adminBy_of_ok (h : requireAdminToken headerToken expectedToken = .ok ()) :
    expectedToken ≠ [] ∧ AdminBy headerToken expectedToken := by
  have he : expectedToken ≠ [] := by
    intro heq
    obtain rfl := heq
    rw [admin_disabled] at h
    cases h
  refine ⟨he, ?_⟩
  by_cases hh : headerToken.getD "" = ""
  · rw [admin_missing he hh] at h
    cases h
  cases headerToken with
  | none => exact absurd rfl hh
  | some token =>
    obtain ⟨-, -, hv⟩ | ⟨-, exc, hv, -⟩ := admin_present token he hh
    · rw [show requireAdminToken (some token) expectedToken = _ from hv] at h
      split at h
      · next hsame => exact adminBy_some.mpr hsame
      · cases h
    · rw [show requireAdminToken (some token) expectedToken = _ from hv] at h
      cases h

end

/-- **Authentication decides.** The two checks end as they should exactly when
no exception comes from encoding the secret or from comparing text outside
ASCII. -/
theorem authentication_decided (env : Env) (rawBody : List UInt8) (signatureHeader : Option String)
    (secret : Str) (headerToken : Option String) (expectedToken : Str) :
    (SignatureDecided env rawBody signatureHeader secret ↔
      secret = [] ∨ signatureHeader.getD "" = "" ∨
        (secret.encode.isSome ∧ isAscii (strip (signatureHeader.getD "")) = true)) ∧
    (AdminDecided headerToken expectedToken ↔
      expectedToken = [] ∨ headerToken.getD "" = "" ∨
        (isAscii (headerToken.getD "") = true ∧ strAscii expectedToken = true)) :=
  ⟨signatureDecided_iff, adminDecided_iff⟩

/-- A header with the character U+00E9 is decided by neither check. -/
theorem authentication_undecided :
    ¬ SignatureDecided sampleEnv [] (some "é") (text "s") ∧ ¬ AdminDecided (some "é") (text "t") := by
  rw [signatureDecided_iff, adminDecided_iff]
  exact ⟨by decide, by decide⟩

end WebhookRelay
