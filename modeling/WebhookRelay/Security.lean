import WebhookRelay.Models

/-
  core/security.py: the body size limit, the webhook signature and the admin
  token. Each check returns normally or raises, as in the source; the
  comparison refuses text outside ASCII with TypeError, as `compare_digest`
  does for two strings.
-/
namespace WebhookRelay

open Py

def isAscii (s : String) : Bool := s.toList.all (fun c => c.toNat < 0x80)

/-- `str.isascii`. -/
def strAscii (s : Str) : Bool := s.all (fun u => u.val < 0x80)

/-- `hmac.compare_digest` on two strings. -/
def compareDigest (a b : Str) : Except PyExc Bool :=
  if strAscii a && strAscii b then .ok (a == b)
  else .error (.typeError "comparing strings with non-ASCII characters is not supported")

def enforceBodySizeLimit (rawBody : List UInt8) (maxBodyBytes : Int) : Except PyExc Unit :=
  if maxBodyBytes < rawBody.length then .error (.httpException 413 "Request body too large")
  else .ok ()

def verifyWebhookSignature (env : Env) (rawBody : List UInt8) (signatureHeader : Option String)
    (secret : Str) : Except PyExc Unit :=
  if secret = [] then .ok ()
  else
    match signatureHeader with
    | none => .error (.httpException 401 "Missing webhook signature")
    | some signature =>
      if signature = "" then .error (.httpException 401 "Missing webhook signature")
      else
        match secret.encode with
        -- a secret from the environment may hold escaped bytes, which do not encode
        | none => .error .unicodeEncodeError
        | some key => do
          let expected := (env.hmacSha256 (String.ofList key) rawBody).text
          let same ← compareDigest (text expected) (text (strip signature))
          if same then .ok () else .error (.httpException 401 "Invalid webhook signature")

def requireAdminToken (headerToken : Option String) (expectedToken : Str) : Except PyExc Unit :=
  if expectedToken = [] then .error (.httpException 403 "Admin endpoint disabled")
  else
    match headerToken with
    | none => .error (.httpException 401 "Invalid admin token")
    | some token =>
      if token = "" then .error (.httpException 401 "Invalid admin token")
      else do
        let same ← compareDigest (text token) expectedToken
        if same then .ok () else .error (.httpException 401 "Invalid admin token")

end WebhookRelay
