import NestPlayground.Core.Pieces

/-!
# HMAC codes

`HmacEncryptionService`: a code is `message.nonce.hmac`. The HMAC under the
secret is a parameter, `digest`, a function of the authenticated text.
-/
namespace NestPlayground.L3.HmacEncryption

/-- What the thrown exception reports; `none` is `undefined`. -/
structure HmacParameter where
  message : String
  nonce : Option String
  hmac : Option String
  deriving DecidableEq, Repr

/-- mirrors libs/web-common/src/res/exception/DomainException.ts:9-19 -/
structure DomainException where
  statusCode : Nat
  message : String
  parameter : HmacParameter
  deriving DecidableEq, Repr

/-- mirrors libs/web-common/src/res/exception/DomainException.ts:37-39 -/
def DomainException.BusinessError (message : String) (parameter : HmacParameter) : DomainException :=
  { statusCode := 500, message, parameter }

/-- mirrors libs/crypto/src/hmac-encryption/HmacEncryptionService.ts:10 -/
def SEPARATOR : Char := '.'

/-- `bytes` is what `crypto.randomBytes(8)` returns.
mirrors libs/crypto/src/hmac-encryption/HmacEncryptionService.ts:30-32 -/
def createNonce (bytes : Vector UInt8 8) : String := Core.toHex bytes.toList

/-- mirrors libs/crypto/src/hmac-encryption/HmacEncryptionService.ts:41-43 -/
def encode (message nonce hmac : String) : String :=
  message ++ String.singleton SEPARATOR ++ nonce ++ String.singleton SEPARATOR ++ hmac

/-- mirrors libs/crypto/src/hmac-encryption/HmacEncryptionService.ts:45-47 -/
def decode (data : String) : List String := Core.split SEPARATOR data

theorem decode_ne_nil (data : String) : decode data ≠ [] := Core.split_ne_nil SEPARATOR data

section
variable (digest : String → String)

/-- A missing nonce is added as the word that JavaScript writes for it.
mirrors libs/crypto/src/hmac-encryption/HmacEncryptionService.ts:34-39 -/
def createHmac (message : String) (nonce : Option String) : String := digest (message ++ nonce.getD "undefined")

/-- mirrors libs/crypto/src/hmac-encryption/HmacEncryptionService.ts:49-58 -/
def validateHmac (message : String) (nonce hmac : Option String) : Except DomainException Unit :=
  let expectedHmac := createHmac digest message nonce
  if hmac ≠ some expectedHmac then
    throw (.BusinessError "Invalid HMAC." { message, nonce, hmac })
  else pure ()

/-- mirrors libs/crypto/src/hmac-encryption/HmacEncryptionService.ts:16-21 -/
def encrypt (bytes : Vector UInt8 8) (message : String) : String :=
  let nonce := createNonce bytes
  let hmac := createHmac digest message (some nonce)
  encode message nonce hmac

/-- mirrors libs/crypto/src/hmac-encryption/HmacEncryptionService.ts:23-28 -/
def decrypt (code : String) : Except DomainException String := do
  let message := (decode code).head (decode_ne_nil code)
  let nonce := (decode code)[1]?
  let hmac := (decode code)[2]?
  validateHmac digest message nonce hmac
  return message

end

/-- The digest in hex of an HMAC that gives bytes. -/
def hexDigest (hmac : String → String → List UInt8) (secret data : String) : String := Core.toHex (hmac secret data)

/-! ## What a code says -/

theorem separator_not_mem_createNonce (bytes : Vector UInt8 8) : SEPARATOR ∉ (createNonce bytes).toList :=
  Core.dot_not_mem_toHex bytes.toList

theorem decode_encode {message nonce : String} (hm : SEPARATOR ∉ message.toList) (hn : SEPARATOR ∉ nonce.toList)
    (hmac : String) : decode (encode message nonce hmac) = message :: nonce :: decode hmac := by
  unfold decode encode
  rw [String.append_assoc, String.append_assoc, String.append_assoc, Core.split_append hm, Core.split_append hn]

section
variable {digest : String → String} {code x : String}

theorem validateHmac_eq (message : String) (nonce hmac : Option String) :
    validateHmac digest message nonce hmac =
      if hmac = some (createHmac digest message nonce) then .ok ()
      else .error { statusCode := 500, message := "Invalid HMAC.", parameter := ⟨message, nonce, hmac⟩ } := by
  unfold validateHmac
  exact ite_not ..

/-- A code is accepted for the HMAC of its first two segments, and its first is returned. -/
theorem decrypt_eq_ok_iff : decrypt digest code = .ok x ↔
    (decode code)[2]? = some (createHmac digest x (decode code)[1]?) ∧ (decode code)[0]? = some x := by
  have hne := decode_ne_nil code
  rw [← List.head?_eq_getElem?, List.head?_eq_some_head hne, Option.some.injEq]
  by_cases hmac : (decode code)[2]? = some (createHmac digest ((decode code).head hne) (decode code)[1]?)
  · have hreturn : decrypt digest code = .ok ((decode code).head hne) := by
      simp only [decrypt, validateHmac_eq, if_pos hmac]
      rfl
    rw [hreturn, Except.ok.injEq]
    constructor
    · rintro rfl
      exact ⟨hmac, rfl⟩
    · exact And.right
  · have hthrow : decrypt digest code =
        .error { statusCode := 500, message := "Invalid HMAC.",
                 parameter := ⟨(decode code).head hne, (decode code)[1]?, (decode code)[2]?⟩ } := by
      simp only [decrypt, validateHmac_eq, if_neg hmac]
      rfl
    rw [hthrow]
    constructor
    · intro h
      cases h
    · rintro ⟨hmac', rfl⟩
      exact absurd hmac' hmac

/-- What is returned never contains the separator. -/
theorem separator_not_mem_of_decrypt (h : decrypt digest code = .ok x) : SEPARATOR ∉ x.toList := by
  obtain ⟨-, hx⟩ := decrypt_eq_ok_iff.mp h
  exact Core.not_mem_of_mem_split (List.mem_of_getElem? hx)

end
end NestPlayground.L3.HmacEncryption
