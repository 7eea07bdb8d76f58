import NestPlayground.L3Services.HmacEncryption

/-!
# Round trip and authenticity of HMAC codes

The decoder cuts a code at every separator, and the HMAC covers message and
nonce without a mark between them. So a message that contains the separator
does not come back, and a code whose cut between message and nonce was moved is
accepted with another message.
-/
namespace NestPlayground.L5.HmacCodes
open L3.HmacEncryption

/-! ## Round trip -/

/-- `decrypt` returns what was encrypted for the messages without a separator. -/
theorem decrypt_encrypt_iff (hmac : String → String → List UInt8) (secret : String) (bytes : Vector UInt8 8)
    (message : String) :
    decrypt (hexDigest hmac secret) (encrypt (hexDigest hmac secret) bytes message) = .ok message ↔
      SEPARATOR ∉ message.toList := by
  constructor
  · exact separator_not_mem_of_decrypt
  · intro hm
    have hn := separator_not_mem_createNonce bytes
    have hdecode := decode_encode hm hn (createHmac (hexDigest hmac secret) message (createNonce bytes))
    have hmac' : decode (createHmac (hexDigest hmac secret) message (createNonce bytes)) =
        [createHmac (hexDigest hmac secret) message (createNonce bytes)] :=
      Core.split_of_not_mem (Core.dot_not_mem_toHex _)
    rw [hmac'] at hdecode
    unfold encrypt
    rw [decrypt_eq_ok_iff, hdecode]
    exact ⟨rfl, rfl⟩

/-- The code of `a.b` is not accepted as a code of `a.b`. -/
theorem decrypt_encrypt_dotted :
    ¬ ∀ (hmac : String → String → List UInt8) (secret : String) (bytes : Vector UInt8 8) (message : String),
      decrypt (hexDigest hmac secret) (encrypt (hexDigest hmac secret) bytes message) = .ok message := by
  intro h
  have hok := h (fun _ data => data.toUTF8.data.toList) "test-secret" (.replicate 8 0) "a.b"
  exact separator_not_mem_of_decrypt hok (by decide)

/-! ## Authenticity -/

/-- The first two segments are the authenticated text, cut at another place than after the message. -/
def Recut (message nonce code : String) : Prop :=
  ∃ a b, (decode code)[0]? = some a ∧ (decode code)[1]? = some b ∧ a ++ b = message ++ nonce ∧
    a.length ≠ message.length

theorem eq_of_append_eq {a b m n : String} (h : a ++ b = m ++ n) (hlen : a.length = m.length) : a = m := by
  have hlist := congrArg String.toList h
  rw [String.toList_append, String.toList_append] at hlist
  apply String.toList_inj.mp
  exact (List.append_inj hlist (by rwa [String.length_toList, String.length_toList])).1

section
variable {digest : String → String} {code x a b : String}

/-- An accepted code has two segments before its HMAC. -/
theorem segments_of_decrypt (h : decrypt digest code = .ok x) :
    ∃ b, (decode code)[0]? = some x ∧ (decode code)[1]? = some b ∧ (decode code)[2]? = some (digest (x ++ b)) := by
  obtain ⟨hmac, hx⟩ := decrypt_eq_ok_iff.mp h
  have hlen : 1 < (decode code).length := by
    have := (List.getElem?_eq_some_iff.mp hmac).1
    omega
  have hb := List.getElem?_eq_getElem hlen
  rw [hb] at hmac
  exact ⟨_, hx, hb, hmac⟩

theorem decrypt_of_segments (ha : (decode code)[0]? = some a) (hb : (decode code)[1]? = some b)
    (hmac : (decode code)[2]? = some (digest (a ++ b))) : decrypt digest code = .ok a := by
  rw [decrypt_eq_ok_iff, hb]
  exact ⟨hmac, ha⟩

end

/-- A code with the HMAC of `message` and `nonce` yields no other message unless the cut was moved. -/
theorem accepted_iff_not_recut (digest : String → String) (hinj : Function.Injective digest)
    (message nonce code : String) (hmac : (decode code)[2]? = some (createHmac digest message (some nonce))) :
    (∀ x, decrypt digest code = .ok x → x = message) ↔ ¬ Recut message nonce code := by
  constructor
  · rintro h ⟨a, b, ha, hb, happend, hlen⟩
    have hok : decrypt digest code = .ok a := by
      apply decrypt_of_segments ha hb
      rw [hmac, happend]
      rfl
    exact hlen (congrArg String.length (h a hok))
  · intro hcut x hok
    obtain ⟨b, hx, hb, hmac'⟩ := segments_of_decrypt hok
    have happend : x ++ b = message ++ nonce := hinj (Option.some.inj (hmac'.symm.trans hmac))
    apply eq_of_append_eq happend
    by_contra hlen
    exact hcut ⟨x, b, hx, hb, happend, hlen⟩

/-- A digest that keeps everything, written in hex. -/
def plainDigest : String → String := hexDigest (fun _ data => data.toUTF8.data.toList) ""

theorem plainDigest_injective : Function.Injective plainDigest := by
  intro s t h
  have hbytes := Core.toHex_injective h
  apply String.toByteArray_inj.mp
  exact ByteArray.ext (Array.toList_inj.mp hbytes)

/-- The segments of a code whose parts contain no separator. -/
theorem decode_plain {message nonce : String} (hm : SEPARATOR ∉ message.toList) (hn : SEPARATOR ∉ nonce.toList)
    (data : String) : decode (encode message nonce (plainDigest data)) = [message, nonce, plainDigest data] := by
  rw [decode_encode hm hn]
  congr 2
  exact Core.split_of_not_mem (Core.dot_not_mem_toHex _)

/-- The code as `encrypt` wrote it is accepted for its message, and its cut is where it was. -/
theorem accepted_iff_not_recut_own :
    decrypt plainDigest (encode "ab" "0123456789abcdef" (plainDigest "ab0123456789abcdef")) = .ok "ab" ∧
      ¬ Recut "ab" "0123456789abcdef" (encode "ab" "0123456789abcdef" (plainDigest "ab0123456789abcdef")) := by
  have hdecode := @decode_plain "ab" "0123456789abcdef" (by decide) (by decide) "ab0123456789abcdef"
  have hok : decrypt plainDigest (encode "ab" "0123456789abcdef" (plainDigest "ab0123456789abcdef")) = .ok "ab" := by
    rw [decrypt_eq_ok_iff, hdecode]
    exact ⟨rfl, rfl⟩
  refine ⟨hok, (accepted_iff_not_recut plainDigest plainDigest_injective "ab" "0123456789abcdef" _ ?_).mp fun x hx => ?_⟩
  · rw [hdecode]
    rfl
  · rw [hok] at hx
    cases hx
    rfl

/-- With the separator moved by one character the code of `ab` yields `a`. -/
theorem accepted_other_message :
    ¬ ∀ digest : String → String, Function.Injective digest → (∀ data, SEPARATOR ∉ (digest data).toList) →
      ∀ message nonce code : String, (decode code)[2]? = some (createHmac digest message (some nonce)) →
        ∀ x, decrypt digest code = .ok x → x = message := by
  intro h
  have hdecode := @decode_plain "a" "b0123456789abcdef" (by decide) (by decide) "ab0123456789abcdef"
  have hok : decrypt plainDigest (encode "a" "b0123456789abcdef" (plainDigest "ab0123456789abcdef")) = .ok "a" := by
    rw [decrypt_eq_ok_iff, hdecode]
    exact ⟨rfl, rfl⟩
  have heq := h plainDigest plainDigest_injective (fun _ => Core.dot_not_mem_toHex _) "ab" "0123456789abcdef"
    (encode "a" "b0123456789abcdef" (plainDigest "ab0123456789abcdef")) (by rw [hdecode]; rfl) "a" hok
  exact absurd heq (by decide)

end NestPlayground.L5.HmacCodes
