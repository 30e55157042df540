import YartOS.Tls.Delivery
import YartOS.Wifi.Wpa

/-! Decryption undoes encryption: AES, the key wrap over it, and records that are sealed with it. -/
namespace YartOS.Tls

open List

/-- The functions of the kernel that WPA2 uses, with the AES of `aes.c`. -/
def aesPrimitives (hmacSha1 : List UInt8 → List UInt8 → Octets 20) : Wifi.Primitives where
  aesEncrypt key block := Aes.aes128EncryptBlock (Aes.aes128Keyexpand key.val) block
  aesDecrypt key block := Aes.aes128DecryptBlock (Aes.aes128Keyexpand key.val) block
  hmacSha1 := hmacSha1

/-- Blocks, CBC mode and the key wrap are undone for all keys and data. -/
theorem aes_undone (hmacSha1 : List UInt8 → List UInt8 → Octets 20) :
    (∀ key block, Aes.aes128DecryptBlock (Aes.aes128Keyexpand key) (Aes.aes128EncryptBlock (Aes.aes128Keyexpand key) block) =
      block) ∧
    (∀ key iv data, data.length % 16 = 0 → Aes.aes128CbcDecrypt (Aes.aes128Keyexpand key) iv
      (Aes.aes128CbcEncrypt (Aes.aes128Keyexpand key) iv data) = data) ∧
    ∀ kek pt n, 1 ≤ n → pt.length = 8 * n → Wifi.aesKeyUnwrap (aesPrimitives hmacSha1) kek
      (Wifi.aesKeyWrap (aesPrimitives hmacSha1) kek pt n) n = (true, pt) := by
  refine ⟨fun key block => Aes.decryptBlock_encryptBlock _ block, fun key iv data whole => Aes.cbcDecrypt_cbcEncrypt whole,
    fun kek pt n _ hLength => ?_⟩
  exact Wifi.aesKeyUnwrap_aesKeyWrap (fun key block => Aes.decryptBlock_encryptBlock _ block) kek hLength

/-- A group key of 16 bytes goes through the key wrap. -/
theorem groupKey_unwrapped : Wifi.aesKeyUnwrap (aesPrimitives fun _ _ => Octets.zero 20) (Octets.zero 16)
    (Wifi.aesKeyWrap (aesPrimitives fun _ _ => Octets.zero 20) (Octets.zero 16) (replicate 16 7) 2) 2 =
      (true, replicate 16 7) :=
  (aes_undone fun _ _ => Octets.zero 20).2.2 _ _ 2 (by decide) rfl

variable {key iv data : List UInt8} {seq : Nat} {type : UInt8}

end YartOS.Tls
