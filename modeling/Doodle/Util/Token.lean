/-
  Tokens: an id as a varint, encrypted with `AesKey`. The gateway (`getApp`) and the rbac server
  (`parseToken`) read them alike.
-/
import Doodle.Util.Aes

namespace Doodle.Util

open Doodle.Go

/-- The id a token decrypts to. -/
def tokenID (C : Crypto) (token : String) : Option Int :=
  match aesDecrypt C token aesKey with
  | .ok buf => if (varint buf).2 < 1 then none else some (varint buf).1
  | _ => none

/-- The token of a byte string. -/
def tokenOf (C : Crypto) (buf : List UInt8) : String :=
  match aesEncrypt C buf aesKey with
  | .ok s => s
  | _ => ""

theorem aesDecrypt_tokenOf (C : Crypto) (buf : List UInt8) :
    aesDecrypt C (tokenOf C buf) aesKey = .ok buf := by
  have hkey : newCipher aesKey = .ok () := by decide
  rw [tokenOf, aesEncrypt_eq C buf aesKey hkey]
  exact aesDecrypt_of_encrypted C hkey (C.decode_encode _)

theorem tokenID_tokenOf (C : Crypto) (buf : List UInt8) {id : Int} (hid : (varint buf).1 = id)
    (hn : ¬ (varint buf).2 < 1) : tokenID C (tokenOf C buf) = some id := by
  simp only [tokenID, aesDecrypt_tokenOf, if_neg hn, hid]

end Doodle.Util
