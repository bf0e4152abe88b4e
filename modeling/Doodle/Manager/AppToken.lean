/-
  The token of an application: `app` POST of `manager/app.go` and `AppAdd` of `rbac/app.go` make it
  of the id of the new row, `parseToken` of `rbac/init.go` and `getApp` of `repeater/cache.go` read
  the id back.

  Both issuers write the id as a varint into a buffer of eight bytes and encrypt the buffer. Eight
  bytes hold fifty-six bits, and the doubled id of a `bigint` column has up to sixty-four.

  * `roundTrips_iff`: an id comes back from its token exactly when it is below `2 ^ 55`. For the
    others there is no token, `PutVarint` panics.
-/
import Doodle.Rbac.Server
import Doodle.Repeater.Permission
import Doodle.Util.Varint

namespace Doodle.Manager

open Doodle.Go Doodle.Util Doodle.Repeater

/-- From the id on, in `app` POST and in `AppAdd`. -/
def issueToken (C : Crypto) (id : Int) : Res String String := do
  let buf ← putVarint (List.replicate 8 0) id
  aesEncrypt C buf aesKey

/-- `AppAdd`, with what `add` and `updateAppToken` return. -/
def appAdd (C : Crypto) (added : Except String Int)
    (updateAppToken : Int → String → Option String) : Res String (Int × String) :=
  match added with
  | .error e => .err e
  | .ok id => do
    let token ← issueToken C id
    match updateAppToken id token with
    | some e => .err e
    | none => pure (id, token)

/-- An id that `LastInsertId` returns for a column `bigint unsigned AUTO_INCREMENT`. -/
structure RowID where
  val : Int
  pos : 0 < val
  lt : val < 2 ^ 63

/-- A token is issued for the id, by both components, and both readers have the id from it. -/
def RoundTrips (C : Crypto) (id : RowID) : Prop :=
  ∃ token, issueToken C id.val = .ok token ∧
    appAdd C (.ok id.val) (fun _ _ => none) = .ok (id.val, token) ∧
    (∃ buf n, aesDecrypt C token aesKey = .ok buf ∧ varint buf = (id.val, n) ∧ 1 ≤ n) ∧
    Rbac.parseToken C token = .ok id.val ∧
    ∀ srv tb tg ta dc, Repeater.getApp C srv tb tg ta dc token =
      getApplication srv tb tg ta dc id.val token

theorem issueToken_of_lt (C : Crypto) {id : RowID} (h : id.val < 2 ^ 55) :
    ∃ token buf n, issueToken C id.val = .ok token ∧ aesDecrypt C token aesKey = .ok buf ∧
      varint buf = (id.val, n) ∧ 1 ≤ n := by
  have hpos := id.pos
  have hlt := id.lt
  have hkey : newCipher aesKey = .ok () := newCipher_of_length (Or.inl (by decide))
  obtain ⟨buf, n, hput, hread, hn⟩ := varint_putVarint (List.replicate 8 0) (by decide)
    (by decide) (by omega) hlt (by rw [List.length_replicate]; omega)
  refine ⟨_, buf, n, ?_, aesDecrypt_of_encrypted C hkey (C.decode_encode _), hread, hn⟩
  rw [issueToken, hput, Res.ok_bind, aesEncrypt_eq C buf aesKey hkey]

theorem issueToken_of_le (C : Crypto) {id : RowID} (h : 2 ^ 55 ≤ id.val) :
    issueToken C id.val = .panic "index out of range" := by
  have hlt := id.lt
  have hfull : 128 ^ (List.replicate 8 (0 : UInt8)).length ≤ 2 * id.val := by
    rw [List.length_replicate]
    omega
  rw [issueToken, putVarint_of_le (by omega) hlt hfull, Res.panic_bind]

theorem roundTrips_iff (C : Crypto) (id : RowID) : RoundTrips C id ↔ id.val < 2 ^ 55 := by
  constructor
  · rintro ⟨token, hissue, -⟩
    by_contra hle
    rw [issueToken_of_le C (by omega)] at hissue
    cases hissue
  · intro h
    obtain ⟨token, buf, n, hissue, hdecrypt, hread, hn⟩ := issueToken_of_lt C h
    have hid : tokenID C token = some id.val := by
      simp only [tokenID, hdecrypt, hread]
      rw [if_neg (by omega)]
    refine ⟨token, hissue, ?_, ⟨buf, n, hdecrypt, hread, hn⟩,
      (Rbac.parseToken_ok_iff C token id.val).mpr hid,
      fun srv tb tg ta dc => getApp_of_tokenID C srv tb tg ta dc token id.val hid⟩
    simp only [appAdd, hissue, Res.ok_bind, Res.pure_eq]

/-- The smallest id that takes nine bytes. -/
def nineBytes : RowID := ⟨36028797018963968, by decide, by decide⟩

theorem no_token_for_nineBytes : ¬ ∃ C : Crypto, RoundTrips C nineBytes := by
  rintro ⟨C, token, hissue, -⟩
  rw [issueToken_of_le C (by decide)] at hissue
  cases hissue

end Doodle.Manager
