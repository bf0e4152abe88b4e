/-
  `userDB` of `manager/admin.go` and `sessionDB.User` of `manager/session.go` as programs: what the
  requests of the manager do at the same time with the four caches, the one lock over them, the
  cache of the sessions, and the `userinfo` that all requests of a session share.

  The four loads are one: look under the read lock, and if there is nothing, look again under the
  write lock, fetch and add (`load`). `Cache.Get` takes the lock of the cache twice, to evict and to
  look up. A `userinfo` is written field by field, without a lock. The rbac server, the table of
  admins and the single sign-on answer what they like, also for one user at two moments.

  `World.fetched` (what was answered), `World.pending` (fetched and not yet added), `World.expired`
  (entries that were evicted) and `World.verified` (whom the sign-on gave for a ticket) are there
  for the theorems only.

  What holds in every run is in `Users.lean`.
-/
import Doodle.Crab.Cache
import Doodle.Lib.Threads
import Doodle.Manager.Session

namespace Doodle.Manager.Users

open Doodle.Crab Doodle.Lib Doodle.Manager.Session

/-! ## Calls -/

/-- The four caches of `userDB`. -/
inductive Kind where
  | admins | res | uid | roles
  deriving DecidableEq, Repr

/-- What they hold for an email. -/
abbrev Kind.T : Kind → Type
  | .admins => Bool
  | .res => List Int
  | .uid => Int
  | .roles => List Int

/-- `userinfo`, the fields that `User` reads or writes. -/
structure Account extends UserInfo where
  userID : Int

/-- An answer of the rbac server, or of the table of admins. -/
abbrev Fetched := (k : Kind) × String × k.T

inductive Call (ι : Type) where
  | rlock (i : ι)
  | runlock (i : ι)
  | lock (i : ι)
  | unlock (i : ι)
  | evict (k : Kind)
  | lookup (k : Kind) (email : String)
  | fetch (k : Kind) (email : String)
  | add (k : Kind) (email : String) (v : k.T)
  | sessionEvict
  | sessionLookup (ticket : String)
  | sessionAdd (ticket : String) (p : Nat)
  | verifyTicket (ticket : String)
  | new (u : Account)
  | email (p : Nat)
  | setRes (p : Nat) (ids : List Int)
  | setResKey (p : Nat) (key : String)
  | setRoles (p : Nat) (ids : List Int)
  | setRolesKey (p : Nat) (key : String)
  | setIsAdmin (p : Nat) (b : Bool)
  | setUserID (p : Nat) (id : Int)

variable {ι : Type}

/-- What a call returns; `none` is an error, but for a lookup, where it is a miss. -/
abbrev Ans : Call ι → Type
  | .lookup k _ => Option k.T
  | .fetch k _ => Option k.T
  | .sessionLookup _ => Option Nat
  | .verifyTicket _ => Option (Bool × Account)
  | .new _ => Nat
  | .email _ => String
  | _ => Unit

/-- What the requests share. A `userinfo` is known by its place in `heap`. -/
structure World (ι : Type) where
  readers : List ι
  writer : Option ι
  cache : (k : Kind) → Cache k.T
  sessions : Cache Nat
  heap : List Account
  fetched : List Fetched
  pending : Option (Kind × String)
  expired : List (Kind × String)
  verified : List (String × Account)

/-- The `userinfo` at `p` changes. -/
def World.modify (w : World ι) (p : Nat) (f : Account → Account) : World ι :=
  { w with heap := w.heap.modify p f }

/-- How a call may come out. A lock is only given when it is free. -/
def serve [DecidableEq ι] : (c : Call ι) → World ι → Ans c → World ι → Prop
  | .rlock i, w, _, w' => w.writer = none ∧ w' = { w with readers := i :: w.readers }
  | .runlock i, w, _, w' => w' = { w with readers := w.readers.erase i }
  | .lock i, w, _, w' => w.writer = none ∧ w.readers = [] ∧ w' = { w with writer := some i }
  | .unlock _, w, _, w' => w' = { w with writer := none }
  | .evict k, w, _, w' => ∃ t old, (w.cache k).ll = ((w.cache k).evict t).ll ++ old ∧
      w' = { w with
        cache := Function.update w.cache k ((w.cache k).evict t)
        expired := old.map (fun e => (k, e.key)) ++ w.expired }
  | .lookup k email, w, a, w' => a = (w.cache k).lookup email ∧ w' = w
  | .fetch k email, w, a, w' => w' = match a with
      | none => w
      | some v => { w with fetched := ⟨k, email, v⟩ :: w.fetched, pending := some (k, email) }
  | .add k email v, w, _, w' => ∃ t, w' = { w with
      cache := Function.update w.cache k ((w.cache k).add t email v), pending := none }
  | .sessionEvict, w, _, w' => ∃ t, w' = { w with sessions := w.sessions.evict t }
  | .sessionLookup ticket, w, a, w' => a = w.sessions.lookup ticket ∧ w' = w
  | .sessionAdd ticket p, w, _, w' => ∃ t, w' = { w with sessions := w.sessions.add t ticket p }
  | .verifyTicket ticket, w, a, w' => w' = match a with
      | some (true, u) => { w with verified := (ticket, u) :: w.verified }
      | _ => w
  | .new u, w, a, w' => a = w.heap.length ∧ w' = { w with heap := w.heap ++ [u] }
  | .email p, w, a, w' => (∃ u, w.heap[p]? = some u ∧ a = u.email) ∧ w' = w
  | .setRes p ids, w, _, w' => w' = w.modify p fun u => { u with res := ids }
  | .setResKey p key, w, _, w' => w' = w.modify p fun u => { u with resKey := key }
  | .setRoles p ids, w, _, w' => w' = w.modify p fun u => { u with roles := ids }
  | .setRolesKey p key, w, _, w' => w' = w.modify p fun u => { u with rolesKey := key }
  | .setIsAdmin p b, w, _, w' => w' = w.modify p fun u => { u with isAdmin := b }
  | .setUserID p id, w, _, w' => w' = w.modify p fun u => { u with userID := id }

/-- Nothing happens but for the requests. -/
def rules [DecidableEq ι] : Rules (Ans (ι := ι)) (World ι) := ⟨serve, fun _ _ => False⟩

/-- `newUserDB` and `newSessionDB`. -/
def start (timeout : Int) : World ι :=
  ⟨[], none, fun _ => newCache timeout, newCache 1800, [], [], none, [], []⟩

/-! ## The programs -/

abbrev P (ι α : Type) := Prog (Ans (ι := ι)) α

/-- `loadResource`, `loadUserID`, `loadRoles`, and `isAdmin` up to what it makes of an error. -/
def load (i : ι) (k : Kind) (email : String) : P ι (Option k.T) :=
  .ask (.rlock i) fun _ => .ask (.evict k) fun _ => .ask (.lookup k email) fun v => match v with
    | some v => .ask (.runlock i) fun _ => .done (some v)
    | none => .ask (.runlock i) fun _ => .ask (.lock i) fun _ => .ask (.evict k) fun _ =>
      .ask (.lookup k email) fun v => match v with
        | some v => .ask (.unlock i) fun _ => .done (some v)
        | none => .ask (.fetch k email) fun r => match r with
          | none => .ask (.unlock i) fun _ => .done none
          | some v => .ask (.add k email v) fun _ => .ask (.unlock i) fun _ => .done (some v)

/-- A user without a row in the table is no admin, and so is one who could not be looked up. -/
def isAdmin (i : ι) (email : String) : P ι Bool :=
  load i .admins email >>= fun r => .done (r.getD false)

/-- `if err != nil { return err }` -/
def andThen {α β : Type} (p : P ι (Option α)) (f : α → P ι (Option β)) : P ι (Option β) :=
  p >>= fun r => match r with
    | some a => f a
    | none => .done none

def setResource (p : Nat) (res : List Int) : P ι (Option Unit) :=
  .ask (.setRes p res) fun _ =>
    if res.length = 0 then .done (some ())
    else .ask (.setResKey p (idsKey res)) fun _ => .done (some ())

def setRoles (p : Nat) (roles : List Int) : P ι (Option Unit) :=
  .ask (.setRoles p roles) fun _ =>
    if roles.length = 0 then .done (some ())
    else .ask (.setRolesKey p (idsKey roles)) fun _ => .done (some ())

def loadInfo (i : ι) (p : Nat) : P ι (Option Unit) :=
  .ask (.email p) fun email => andThen (load i .res email) fun res =>
    andThen (setResource p res) fun _ =>
      .ask (.email p) fun email => andThen (load i .roles email) fun roles =>
        andThen (setRoles p roles) fun _ =>
          .ask (.email p) fun email => isAdmin i email >>= fun b =>
            .ask (.setIsAdmin p b) fun _ => .done (some ())

/-- `User`, for the ticket in the cookie; without one there is an error. -/
def user (i : ι) (ticket : Option String) : P ι (Option Nat) :=
  match ticket with
  | none => .done none
  | some ticket =>
    .ask .sessionEvict fun _ => .ask (.sessionLookup ticket) fun val => match val with
      | some p => andThen (loadInfo i p) fun _ => .done (some p)
      | none => .ask (.verifyTicket ticket) fun resp => match resp with
        | none => .done none
        | some (false, _) => .done none
        | some (true, data) => .ask (.new data) fun p => andThen (loadInfo i p) fun _ =>
          .ask (.email p) fun email => andThen (load i .uid email) fun id =>
            .ask (.setUserID p id) fun _ => .ask (.sessionAdd ticket p) fun _ => .done (some p)

end Doodle.Manager.Users
