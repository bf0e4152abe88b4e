/-
  Permissions and tokens through the gateway's cache.

  `validateRelation` caches a permission under `"\x03%d%d"`, the two ids run together, and
  `getApplication` caches an application under its id, without the token it was asked with. So
  a lookup answers from an earlier call that only shares its key.

  `relation_right_iff` and `token_right_iff`: for a fixed table, the calls of a list are answered
  as the table says, in every history that makes them, exactly when no earlier granted call
  shares its key with a later call the table does not grant. What the table says of a token is
  what its collation makes of it. Each is followed by a table and two calls on which the gateway
  answers wrong.
-/
import Doodle.Repeater.Lookup
import Doodle.Util.Token

namespace Doodle.Repeater

open Doodle.Go Doodle.Crab Doodle.Lib Doodle.Util

/-! ## Permissions -/

/-- The relation table holds a row of exactly this application and this interface. -/
def Related (tb : Tables) (p : Int × Int) : Prop :=
  ∃ r ∈ tb.relation, r.applicationID = p.1 ∧ r.interfaceID = p.2

instance (tb : Tables) (p : Int × Int) : Decidable (Related tb p) :=
  inferInstanceAs (Decidable (∃ r ∈ tb.relation, r.applicationID = p.1 ∧ r.interfaceID = p.2))

theorem head?_selRelation (tb : Tables) (p : Int × Int) :
    (selRelation tb p.1 p.2).head?.isSome ↔ Related tb p := by
  simp [selRelation, Related, List.head?_filter]

/-- `validateRelation` as a cached lookup: any cached value passes. -/
def relationLookup (srv : Server) (hs : srv.Reliable) (tb : Tables) :
    Lookup (Int × Int) (Int × Int) Unit where
  parse := some
  key p := relationKey p.1 p.2
  cast _ := some ()
  miss p dc := onRow (fun id => ((), Val.relation id))
    (queryDB srv dc (dc.stmt .selRelation) (selRelation tb p.1 p.2))
  found p := (selRelation tb p.1 p.2).head?.map fun id => ((), Val.relation id)
  miss_live p dc h := ⟨_, _, by rw [queryDB_live srv hs dc h, onRow_orErr]⟩
  cast_found _ _ _ _ := rfl

/-- One call of `validateRelation` in a history. -/
def relationCall (srv : Server) (tb : Tables) (tg ta : Int) (dc : DbCache) (p : Int × Int) :
    Res Err Unit × DbCache :=
  validateRelation srv tb tg ta dc p.1 p.2

theorem relationCall_serves (srv : Server) (hs : srv.Reliable) (tb : Tables) :
    (relationLookup srv hs tb).Serves (relationCall srv tb) where
  hit tg ta dc p q hp := by
    obtain rfl : p = q := Option.some.inj hp
    rfl
  bad tg ta dc p hp := by cases hp

theorem relationLookup_found (srv : Server) (hs : srv.Reliable) (tb : Tables) (p : Int × Int) :
    ((relationLookup srv hs tb).found p).isSome ↔ Related tb p := by
  rw [← head?_selRelation]
  simp [relationLookup]

theorem relationLookup_noClash (srv : Server) (hs : srv.Reliable) (tb : Tables)
    (ps : List (Int × Int)) :
    (relationLookup srv hs tb).NoClash ps ↔ ps.Pairwise fun old new =>
      Related tb old → relationKey old.1 old.2 = relationKey new.1 new.2 → Related tb new := by
  simp only [Lookup.NoClash, relationLookup_found]
  constructor
  · exact List.Pairwise.imp fun h => h _ _ rfl rfl
  · refine List.Pairwise.imp fun h q q' hq hq' => ?_
    obtain rfl := Option.some.inj hq
    obtain rfl := Option.some.inj hq'
    exact h

/-- The calls of `ps` succeed exactly on the pairs of the relation table. -/
def RelationSound (tb : Tables) (ps : List (Int × Int)) : Prop :=
  Sound (fun srv => relationCall srv tb) (Related tb) ps

/-- Permissions are answered right exactly when no earlier permitted pair runs together to the
    same digits as a later pair without permission. -/
theorem relation_right_iff (tb : Tables) (ps : List (Int × Int)) :
    RelationSound tb ps ↔ ps.Pairwise fun old new =>
      Related tb old → relationKey old.1 old.2 = relationKey new.1 new.2 → Related tb new := by
  refine sound_iff (fun srv hs => relationLookup srv hs tb)
    (fun srv hs => relationCall_serves srv hs tb) (fun srv hs p => ?_) ps _
    (fun srv hs => relationLookup_noClash srv hs tb ps)
  simp only [relationLookup_found]
  simp only [relationLookup, Option.some.injEq, exists_eq_left']

/-- One row: application 1 may call interface 23. -/
def relationTable : Tables := ⟨id, [], [], [], [⟨1, 1, 23⟩], []⟩

/-- After application 1 has called interface 23, application 12 may call interface 3. -/
theorem relation_leaks : ¬ RelationSound relationTable [(1, 23), (12, 3)] := by
  intro h
  have hr := h (fun _ => true) 60 [.call 0 0 (1, 23), .call 0 0 (12, 3)] (fun _ => rfl) rfl
    ((12, 3), true) (by decide)
  exact absurd (hr.mp rfl) (by decide)

/-! ## Tokens -/

/-- `getApp`: the id inside the token, then the application of that id. -/
def getApp (C : Crypto) (srv : Server) (tb : Tables) (tg ta : Int) (dc : DbCache) (token : String) :
    Res Err Application × DbCache :=
  match aesDecrypt C token aesKey with
  | .err e => (.err (.invalidToken e), dc)
  | .panic p => (.panic p, dc)
  | .ok buf =>
    let (id, n) := varint buf
    if n < 1 then (.err (.text ("invalid token " ++ token)), dc)
    else getApplication srv tb tg ta dc id token

/-- The application table holds a row of this id with a token that compares equal to this one. -/
def Holds (tb : Tables) (id : Int) (token : String) : Prop :=
  ∃ r ∈ tb.application, r.id = id ∧ tb.weight r.token = tb.weight token

/-- The token decrypts to an id whose row holds it. -/
def Granted (C : Crypto) (tb : Tables) (token : String) : Prop :=
  ∃ id, tokenID C token = some id ∧ Holds tb id token

theorem head?_selApp (tb : Tables) (id : Int) (token : String) :
    (selApp tb id token).head?.isSome ↔ Holds tb id token := by
  simp [selApp, Holds, List.head?_filter]

theorem getApp_of_tokenID (C : Crypto) (srv : Server) (tb : Tables) (tg ta : Int) (dc : DbCache)
    (token : String) (id : Int) (h : tokenID C token = some id) :
    getApp C srv tb tg ta dc token = getApplication srv tb tg ta dc id token := by
  unfold tokenID at h
  unfold getApp
  cases hd : aesDecrypt C token aesKey with
  | ok buf =>
    simp only [hd] at h
    by_cases hn : (varint buf).2 < 1
    · simp [hn] at h
    · simp only [hn, if_false, Option.some.injEq] at h
      simp only [hn, if_false, h]
  | err e => simp [hd] at h
  | panic p => simp [hd] at h

theorem getApp_of_no_tokenID (C : Crypto) (srv : Server) (tb : Tables) (tg ta : Int) (dc : DbCache)
    (token : String) (h : tokenID C token = none) :
    (getApp C srv tb tg ta dc token).1.isOk = false ∧ (getApp C srv tb tg ta dc token).2 = dc := by
  unfold tokenID at h
  unfold getApp
  cases hd : aesDecrypt C token aesKey with
  | ok buf =>
    simp only [hd] at h
    by_cases hn : (varint buf).2 < 1
    · simp [hn]
    · simp [hn] at h
  | err e => exact ⟨rfl, rfl⟩
  | panic p => exact ⟨rfl, rfl⟩

/-- `getApp` as a cached lookup: the key of a token is the key of its id. -/
def tokenLookup (C : Crypto) (srv : Server) (hs : srv.Reliable) (tb : Tables) :
    Lookup String (Int × String) Application where
  parse t := (tokenID C t).map fun id => (id, t)
  key q := appKey q.1
  cast := Val.app?
  miss q dc := onRow (fun (name, email) => (⟨q.1, name, email⟩, Val.app ⟨q.1, name, email⟩))
    (queryDB srv dc (dc.stmt .selApp) (selApp tb q.1 q.2))
  found q := (selApp tb q.1 q.2).head?.map fun (name, email) =>
    (⟨q.1, name, email⟩, Val.app ⟨q.1, name, email⟩)
  miss_live q dc h := ⟨_, _, by rw [queryDB_live srv hs dc h, onRow_orErr]⟩
  cast_found q b v h := by
    obtain ⟨r, -, hr⟩ := Option.map_eq_some_iff.mp h
    obtain ⟨-, rfl⟩ := Prod.mk.inj hr
    rfl

theorem getApp_serves (C : Crypto) (srv : Server) (hs : srv.Reliable) (tb : Tables) :
    (tokenLookup C srv hs tb).Serves (getApp C srv tb) where
  hit tg ta dc t q hp := by
    obtain ⟨id, hid, rfl⟩ := Option.map_eq_some_iff.mp hp
    rw [getApp_of_tokenID C srv tb tg ta dc t id hid]
    rfl
  bad tg ta dc t hp := getApp_of_no_tokenID C srv tb tg ta dc t (Option.map_eq_none_iff.mp hp)

theorem tokenLookup_found (C : Crypto) (srv : Server) (hs : srv.Reliable) (tb : Tables)
    (q : Int × String) : ((tokenLookup C srv hs tb).found q).isSome ↔ Holds tb q.1 q.2 := by
  rw [← head?_selApp]
  simp [tokenLookup]

theorem appKey_inj {a b : Int} (h : appKey a = appKey b) : a = b := by
  have hs : toString a = toString b := by
    simpa [appKey, String.append_right_inj] using h
  exact repr_inj hs

theorem tokenLookup_noClash (C : Crypto) (srv : Server) (hs : srv.Reliable) (tb : Tables)
    (ts : List String) :
    (tokenLookup C srv hs tb).NoClash ts ↔ ts.Pairwise fun old new => ∀ id,
      tokenID C old = some id → tokenID C new = some id → Holds tb id old → Holds tb id new := by
  simp only [Lookup.NoClash, tokenLookup_found]
  constructor
  · refine List.Pairwise.imp fun h id ho hn hold => ?_
    exact h (id, _) (id, _) (by simp [tokenLookup, ho]) (by simp [tokenLookup, hn]) hold rfl
  · refine List.Pairwise.imp fun h q q' hq hq' hold hkey => ?_
    obtain ⟨id, hid, rfl⟩ := Option.map_eq_some_iff.mp hq
    obtain ⟨id', hid', rfl⟩ := Option.map_eq_some_iff.mp hq'
    obtain rfl : id = id' := appKey_inj hkey
    exact h id hid hid' hold

/-- The calls of `ts` succeed exactly on the granted tokens. -/
def TokenSound (C : Crypto) (tb : Tables) (ts : List String) : Prop :=
  Sound (fun srv => getApp C srv tb) (Granted C tb) ts

/-- Which server it is does not matter, as long as it answers. -/
theorem tokenSound_iff_noClash (C : Crypto) {srv : Server} (hs : srv.Reliable) (tb : Tables)
    (ts : List String) : TokenSound C tb ts ↔ (tokenLookup C srv hs tb).NoClash ts := by
  refine sound_iff (fun srv hs => tokenLookup C srv hs tb)
    (fun srv hs => getApp_serves C srv hs tb) (fun srv hs t => ?_) ts _
    (fun srv' hs' => (tokenLookup_noClash C srv' hs' tb ts).trans
      (tokenLookup_noClash C srv hs tb ts).symm)
  simp only [tokenLookup_found]
  constructor
  · rintro ⟨q, hq, h⟩
    obtain ⟨id, hid, rfl⟩ := Option.map_eq_some_iff.mp hq
    exact ⟨id, hid, h⟩
  · rintro ⟨id, hid, h⟩
    exact ⟨(id, t), by simp [tokenLookup, hid], h⟩

/-- Tokens are answered right exactly when no earlier granted token has the id of a later token
    that no row of this id holds. -/
theorem token_right_iff (C : Crypto) (tb : Tables) (ts : List String) :
    TokenSound C tb ts ↔ ts.Pairwise fun old new => ∀ id,
      tokenID C old = some id → tokenID C new = some id → Holds tb id old → Holds tb id new :=
  have hs : Server.Reliable fun _ => true := fun _ => rfl
  (tokenSound_iff_noClash C hs tb ts).trans (tokenLookup_noClash C _ hs tb ts)

/-- One application of id 1, with the token of the varint of 1. -/
def tokenTable (C : Crypto) (weight : String → String) : Tables :=
  ⟨weight, [], [], [⟨1, "app", "app@doodle", tokenOf C [0x02]⟩], [], []⟩

/-- After application 1 has used its token, another token that reads as id 1 is accepted, with
    every cipher and every collation that tells the two apart. -/
theorem token_leaks : ¬ ∃ (C : Crypto) (weight : String → String),
    weight (tokenOf C [0x02]) ≠ weight (tokenOf C [0x02, 0x00]) ∧
      TokenSound C (tokenTable C weight) [tokenOf C [0x02], tokenOf C [0x02, 0x00]] := by
  rintro ⟨C, weight, hne, h⟩
  have hs : Server.Reliable fun _ => true := fun _ => rfl
  have hid : ∀ buf, varint buf = (1, 1) → tokenID C (tokenOf C buf) = some 1 :=
    fun buf hb => tokenID_tokenOf C buf (by simp [hb]) (by simp [hb])
  rw [tokenSound_iff_noClash C hs, tokenLookup_noClash, List.pairwise_pair] at h
  obtain ⟨r, hr, -, ht⟩ := h 1 (hid _ (by decide)) (hid _ (by decide))
    ⟨_, List.mem_singleton.mpr rfl, rfl, rfl⟩
  obtain rfl := List.mem_singleton.mp hr
  exact hne ht

end Doodle.Repeater
