/-
  The filters of `interface` GET: the service, the state and the search text.

  `wanted` is an interface that meets all the filters a request asks for. `Filtered` says of a reply
  that it lists wanted interfaces only and that its total is their number; a page that is empty or
  cannot be read is answered with the total 0. Each `Where` replaces the one before, so the two
  statements go by one filter alone (`cond`).

  `filters_iff`: for a request whose service is permitted, and a database that answers, this holds in
  whatever order the rows come exactly when the filters hold together (`Db.Together`).
-/
import Doodle.Manager.Guarded

namespace Doodle.Manager.Resources

open Doodle.Lib
open Relations (Fault)
open ServicePost (ServiceRow)

variable {C : Collation}

/-! ## The filters, and a database that answers -/

/-- The interface matches the search text, as MySQL reads it. -/
def hasText (C : Collation) (text : String) (r : InterfaceRow) : Bool :=
  match (Cond.search text).read C with
  | .ok p => p r
  | .error _ => false

/-- The interface is of the service, in the state if that was asked for, and matches the search
    text if there is one. -/
def wanted (C : Collation) (i : InterfaceAction) (r : InterfaceRow) : Bool :=
  r.serviceID = i.serviceID && (i.state ≠ 1 || r.state = 1) && (i.search = "" || hasText C i.search r)

/-- A filter that finds no more than a narrower one is the narrower one. -/
theorem forall_of_length_filter {α : Type} {p w : α → Bool} {l : List α}
    (hsub : ∀ r, w r = true → p r = true) (h : (l.filter p).length = l.countP w) :
    ∀ r ∈ l, p r = true → w r = true := by
  have hboth : (l.filter p).countP w = l.countP w := by
    rw [List.countP_filter]
    refine List.countP_congr fun r _ => ?_
    simp only [Bool.and_eq_true, and_iff_left_iff_imp]
    exact hsub r
  have hall := List.countP_eq_length.mp (hboth.trans h.symm)
  exact fun r hr hp => hall r (List.mem_filter.mpr ⟨hr, hp⟩)

theorem length_filter_eq {α : Type} {p w : α → Bool} {l : List α}
    (hsub : ∀ r, w r = true → p r = true) (h : ∀ r ∈ l, p r = true → w r = true) :
    (l.filter p).length = l.countP w := by
  rw [← List.countP_eq_length_filter]
  exact List.countP_congr fun r hr => ⟨h r hr, hsub r⟩

/-- The filter that is in effect is one of those asked for. -/
theorem read_of_wanted {i : InterfaceAction} {p : InterfaceRow → Bool}
    (hread : (cond i).read C = .ok p) (r : InterfaceRow) (h : wanted C i r = true) :
    p r = true := by
  simp only [wanted, Bool.and_eq_true, Bool.or_eq_true, decide_eq_true_eq] at h
  obtain ⟨⟨hservice, hstate⟩, hsearch⟩ := h
  unfold cond at hread
  by_cases htext : i.search = ""
  · by_cases hpub : i.state = 1
    · simp only [htext, ne_eq, not_true_eq_false, if_false, hpub, if_true, Cond.read,
        Except.ok.injEq] at hread
      subst hread
      rcases hstate with hstate | hstate
      · exact absurd hpub hstate
      · exact decide_eq_true hstate
    · simp only [htext, ne_eq, not_true_eq_false, if_false, hpub, Cond.read,
        Except.ok.injEq] at hread
      subst hread
      exact decide_eq_true hservice
  · simp only [htext, ne_eq, not_false_eq_true, if_true] at hread
    rcases hsearch with hsearch | hsearch
    · exact absurd hsearch htext
    · simpa only [hasText, hread] using hsearch

/-- The database answers the select of the interfaces. -/
def Env.Answers (E : Env C) : Prop := ∀ rows, ∃ l, E.selectInterfaces rows = .ok l

/-- A database that answers: a select of `rows` gives them in the order `l`, and others as they
    are. -/
def Env.ordering (C : Collation) (total : Int) (rows l : List Listed) (hl : l.Perm rows) : Env C :=
  { Env.calm C "" [] [] [] with
    selectInterfaces := fun x => .ok (if x = rows then l else x)
    interfaces_perm := by
      intro x l' h
      obtain rfl := Except.ok.inj h
      split
      · next hx => exact hx ▸ hl
      · exact List.Perm.refl _
    strayCount := .ok total }

theorem answers_ordering (total : Int) (rows l : List Listed) (hl : l.Perm rows) :
    (Env.ordering C total rows l hl).Answers :=
  fun _ => ⟨_, rfl⟩

theorem select_ordering (total : Int) (rows l : List Listed) (hl : l.Perm rows) :
    (Env.ordering C total rows l hl).selectInterfaces rows = .ok l := by
  simp only [Env.ordering, if_true]

section Collated

variable [Collating]

/-! ## The property -/

/-- The number of interfaces that are wanted. -/
def Db.wantedTotal (C : Collation) (db : Db) (i : InterfaceAction) : Int :=
  db.interface.rows.countP (wanted C i)

/-- Only wanted interfaces are listed, and the total is their number. -/
def Filtered (C : Collation) (db : Db) (i : InterfaceAction) : Reply → Prop
  | .interfaces total rows => (∀ x ∈ rows, wanted C i x.1 = true) ∧ total = db.wantedTotal C i
  | .resp (.page total _) => total = db.wantedTotal C i
  | _ => True

/-- The request is answered as its filters say, in whatever order the rows come. -/
def Filters (C : Collation) (u : User) (db : Db) (i : InterfaceAction) : Prop :=
  ∀ E : Env C, E.Answers → Filtered C db i (interfaceGET E u i db).1

/-! ## The condition -/

/-- The text of the condition reads. If the page can be read, the interfaces that the last filter
    selects are all wanted; if the page is empty, or one of them has a state that is no bool, no
    interface is wanted. -/
def Db.Together (C : Collation) (db : Db) (i : InterfaceAction) : Prop :=
  ∃ p, (cond i).read C = .ok p ∧
    ((∃ x ∈ db.joined p, scansInterface x = true) →
      (ormWindow i.page i.size).Room scansInterface (db.joined p) →
      ∀ r ∈ db.interface.rows, p r = true → wanted C i r = true) ∧
    ((ormWindow i.page i.size).page (db.joined p) = [] ∨
        (∃ x ∈ db.joined p, scansInterface x = false) →
      ∀ r ∈ db.interface.rows, wanted C i r = false)

theorem wantedTotal_eq_zero (db : Db) (i : InterfaceAction) :
    0 = db.wantedTotal C i ↔ ∀ r ∈ db.interface.rows, wanted C i r = false := by
  have hcount : db.interface.rows.countP (wanted C i) = 0 ↔
      ∀ r ∈ db.interface.rows, wanted C i r = false := by
    simp only [List.countP_eq_zero, Bool.not_eq_true]
  rw [← hcount, Db.wantedTotal]
  omega

/-! ## One reply -/

section Reply

variable {u : User} {db : Db} {i : InterfaceAction} {E : Env C}

/-- A request whose service is permitted comes to the two statements. -/
theorem interfaceGET_eq {s : ServiceRow} (hs : db.serviceOf i.serviceID = some s)
    (hu : u.assert s.resourceID = .ok ()) (href : E.refuses .resourceID = none) :
    interfaceGET E u i db = pageInterfaces E i db := by
  have hask : getServiceResourceID E i.serviceID db = (.ok s.resourceID, db) := by
    simp only [getServiceResourceID, send, href, hs]
  rw [interfaceGET, withService, orFail, Action.onErr_ok hask]
  simp only [hu]

/-- A page without rows, or with one that cannot be read, is answered with the total 0. -/
theorem pageInterfaces_unread {p : InterfaceRow → Bool} (hread : (cond i).read C = .ok p)
    (href : E.refuses .countInterface = none) {l : List Listed}
    (hselect : E.selectInterfaces (db.joined p) = .ok l)
    (hno : (ormWindow i.page i.size).page l = [] ∨
      ∃ x ∈ (ormWindow i.page i.size).page l, scansInterface x = false) :
    (pageInterfaces E i db).1 = .resp (.page 0 none) := by
  cases hlist : (listInterfaces E i db).1 with
  | error e => rw [pageInterfaces_of_unlisted (countInterfaces_eq hread href) hlist]
  | ok rows =>
    obtain ⟨l', hl', rfl, hne, hscan⟩ := (listInterfaces_eq_ok hread).mp hlist
    obtain rfl := Except.ok.inj (hselect.symm.trans hl')
    rcases hno with hnil | ⟨x, hx, hbad⟩
    · exact absurd hnil hne
    · rw [hscan x hx] at hbad
      cases hbad

/-- A page whose rows are all read is listed. -/
theorem pageInterfaces_read {p : InterfaceRow → Bool} (hread : (cond i).read C = .ok p)
    (href : E.refuses .countInterface = none) {l : List Listed}
    (hselect : E.selectInterfaces (db.joined p) = .ok l)
    (hne : (ormWindow i.page i.size).page l ≠ [])
    (hscan : ∀ x ∈ (ormWindow i.page i.size).page l, scansInterface x = true) :
    (pageInterfaces E i db).1 = .interfaces (db.interface.rows.filter p).length
      ((ormWindow i.page i.size).page l) := by
  have hlist : (listInterfaces E i db).1 = .ok ((ormWindow i.page i.size).page l) :=
    (listInterfaces_eq_ok hread).mpr ⟨l, hselect, rfl, hne, hscan⟩
  rw [pageInterfaces_eq (countInterfaces_eq hread href) hlist]

end Reply

/-! ## Every order -/

section Every

variable {u : User} {db : Db} {i : InterfaceAction} {s : ServiceRow}
  (hs : db.serviceOf i.serviceID = some s) (hu : u.assert s.resourceID = .ok ())
include hs hu

/-- What the reply says when the rows come in the order `l`. -/
theorem Filters.ordering (h : Filters C u db i) {p : InterfaceRow → Bool} {l : List Listed}
    (hl : l.Perm (db.joined p)) :
    Filtered C db i (pageInterfaces (Env.ordering C 0 (db.joined p) l hl) i db).1 := by
  rw [← interfaceGET_eq hs hu (E := Env.ordering C 0 (db.joined p) l hl) rfl]
  exact h _ (answers_ordering 0 _ l hl)

/-- A search text that does not end where it should is answered with any total. -/
theorem Filters.reads (h : Filters C u db i) : ∃ p, (cond i).read C = .ok p := by
  cases hread : (cond i).read C with
  | ok p => exact ⟨p, rfl⟩
  | error e =>
    exfalso
    let E := Env.ordering C (db.wantedTotal C i + 1) [] [] (List.Perm.refl _)
    have hcount : (countInterfaces E i db).1 = .ok (db.wantedTotal C i + 1) := by
      simp only [countInterfaces, send, hread]
      rfl
    have hlist : (listInterfaces E i db).1 = .ok [] := by
      simp only [listInterfaces, hread]
      rfl
    have hE := h E (answers_ordering _ _ _ _)
    rw [interfaceGET_eq hs hu rfl, pageInterfaces_eq hcount hlist] at hE
    have htotal : db.wantedTotal C i + 1 = db.wantedTotal C i := hE.2
    omega

theorem Filters.together (h : Filters C u db i) : db.Together C i := by
  obtain ⟨p, hread⟩ := h.reads hs hu
  refine ⟨p, hread, ?_, fun hno => ?_⟩
  · rintro ⟨x, hx, hscan⟩ hroom
    obtain ⟨l, hperm, hmem, hok⟩ := (Window.exists_page _ hx hscan).mpr hroom
    have hE := h.ordering hs hu hperm
    rw [pageInterfaces_read hread rfl (select_ordering 0 _ l hperm) (List.ne_nil_of_mem hmem)
      hok] at hE
    exact forall_of_length_filter (read_of_wanted hread) (Int.ofNat.inj hE.2)
  · rw [← wantedTotal_eq_zero]
    -- an order in which the page cannot be read
    obtain ⟨l, hperm, hbad⟩ : ∃ l : List Listed, l.Perm (db.joined p) ∧
        ((ormWindow i.page i.size).page l = [] ∨
          ∃ x ∈ (ormWindow i.page i.size).page l, scansInterface x = false) := by
      by_cases hnil : (ormWindow i.page i.size).page (db.joined p) = []
      · exact ⟨db.joined p, List.Perm.refl _, Or.inl hnil⟩
      · obtain ⟨y, hy, hbad⟩ := hno.resolve_left hnil
        obtain ⟨x, hx⟩ := List.exists_mem_of_ne_nil _ hnil
        have hroom : (ormWindow i.page i.size).Room (fun _ => true) (db.joined p) :=
          Window.room_of_page (List.Perm.refl _) hx fun _ _ => rfl
        obtain ⟨l, hperm, hmem, -⟩ := (Window.exists_page _ hy rfl).mpr hroom
        exact ⟨l, hperm, Or.inr ⟨y, hmem, hbad⟩⟩
    have hE := h.ordering hs hu hperm
    rwa [pageInterfaces_unread hread rfl (select_ordering 0 _ l hperm) hbad] at hE

end Every

theorem Db.Together.filters {u : User} {db : Db} {i : InterfaceAction} {s : ServiceRow}
    (hs : db.serviceOf i.serviceID = some s) (hu : u.assert s.resourceID = .ok ())
    (h : db.Together C i) : Filters C u db i := by
  intro E hE
  obtain ⟨p, hread, hlisted, hunread⟩ := h
  cases href : E.refuses .resourceID with
  | some e =>
    have hask : getServiceResourceID E i.serviceID db = (.error (.text e), db) := by
      simp only [getServiceResourceID, send, href]
    rw [interfaceGET, withService, orFail, Action.onErr_error hask]
    trivial
  | none =>
    rw [interfaceGET_eq hs hu href]
    cases hrefc : E.refuses .countInterface with
    | some e =>
      have hcount : countInterfaces E i db = (.error (.text e), db) := by
        simp only [countInterfaces, send, hrefc]
      rw [pageInterfaces, orFail, Action.onErr_error hcount]
      trivial
    | none =>
      obtain ⟨l, hselect⟩ := hE (db.joined p)
      have hperm := E.interfaces_perm hselect
      by_cases hread' : (ormWindow i.page i.size).page l ≠ [] ∧
          ∀ x ∈ (ormWindow i.page i.size).page l, scansInterface x = true
      · obtain ⟨hne, hscan⟩ := hread'
        obtain ⟨x, hx⟩ := List.exists_mem_of_ne_nil _ hne
        have hjoined : ∀ y ∈ (ormWindow i.page i.size).page l, y ∈ db.joined p := fun y hy =>
          hperm.mem_iff.mp ((Window.page_sublist _ _).subset hy)
        have hall := hlisted ⟨x, hjoined x hx, hscan x hx⟩ (Window.room_of_page hperm hx hscan)
        rw [pageInterfaces_read hread hrefc hselect hne hscan]
        refine ⟨fun y hy => ?_, congrArg Int.ofNat (length_filter_eq (read_of_wanted hread) hall)⟩
        obtain ⟨hrow, hp, -⟩ := mem_joined.mp (hjoined y hy)
        exact hall y.1 hrow hp
      · have hno : (ormWindow i.page i.size).page l = [] ∨
            ∃ x ∈ (ormWindow i.page i.size).page l, scansInterface x = false := by
          by_contra hcon
          simp only [not_or, not_exists, not_and, Bool.not_eq_false] at hcon
          exact hread' hcon
        rw [pageInterfaces_unread hread hrefc hselect hno]
        refine (wantedTotal_eq_zero db i).mpr (hunread ?_)
        rcases hno with hnil | ⟨x, hx, hbad⟩
        · exact Or.inl ((Window.page_eq_nil_of_perm _ hperm).mp hnil)
        · exact Or.inr ⟨x, hperm.mem_iff.mp ((Window.page_sublist _ _).subset hx), hbad⟩

/-- For every table and every request whose service is permitted: the filters are applied together,
    in whatever order the rows come, exactly when they hold together. -/
theorem filters_iff (C : Collation) (u : User) (db : Db) (i : InterfaceAction) (s : ServiceRow)
    (hs : db.serviceOf i.serviceID = some s) (hu : u.assert s.resourceID = .ok ()) :
    Filters C u db i ↔ db.Together C i :=
  ⟨fun h => h.together hs hu, fun h => h.filters hs hu⟩

/-- The published interfaces of the service 1. -/
def publishedOnly : InterfaceAction := { serviceID := 1, state := 1 }

end Collated

section Examples

attribute [local instance] asciiCi

/-- The owner of the service 2 lists its published interface, and no other. -/
theorem filters_iff_shop :
    Filters plainCollation ⟨"owner", "owner", false, [6]⟩ shop { serviceID := 2, state := 1 } := by
  refine (filters_iff plainCollation _ shop { serviceID := 2, state := 1 } _ rfl rfl).mpr
    ⟨_, rfl, fun _ _ => ?_, fun h => ?_⟩
  · decide
  · revert h
    decide

/-- The published interface of the service 2 is listed for the service 1. -/
theorem other_service_listed :
    ¬ ∀ s, shop.serviceOf publishedOnly.serviceID = some s → guest.assert s.resourceID = .ok () →
      Filters plainCollation guest shop publishedOnly := by
  intro h
  have hf := h _ rfl rfl
  obtain ⟨p, hread, hlisted, -⟩ := hf.together rfl rfl
  obtain rfl := Except.ok.inj hread
  have hroom : ∀ x ∈ shop.joined fun r => r.state = 1, scansInterface x = true := by decide
  have hrow := hlisted (by decide) hroom ⟨1, 2, "", 0, "", "", 1, "pay", "", "", 0, "", ""⟩
    (by decide) (by decide)
  revert hrow
  decide

end Examples

end Doodle.Manager.Resources
