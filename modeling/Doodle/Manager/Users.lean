/-
  What holds while any number of requests of the manager run `User` at the same time
  (`UserDB.lean`).

  `Orderly` is about the lock and the caches: the write lock excludes everyone else, and what was
  fetched for a user is in the cache, about to be added, or expired. `Sourced` is about what is in
  them: an entry was fetched for its own email, and a `userinfo` is one the sign-on gave, with
  rights that were fetched for its email since (`Moved`). The two texts are written after the lists
  and without a lock, so they may be of different answers, but never of another user.

  * `fetched_once`: a user's rights are fetched again only after an entry of theirs has expired.
  * `rights_of_user`: a request gets a `userinfo` of the user its ticket was verified for, with the
    rights of that user.
-/
import Doodle.Manager.UserDB

namespace Doodle.Manager.Users

open Doodle.Crab Doodle.Lib Doodle.Manager.Session

variable {ι : Type}

/-! ## What is kept -/

section Kept

variable (w : World ι) (k : Kind) (email : String)

/-- How often `k` was fetched for a user. -/
def World.fetches : Nat := w.fetched.countP fun f => f.1 = k ∧ f.2.1 = email

/-- How many entries of theirs are cached. -/
def World.cached : Nat := (w.cache k).ll.countP fun e => e.key = email

/-- One, while it is fetched and not yet added. -/
def World.waiting : Nat := if w.pending = some (k, email) then 1 else 0

/-- How many entries of theirs have expired. -/
def World.expiries : Nat := w.expired.count (k, email)

/-- The lock, and where what was fetched has gone. -/
structure Orderly : Prop where
  lock : w.writer ≠ none → w.readers = []
  owner : w.pending ≠ none → w.writer ≠ none
  ledger : ∀ k email, w.fetches k email =
    w.cached k email + w.waiting k email + w.expiries k email
  once : ∀ k email, w.cached k email + w.waiting k email ≤ 1

end Kept

/-- It was answered for this user. -/
def Given (fetched : List Fetched) (k : Kind) (email : String) (v : k.T) : Prop :=
  (⟨k, email, v⟩ : Fetched) ∈ fetched

/-- What may become of a `userinfo`: what is new in it was answered for its email. -/
structure Moved (fetched : List Fetched) (u u' : Account) : Prop where
  email : u'.email = u.email
  res : u'.res = u.res ∨ Given fetched .res u.email u'.res
  resKey : u'.resKey = u.resKey ∨ ∃ ids, Given fetched .res u.email ids ∧ u'.resKey = idsKey ids
  roles : u'.roles = u.roles ∨ Given fetched .roles u.email u'.roles
  rolesKey : u'.rolesKey = u.rolesKey ∨
    ∃ ids, Given fetched .roles u.email ids ∧ u'.rolesKey = idsKey ids
  isAdmin : u'.isAdmin = true → u.isAdmin = true ∨ Given fetched .admins u.email true
  userID : u'.userID = u.userID ∨ Given fetched .uid u.email u'.userID

/-- Whom the sign-on gave for the ticket has become this one. -/
def Rightful (w : World ι) (ticket : String) (p : Nat) : Prop :=
  ∃ d, (ticket, d) ∈ w.verified ∧ ∃ u, w.heap[p]? = some u ∧ Moved w.fetched d u

structure Sourced (w : World ι) : Prop where
  cache : ∀ k, ∀ e ∈ (w.cache k).ll, Given w.fetched k e.key e.val
  sessions : ∀ e ∈ w.sessions.ll, Rightful w e.key e.val
  heap : ∀ p, p < w.heap.length → ∃ ticket, Rightful w ticket p

structure Inv (w : World ι) : Prop where
  orderly : Orderly w
  sourced : Sourced w

/-- What was answered stays answered, and a `userinfo` only moves on. -/
structure Later (w w' : World ι) : Prop where
  fetched : w.fetched ⊆ w'.fetched
  verified : w.verified ⊆ w'.verified
  heap : ∀ (p : Nat) u, w.heap[p]? = some u → ∃ u', w'.heap[p]? = some u' ∧ Moved w'.fetched u u'

/-- What the others leave to `i`: its locks, and under the write lock the caches. -/
structure Away (i : ι) (w w' : World ι) : Prop where
  reads : i ∈ w.readers → i ∈ w'.readers
  writes : w.writer = some i →
    w'.writer = some i ∧ w'.cache = w.cache ∧ w'.pending = w.pending

/-! ## Orders -/

theorem Moved.refl (fetched : List Fetched) (u : Account) : Moved fetched u u :=
  ⟨rfl, Or.inl rfl, Or.inl rfl, Or.inl rfl, Or.inl rfl, Or.inl, Or.inl rfl⟩

theorem Moved.mono {fetched fetched' : List Fetched} {u u' : Account} (h : Moved fetched u u')
    (hsub : fetched ⊆ fetched') : Moved fetched' u u' where
  email := h.email
  res := h.res.imp_right (hsub ·)
  resKey := h.resKey.imp_right fun ⟨ids, hg, hk⟩ => ⟨ids, hsub hg, hk⟩
  roles := h.roles.imp_right (hsub ·)
  rolesKey := h.rolesKey.imp_right fun ⟨ids, hg, hk⟩ => ⟨ids, hsub hg, hk⟩
  isAdmin ha := (h.isAdmin ha).imp_right (hsub ·)
  userID := h.userID.imp_right (hsub ·)

theorem Moved.trans {fetched : List Fetched} {u u' u'' : Account} (h : Moved fetched u u')
    (h' : Moved fetched u' u'') : Moved fetched u u'' where
  email := h'.email.trans h.email
  res := by
    rcases h'.res with he | hg
    · exact he ▸ h.res
    · exact Or.inr (h.email ▸ hg)
  resKey := by
    rcases h'.resKey with he | hg
    · exact he ▸ h.resKey
    · exact Or.inr (h.email ▸ hg)
  roles := by
    rcases h'.roles with he | hg
    · exact he ▸ h.roles
    · exact Or.inr (h.email ▸ hg)
  rolesKey := by
    rcases h'.rolesKey with he | hg
    · exact he ▸ h.rolesKey
    · exact Or.inr (h.email ▸ hg)
  isAdmin ha := by
    rcases h'.isAdmin ha with hb | hg
    · exact h.isAdmin hb
    · exact Or.inr (h.email ▸ hg)
  userID := by
    rcases h'.userID with he | hg
    · exact he ▸ h.userID
    · exact Or.inr (h.email ▸ hg)

theorem Later.refl (w : World ι) : Later w w :=
  ⟨List.Subset.refl _, List.Subset.refl _, fun _ u hu => ⟨u, hu, Moved.refl _ u⟩⟩

theorem Later.trans {u v w : World ι} (h : Later u v) (h' : Later v w) : Later u w := by
  refine ⟨List.Subset.trans h.fetched h'.fetched, List.Subset.trans h.verified h'.verified,
    fun p a ha => ?_⟩
  obtain ⟨b, hb, hmoved⟩ := h.heap p a ha
  obtain ⟨c, hc, hmoved'⟩ := h'.heap p b hb
  exact ⟨c, hc, (hmoved.mono h'.fetched).trans hmoved'⟩

theorem Rightful.later {w w' : World ι} {ticket : String} {p : Nat} (h : Rightful w ticket p)
    (hle : Later w w') : Rightful w' ticket p := by
  obtain ⟨d, hd, u, hu, hmoved⟩ := h
  obtain ⟨u', hu', hmoved'⟩ := hle.heap p u hu
  exact ⟨d, hle.verified hd, u', hu', (hmoved.mono hle.fetched).trans hmoved'⟩

theorem Away.refl (i : ι) (w : World ι) : Away i w w := ⟨id, fun h => ⟨h, rfl, rfl⟩⟩

theorem Away.trans {i : ι} {u v w : World ι} (h : Away i u v) (h' : Away i v w) : Away i u w := by
  refine ⟨h'.reads ∘ h.reads, fun hw => ?_⟩
  obtain ⟨hv, hcache, hpending⟩ := h.writes hw
  obtain ⟨hw', hcache', hpending'⟩ := h'.writes hv
  exact ⟨hw', hcache'.trans hcache, hpending'.trans hpending⟩

/-! ## Steps under the lock -/

section Steps

variable {i : ι} {w w' : World ι} {k : Kind} {email : String}

/-- What a step of `i` has to come to. -/
structure Fine (i : ι) (w w' : World ι) : Prop where
  inv : Inv w'
  later : Later w w'
  others : ∀ j, j ≠ i → Away j w w'

/-- Nothing but the lock changes. -/
theorem Fine.of_lock (h : Inv w) (readers : List ι) (writer : Option ι)
    (hlock : writer ≠ none → readers = []) (howner : w.pending ≠ none → writer ≠ none)
    (hreads : ∀ j, j ≠ i → j ∈ w.readers → j ∈ readers)
    (hwrites : ∀ j, j ≠ i → w.writer = some j → writer = some j) :
    Fine i w { w with readers := readers, writer := writer } where
  inv := ⟨⟨hlock, howner, h.orderly.ledger, h.orderly.once⟩,
    ⟨h.sourced.cache, h.sourced.sessions, h.sourced.heap⟩⟩
  later := ⟨List.Subset.refl _, List.Subset.refl _, fun _ u hu => ⟨u, hu, Moved.refl _ u⟩⟩
  others j hj := ⟨hreads j hj, fun hw => ⟨hwrites j hj hw, rfl, rfl⟩⟩

theorem fine_rlock (h : Inv w) (hfree : w.writer = none) :
    Fine i w { w with readers := i :: w.readers } :=
  Fine.of_lock h _ _ (fun hw => absurd hfree hw) h.orderly.owner
    (fun _ _ hj => List.mem_cons_of_mem _ hj) fun _ _ hj => hj

theorem fine_runlock [DecidableEq ι] (h : Inv w) :
    Fine i w { w with readers := w.readers.erase i } :=
  Fine.of_lock h _ _ (fun hw => by rw [h.orderly.lock hw]; rfl) h.orderly.owner
    (fun _ hj hmem => (List.mem_erase_of_ne hj).mpr hmem) fun _ _ hj => hj

theorem fine_lock (h : Inv w) (hfree : w.writer = none) (hnone : w.readers = []) :
    Fine i w { w with writer := some i } :=
  Fine.of_lock h _ _ (fun _ => hnone) (fun _ => Option.some_ne_none i) (fun _ _ hj => hj)
    fun j _ hj => by rw [hfree] at hj; cases hj

theorem fine_unlock (h : Inv w) (hmine : w.writer = some i) (hnone : w.pending = none) :
    Fine i w { w with writer := none } :=
  Fine.of_lock h _ _ (fun hw => absurd rfl hw) (fun hp => absurd hnone hp) (fun _ _ hj => hj)
    fun j hj hw => by
      rw [hmine, Option.some.injEq] at hw
      exact absurd hw.symm hj

/-- `i` may change the caches: no other has the write lock. -/
theorem away_of_mine (hmine : w.writer = none ∨ w.writer = some i)
    (hreaders : w'.readers = w.readers) : ∀ j, j ≠ i → Away j w w' := by
  intro j hj
  refine ⟨fun h => hreaders ▸ h, fun h => ?_⟩
  rcases hmine with hnone | hmine
  · rw [hnone] at h
    cases h
  · rw [hmine, Option.some.injEq] at h
    exact absurd h.symm hj

theorem Inv.writer_none (h : Inv w) (hread : i ∈ w.readers) : w.writer = none := by
  by_contra hw
  rw [h.orderly.lock hw] at hread
  cases hread

theorem cached_update (c : Cache k.T) (k' : Kind) :
    ({ w with cache := Function.update w.cache k c } : World ι).cached k' email =
      if k' = k then c.ll.countP (fun e => e.key = email) else w.cached k' email := by
  unfold World.cached
  by_cases hk : k' = k
  · subst hk
    rw [if_pos rfl]
    simp only [Function.update_self]
  · rw [if_neg hk]
    simp only [Function.update_of_ne hk]

/-- Evicted entries are counted as expired. -/
theorem fine_evict (h : Inv w) (hmine : w.writer = none ∨ w.writer = some i) {t : Int}
    {old : List (CacheEntry k.T)} (hold : (w.cache k).ll = ((w.cache k).evict t).ll ++ old) :
    Fine i w { w with
      cache := Function.update w.cache k ((w.cache k).evict t)
      expired := old.map (fun e => (k, e.key)) ++ w.expired } := by
  have hcount : ∀ k' email, World.cached { w with
        cache := Function.update w.cache k ((w.cache k).evict t)
        expired := old.map (fun e => (k, e.key)) ++ w.expired } k' email +
      (old.map fun e => (k, e.key)).count (k', email) = w.cached k' email := by
    intro k' email
    refine (congrArg (· + _) (cached_update (w := w) ((w.cache k).evict t) k')).trans ?_
    by_cases hk : k' = k
    · subst hk
      rw [if_pos rfl, World.cached, hold, List.countP_append, List.count, List.countP_map]
      congr 1
      refine List.countP_congr fun e _ => ?_
      simp
    · rw [if_neg hk]
      have hnone : (old.map fun e => (k, e.key)).count (k', email) = 0 := by
        rw [List.count_eq_zero]
        intro hmem
        obtain ⟨e, -, he⟩ := List.mem_map.mp hmem
        exact hk (Prod.mk.inj he).1.symm
      rw [hnone, Nat.add_zero]
  refine ⟨⟨⟨h.orderly.lock, h.orderly.owner, fun k' email => ?_, fun k' email => ?_⟩, ?_⟩,
    ⟨List.Subset.refl _, List.Subset.refl _, fun _ u hu => ⟨u, hu, Moved.refl _ u⟩⟩,
    away_of_mine hmine rfl⟩
  · have hledger := h.orderly.ledger k' email
    have := hcount k' email
    simp only [World.fetches, World.waiting, World.expiries, List.count_append] at hledger ⊢
    omega
  · have honce := h.orderly.once k' email
    have := hcount k' email
    simp only [World.waiting] at honce ⊢
    omega
  · refine ⟨fun k' e he => ?_, h.sourced.sessions, h.sourced.heap⟩
    by_cases hk : k' = k
    · subst hk
      simp only [Function.update_self] at he
      exact h.sourced.cache k' e (mem_of_mem_evict he)
    · simp only [Function.update_of_ne hk] at he
      exact h.sourced.cache k' e he

theorem cached_eq_zero (hmiss : (w.cache k).lookup email = none) : w.cached k email = 0 := by
  unfold Cache.lookup at hmiss
  rw [Option.map_eq_none_iff, List.find?_eq_none] at hmiss
  refine List.countP_eq_zero.mpr fun e he => ?_
  simpa using hmiss e he

theorem fine_fetch (h : Inv w) (hmine : w.writer = some i) (hnone : w.pending = none)
    (hmiss : (w.cache k).lookup email = none) (v : k.T) :
    Fine i w { w with fetched := ⟨k, email, v⟩ :: w.fetched, pending := some (k, email) } := by
  have hsub : w.fetched ⊆ ⟨k, email, v⟩ :: w.fetched := List.subset_cons_self _ _
  have hlater : Later w
      { w with fetched := ⟨k, email, v⟩ :: w.fetched, pending := some (k, email) } :=
    ⟨hsub, List.Subset.refl _, fun _ u hu => ⟨u, hu, Moved.refl _ u⟩⟩
  have hzero := cached_eq_zero hmiss
  refine ⟨⟨⟨h.orderly.lock, fun _ => by simp [hmine], fun k' email' => ?_, fun k' email' => ?_⟩,
    ?_⟩, hlater, away_of_mine (Or.inr hmine) rfl⟩
  · have hledger := h.orderly.ledger k' email'
    simp only [World.fetches, World.waiting, World.cached, World.expiries, hnone,
      List.countP_cons] at hledger ⊢
    by_cases hpair : k = k' ∧ email = email'
    · obtain ⟨rfl, rfl⟩ := hpair
      simp at hledger ⊢
      omega
    · have hne : (k, email) ≠ (k', email') := fun he => hpair (Prod.mk.inj he)
      simp [hpair, hne] at hledger ⊢
      omega
  · have honce := h.orderly.once k' email'
    simp only [World.waiting, World.cached, hnone] at honce ⊢
    by_cases hpair : (k, email) = (k', email')
    · obtain ⟨rfl, rfl⟩ := Prod.mk.inj hpair
      simp only [World.cached] at hzero
      simp [hzero]
    · simp [hpair] at honce ⊢
      exact honce
  · exact ⟨fun k' e he => hsub (h.sourced.cache k' e he),
      fun e he => (h.sourced.sessions e he).later hlater,
      fun p hp => (h.sourced.heap p hp).imp fun _ ht => ht.later hlater⟩

theorem fine_add (h : Inv w) (hmine : w.writer = some i) (hpending : w.pending = some (k, email))
    (hmiss : (w.cache k).lookup email = none) {v : k.T} (hv : Given w.fetched k email v) (t : Int) :
    Fine i w { w with
      cache := Function.update w.cache k ((w.cache k).add t email v), pending := none } := by
  have hadd : ((w.cache k).add t email v).ll = ⟨email, t, v⟩ :: (w.cache k).ll := by
    unfold Cache.add
    rw [hmiss]
    rfl
  have hcount : ∀ k' email', World.cached { w with
        cache := Function.update w.cache k ((w.cache k).add t email v), pending := none }
        k' email' = w.cached k' email' + w.waiting k' email' := by
    intro k' email'
    refine (cached_update (w := w) ((w.cache k).add t email v) k').trans ?_
    unfold World.waiting
    rw [hpending]
    by_cases hk : k' = k
    · subst hk
      rw [if_pos rfl, hadd, List.countP_cons, World.cached]
      by_cases he : email = email'
      · simp [he]
      · simp [he]
    · rw [if_neg hk, if_neg (fun he => hk (Prod.mk.inj (Option.some.inj he)).1.symm), Nat.add_zero]
  refine ⟨⟨⟨h.orderly.lock, fun hp => absurd rfl hp, fun k' email' => ?_, fun k' email' => ?_⟩, ?_⟩,
    ⟨List.Subset.refl _, List.Subset.refl _, fun _ u hu => ⟨u, hu, Moved.refl _ u⟩⟩,
    away_of_mine (Or.inr hmine) rfl⟩
  · have hledger := h.orderly.ledger k' email'
    have := hcount k' email'
    simp only [World.fetches, World.expiries] at hledger ⊢
    simp only [World.waiting, reduceCtorEq, if_false] at this hledger ⊢
    omega
  · have honce := h.orderly.once k' email'
    rw [hcount k' email']
    simp only [World.waiting, reduceCtorEq, if_false] at honce ⊢
    omega
  · refine ⟨fun k' e he => ?_, h.sourced.sessions, h.sourced.heap⟩
    by_cases hk : k' = k
    · subst hk
      simp only [Function.update_self, hadd] at he
      rcases List.mem_cons.mp he with rfl | he
      · exact hv
      · exact h.sourced.cache k' e he
    · simp only [Function.update_of_ne hk] at he
      exact h.sourced.cache k' e he

end Steps

/-! ## Steps on sessions and users -/

section Heap

variable {i : ι} {w : World ι}

theorem Fine.of_eq (h : Inv w) {w' : World ι} (he : w' = w) : Fine i w w' := by
  subst he
  exact ⟨h, Later.refl _, fun j _ => Away.refl j _⟩

/-- Only the sessions, the users and who was verified change. -/
theorem Fine.of_heap (h : Inv w) (sessions : Cache Nat) (heap : List Account)
    (verified : List (String × Account)) (hverified : w.verified ⊆ verified)
    (hheap : ∀ (p : Nat) u, w.heap[p]? = some u →
      ∃ u', heap[p]? = some u' ∧ Moved w.fetched u u')
    (hsessions : ∀ e ∈ sessions.ll, e ∈ w.sessions.ll ∨ Rightful
      { w with sessions := sessions, heap := heap, verified := verified } e.key e.val)
    (hnew : ∀ p, p < heap.length → p < w.heap.length ∨ ∃ ticket, Rightful
      { w with sessions := sessions, heap := heap, verified := verified } ticket p) :
    Fine i w { w with sessions := sessions, heap := heap, verified := verified } := by
  have hlater : Later w { w with sessions := sessions, heap := heap, verified := verified } :=
    ⟨List.Subset.refl _, hverified, hheap⟩
  refine ⟨⟨⟨h.orderly.lock, h.orderly.owner, h.orderly.ledger, h.orderly.once⟩,
    h.sourced.cache, fun e he => ?_, fun p hp => ?_⟩, hlater,
    fun j _ => ⟨fun hj => hj, fun hj => ⟨hj, rfl, rfl⟩⟩⟩
  · rcases hsessions e he with he | hright
    · exact (h.sourced.sessions e he).later hlater
    · exact hright
  · rcases hnew p hp with hp | hright
    · exact (h.sourced.heap p hp).imp fun _ ht => ht.later hlater
    · exact hright

theorem fine_sessionEvict (h : Inv w) (t : Int) :
    Fine i w { w with sessions := w.sessions.evict t } :=
  Fine.of_heap h _ _ _ (List.Subset.refl _) (fun _ u hu => ⟨u, hu, Moved.refl _ u⟩)
    (fun _ he => Or.inl (mem_of_mem_evict he)) fun _ hp => Or.inl hp

theorem fine_sessionAdd (h : Inv w) {ticket : String} {p : Nat} (hp : Rightful w ticket p)
    (t : Int) : Fine i w { w with sessions := w.sessions.add t ticket p } := by
  refine Fine.of_heap h _ _ _ (List.Subset.refl _) (fun _ u hu => ⟨u, hu, Moved.refl _ u⟩)
    (fun e he => ?_) fun _ hp => Or.inl hp
  rcases mem_of_mem_add he with he | ⟨hk, hv⟩
  · exact Or.inl he
  · rw [hk, hv]
    exact Or.inr hp

theorem fine_verify (h : Inv w) (ticket : String) (d : Account) :
    Fine i w { w with verified := (ticket, d) :: w.verified } :=
  Fine.of_heap h _ _ _ (List.subset_cons_self _ _) (fun _ u hu => ⟨u, hu, Moved.refl _ u⟩)
    (fun _ he => Or.inl he) fun _ hp => Or.inl hp

theorem getElem?_concat_of_some {u d : Account} {heap : List Account} {p : Nat}
    (h : heap[p]? = some u) : (heap ++ [d])[p]? = some u := by
  rw [List.getElem?_append_left (List.getElem?_eq_some_iff.mp h).1, h]

/-- A new user is the one that was verified. -/
theorem rightful_new {ticket : String} {d : Account} (hd : (ticket, d) ∈ w.verified) :
    Rightful { w with heap := w.heap ++ [d] } ticket w.heap.length :=
  ⟨d, hd, d, List.getElem?_concat_length, Moved.refl _ d⟩

theorem fine_new (h : Inv w) {ticket : String} {d : Account} (hd : (ticket, d) ∈ w.verified) :
    Fine i w { w with heap := w.heap ++ [d] } := by
  refine Fine.of_heap h _ _ _ (List.Subset.refl _)
    (fun _ u hu => ⟨u, getElem?_concat_of_some hu, Moved.refl _ u⟩) (fun _ he => Or.inl he)
    fun p hp => ?_
  rw [List.length_append, List.length_singleton] at hp
  by_cases hlt : p < w.heap.length
  · exact Or.inl hlt
  · obtain rfl : p = w.heap.length := by omega
    exact Or.inr ⟨ticket, rightful_new hd⟩

theorem getElem?_modify {heap : List Account} {p q : Nat} {f : Account → Account} {u : Account}
    (h : heap[q]? = some u) : (heap.modify p f)[q]? = some (if p = q then f u else u) := by
  rw [List.getElem?_modify, h]
  split <;> rfl

/-- A write that moves the user on. -/
theorem fine_modify (h : Inv w) {p : Nat} {f : Account → Account}
    (hf : ∀ u, w.heap[p]? = some u → Moved w.fetched u (f u)) : Fine i w (w.modify p f) := by
  refine Fine.of_heap h _ _ _ (List.Subset.refl _) (fun q u hu => ⟨_, getElem?_modify hu, ?_⟩)
    (fun _ he => Or.inl he) fun q hq => Or.inl (by simpa using hq)
  by_cases hpq : p = q
  · subst hpq
    rw [if_pos rfl]
    exact hf u hu
  · rw [if_neg hpq]
    exact Moved.refl _ u

end Heap

/-! ## What a request knows -/

section Known

variable {w w' : World ι} {p : Nat}

def Mail (w : World ι) (p : Nat) (email : String) : Prop :=
  ∃ u, w.heap[p]? = some u ∧ u.email = email

def HasRes (w : World ι) (p : Nat) : Prop :=
  ∃ u, w.heap[p]? = some u ∧ Given w.fetched .res u.email u.res

def HasRoles (w : World ι) (p : Nat) : Prop :=
  ∃ u, w.heap[p]? = some u ∧ Given w.fetched .roles u.email u.roles

def HasAdmin (w : World ι) (p : Nat) : Prop :=
  ∃ u, w.heap[p]? = some u ∧ (u.isAdmin = true → Given w.fetched .admins u.email true)

theorem Mail.later {email : String} (h : Mail w p email) (hle : Later w w') : Mail w' p email := by
  obtain ⟨u, hu, rfl⟩ := h
  obtain ⟨u', hu', hmoved⟩ := hle.heap p u hu
  exact ⟨u', hu', hmoved.email⟩

theorem HasRes.later (h : HasRes w p) (hle : Later w w') : HasRes w' p := by
  obtain ⟨u, hu, hg⟩ := h
  obtain ⟨u', hu', hmoved⟩ := hle.heap p u hu
  refine ⟨u', hu', ?_⟩
  rw [hmoved.email]
  rcases hmoved.res with he | hg'
  · rw [he]
    exact hle.fetched hg
  · exact hg'

theorem HasRoles.later (h : HasRoles w p) (hle : Later w w') : HasRoles w' p := by
  obtain ⟨u, hu, hg⟩ := h
  obtain ⟨u', hu', hmoved⟩ := hle.heap p u hu
  refine ⟨u', hu', ?_⟩
  rw [hmoved.email]
  rcases hmoved.roles with he | hg'
  · rw [he]
    exact hle.fetched hg
  · exact hg'

theorem HasAdmin.later (h : HasAdmin w p) (hle : Later w w') : HasAdmin w' p := by
  obtain ⟨u, hu, hg⟩ := h
  obtain ⟨u', hu', hmoved⟩ := hle.heap p u hu
  refine ⟨u', hu', fun ha => ?_⟩
  rw [hmoved.email]
  rcases hmoved.isAdmin ha with hb | hg'
  · exact hle.fetched (hg hb)
  · exact hg'

/-- What `loadInfo` leaves: all rights are those of the user. -/
structure Loaded (w : World ι) (p : Nat) : Prop where
  res : HasRes w p
  roles : HasRoles w p
  isAdmin : HasAdmin w p

theorem Loaded.later (h : Loaded w p) (hle : Later w w') : Loaded w' p :=
  ⟨h.res.later hle, h.roles.later hle, h.isAdmin.later hle⟩

end Known

/-! ## The programs keep the pact -/

section Programs

variable [DecidableEq ι] {i : ι} {α β : Type}

def pact : Pact ι (rules (ι := ι)) where
  inv := Inv
  le := Later
  away := Away
  refl := Later.refl
  trans := Later.trans
  away_refl := Away.refl
  away_trans := Away.trans
  drift _ h := h.elim

/-- What holds when there is no error. -/
def OnSome (Q : α → World ι → Prop) (r : Option α) (w : World ι) : Prop := ∀ a, r = some a → Q a w

theorem upholds_of_fine {post : α → World ι → Prop} {c : Call ι} {k : Ans c → P ι α} {w : World ι}
    (h : ∀ w₁, Later w w₁ → Away i w w₁ → Inv w₁ → ∀ a w₂, serve c w₁ a w₂ →
      Fine i w₁ w₂ ∧ (Fine i w₁ w₂ → Upholds pact i post (k a) w₂)) :
    Upholds pact i post (.ask c k) w := by
  intro w₁ hle haway hinv a w₂ hserve
  obtain ⟨hfine, hrest⟩ := h w₁ hle haway hinv a w₂ hserve
  exact ⟨hfine.inv, hfine.later, hfine.others, hrest hfine⟩

theorem upholds_andThen {p : P ι (Option α)} {f : α → P ι (Option β)} {Q : α → World ι → Prop}
    {R : β → World ι → Prop} {w : World ι} (hp : Upholds pact i (OnSome Q) p w)
    (hf : ∀ a w', Later w w' → Q a w' → Upholds pact i (OnSome R) (f a) w') :
    Upholds pact i (OnSome R) (andThen p f) w := by
  refine hp.bind fun r w' hle hr => ?_
  cases r with
  | some a => exact hf a w' hle (hr a rfl)
  | none => exact fun _ h => nomatch h

omit [DecidableEq ι] in
theorem given_of_lookup {w : World ι} (h : Inv w) {k : Kind} {email : String} {v : k.T}
    (hv : (w.cache k).lookup email = some v) : Given w.fetched k email v := by
  obtain ⟨e, he, rfl, rfl⟩ := exists_mem_of_lookup hv
  exact h.sourced.cache k e he

/-- The end of a load, with the write lock and nothing left to add. -/
theorem upholds_unlock {w : World ι} {k : Kind} {email : String} (hmine : w.writer = some i)
    (hnone : w.pending = none) {r : Option k.T} (hr : ∀ v, r = some v → Given w.fetched k email v) :
    Upholds pact i (OnSome fun v w => Given w.fetched k email v)
      (.ask (.unlock i) fun _ => .done r) w := by
  refine upholds_of_fine fun w₁ hle haway hinv _ w₂ hserve => ?_
  obtain rfl := hserve
  obtain ⟨hmine₁, -, hpending₁⟩ := haway.writes hmine
  refine ⟨fine_unlock hinv hmine₁ (hpending₁.trans hnone), fun _ v hv => ?_⟩
  exact hle.fetched (hr v hv)

/-- A load returns what was answered for the email. -/
theorem upholds_load (k : Kind) (email : String) (w : World ι) :
    Upholds pact i (OnSome fun v w => Given w.fetched k email v) (load i k email) w := by
  -- under the read lock
  refine upholds_of_fine fun w₁ _ _ hinv _ w₂ ⟨hfree, hw₂⟩ =>
    ⟨hw₂ ▸ fine_rlock hinv hfree, fun _ => ?_⟩
  have hread : i ∈ w₂.readers := hw₂ ▸ List.mem_cons_self
  refine upholds_of_fine fun w₃ _ haway hinv _ w₄ ⟨t, old, hold, hw₄⟩ =>
    ⟨hw₄ ▸ fine_evict hinv (Or.inl (hinv.writer_none (haway.reads hread))) hold, fun _ => ?_⟩
  refine upholds_of_fine fun w₅ _ _ hinv v w₆ ⟨hv, hw₆⟩ =>
    ⟨Fine.of_eq hinv hw₆, fun hfine => ?_⟩
  cases v with
  | some v =>
    have hgiven : Given w₆.fetched k email v := hw₆ ▸ given_of_lookup hinv hv.symm
    exact upholds_of_fine fun w₇ hle _ hinv _ w₈ hw₈ =>
      ⟨hw₈ ▸ fine_runlock hinv, fun hfine v' hv' => by
        cases hv'
        exact hfine.later.fetched (hle.fetched hgiven)⟩
  | none =>
    refine upholds_of_fine fun w₇ _ _ hinv _ w₈ hw₈ => ⟨hw₈ ▸ fine_runlock hinv, fun _ => ?_⟩
    -- under the write lock: from here on the others leave the caches alone
    refine upholds_of_fine fun w₉ _ _ hinv _ w ⟨hfree, hnone, hw⟩ =>
      ⟨hw ▸ fine_lock hinv hfree hnone, fun _ => ?_⟩
    have hmine : w.writer = some i := hw ▸ rfl
    have hidle : w.pending = none := by
      subst hw
      by_contra hp
      exact hinv.orderly.owner hp hfree
    refine upholds_of_fine fun w₁ _ haway hinv _ w₂ ⟨t, old, hold, hw₂⟩ => ?_
    obtain ⟨hmine₁, -, hidle₁⟩ := haway.writes hmine
    refine ⟨hw₂ ▸ fine_evict hinv (Or.inr hmine₁) hold, fun _ => ?_⟩
    have hmine₂ : w₂.writer = some i := hw₂ ▸ hmine₁
    have hidle₂ : w₂.pending = none := hw₂ ▸ hidle₁.trans hidle
    refine upholds_of_fine fun w₃ _ haway hinv v w₄ ⟨hv, hw₄⟩ =>
      ⟨Fine.of_eq hinv hw₄, fun _ => ?_⟩
    subst hw₄
    obtain ⟨hmine₄, -, hidle₄⟩ := haway.writes hmine₂
    cases v with
    | some v =>
      refine upholds_unlock hmine₄ (hidle₄.trans hidle₂) fun v' hv' => ?_
      cases hv'
      exact given_of_lookup hinv hv.symm
    | none =>
      refine upholds_of_fine fun w₅ _ haway hinv r w₆ hserve => ?_
      obtain ⟨hmine₅, hcache₅, hidle₅⟩ := haway.writes hmine₄
      have hidle' : w₅.pending = none := hidle₅.trans (hidle₄.trans hidle₂)
      have hmiss : (w₅.cache k).lookup email = none := by
        rw [hcache₅]
        exact hv.symm
      cases r with
      | none =>
        obtain rfl := hserve
        exact ⟨Fine.of_eq hinv rfl, fun _ => upholds_unlock hmine₅ hidle' fun _ h => nomatch h⟩
      | some v =>
        obtain rfl := hserve
        refine ⟨fine_fetch hinv hmine₅ hidle' hmiss v, fun _ => ?_⟩
        -- what was fetched is added before anyone else can look
        refine upholds_of_fine fun w₇ hle haway hinv _ w₈ ⟨t, hw₈⟩ => ?_
        obtain ⟨hmine₇, hcache₇, hpending₇⟩ := haway.writes hmine₅
        have hgiven : Given w₇.fetched k email v := hle.fetched List.mem_cons_self
        have hmiss₇ : (w₇.cache k).lookup email = none := by
          rw [hcache₇]
          exact hmiss
        subst hw₈
        refine ⟨fine_add hinv hmine₇ hpending₇ hmiss₇ hgiven t, fun _ => ?_⟩
        refine upholds_unlock ?_ rfl fun v' hv' => ?_
        · exact hmine₇
        · cases hv'
          exact hgiven

/-- A field of the user at `p` is written. -/
theorem upholds_modify {post : α → World ι → Prop} {c : Call ι} {k : Ans c → P ι α} {p : Nat}
    {f : Account → Account} {w : World ι} {email : String}
    (hc : ∀ w a w', serve c w a w' → w' = w.modify p f) (hmail : Mail w p email)
    (hf : ∀ w₁, Later w w₁ → ∀ u, u.email = email → Moved w₁.fetched u (f u))
    (hrest : ∀ w₁ u a, Later w w₁ → w₁.heap[p]? = some u → u.email = email →
      Later w (w₁.modify p f) → (w₁.modify p f).heap[p]? = some (f u) →
        Upholds pact i post (k a) (w₁.modify p f)) :
    Upholds pact i post (.ask c k) w := by
  refine upholds_of_fine fun w₁ hle _ hinv a w₂ hserve => ?_
  obtain rfl := hc _ _ _ hserve
  obtain ⟨u, hu, hemail⟩ := hmail.later hle
  have hfine : Fine i w₁ (w₁.modify p f) := fine_modify hinv fun v hv => by
    rw [hu, Option.some.injEq] at hv
    exact hf w₁ hle v (hv ▸ hemail)
  refine ⟨hfine, fun _ => hrest w₁ u a hle hu hemail (Later.trans hle hfine.later) ?_⟩
  have hsame := getElem?_modify (p := p) (f := f) hu
  rwa [if_pos rfl] at hsame

theorem upholds_email {post : α → World ι → Prop} {p : Nat} {k : String → P ι α} {w : World ι}
    (h : ∀ email w', Later w w' → Mail w' p email → Upholds pact i post (k email) w') :
    Upholds pact i post (.ask (.email p) k) w := by
  refine upholds_of_fine fun w₁ hle _ hinv a w₂ ⟨⟨u, hu, ha⟩, hw₂⟩ =>
    ⟨Fine.of_eq hinv hw₂, fun hfine => ?_⟩
  exact h a w₂ (Later.trans hle hfine.later) ⟨u, hw₂ ▸ hu, ha.symm⟩

theorem upholds_setResource {p : Nat} {email : String} {ids : List Int} {w : World ι}
    (hmail : Mail w p email) (hids : Given w.fetched .res email ids) :
    Upholds pact i (OnSome fun _ w => HasRes w p) (setResource p ids) w := by
  refine upholds_modify (f := fun u => { u with res := ids }) (fun _ _ _ h => h) hmail
    (fun w₁ hle u hu => { Moved.refl _ u with res := Or.inr (hu ▸ hle.fetched hids) })
    fun w₁ u _ hle₁ hu hemail hle hu₂ => ?_
  have hres : HasRes (w₁.modify p fun u => { u with res := ids }) p :=
    ⟨_, hu₂, hemail ▸ hle.fetched hids⟩
  split
  · exact fun _ _ => hres
  · refine upholds_modify (f := fun u => { u with resKey := idsKey ids }) (fun _ _ _ h => h)
      (hmail.later hle) (fun w₂ hle₂ u hu => { Moved.refl _ u with
        resKey := Or.inr ⟨ids, hu ▸ hle₂.fetched (hle.fetched hids), rfl⟩ })
      fun w₂ u _ _ _ _ hle₂ _ => fun _ _ => hres.later hle₂

theorem upholds_setRoles {p : Nat} {email : String} {ids : List Int} {w : World ι}
    (hmail : Mail w p email) (hids : Given w.fetched .roles email ids) :
    Upholds pact i (OnSome fun _ w => HasRoles w p) (setRoles p ids) w := by
  refine upholds_modify (f := fun u => { u with roles := ids }) (fun _ _ _ h => h) hmail
    (fun w₁ hle u hu => { Moved.refl _ u with roles := Or.inr (hu ▸ hle.fetched hids) })
    fun w₁ u _ hle₁ hu hemail hle hu₂ => ?_
  have hroles : HasRoles (w₁.modify p fun u => { u with roles := ids }) p :=
    ⟨_, hu₂, hemail ▸ hle.fetched hids⟩
  split
  · exact fun _ _ => hroles
  · refine upholds_modify (f := fun u => { u with rolesKey := idsKey ids }) (fun _ _ _ h => h)
      (hmail.later hle) (fun w₂ hle₂ u hu => { Moved.refl _ u with
        rolesKey := Or.inr ⟨ids, hu ▸ hle₂.fetched (hle.fetched hids), rfl⟩ })
      fun w₂ u _ _ _ _ hle₂ _ => fun _ _ => hroles.later hle₂

theorem upholds_isAdmin (email : String) (w : World ι) :
    Upholds pact i (fun b w => b = true → Given w.fetched .admins email true) (isAdmin i email)
      w := by
  refine (upholds_load .admins email w).bind fun r w₁ _ hr hb => ?_
  cases r with
  | none => cases hb
  | some b' =>
    obtain rfl : b' = true := hb
    exact hr true rfl

theorem upholds_loadInfo (p : Nat) (w : World ι) :
    Upholds pact i (OnSome fun _ w => Loaded w p) (loadInfo i p) w := by
  refine upholds_email fun email w₁ _ hmail => upholds_andThen (upholds_load .res email w₁)
    fun res w₂ hle₂ hres => upholds_andThen (upholds_setResource (hmail.later hle₂) hres)
    fun _ w₃ _ hasRes => upholds_email fun email w₄ hle₄ hmail => upholds_andThen
    (upholds_load .roles email w₄) fun roles w₅ hle₅ hroles => upholds_andThen
    (upholds_setRoles (hmail.later hle₅) hroles) fun _ w₆ hle₆ hasRoles =>
    upholds_email fun email w₇ hle₇ hmail => ?_
  have hlate := Later.trans hle₄ (Later.trans hle₅ (Later.trans hle₆ hle₇))
  refine (upholds_isAdmin email w₇).bind fun b w₈ hle₈ hb => upholds_modify
    (f := fun u => { u with isAdmin := b }) (fun _ _ _ h => h) (hmail.later hle₈)
    (fun w₉ hle₉ u hu => { Moved.refl _ u with
      isAdmin := fun ha => Or.inr (hu ▸ hle₉.fetched (hb ha)) })
    fun w₉ u _ hle₉ hu hemail hle hu₂ _ _ => ?_
  have hend := Later.trans hle₈ hle
  exact ⟨hasRes.later (Later.trans hlate hend), hasRoles.later (Later.trans hle₇ hend), _, hu₂,
    fun ha => hemail ▸ hle.fetched (hb ha)⟩

/-- What a request gets for its ticket. -/
def Granted (ticket : Option String) (r : Option Nat) (w : World ι) : Prop :=
  ∀ p, r = some p → ∃ t, ticket = some t ∧ Rightful w t p ∧ Loaded w p

theorem upholds_user (ticket : Option String) (w : World ι) :
    Upholds pact i (Granted ticket) (user i ticket) w := by
  cases ticket with
  | none => exact fun _ h => nomatch h
  | some ticket =>
    refine upholds_of_fine fun w₁ _ _ hinv _ w₂ ⟨t, hw₂⟩ =>
      ⟨hw₂ ▸ fine_sessionEvict hinv t, fun _ => ?_⟩
    refine upholds_of_fine fun w₃ _ _ hinv val w₄ ⟨hval, hw₄⟩ =>
      ⟨Fine.of_eq hinv hw₄, fun _ => ?_⟩
    subst hw₄
    cases val with
    | some p =>
      obtain ⟨e, he, rfl, rfl⟩ := exists_mem_of_lookup hval.symm
      have hright := hinv.sourced.sessions e he
      refine (upholds_loadInfo e.val _).bind fun r w₅ hle hr => ?_
      cases r with
      | none => exact fun _ h => nomatch h
      | some _ =>
        intro p hp
        cases hp
        exact ⟨e.key, rfl, hright.later hle, hr () rfl⟩
    | none =>
      refine upholds_of_fine fun w₅ _ _ hinv resp w₆ hserve => ?_
      match resp with
      | none =>
        obtain rfl := hserve
        exact ⟨Fine.of_eq hinv rfl, fun _ _ h => nomatch h⟩
      | some (false, _) =>
        obtain rfl := hserve
        exact ⟨Fine.of_eq hinv rfl, fun _ _ h => nomatch h⟩
      | some (true, d) =>
        obtain rfl := hserve
        refine ⟨fine_verify hinv ticket d, fun _ => ?_⟩
        refine upholds_of_fine fun w₇ hle hinv₇ hinv p w₈ ⟨hp, hw₈⟩ => ?_
        have hd : (ticket, d) ∈ w₇.verified := hle.verified List.mem_cons_self
        subst hw₈ hp
        refine ⟨fine_new hinv hd, fun _ => ?_⟩
        have hright := rightful_new hd
        refine (upholds_loadInfo w₇.heap.length _).bind fun r w₉ hle₉ hr => ?_
        cases r with
        | none => exact fun _ h => nomatch h
        | some _ =>
          have hright₉ := hright.later hle₉
          have hloaded := hr () rfl
          refine upholds_email fun email w₁ hle₁ hmail => ?_
          refine (upholds_load .uid email w₁).bind fun r w₂ hle₂ hr => ?_
          cases r with
          | none => exact fun _ h => nomatch h
          | some id =>
            refine upholds_modify (f := fun u => { u with userID := id }) (fun _ _ _ h => h)
              (hmail.later hle₂) (fun w₃ hle₃ u hu => { Moved.refl _ u with
                userID := Or.inr (hu ▸ hle₃.fetched (hr id rfl)) })
              fun w₃ u _ _ _ _ hle₃ _ => ?_
            have hlate := Later.trans hle₁ (Later.trans hle₂ hle₃)
            refine upholds_of_fine fun w₄ hle₄ _ hinv _ w₅ ⟨t, hw₅⟩ => ?_
            have hend := Later.trans hlate hle₄
            have hfine : Fine i w₄ w₅ := hw₅ ▸ fine_sessionAdd hinv (hright₉.later hend) t
            refine ⟨hfine, fun _ p hp => ?_⟩
            cases hp
            have hlast := Later.trans hend hfine.later
            exact ⟨ticket, rfl, hright₉.later hlast, hloaded.later hlast⟩

end Programs

/-! ## Any number of requests -/

section Requests

variable [DecidableEq ι] (timeout : Int) (tickets : ι → Option String)

/-- The manager with these requests, none of which has begun. -/
def manager : Crew ι (Ans (ι := ι)) (Option Nat) (World ι) :=
  ⟨fun i => user i (tickets i), start timeout⟩

omit [DecidableEq ι] in
theorem inv_start : Inv (start timeout : World ι) where
  orderly := ⟨fun h => absurd rfl h, fun h => absurd rfl h, fun _ _ => rfl, fun _ _ => Nat.zero_le 1⟩
  sourced := ⟨fun _ _ h => absurd h List.not_mem_nil, fun _ h => absurd h List.not_mem_nil,
    fun _ h => absurd h (Nat.not_lt_zero _)⟩

theorem upholds_manager {tr : List (ι × Answered (Ans (ι := ι)))}
    {t : Crew ι (Ans (ι := ι)) (Option Nat) (World ι)}
    (hrun : (manager timeout tickets).Run rules tr t) :
    Inv t.world ∧ ∀ i, Upholds pact i (Granted (tickets i)) (t.prog i) t.world := by
  refine Crew.Run.upholds (P := pact) (s := manager timeout tickets)
    (fun i r w w' h hle _ p hp => ?_) (inv_start timeout) (fun i => upholds_user (tickets i) _) hrun
  obtain ⟨ticket, hticket, hright, hloaded⟩ := h p hp
  exact ⟨ticket, hticket, hright.later hle, hloaded.later hle⟩

/-- No right of a user is fetched more often than their entries expire, and once. -/
def FetchesOnce : Prop :=
  ∀ tr t, (manager timeout tickets).Run rules tr t →
    ∀ k email, t.world.fetches k email ≤ 1 + t.world.expiries k email

/-- However the requests are interleaved. -/
theorem fetched_once : FetchesOnce timeout tickets := by
  intro tr t hrun k email
  have horderly := (upholds_manager timeout tickets hrun).1.orderly
  have hledger := horderly.ledger k email
  have honce := horderly.once k email
  omega

/-- A request that gets a user gets the one its ticket was verified for, with lists and admin
    right that were answered for that user; and whatever any user has at any moment, the sign-on
    gave or was answered for them. -/
structure KeepsApart : Prop where
  own : ∀ tr t, (manager timeout tickets).Run rules tr t → ∀ i p, t.prog i = .done (some p) →
    ∃ ticket d u, tickets i = some ticket ∧ (ticket, d) ∈ t.world.verified ∧
      t.world.heap[p]? = some u ∧ Moved t.world.fetched d u ∧
      Given t.world.fetched .res d.email u.res ∧ Given t.world.fetched .roles d.email u.roles ∧
      (u.isAdmin = true → Given t.world.fetched .admins d.email true)
  all : ∀ tr t, (manager timeout tickets).Run rules tr t → ∀ (p : Nat) u,
    t.world.heap[p]? = some u →
      ∃ ticket d, (ticket, d) ∈ t.world.verified ∧ Moved t.world.fetched d u

theorem rights_of_user : KeepsApart timeout tickets where
  own tr t hrun i p hdone := by
    have hi := (upholds_manager timeout tickets hrun).2 i
    rw [hdone] at hi
    obtain ⟨ticket, hticket, ⟨d, hd, u, hu, hmoved⟩, hloaded⟩ := hi p rfl
    obtain ⟨u₁, hu₁, hres⟩ := hloaded.res
    obtain ⟨u₂, hu₂, hroles⟩ := hloaded.roles
    obtain ⟨u₃, hu₃, hadmin⟩ := hloaded.isAdmin
    obtain rfl := Option.some.inj (hu.symm.trans hu₁)
    obtain rfl := Option.some.inj (hu.symm.trans hu₂)
    obtain rfl := Option.some.inj (hu.symm.trans hu₃)
    rw [hmoved.email] at hres hroles hadmin
    exact ⟨ticket, d, u, hticket, hd, hu, hmoved, hres, hroles, hadmin⟩
  all tr t hrun p u hu := by
    have hsourced := (upholds_manager timeout tickets hrun).1.sourced
    obtain ⟨ticket, d, hd, u', hu', hmoved⟩ :=
      hsourced.heap p (List.getElem?_eq_some_iff.mp hu).1
    obtain rfl := Option.some.inj (hu.symm.trans hu')
    exact ⟨ticket, d, hd, hmoved⟩

end Requests

end Doodle.Manager.Users
