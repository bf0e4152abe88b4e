/-
  Sorted lists under a strict weak order, and search trees with several items in a node.

  The order is a Boolean function, as a program compares. A tree is read in order: its node's items
  stand among what its children hold, a child before each item and one after the last (`weave`).
  To put an item into a sorted list is to put it between the lesser and the greater ones, in the
  place of an entry that is neither (`Places`).

  * `Places.ordered`, `Places.mem_iff`: the list stays sorted, and what it then holds.
  * `weave_append`: a node is cut at one of its items.
  * `Places.weave`, `find?_weave`: what is to be placed or found between two items of a node is
    placed or found in the child between them.
  * `foldUntil_append`, `foldUntil_find`: a walk that may stop early, over one part after the
    other, and to the first hit.
-/
import Mathlib.Data.List.Basic
import Mathlib.Data.List.Induction

namespace Doodle.Lib

variable {α : Type}

/-! ## The order -/

/-- A strict weak order. -/
structure StrictWeak (less : α → α → Bool) : Prop where
  irrefl : ∀ a, less a a = false
  trans : ∀ {a b c}, less a b → less b c → less a c
  cotrans : ∀ {a c} (b), less a c → less a b ∨ less b c

/-- Neither is less than the other. -/
def same (less : α → α → Bool) (a b : α) : Bool := !less a b && !less b a

def Ordered (less : α → α → Bool) (l : List α) : Prop := l.Pairwise fun a b => less a b

section Order

variable {less : α → α → Bool} {a b c : α}

theorem same_eq_true : same less a b = true ↔ less a b = false ∧ less b a = false := by
  simp [same]

theorem StrictWeak.less_of_less_of_same (h : StrictWeak less) (hab : less a b)
    (hbc : same less b c) : less a c := by
  rcases h.cotrans c hab with hac | hcb
  · exact hac
  · rw [(same_eq_true.mp hbc).2] at hcb
    cases hcb

theorem StrictWeak.less_of_same_of_less (h : StrictWeak less) (hab : same less a b)
    (hbc : less b c) : less a c := by
  rcases h.cotrans a hbc with hba | hac
  · rw [(same_eq_true.mp hab).2] at hba
    cases hba
  · exact hac

end Order

/-! ## Putting an item in its place -/

/-- `x` is put into `l` and gives `l'`, in the place of `out` if there is an entry to replace. -/
inductive Places (less : α → α → Bool) (x : α) : List α → Option α → List α → Prop
  | mk (low high : List α) (out : Option α) (hlow : ∀ y ∈ low, less y x)
      (hhigh : ∀ y ∈ high, less x y) (hout : ∀ y ∈ out, same less y x) :
      Places less x (low ++ (out.toList ++ high)) out (low ++ x :: high)

namespace Places

variable {less : α → α → Bool} {x : α} {l l' : List α} {out : Option α}

/-- Lesser entries before and greater ones behind do not matter. -/
theorem around (h : Places less x l out l') {low high : List α}
    (hlow : ∀ y ∈ low, less y x) (hhigh : ∀ y ∈ high, less x y) :
    Places less x (low ++ (l ++ high)) out (low ++ (l' ++ high)) := by
  cases h with
  | mk low₁ high₁ _ hlow₁ hhigh₁ hout =>
    have hplaces : Places less x _ out _ := Places.mk (low ++ low₁) (high₁ ++ high) out
      (fun y hy => (List.mem_append.mp hy).elim (hlow y) (hlow₁ y))
      (fun y hy => (List.mem_append.mp hy).elim (hhigh₁ y) (hhigh y)) hout
    simpa only [List.append_assoc, List.cons_append] using hplaces

/-- In a sorted list an entry may be replaced by one that is neither less nor greater. -/
theorem replace (hs : StrictWeak less) {low high : List α} {y : α}
    (hord : Ordered less (low ++ y :: high)) (hsame : same less y x) :
    Places less x (low ++ y :: high) (some y) (low ++ x :: high) := by
  obtain ⟨-, hhigh, hlow⟩ := List.pairwise_append.mp hord
  have hsymm : same less x y := same_eq_true.mpr (same_eq_true.mp hsame).symm
  refine Places.mk low high (some y) (fun z hz => ?_) (fun z hz => ?_) fun z hz => ?_
  · exact hs.less_of_less_of_same (hlow z hz y List.mem_cons_self) hsame
  · exact hs.less_of_same_of_less hsymm ((List.pairwise_cons.mp hhigh).1 z hz)
  · rw [← Option.mem_some_iff.mp hz]
    exact hsame

theorem ordered (h : Places less x l out l') (hs : StrictWeak less) (hl : Ordered less l) :
    Ordered less l' := by
  cases h with
  | mk low high _ hlow hhigh _ =>
    obtain ⟨h₁, h₂, -⟩ := List.pairwise_append.mp hl
    have h₂ := (List.pairwise_append.mp h₂).2.1
    refine List.pairwise_append.mpr ⟨h₁, List.pairwise_cons.mpr ⟨hhigh, h₂⟩, fun a ha b hb => ?_⟩
    rcases List.mem_cons.mp hb with rfl | hb
    · exact hlow a ha
    · exact hs.trans (hlow a ha) (hhigh b hb)

theorem mem_iff (h : Places less x l out l') {y : α} :
    y ∈ l' ↔ y = x ∨ y ∈ l ∧ same less y x = false := by
  cases h with
  | mk low high _ hlow hhigh hout =>
    have hlow' : y ∈ low → same less y x = false := fun hy => by simp [same, hlow y hy]
    have hhigh' : y ∈ high → same less y x = false := fun hy => by simp [same, hhigh y hy]
    have hout' : y ∈ out → same less y x := hout y
    simp only [List.mem_append, List.mem_cons, Option.mem_toList]
    grind

theorem length_eq (h : Places less x l out l') :
    l'.length = l.length + if out.isNone then 1 else 0 := by
  cases h with
  | mk low high out _ _ _ =>
    cases out with
    | none => simp; omega
    | some y => simp

end Places

/-- In a sorted list an entry that is neither less nor greater is the only one. -/
theorem find?_same {less : α → α → Bool} (hs : StrictWeak less) {low high : List α} {x y : α}
    (hord : Ordered less (low ++ y :: high)) (hsame : same less y x) :
    (low ++ y :: high).find? (fun z => same less z x) = some y := by
  have hnone : low.find? (fun z => same less z x) = none := by
    refine List.find?_eq_none.mpr fun z hz => ?_
    have hzy := (List.pairwise_append.mp hord).2.2 z hz y List.mem_cons_self
    simp [same, hs.less_of_less_of_same hzy hsame]
  rw [List.find?_append, hnone, Option.none_or, List.find?_cons, hsame]

/-! ## Nodes with several items -/

/-- What the children hold with the items of the node between them. -/
def weave : List (List α) → List α → List α
  | c :: cs, x :: xs => c ++ x :: weave cs xs
  | cs, [] => cs.flatten
  | [], xs => xs

@[simp] theorem weave_cons_cons (c : List α) (cs : List (List α)) (x : α) (xs : List α) :
    weave (c :: cs) (x :: xs) = c ++ x :: weave cs xs := rfl

@[simp] theorem weave_nil (cs : List (List α)) : weave cs [] = cs.flatten := by
  cases cs <;> rfl

/-- A leaf is a node with children that hold nothing. -/
theorem weave_replicate_nil : ∀ xs : List α, weave (List.replicate (xs.length + 1) []) xs = xs
  | [] => rfl
  | x :: xs => by
    rw [List.length_cons, List.replicate_succ, weave_cons_cons, weave_replicate_nil xs,
      List.nil_append]

/-- A node is cut at one of its items. -/
theorem weave_append {cs₁ cs₂ : List (List α)} {xs₁ xs₂ : List α} {x : α}
    (h : cs₁.length = xs₁.length + 1) :
    weave (cs₁ ++ cs₂) (xs₁ ++ x :: xs₂) = weave cs₁ xs₁ ++ x :: weave cs₂ xs₂ := by
  induction xs₁ generalizing cs₁ with
  | nil =>
    obtain ⟨c, rfl⟩ := List.length_eq_one_iff.mp h
    simp
  | cons y xs₁ ih =>
    cases cs₁ with
    | nil => cases h
    | cons c cs₁ =>
      rw [List.cons_append, List.cons_append, weave_cons_cons, weave_cons_cons,
        ih (Nat.succ.inj h), List.append_assoc, List.cons_append]

/-- Two children with an item between them are one child. -/
theorem weave_split {cs₁ cs₂ : List (List α)} {xs₁ xs₂ : List α} (a b : List α) (x : α)
    (h : cs₁.length = xs₁.length) : weave (cs₁ ++ a :: b :: cs₂) (xs₁ ++ x :: xs₂) =
      weave (cs₁ ++ (a ++ x :: b) :: cs₂) (xs₁ ++ xs₂) := by
  induction xs₁ generalizing cs₁ with
  | nil =>
    obtain rfl := List.length_eq_zero_iff.mp h
    cases xs₂ <;> simp
  | cons y xs₁ ih =>
    cases cs₁ with
    | nil => cases h
    | cons c cs₁ => simp [ih (Nat.succ.inj h)]

theorem sublist_weave : ∀ (cs : List (List α)) (xs : List α), xs.Sublist (weave cs xs)
  | [], xs => by cases xs <;> simp [weave]
  | _ :: _, [] => List.nil_sublist _
  | c :: cs, x :: xs => by
    rw [weave_cons_cons]
    exact ((sublist_weave cs xs).cons_cons x).trans (List.sublist_append_right c _)

theorem sublist_weave_of_mem {p : List α} {cs : List (List α)} {xs : List α} (hp : p ∈ cs)
    (hlen : cs.length = xs.length + 1) : p.Sublist (weave cs xs) := by
  induction xs generalizing cs with
  | nil => simpa using List.sublist_flatten_of_mem hp
  | cons x xs ih =>
    cases cs with
    | nil => cases hlen
    | cons c cs =>
      rw [weave_cons_cons]
      rcases List.mem_cons.mp hp with rfl | hp
      · exact List.sublist_append_left _ _
      · exact ((ih hp (Nat.succ.inj hlen)).cons x).trans (List.sublist_append_right c _)

section Around

variable {less : α → α → Bool} {x : α} {c : List α} {cs₁ cs₂ : List (List α)} {xs₁ xs₂ : List α}

/-- What stands before a child ends with the item before it, and what stands behind it begins with
    the item behind it. -/
theorem weave_around (h₁ : cs₁.length = xs₁.length) (h₂ : cs₂.length = xs₂.length) :
    ∃ low high : List α, (∀ c, weave (cs₁ ++ c :: cs₂) (xs₁ ++ xs₂) = low ++ (c ++ high)) ∧
      (low = [] ∨ ∃ l y, y ∈ xs₁ ∧ low = l ++ [y]) ∧
        (high = [] ∨ ∃ y l, y ∈ xs₂ ∧ high = y :: l) := by
  have hhigh : ∃ high : List α, (∀ c, weave (c :: cs₂) xs₂ = c ++ high) ∧
      (high = [] ∨ ∃ y l, y ∈ xs₂ ∧ high = y :: l) := by
    cases xs₂ with
    | nil =>
      obtain rfl := List.length_eq_zero_iff.mp h₂
      exact ⟨[], fun c => by simp, Or.inl rfl⟩
    | cons y xs₂ => exact ⟨y :: weave cs₂ xs₂, fun c => rfl, Or.inr ⟨y, _, List.mem_cons_self, rfl⟩⟩
  obtain ⟨high, hhigh, hend⟩ := hhigh
  rcases List.eq_nil_or_concat xs₁ with rfl | ⟨xs, y, rfl⟩
  · obtain rfl := List.length_eq_zero_iff.mp h₁
    exact ⟨[], high, hhigh, Or.inl rfl, hend⟩
  · refine ⟨weave cs₁ xs ++ [y], high, fun c => ?_, Or.inr ⟨_, y, by simp, rfl⟩, hend⟩
    rw [List.concat_eq_append, List.append_assoc, List.singleton_append,
      weave_append (by simpa using h₁), hhigh]
    simp

variable (hs : StrictWeak less) (h₁ : cs₁.length = xs₁.length) (h₂ : cs₂.length = xs₂.length)
  (hord : Ordered less (weave (cs₁ ++ c :: cs₂) (xs₁ ++ xs₂)))
  (hlow : ∀ y ∈ xs₁, less y x) (hhigh : ∀ y ∈ xs₂, less x y)

include hs h₁ h₂ hord hlow hhigh

/-- Around the child between the lesser and the greater items of a sorted node all is lesser or
    greater. -/
theorem weave_between : ∃ low high : List α,
    (∀ c, weave (cs₁ ++ c :: cs₂) (xs₁ ++ xs₂) = low ++ (c ++ high)) ∧
      (∀ y ∈ low, less y x) ∧ ∀ y ∈ high, less x y := by
  obtain ⟨low, high, hweave, hfirst, hlast⟩ := weave_around h₁ h₂
  rw [hweave] at hord
  obtain ⟨hordlow, hord, -⟩ := List.pairwise_append.mp hord
  have hordhigh := (List.pairwise_append.mp hord).2.1
  refine ⟨low, high, hweave, ?_, ?_⟩
  · rcases hfirst with rfl | ⟨l, z, hz, rfl⟩
    · exact fun y hy => absurd hy List.not_mem_nil
    · intro y hy
      rcases List.mem_append.mp hy with hy | hy
      · have hyz := (List.pairwise_append.mp hordlow).2.2 y hy z List.mem_cons_self
        exact hs.trans hyz (hlow z hz)
      · rw [List.mem_singleton.mp hy]
        exact hlow z hz
  · rcases hlast with rfl | ⟨z, l, hz, rfl⟩
    · exact fun y hy => absurd hy List.not_mem_nil
    · intro y hy
      rcases List.mem_cons.mp hy with rfl | hy
      · exact hhigh y hz
      · exact hs.trans (hhigh z hz) ((List.pairwise_cons.mp hordhigh).1 y hy)

theorem Places.weave {c' : List α} {out : Option α} (h : Places less x c out c') :
    Places less x (weave (cs₁ ++ c :: cs₂) (xs₁ ++ xs₂)) out
      (Lib.weave (cs₁ ++ c' :: cs₂) (xs₁ ++ xs₂)) := by
  obtain ⟨low, high, hweave, hl, hh⟩ := weave_between hs h₁ h₂ hord hlow hhigh
  rw [hweave, hweave]
  exact h.around hl hh

theorem find?_weave : (weave (cs₁ ++ c :: cs₂) (xs₁ ++ xs₂)).find? (fun y => same less y x) =
    c.find? fun y => same less y x := by
  obtain ⟨low, high, hweave, hl, hh⟩ := weave_between hs h₁ h₂ hord hlow hhigh
  have hlnone : low.find? (fun y => same less y x) = none :=
    List.find?_eq_none.mpr fun y hy => by simp [same, hl y hy]
  have hhnone : high.find? (fun y => same less y x) = none :=
    List.find?_eq_none.mpr fun y hy => by simp [same, hh y hy]
  rw [hweave, List.find?_append, List.find?_append, hlnone, hhnone, Option.none_or, Option.or_none]

end Around

/-! ## Walks that may stop early -/

/-- Calls `iter` for one entry after the other until it says false; the flag tells whether it never
    did. -/
def foldUntil {σ : Type} (iter : α → σ → σ × Bool) : List α → σ → σ × Bool
  | [], s => (s, true)
  | x :: xs, s => if (iter x s).2 then foldUntil iter xs (iter x s).1 else ((iter x s).1, false)

theorem foldUntil_append {σ : Type} (iter : α → σ → σ × Bool) : ∀ (l l' : List α) (s : σ),
    foldUntil iter (l ++ l') s = if (foldUntil iter l s).2 then
      foldUntil iter l' (foldUntil iter l s).1 else ((foldUntil iter l s).1, false)
  | [], _, _ => rfl
  | x :: l, l', s => by
    rw [List.cons_append, foldUntil, foldUntil]
    by_cases h : (iter x s).2 = true
    · rw [if_pos h, if_pos h, foldUntil_append iter l l']
    · rw [if_neg h, if_neg h]
      rfl

/-- A walk that stops at the first hit, and says in its state whether the last entry was one. -/
theorem foldUntil_find (p : α → Bool) (l : List α) {s : α × Bool} (hs : s.2 = false) :
    ∃ last, (foldUntil (fun x _ => ((x, p x), !p x)) l s).1 =
      (l.find? p).elim (last, false) fun x => (x, true) := by
  induction l generalizing s with
  | nil => exact ⟨s.1, by rw [← hs]; rfl⟩
  | cons x l ih =>
    rw [foldUntil]
    cases hx : p x with
    | true => exact ⟨x, by simp [hx]⟩
    | false =>
      obtain ⟨last, hlast⟩ := ih (s := (x, false)) rfl
      exact ⟨last, by simpa [hx] using hlast⟩

end Doodle.Lib
