/-
  The b-tree of `github.com/google/btree`, as far as the HTTP server uses it: `New`,
  `ReplaceOrInsert`, `Get`, `Has` and `AscendGreaterOrEqual`.

  A node has items and children, and all leaves are equally deep, as a tree grows by a new root
  only. The depth of the leaves is in the type of a node, and a node with leaves at depth 0 has no
  children. A tree here is never cloned, so its nodes are its own (`mutableFor` returns the node)
  and the free list is out of sight. `none` is an index out of range.

  * `replaceOrInsert_spec`: on a well-formed tree nothing is out of range, the item is put in its
    place among the sorted items, and the tree stays well-formed: every node but the root is at
    least half full, and each inner node has one child more than items.
  * `get_spec`, `ascendGreaterOrEqual_spec`: a lookup finds the entry that is neither less nor
    greater, and a walk is one over the sorted items from the pivot on, until it is stopped.
-/
import Doodle.Go.Sort
import Doodle.Lib.SearchTree

namespace Doodle.Google.Btree

open Doodle.Go Doodle.Lib

/-! ## Nodes -/

/-- `node`, with items `α` and children `C`. -/
structure Cell (α C : Type) where
  items : List α
  children : List C

/-- The children of a node with its leaves at depth `n` below it. -/
@[reducible] def Below (α : Type) : Nat → Type
  | 0 => Empty
  | n + 1 => Cell α (Below α n)

/-- A node with its leaves at depth `n` below it. -/
abbrev Node (α : Type) (n : Nat) := Cell α (Below α n)

section Model

variable {α C : Type}

/-- `insertAt` of items and of children. -/
def insertAt {β : Type} (s : List β) (index : Nat) (x : β) : Option (List β) :=
  if index ≤ s.length then some (s.take index ++ x :: s.drop index) else none

/-- `split` of a node: the item, what is left of the node, and the new node. -/
def Cell.split (n : Cell α C) (i : Nat) : Option (α × Cell α C × Cell α C) := do
  let item ← n.items[i]?
  if 0 < n.children.length then
    if i + 1 ≤ n.children.length then
      return (item, ⟨n.items.take i, n.children.take (i + 1)⟩,
        ⟨n.items.drop (i + 1), n.children.drop (i + 1)⟩)
    else none
  else
    return (item, ⟨n.items.take i, n.children⟩, ⟨n.items.drop (i + 1), []⟩)

/-- `maybeSplitChild` -/
def Cell.maybeSplitChild (n : Cell α (Cell α C)) (i maxItems : Nat) :
    Option (Cell α (Cell α C) × Bool) := do
  let child ← n.children[i]?
  if child.items.length < maxItems then return (n, false)
  let (item, first, second) ← child.split (maxItems / 2)
  let items ← insertAt n.items i item
  let children ← insertAt (n.children.set i first) (i + 1) second
  return (⟨items, children⟩, true)

/-- `out := n.items[i]; n.items[i] = item; return out` -/
def Cell.replace (n : Cell α C) (i : Nat) (item : α) : Option (Cell α C × Option α) := do
  let out ← n.items[i]?
  return (⟨n.items.set i item, n.children⟩, some out)

/-- `n.items.insertAt(i, item); return nil` -/
def Cell.insertItem (n : Cell α C) (i : Nat) (item : α) : Option (Cell α C × Option α) := do
  let items ← insertAt n.items i item
  return (⟨items, n.children⟩, none)

/-- `return n.mutableChild(i).insert(item, maxItems)` -/
def Cell.insertChild (n : Cell α C) (i : Nat) (insert : C → Option (C × Option α)) :
    Option (Cell α C × Option α) := do
  let child ← n.children[i]?
  let (child, out) ← insert child
  return (⟨n.items, n.children.set i child⟩, out)

variable (less : α → α → Bool)

/-- `items.find` -/
def find (s : List α) (item : α) : Nat × Bool :=
  let i := search s.length fun i => (s[i]?).any fun x => less item x
  if 0 < i && (s[i - 1]?).any fun x => !less x item then (i - 1, true) else (i, false)

/-- `insert` -/
def insert (item : α) (maxItems : Nat) : (n : Nat) → Node α n → Option (Node α n × Option α)
  | 0, t =>
    match find less t.items item with
    | (i, true) => t.replace i item
    | (i, false) => t.insertItem i item
  | n + 1, t =>
    match find less t.items item with
    | (i, true) => t.replace i item
    | (i, false) =>
      if t.children.length = 0 then t.insertItem i item
      else do
        let (t, split) ← Cell.maybeSplitChild (C := Below α n) t i maxItems
        if split then
          let inTree ← t.items[i]?
          if less item inTree then t.insertChild i (insert item maxItems n)
          else if less inTree item then t.insertChild (i + 1) (insert item maxItems n)
          else t.replace i item
        else t.insertChild i (insert item maxItems n)

/-- `get` of a node, with that of its children -/
def Cell.get (n : Cell α C) (key : α) (get : C → Option (Option α)) : Option (Option α) :=
  match find less n.items key with
  | (i, true) => do
    let item ← n.items[i]?
    return some item
  | (i, false) =>
    if 0 < n.children.length then do
      let child ← n.children[i]?
      get child
    else some none

def get (key : α) : (n : Nat) → Node α n → Option (Option α)
  | 0, t => t.get less key fun c => nomatch c
  | n + 1, t => t.get less key (get key n)

variable {σ : Type}

/-- The loop of `iterate(ascend, start, nil, true, hit, iter)` over the items from index `i` on.
    `hit` is only looked at for an excluded start. -/
def iterateItems (start : α) (iter : α → σ → σ × Bool) (child : Nat → σ → Option (σ × Bool)) :
    List α → Nat → σ → Option (σ × Bool)
  | [], _, s => some (s, true)
  | x :: xs, i, s =>
    if less x start then iterateItems start iter child xs (i + 1) s
    else do
      let (s, ok) ← child i s
      if !ok then return (s, false)
      let (s, ok) := iter x s
      if !ok then return (s, false)
      iterateItems start iter child xs (i + 1) s

/-- The walk through the child with this index, if there are children. -/
def Cell.iterateChild (n : Cell α C) (iterate : C → σ → Option (σ × Bool)) (i : Nat) (s : σ) :
    Option (σ × Bool) :=
  if 0 < n.children.length then do
    let c ← n.children[i]?
    iterate c s
  else some (s, true)

/-- `iterate(ascend, start, nil, true, hit, iter)` of a node, with that of its children -/
def Cell.iterate (n : Cell α C) (start : α) (iter : α → σ → σ × Bool)
    (iterate : C → σ → Option (σ × Bool)) (s : σ) : Option (σ × Bool) := do
  let (s, ok) ← iterateItems less start iter (n.iterateChild iterate) n.items 0 s
  if !ok then return (s, false)
  n.iterateChild iterate (n.children.length - 1) s

def iterate (start : α) (iter : α → σ → σ × Bool) : (n : Nat) → Node α n → σ → Option (σ × Bool)
  | 0, t => t.iterate less start iter fun c => nomatch c
  | n + 1, t => t.iterate less start iter (iterate start iter n)

/-! ## Trees -/

/-- `BTree`; `New` takes a degree of at least 2. -/
structure BTree (α : Type) where
  degree : Nat
  length : Nat
  root : Option (Σ n, Node α n)
  two_le_degree : 2 ≤ degree

namespace BTree

/-- `New` -/
def new (degree : Nat) (h : 2 ≤ degree) : BTree α := ⟨degree, 0, none, h⟩

def maxItems (t : BTree α) : Nat := t.degree * 2 - 1

/-- The new root over a full one. -/
def splitRoot (maxItems : Nat) (root : Σ n, Node α n) : Option (Σ n, Node α n) := do
  if maxItems ≤ root.2.items.length then
    let (item, first, second) ← root.2.split (maxItems / 2)
    return ⟨root.1 + 1, ⟨[item], [first, second]⟩⟩
  else return root

/-- `ReplaceOrInsert` -/
def replaceOrInsert (t : BTree α) (item : α) : Option (BTree α × Option α) :=
  match t.root with
  | none => some ({ t with root := some ⟨0, ⟨[item], []⟩⟩, length := t.length + 1 }, none)
  | some root => do
    let root ← splitRoot t.maxItems root
    let (node, out) ← insert less item t.maxItems root.1 root.2
    let length := if out.isNone then t.length + 1 else t.length
    return ({ t with root := some ⟨root.1, node⟩, length := length }, out)

/-- `Get` -/
def get (t : BTree α) (key : α) : Option (Option α) :=
  match t.root with
  | none => some none
  | some root => Btree.get less key root.1 root.2

/-- `Has` -/
def has (t : BTree α) (key : α) : Option Bool := (t.get less key).map Option.isSome

/-- `AscendGreaterOrEqual`: what the iterator leaves. -/
def ascendGreaterOrEqual (t : BTree α) (pivot : α) (iter : α → σ → σ × Bool) (s : σ) : Option σ :=
  match t.root with
  | none => some s
  | some root => (iterate less pivot iter root.1 root.2 s).map Prod.fst

end BTree

end Model

/-! ## Finding the place among the items -/

section Nodes

variable {α : Type} {less : α → α → Bool}

/-- What `find` says of sorted items. -/
inductive Finds (less : α → α → Bool) (item : α) : List α → Nat × Bool → Prop
  | found (low high : List α) (y : α) (hsame : same less y item) :
      Finds less item (low ++ y :: high) (low.length, true)
  | missing (low high : List α) (hlow : ∀ z ∈ low, less z item) (hhigh : ∀ z ∈ high, less item z) :
      Finds less item (low ++ high) (low.length, false)

theorem find_spec (hs : StrictWeak less) {s : List α} (hord : Ordered less s) (item : α) :
    Finds less item s (find less s item) := by
  obtain ⟨low, high, rfl, hsearch, hnot, hhigh⟩ :=
    search_cut (p := less item) (hord.imp fun hxy hx => hs.trans hx hxy)
  rw [find, hsearch]
  rcases List.eq_nil_or_concat low with rfl | ⟨low, y, rfl⟩
  · have hlow : ∀ z ∈ [], less z item := fun z hz => absurd hz List.not_mem_nil
    simpa using Finds.missing [] high hlow hhigh
  · rw [List.concat_eq_append] at hord hnot ⊢
    by_cases hless : less y item
    · -- the item before the place is less, so all before it are
      have hlow : ∀ z ∈ low ++ [y], less z item := fun z hz => by
        rcases List.mem_append.mp hz with hzl | hz
        · have hord := (List.pairwise_append.mp hord).1
          exact hs.trans ((List.pairwise_append.mp hord).2.2 z hzl y List.mem_cons_self) hless
        · rwa [List.mem_singleton.mp hz]
      simpa [hless] using Finds.missing (low ++ [y]) high hlow hhigh
    · have hsame : same less y item := by simp [same, hless, hnot y (by simp)]
      simpa [hless] using Finds.found low high y hsame

/-! ## Well-formed nodes -/

/-- The items of a node and all below it, in order. -/
def inorder : (n : Nat) → Node α n → List α
  | 0, t => t.items
  | n + 1, t => weave (t.children.map (inorder n)) t.items

/-- Each inner node has one child more than items, and each node below this one is full to the half
    at least. -/
def Shape (d : Nat) : (n : Nat) → Node α n → Prop
  | 0, _ => True
  | n + 1, t => t.children.length = t.items.length + 1 ∧ ∀ c ∈ t.children,
      (d - 1 ≤ (Cell.items c).length ∧ (Cell.items c).length ≤ d * 2 - 1) ∧ Shape d n c

/-- A sorted node of this form. -/
structure Good (less : α → α → Bool) (d n : Nat) (t : Node α n) : Prop where
  shape : Shape d n t
  ordered : Ordered less (inorder n t)

theorem Good.child {d n : Nat} {t : Node α (n + 1)} (h : Good less d (n + 1) t) {c : Node α n}
    (hc : c ∈ t.children) : Good less d n c :=
  ⟨(h.shape.2 c hc).2, h.ordered.sublist (sublist_weave_of_mem (List.mem_map_of_mem hc)
    (by rw [List.length_map, h.shape.1]))⟩

theorem Good.find {d n : Nat} {t : Node α (n + 1)} (h : Good less d (n + 1) t)
    (hs : StrictWeak less) (item : α) : Finds less item t.items (Btree.find less t.items item) :=
  find_spec hs (h.ordered.sublist (sublist_weave _ _)) item

/-! ## Cells cut in two -/

theorem exists_cut {β : Type} {l : List β} {i : Nat} (h : i < l.length) :
    ∃ l₁ x l₂, l = l₁ ++ x :: l₂ ∧ l₁.length = i := by
  refine ⟨l.take i, l[i], l.drop (i + 1), ?_, List.length_take_of_le (Nat.le_of_lt h)⟩
  rw [← List.drop_eq_getElem_cons h, List.take_append_drop]

section Cells

variable {C : Type} {xs₁ xs₂ : List α} {x : α} {cs cs₁ cs₂ : List C} {c : C}

theorem insertAt_append {β : Type} (l l' : List β) (y : β) :
    insertAt (l ++ l') l.length y = some (l ++ y :: l') := by
  simp [insertAt]

theorem Cell.split_append (hcs : cs = [] ∨ xs₁.length + 1 ≤ cs.length) :
    (⟨xs₁ ++ x :: xs₂, cs⟩ : Cell α C).split xs₁.length =
      some (x, ⟨xs₁, cs.take (xs₁.length + 1)⟩, ⟨xs₂, cs.drop (xs₁.length + 1)⟩) := by
  rcases hcs with rfl | hcs
  · simp [Cell.split]
  · have hpos : 0 < cs.length := by omega
    simp [Cell.split, hpos, hcs]

theorem Cell.replace_append (y : α) :
    (⟨xs₁ ++ x :: xs₂, cs⟩ : Cell α C).replace xs₁.length y =
      some (⟨xs₁ ++ y :: xs₂, cs⟩, some x) := by
  simp [Cell.replace]

theorem Cell.insertItem_append (y : α) :
    (⟨xs₁ ++ xs₂, cs⟩ : Cell α C).insertItem xs₁.length y =
      some (⟨xs₁ ++ y :: xs₂, cs⟩, none) := by
  simp [Cell.insertItem, insertAt_append]

theorem Cell.insertChild_append {insert : C → Option (C × Option α)} {c' : C} {out : Option α}
    (h : insert c = some (c', out)) :
    (⟨xs₁, cs₁ ++ c :: cs₂⟩ : Cell α C).insertChild cs₁.length insert =
      some (⟨xs₁, cs₁ ++ c' :: cs₂⟩, out) := by
  simp [Cell.insertChild, h]

theorem Cell.maybeSplitChild_of_lt {c : Cell α C} {cs₁ cs₂ : List (Cell α C)} {maxItems : Nat}
    (h : c.items.length < maxItems) :
    (⟨xs₁, cs₁ ++ c :: cs₂⟩ : Cell α (Cell α C)).maybeSplitChild cs₁.length maxItems =
      some (⟨xs₁, cs₁ ++ c :: cs₂⟩, false) := by
  simp [Cell.maybeSplitChild, h]

theorem Cell.maybeSplitChild_of_le {c first second : Cell α C} {cs₁ cs₂ : List (Cell α C)}
    {maxItems : Nat} (hlen : cs₁.length = xs₁.length) (h : maxItems ≤ c.items.length)
    (hsplit : c.split (maxItems / 2) = some (x, first, second)) :
    (⟨xs₁ ++ xs₂, cs₁ ++ c :: cs₂⟩ : Cell α (Cell α C)).maybeSplitChild cs₁.length maxItems =
      some (⟨xs₁ ++ x :: xs₂, cs₁ ++ first :: second :: cs₂⟩, true) := by
  have hnot : ¬ c.items.length < maxItems := by omega
  have hitems := insertAt_append xs₁ xs₂ x
  have hchildren := insertAt_append (cs₁ ++ [first]) cs₂ second
  rw [List.length_append, List.length_singleton, List.append_assoc, List.append_assoc] at hchildren
  rw [← hlen] at hitems
  simp only [List.singleton_append] at hchildren
  simp [Cell.maybeSplitChild, hnot, hsplit, hitems, hchildren]

end Cells

/-! ## Inserting keeps the form -/

/-- A node is read up to one of its items, then the item, and then on from there. -/
theorem inorder_append {n : Nat} {xs₁ xs₂ : List α} {cs : List (Node α n)}
    (hcs : xs₁.length < cs.length) (y : α) : inorder (n + 1) ⟨xs₁ ++ y :: xs₂, cs⟩ =
      inorder (n + 1) ⟨xs₁, cs.take (xs₁.length + 1)⟩ ++
        y :: inorder (n + 1) ⟨xs₂, cs.drop (xs₁.length + 1)⟩ := by
  have htake : ((cs.take (xs₁.length + 1)).map (inorder n)).length = xs₁.length + 1 := by
    simp only [List.length_map, List.length_take]
    omega
  simp only [inorder]
  rw [← weave_append htake, ← List.map_append, List.take_append_drop]

theorem split_spec {d n : Nat} {t : Node α n} (h : Shape d n t) {i : Nat}
    (hlt : i < t.items.length) : ∃ x first second, t.split i = some (x, first, second) ∧
      (Shape d n first ∧ Shape d n second) ∧ (first.items.length = i ∧
        second.items.length + i + 1 = t.items.length) ∧
          inorder n t = inorder n first ++ x :: inorder n second := by
  obtain ⟨items, children⟩ := t
  obtain ⟨xs₁, x, xs₂, rfl, rfl⟩ := exists_cut hlt
  cases n with
  | zero =>
    cases children with
    | nil =>
      exact ⟨x, _, _, Cell.split_append (Or.inl rfl), ⟨trivial, trivial⟩,
        ⟨rfl, by simp; omega⟩, rfl⟩
    | cons c _ => exact nomatch c
  | succ n =>
    obtain ⟨hcount, hbelow⟩ := h
    simp only [List.length_append, List.length_cons] at hcount
    have htake : (children.take (xs₁.length + 1)).length = xs₁.length + 1 :=
      List.length_take_of_le (by omega)
    exact ⟨x, _, _, Cell.split_append (Or.inr (by omega)),
      ⟨⟨htake, fun c hc => hbelow c (List.mem_of_mem_take hc)⟩, by simp; omega,
        fun c hc => hbelow c (List.mem_of_mem_drop hc)⟩, ⟨rfl, by simp; omega⟩,
      inorder_append (by omega) x⟩

/-- What `insert` makes of a node, with up to `k` more items in the node itself. -/
structure Inserted (less : α → α → Bool) (d : Nat) (item : α) (k : Nat) {n : Nat}
    (t t' : Node α n) (out : Option α) : Prop where
  shape : Shape d n t'
  le : t.items.length ≤ t'.items.length
  le_add : t'.items.length ≤ t.items.length + k
  places : Places less item (inorder n t) out (inorder n t')

/-- The result of inserting into a node, where nothing was out of range. -/
def Inserts (less : α → α → Bool) (d : Nat) (item : α) (k : Nat) {n : Nat} (t : Node α n)
    (r : Option (Node α n × Option α)) : Prop :=
  ∃ t' out, r = some (t', out) ∧ Inserted less d item k t t' out

/-- The item belongs to the child that has these items and children before it. -/
structure Fits {C : Type} (less : α → α → Bool) (item : α) (xs₁ xs₂ : List α) (cs₁ : List C) :
    Prop where
  length : cs₁.length = xs₁.length
  low : ∀ y ∈ xs₁, less y item
  high : ∀ y ∈ xs₂, less item y

section Insert

variable (hs : StrictWeak less) {d n : Nat} {item x : α} {xs₁ xs₂ : List α}
  {cs cs₁ cs₂ : List (Node α n)} {c : Node α n}

/-- A node that reads as before and has one item more. -/
theorem Inserts.of_split {t t' : Node α n} {r : Option (Node α n × Option α)}
    (h : Inserts less d item 0 t' r) (hlen : t'.items.length = t.items.length + 1)
    (horder : inorder n t' = inorder n t) : Inserts less d item 1 t r := by
  obtain ⟨u, out, hr, hins⟩ := h
  have hle := hins.le
  have hle' := hins.le_add
  exact ⟨u, out, hr, hins.shape, by omega, by omega, horder ▸ hins.places⟩

theorem Inserts.mono {t : Node α n} {r : Option (Node α n × Option α)}
    (h : Inserts less d item 0 t r) : Inserts less d item 1 t r := by
  obtain ⟨u, out, hr, hins⟩ := h
  exact ⟨u, out, hr, hins.shape, hins.le, Nat.le_succ_of_le hins.le_add, hins.places⟩

theorem Good.cut (h : Good less d (n + 1) ⟨xs₁ ++ x :: xs₂, cs⟩) : ∃ low high : List α, ∀ y,
    inorder (n + 1) ⟨xs₁ ++ y :: xs₂, cs⟩ = low ++ y :: high := by
  have hcount := h.shape.1
  simp only [List.length_append, List.length_cons] at hcount
  exact ⟨_, _, inorder_append (by omega)⟩

include hs

theorem replace_spec : ∀ {n : Nat} {cs : List (Below α n)}, Good less d n ⟨xs₁ ++ x :: xs₂, cs⟩ →
    same less x item → Inserts less d item 0 (n := n) ⟨xs₁ ++ x :: xs₂, cs⟩
      (Cell.replace ⟨xs₁ ++ x :: xs₂, cs⟩ xs₁.length item)
  | 0, _, h, hsame => ⟨_, _, Cell.replace_append item, trivial, by simp, by simp,
    Places.replace hs h.ordered hsame⟩
  | n + 1, _, h, hsame => by
    refine ⟨_, _, Cell.replace_append item, ⟨by simpa using h.shape.1, h.shape.2⟩, by simp, by simp,
      ?_⟩
    obtain ⟨low, high, hcut⟩ := h.cut
    rw [hcut, hcut]
    exact Places.replace hs (hcut x ▸ h.ordered) hsame

/-- The child between the lesser and the greater items takes the item. -/
theorem insertChild_spec {f : Node α n → Option (Node α n × Option α)}
    (h : Good less d (n + 1) ⟨xs₁ ++ xs₂, cs₁ ++ c :: cs₂⟩) (hfits : Fits less item xs₁ xs₂ cs₁)
    (hroom : c.items.length < d * 2 - 1)
    (hinsert : Good less d n c → Inserts less d item 1 c (f c)) :
    Inserts less d item 0 (n := n + 1) ⟨xs₁ ++ xs₂, cs₁ ++ c :: cs₂⟩
      (Cell.insertChild ⟨xs₁ ++ xs₂, cs₁ ++ c :: cs₂⟩ cs₁.length f) := by
  obtain ⟨c', out, hsome, hins⟩ := hinsert (h.child (by simp))
  obtain ⟨⟨hcount, hbelow⟩, hord⟩ := h
  have hlen := hfits.length
  refine ⟨⟨xs₁ ++ xs₂, cs₁ ++ c' :: cs₂⟩, out, Cell.insertChild_append hsome,
    ⟨by simpa using hcount, fun e he => ?_⟩, Nat.le_refl _, Nat.le_refl _, ?_⟩
  · simp only [List.mem_append, List.mem_cons] at hbelow he
    rcases he with he | rfl | he
    · exact hbelow e (Or.inl he)
    · have hle := hins.le
      have hle' := hins.le_add
      have hlo := (hbelow c (by simp)).1.1
      exact ⟨⟨by omega, by omega⟩, hins.shape⟩
    · exact hbelow e (Or.inr (Or.inr he))
  · simp only [inorder, List.map_append, List.map_cons, List.length_append, List.length_cons]
      at hord hcount ⊢
    refine Places.weave hs (by simpa using hlen) ?_ hord hfits.low hfits.high hins.places
    rw [List.length_map]
    omega

omit hs in
/-- A full child is split in the middle, and the node reads as before. -/
theorem maybeSplitChild_spec (hd : 2 ≤ d) (h : Shape d (n + 1) ⟨xs₁ ++ xs₂, cs₁ ++ c :: cs₂⟩)
    (hlen : cs₁.length = xs₁.length) (hfull : d * 2 - 1 ≤ c.items.length) : ∃ x first second,
      Cell.maybeSplitChild (C := Below α n) ⟨xs₁ ++ xs₂, cs₁ ++ c :: cs₂⟩ cs₁.length (d * 2 - 1) =
        some (⟨xs₁ ++ x :: xs₂, cs₁ ++ first :: second :: cs₂⟩, true) ∧
      (first.items.length = d - 1 ∧ second.items.length = d - 1) ∧
      Shape d (n + 1) ⟨xs₁ ++ x :: xs₂, cs₁ ++ first :: second :: cs₂⟩ ∧
      inorder (n + 1) ⟨xs₁ ++ x :: xs₂, cs₁ ++ first :: second :: cs₂⟩ =
        inorder (n + 1) ⟨xs₁ ++ xs₂, cs₁ ++ c :: cs₂⟩ := by
  obtain ⟨hcount, hbelow⟩ := h
  obtain ⟨⟨-, hmax⟩, hc⟩ := hbelow c (by simp)
  obtain ⟨x, first, second, hsplit, ⟨hfirst, hsecond⟩, ⟨hlen₁, hlen₂⟩, horder⟩ :=
    split_spec hc (i := (d * 2 - 1) / 2) (by omega)
  refine ⟨x, first, second, Cell.maybeSplitChild_of_le hlen hfull hsplit, ⟨by omega, by omega⟩,
    ⟨?_, fun e he => ?_⟩, ?_⟩
  · simp only [List.length_append, List.length_cons] at hcount ⊢
    omega
  · simp only [List.mem_append, List.mem_cons] at hbelow he
    rcases he with he | rfl | rfl | he
    · exact hbelow e (Or.inl he)
    · exact ⟨⟨by omega, by omega⟩, hfirst⟩
    · exact ⟨⟨by omega, by omega⟩, hsecond⟩
    · exact hbelow e (Or.inr (Or.inr he))
  · simp only [inorder, List.map_append, List.map_cons, horder]
    exact weave_split _ _ x (by rw [List.length_map, hlen])

theorem insert_leaf_spec {items : List α} {cs : List Empty} (h : Good less d 0 ⟨items, cs⟩)
    (maxItems : Nat) :
    Inserts less d item 1 (n := 0) ⟨items, cs⟩ (insert less item maxItems 0 ⟨items, cs⟩) := by
  have hfinds : Finds less item items (find less items item) := find_spec hs h.ordered item
  rw [insert]
  generalize find less items item = r at hfinds
  cases hfinds with
  | found low high y hsame => exact (replace_spec hs h hsame).mono
  | missing low high hlow hhigh =>
    exact ⟨_, _, Cell.insertItem_append item, trivial, by simp, by simp; omega,
      Places.mk low high none hlow hhigh nofun⟩

/-- The child at the place of the item takes it, after it was split if it was full. -/
theorem insert_below_spec (hd : 2 ≤ d) (h : Good less d (n + 1) ⟨xs₁ ++ xs₂, cs₁ ++ c :: cs₂⟩)
    (hfits : Fits less item xs₁ xs₂ cs₁)
    (ih : ∀ t : Node α n, t.items.length < d * 2 - 1 → Good less d n t →
      Inserts less d item 1 t (insert less item (d * 2 - 1) n t))
    (hfind : find less (xs₁ ++ xs₂) item = (cs₁.length, false)) :
    Inserts less d item 1 (n := n + 1) ⟨xs₁ ++ xs₂, cs₁ ++ c :: cs₂⟩
      (insert less item (d * 2 - 1) (n + 1) ⟨xs₁ ++ xs₂, cs₁ ++ c :: cs₂⟩) := by
  have hsome : (cs₁ ++ c :: cs₂).length ≠ 0 := by simp
  have hlen := hfits.length
  by_cases hfull : d * 2 - 1 ≤ c.items.length
  · obtain ⟨x, first, second, hsplit, ⟨hlen₁, hlen₂⟩, hshape, horder⟩ :=
      maybeSplitChild_spec hd h.shape hlen hfull
    have h' : Good less d (n + 1) ⟨xs₁ ++ x :: xs₂, cs₁ ++ first :: second :: cs₂⟩ :=
      ⟨hshape, horder ▸ h.ordered⟩
    have hmid : (xs₁ ++ x :: xs₂)[cs₁.length]? = some x := by simp [hlen]
    rw [insert]
    simp only [hfind, hsome, if_false, hsplit, Option.bind_eq_bind, Option.bind_some, if_true, hmid]
    refine Inserts.of_split ?_ (by simp; omega) horder
    by_cases hfirst : less item x
    · rw [if_pos hfirst]
      refine insertChild_spec hs h' ⟨hlen, hfits.low, ?_⟩ (by omega) (ih first (by omega))
      exact List.forall_mem_cons.mpr ⟨hfirst, hfits.high⟩
    · by_cases hsecond : less x item
      · have hlen' : (cs₁ ++ [first]).length = (xs₁ ++ [x]).length := by simp [hlen]
        have hxs : xs₁ ++ x :: xs₂ = (xs₁ ++ [x]) ++ xs₂ := by simp
        have hcs : cs₁ ++ first :: second :: cs₂ = (cs₁ ++ [first]) ++ second :: cs₂ := by simp
        rw [hxs, hcs] at h'
        rw [if_neg hfirst, if_pos hsecond, hxs, hcs,
          show cs₁.length + 1 = (cs₁ ++ [first]).length by simp]
        refine insertChild_spec hs h' ⟨hlen', fun y hy => ?_, hfits.high⟩ (by omega)
          (ih second (by omega))
        rcases List.mem_append.mp hy with hy | hy
        · exact hfits.low y hy
        · rwa [List.mem_singleton.mp hy]
      · have hsame : same less x item := by simp [same, hfirst, hsecond]
        rw [if_neg hfirst, if_neg hsecond, hlen]
        exact replace_spec hs h' hsame
  · have hroom : c.items.length < d * 2 - 1 := by omega
    rw [insert]
    simp only [hfind, hsome, if_false, Cell.maybeSplitChild_of_lt hroom]
    exact (insertChild_spec hs h hfits hroom (ih c hroom)).mono

/-- A node with room takes the item, by induction on the depth of its leaves. -/
theorem insert_spec (hd : 2 ≤ d) (item : α) : ∀ (n : Nat) (t : Node α n),
    t.items.length < d * 2 - 1 → Good less d n t →
      Inserts less d item 1 t (insert less item (d * 2 - 1) n t)
  | 0, ⟨_, _⟩, _, h => insert_leaf_spec hs h _
  | n + 1, ⟨items, cs⟩, _, h => by
    have hfinds : Finds less item items (find less items item) := h.find hs item
    cases hfind : find less items item with
    | mk i found =>
      rw [hfind] at hfinds
      cases hfinds with
      | found low high y hsame =>
        rw [insert]
        simp only [hfind]
        exact (replace_spec hs h hsame).mono
      | missing low high hlow hhigh =>
        have hcount := h.shape.1
        simp only [List.length_append] at hcount
        obtain ⟨cs₁, c, cs₂, rfl, hlen⟩ := exists_cut (l := cs) (i := low.length) (by omega)
        exact insert_below_spec hs hd h ⟨hlen, hlow, hhigh⟩ (insert_spec hd item n)
          (by rw [hfind, hlen])

end Insert

/-! ## Looking up -/

theorem eq_nil_of_empty : ∀ cs : List Empty, cs = []
  | [] => rfl
  | c :: _ => nomatch c

theorem get_node_spec (hs : StrictWeak less) (key : α) : ∀ {n d : Nat} {t : Node α n},
    Good less d n t → get less key n t = some ((inorder n t).find? fun y => same less y key)
  | 0, _, ⟨items, cs⟩, ⟨_, hord⟩ => by
    obtain rfl := eq_nil_of_empty cs
    have hfinds : Finds less key items (find less items key) := find_spec hs hord key
    simp only [get, Cell.get, inorder]
    generalize find less items key = r at hfinds
    cases hfinds with
    | found low high y hsame => simp [find?_same hs hord hsame]
    | missing low high hlow hhigh =>
      have hnone : (low ++ high).find? (fun y => same less y key) = none := by
        refine List.find?_eq_none.mpr fun y hy => ?_
        rcases List.mem_append.mp hy with hy | hy
        · simp [same, hlow y hy]
        · simp [same, hhigh y hy]
      simp [hnone]
  | n + 1, _, ⟨items, cs⟩, h => by
    have hfinds : Finds less key items (find less items key) := h.find hs key
    rw [get, Cell.get]
    simp only
    generalize find less items key = r at hfinds
    cases hfinds with
    | found low high y hsame =>
      obtain ⟨front, back, hcut⟩ := h.cut
      have hord := h.ordered
      rw [hcut] at hord ⊢
      simp [find?_same hs hord hsame]
    | missing low high hlow hhigh =>
      have hcount := h.shape.1
      simp only [List.length_append] at hcount
      obtain ⟨cs₁, c, cs₂, rfl, hlen⟩ := exists_cut (l := cs) (i := low.length) (by omega)
      have hord := h.ordered
      simp only [inorder, List.length_append, List.length_cons, List.map_append, List.map_cons]
        at hcount hord ⊢
      rw [find?_weave hs (by simpa using hlen) (by rw [List.length_map]; omega) hord hlow hhigh,
        ← get_node_spec hs key (h.child (by simp)), ← hlen]
      simp

/-! ## Walking on from a place -/

section Iterate

variable (hs : StrictWeak less) {start : α} {σ : Type} {iter : α → σ → σ × Bool}

/-- The walk over these entries from `start` on. -/
def walk (less : α → α → Bool) (start : α) (iter : α → σ → σ × Bool) (l : List α) (s : σ) :
    σ × Bool :=
  foldUntil iter (l.filter fun y => !less y start) s

theorem walk_append (l l' : List α) (s : σ) : walk less start iter (l ++ l') s =
    if (walk less start iter l s).2 then walk less start iter l' (walk less start iter l s).1
    else ((walk less start iter l s).1, false) := by
  unfold walk
  rw [List.filter_append, foldUntil_append]

theorem walk_of_less {l : List α} (h : ∀ y ∈ l, less y start) (l' : List α) (s : σ) :
    walk less start iter (l ++ l') s = walk less start iter l' s := by
  unfold walk
  rw [List.filter_append, List.filter_eq_nil_iff.mpr fun y hy => by simp [h y hy],
    List.nil_append]

theorem walk_cons {x : α} (h : ¬ less x start) (l : List α) (s : σ) :
    walk less start iter (x :: l) s =
      if (iter x s).2 then walk less start iter l (iter x s).1 else ((iter x s).1, false) := by
  unfold walk
  rw [List.filter_cons_of_pos (by simp [h]), foldUntil]

include hs

/-- The loop over the items of a node from one of them on, and the last child. The induction is on
    the items that are left, with the children that are left in `ps`. -/
theorem iterateItems_spec {child : Nat → σ → Option (σ × Bool)} {xs : List α} {ps : List (List α)}
    {i : Nat} (hlen : ps.length = xs.length + 1)
    (hchild : ∀ j p s, ps[j]? = some p → child (i + j) s = some (walk less start iter p s))
    (hord : Ordered less (weave ps xs)) (s : σ) :
    ((iterateItems less start iter child xs i s).bind fun r =>
      if !r.2 then some (r.1, false) else child (i + xs.length) r.1) =
        some (walk less start iter (weave ps xs) s) := by
  induction xs generalizing ps i s with
  | nil =>
    obtain ⟨p, rfl⟩ := List.length_eq_one_iff.mp hlen
    simpa [iterateItems] using hchild 0 p s rfl
  | cons x xs ih =>
    cases ps with
    | nil => cases hlen
    | cons p ps =>
      rw [weave_cons_cons] at hord ⊢
      obtain ⟨-, hordx, hbefore⟩ := List.pairwise_append.mp hord
      have hlater : ∀ j q s, ps[j]? = some q →
          child (i + 1 + j) s = some (walk less start iter q s) := fun j q s hq => by
        simpa [Nat.add_assoc, Nat.add_comm 1] using hchild (j + 1) q s hq
      have hrest := ih (Nat.succ.inj hlen) hlater (List.pairwise_cons.mp hordx).2
      rw [Nat.add_assoc, Nat.add_comm 1] at hrest
      by_cases hless : less x start
      · -- all up to the item is before the start
        have hskip : ∀ y ∈ p ++ [x], less y start := by
          intro y hy
          rcases List.mem_append.mp hy with hy | hy
          · exact hs.trans (hbefore y hy x List.mem_cons_self) hless
          · rwa [List.mem_singleton.mp hy]
        have hwalk : walk less start iter (p ++ x :: weave ps xs) s =
            walk less start iter (weave ps xs) s := by
          rw [← walk_of_less hskip (weave ps xs), List.append_assoc, List.singleton_append]
        rw [iterateItems, if_pos hless, hwalk]
        exact hrest s
      · have hfirst := hchild 0 p s rfl
        rw [Nat.add_zero] at hfirst
        rw [iterateItems, if_neg hless, hfirst, walk_append]
        cases hp : walk less start iter p s with
        | mk s₁ ok =>
          cases ok with
          | false => simp
          | true =>
            cases hx : iter x s₁ with
            | mk s₂ ok =>
              cases ok with
              | false => simp [walk_cons hless, hx]
              | true => simpa [walk_cons hless, hx] using hrest s₂

theorem Cell.iterate_spec {C : Type} {n : Cell α C} {f : C → σ → Option (σ × Bool)}
    {ps : List (List α)} (hlen : ps.length = n.items.length + 1)
    (hchild : ∀ j p s, ps[j]? = some p → n.iterateChild f j s = some (walk less start iter p s))
    (hlast : n.iterateChild f (n.children.length - 1) = n.iterateChild f n.items.length)
    (hord : Ordered less (weave ps n.items)) (s : σ) :
    n.iterate less start iter f s = some (walk less start iter (weave ps n.items) s) := by
  have hspec := iterateItems_spec hs (i := 0) hlen
    (fun j p s hp => by simpa using hchild j p s hp) hord s
  rw [← hspec, Cell.iterate, hlast]
  simp

theorem iterate_node_spec : ∀ {n d : Nat} {t : Node α n}, Good less d n t → ∀ s : σ,
    iterate less start iter n t s = some (walk less start iter (inorder n t) s)
  | 0, _, ⟨items, cs⟩, ⟨_, hord⟩, s => by
    obtain rfl := eq_nil_of_empty cs
    -- a leaf visits nothing where another node has its children
    have hleaf := weave_replicate_nil items
    have hspec : iterate less start iter 0 ⟨items, []⟩ s =
        some (walk less start iter (weave (List.replicate (items.length + 1) []) items) s) := by
      refine Cell.iterate_spec hs (by simp) (fun j p s hp => ?_) rfl (by rw [hleaf]; exact hord) s
      obtain rfl := List.eq_of_mem_replicate (List.mem_of_getElem? hp)
      rfl
    rw [hspec, hleaf, inorder]
  | n + 1, _, ⟨items, cs⟩, h, s => by
    have hcount := h.shape.1
    rw [iterate, inorder]
    refine Cell.iterate_spec hs (by simpa using hcount) (fun j p s hp => ?_) ?_ h.ordered s
    · rw [List.getElem?_map] at hp
      obtain ⟨c, hc, rfl⟩ := Option.map_eq_some_iff.mp hp
      have hmem := List.mem_of_getElem? hc
      have hpos : 0 < cs.length := List.length_pos_of_mem hmem
      simp [Cell.iterateChild, hpos, hc, iterate_node_spec (h.child hmem)]
    · simp only [hcount, Nat.add_sub_cancel]

end Iterate

/-! ## Well-formed trees -/

namespace BTree

/-- The items of a tree, in order. -/
def toList (t : BTree α) : List α := t.root.elim [] fun r => inorder r.1 r.2

/-- A root with at most so many items. -/
structure Root (d most : Nat) (r : Σ n, Node α n) : Prop where
  shape : Shape d r.1 r.2
  pos : 0 < r.2.items.length
  le : r.2.items.length ≤ most

structure Wf (less : α → α → Bool) (t : BTree α) : Prop where
  ordered : Ordered less t.toList
  length : t.length = t.toList.length
  root : ∀ r, t.root = some r → Root t.degree t.maxItems r

theorem wf_new (degree : Nat) (h : 2 ≤ degree) : Wf less (new degree h : BTree α) :=
  ⟨List.Pairwise.nil, rfl, fun _ hr => nomatch hr⟩

theorem splitRoot_spec {d : Nat} (hd : 2 ≤ d) {r : Σ n, Node α n}
    (h : Root d (d * 2 - 1) r) : ∃ r' : Σ n, Node α n, splitRoot (d * 2 - 1) r = some r' ∧
      Root d (d * 2 - 2) r' ∧ inorder r'.1 r'.2 = inorder r.1 r.2 := by
  have hle := h.le
  by_cases hfull : d * 2 - 1 ≤ r.2.items.length
  · obtain ⟨x, first, second, hsplit, ⟨hfirst, hsecond⟩, ⟨hlen₁, hlen₂⟩, horder⟩ :=
      split_spec h.shape (i := (d * 2 - 1) / 2) (by omega)
    have hsome : splitRoot (d * 2 - 1) r = some ⟨r.1 + 1, ⟨[x], [first, second]⟩⟩ := by
      simp [splitRoot, hfull, hsplit]
    refine ⟨_, hsome, ⟨⟨rfl, fun c hc => ?_⟩, Nat.one_pos, ?_⟩, ?_⟩
    · simp only [List.mem_cons, List.not_mem_nil, or_false] at hc
      rcases hc with rfl | rfl
      · exact ⟨⟨by omega, by omega⟩, hfirst⟩
      · exact ⟨⟨by omega, by omega⟩, hsecond⟩
    · simp only [List.length_singleton]
      omega
    · simp [inorder, horder]
  · refine ⟨r, by simp [splitRoot, hfull], ⟨h.shape, h.pos, by omega⟩, rfl⟩

theorem replaceOrInsert_spec (hs : StrictWeak less) {t : BTree α} (h : Wf less t) (item : α) :
    ∃ t' out, t.replaceOrInsert less item = some (t', out) ∧ Wf less t' ∧
      Places less item t.toList out t'.toList := by
  obtain ⟨degree, length, root, hd⟩ := t
  cases root with
  | none =>
    refine ⟨_, _, rfl, ⟨List.pairwise_singleton .., ?_, fun r hr => ?_⟩, ?_⟩
    · exact congrArg (· + 1) h.length
    · obtain rfl := Option.some.inj hr
      refine ⟨trivial, Nat.one_pos, ?_⟩
      simp only [maxItems, List.length_singleton]
      omega
    · exact Places.mk [] [] none (fun y hy => absurd hy List.not_mem_nil)
        (fun y hy => absurd hy List.not_mem_nil) fun y hy => nomatch hy
  | some r =>
    obtain ⟨⟨n, node⟩, hsplit, hroot, horder⟩ := splitRoot_spec hd (h.root r rfl)
    have hord : Ordered less (inorder n node) := horder ▸ h.ordered
    have hlt : node.items.length ≤ degree * 2 - 2 := hroot.le
    obtain ⟨node', out, hinsert, hins⟩ :=
      insert_spec hs hd item n node (by omega) ⟨hroot.shape, hord⟩
    have hplaces : Places less item (inorder r.1 r.2) out (inorder n node') := horder ▸ hins.places
    have hsome : replaceOrInsert less ⟨degree, length, some r, hd⟩ item =
        some (⟨degree, if out.isNone then length + 1 else length, some ⟨n, node'⟩, hd⟩, out) := by
      simp [replaceOrInsert, maxItems, hsplit, hinsert]
    refine ⟨_, out, hsome, ⟨hplaces.ordered hs h.ordered, ?_, fun r' hr => ?_⟩, hplaces⟩
    · have hlength : length = (inorder r.1 r.2).length := h.length
      have hlength' := hplaces.length_eq
      simp only [toList, Option.elim_some]
      split <;> simp_all
    · obtain rfl := Option.some.inj hr
      have hpos : 0 < node.items.length := hroot.pos
      have hle := hins.le
      have hle' := hins.le_add
      exact ⟨hins.shape, Nat.lt_of_lt_of_le hpos hle, by simp only [maxItems]; omega⟩

theorem get_spec (hs : StrictWeak less) {t : BTree α} (h : Wf less t) (key : α) :
    t.get less key = some (t.toList.find? fun y => same less y key) := by
  obtain ⟨degree, length, root, hd⟩ := t
  cases root with
  | none => rfl
  | some r => exact get_node_spec hs key ⟨(h.root r rfl).shape, h.ordered⟩

theorem has_spec (hs : StrictWeak less) {t : BTree α} (h : Wf less t) (key : α) :
    t.has less key = some (t.toList.find? fun y => same less y key).isSome := by
  rw [has, get_spec hs h, Option.map_some]

theorem ascendGreaterOrEqual_spec (hs : StrictWeak less) {t : BTree α} (h : Wf less t) (pivot : α)
    {σ : Type} (iter : α → σ → σ × Bool) (s : σ) :
    t.ascendGreaterOrEqual less pivot iter s =
      some (foldUntil iter (t.toList.filter fun y => !less y pivot) s).1 := by
  obtain ⟨degree, length, root, hd⟩ := t
  cases root with
  | none => rfl
  | some r =>
    have hwalk : iterate less pivot iter r.1 r.2 s =
        some (walk less pivot iter (inorder r.1 r.2) s) :=
      iterate_node_spec hs ⟨(h.root r rfl).shape, h.ordered⟩ s
    simp only [ascendGreaterOrEqual, hwalk, Option.map_some, walk, toList, Option.elim_some]

end BTree

end Nodes

end Doodle.Google.Btree
