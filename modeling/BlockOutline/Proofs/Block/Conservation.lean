import Mathlib.Algebra.BigOperators.Group.Multiset.Basic
import Mathlib.Tactic.Abel
import BlockOutline.Proofs.Block.Edits
import BlockOutline.Proofs.NameMap
import BlockOutline.Proofs.Text.Pieces
import BlockOutline.Proofs.Walk.Queries

/-! # Conservation

Blocks and statements are neither lost nor held twice: what a collection of trees holds after any
commands is what it held before and what was made and copied, less what was dropped. -/

namespace BlockOutline

open Fallible

variable {α : Type}

/-! ## Stocks -/

/-- A number of blocks together with statements, each as often as it is held. -/
abbrev Stock (α : Type) : Type :=
  ℕ × Multiset α

namespace Block

def stock (t : Block α) : Stock α :=
  (t.blockCount, t.allStatements)

/-- A block and its own statements, without what is nested in it. -/
def ownStock (t : Block α) : Stock α :=
  (1, t.statements)

end Block

/-- What several trees hold together. -/
def stockOf (ts : List (Block α)) : Stock α :=
  (ts.map Block.stock).sum

@[simp] theorem stockOf_nil : stockOf ([] : List (Block α)) = 0 :=
  rfl

@[simp] theorem stockOf_cons (t : Block α) (ts : List (Block α)) :
    stockOf (t :: ts) = t.stock + stockOf ts := by
  simp [stockOf]

@[simp] theorem stockOf_append (ts us : List (Block α)) :
    stockOf (ts ++ us) = stockOf ts + stockOf us := by
  simp [stockOf]

theorem stockOf_perm {ts us : List (Block α)} (h : ts.Perm us) : stockOf ts = stockOf us :=
  (h.map Block.stock).sum_eq

theorem stockOf_eq (ts : List (Block α)) :
    stockOf ts = ((ts.map Block.blockCount).sum, ↑(ts.flatMap Block.allStatements)) := by
  induction ts with
  | nil => rfl
  | cons t ts ih =>
      rw [stockOf_cons, ih]
      simp [Block.stock]

theorem Block.stock_eq (t : Block α) : t.stock = t.ownStock + stockOf t.children := by
  rw [stock, ownStock, stockOf_eq, blockCount_eq, allStatements_eq_append, Prod.mk_add_mk,
    Multiset.coe_add]

/-! ## Changes of a tree -/

/-- What a mutation brings into a tree; a child that is given to it comes from outside. -/
def Mutation.stock (m : Mutation α) : Stock α :=
  ((0, m.newStatements) : Stock α) + stockOf m.newChildren

theorem Mutation.stock_apply (m : Mutation α) (b : Block α) :
    (m.apply b).stock = b.stock + m.stock := by
  have hown : (m.apply b).ownStock = b.ownStock + ((0, m.newStatements) : Stock α) := by
    rw [Block.ownStock, Block.ownStock, statements_apply, Prod.mk_add_mk, Multiset.coe_add]
  rw [Block.stock_eq, Block.stock_eq b, children_apply, stockOf_append, hown, Mutation.stock]
  abel

/-- A tree changes its stock by what the changed block in it does. -/
theorem Block.stock_updateAt {f : Block α → Block α} {address : List Step} {t t' b : Block α}
    (hb : t.locate address = .ok b) (h : t.updateAt f address = .ok t') :
    t'.stock + b.stock = t.stock + (f b).stock := by
  induction address generalizing t t' with
  | nil =>
      cases hb
      cases h
      exact add_comm _ _
  | cons step rest ih =>
      obtain ⟨p, ss, children⟩ := t
      obtain ⟨before, c, c', after, -, rfl, hlocate, hupdate, rfl⟩ := exists_siblings hb h
      have hrest (d : Block α) : stock ⟨p, ss, before ++ d :: after⟩ =
          (ownStock ⟨p, ss, []⟩ + stockOf before + stockOf after) + d.stock := by
        rw [stock_eq, stockOf_append, stockOf_cons]
        change ownStock ⟨p, ss, []⟩ + _ = _
        abel
      rw [hrest, hrest, add_assoc, ih hlocate hupdate, ← add_assoc]

namespace Slots

/-! ## Names -/

def stock (s : Slots α) : Stock α :=
  (s.blockCount, s.allStatements)

theorem stock_eq (s : Slots α) : s.stock = stockOf (s.trees.entries.map (·.2)) := by
  rw [stock, stockOf_eq, blockCount, allStatements, List.flatMap_map, List.map_map,
    List.sum_eq_foldl, List.foldl_map]
  rfl

/-- What the tree under a name holds. -/
def held (s : Slots α) (name : String) : Stock α :=
  ((s.trees.find? name).map Block.stock).getD 0

theorem held_of_tree {s : Slots α} {name : String} {t : Block α} (h : s.tree name = .ok t) :
    s.held name = t.stock := by
  unfold tree at h
  split at h
  · cases h
  · next found =>
    cases h
    rw [held, found]
    rfl

theorem stock_drop (s : Slots α) (name : String) : (s.drop name).stock + s.held name = s.stock := by
  rw [stock_eq, stock_eq, drop, held]
  cases hfound : s.trees.find? name with
  | none =>
      rw [NameMap.erase_of_find?_eq_none hfound]
      exact add_zero _
  | some t =>
      rw [stockOf_perm ((NameMap.perm_of_find? hfound).map (·.2)), List.map_cons, stockOf_cons]
      exact add_comm _ _

/-- A name that is given a tree loses the one that it had. -/
theorem stock_put (s : Slots α) (name : String) (t : Block α) :
    (s.put name t).stock + s.held name = s.stock + t.stock := by
  have hdrop := s.stock_drop name
  have hput : (s.put name t).stock = t.stock + (s.drop name).stock := by
    rw [stock_eq, stock_eq, put, drop]
    rw [stockOf_perm ((NameMap.perm_insert s.trees name t).map (·.2)), List.map_cons, stockOf_cons]
  rw [hput, add_assoc, hdrop, add_comm]

theorem held_put_of_ne (s : Slots α) {name other : String} (h : other ≠ name) (t : Block α) :
    (s.put name t).held other = s.held other := by
  rw [held, held, put, NameMap.find?_insert, if_neg h]

/-- Trees stored under different names replace what these names had. -/
theorem stock_foldl_put {named : List (String × Block α)} (hnames : (named.map Prod.fst).Nodup)
    (s : Slots α) :
    (named.foldl (fun s e => s.put e.1 e.2) s).stock + ((named.map Prod.fst).map s.held).sum =
      s.stock + stockOf (named.map Prod.snd) := by
  induction named generalizing s with
  | nil => rfl
  | cons e named ih =>
      obtain ⟨hnew, hnames⟩ := List.nodup_cons.mp hnames
      have hheld : (named.map Prod.fst).map (s.put e.1 e.2).held = (named.map Prod.fst).map s.held := by
        refine List.map_congr_left ?_
        intro other hother
        exact s.held_put_of_ne (ne_of_mem_of_not_mem hother hnew) e.2
      have hrest := ih hnames (s.put e.1 e.2)
      have hput := s.stock_put e.1 e.2
      rw [hheld] at hrest
      simp only [List.foldl_cons, List.map_cons, List.sum_cons, stockOf_cons]
      rw [add_left_comm, hrest, ← add_assoc, add_comm (s.held e.1), hput, add_assoc]

/-- The names that copies of children are stored under. -/
def copyNames (stem : String) (count : ℕ) : List String :=
  (List.range count).map (stem ++ toString ·)

theorem nodup_copyNames (stem : String) (count : ℕ) : (copyNames stem count).Nodup := by
  refine List.nodup_range.map ?_
  intro i j h
  exact Text.number_inj ((String.append_right_inj stem).mp h)

theorem stock_putAll (s : Slots α) (stem : String) (ts : List (Block α)) :
    (s.putAll stem ts).stock + ((copyNames stem ts.length).map s.held).sum =
      s.stock + stockOf ts := by
  have hput : s.putAll stem ts =
      (ts.zipIdx.map fun e => (stem ++ toString e.2, e.1)).foldl (fun s e => s.put e.1 e.2) s := by
    rw [putAll, List.foldl_map]
  have hnames : (ts.zipIdx.map fun e => (stem ++ toString e.2, e.1)).map Prod.fst =
      copyNames stem ts.length := by
    rw [copyNames, List.range_eq_range', ← List.zipIdx_map_snd 0 ts]
    simp only [List.map_map, Function.comp_def]
  have htrees : (ts.zipIdx.map fun e => (stem ++ toString e.2, e.1)).map Prod.snd = ts := by
    rw [List.map_map]
    exact List.zipIdx_map_fst 0 ts
  have hfold := stock_foldl_put (hnames ▸ nodup_copyNames stem ts.length) s
  rwa [← hput, hnames, htrees] at hfold

/-! ## Commands -/

theorem read_eq_ok_iff {s : Slots α} {place : Place} {b : Block α} :
    s.read place = .ok b ↔ ∃ root, s.tree place.name = .ok root ∧ root.locate place.address = .ok b := by
  unfold read
  cases s.tree place.name with
  | error e => simp
  | ok root => simp

/-- A change at a place succeeds exactly if there is a block. -/
theorem change_eq_ok_iff {s s' : Slots α} {place : Place} {f : Block α → Block α} :
    s.change place f = .ok s' ↔ ∃ root root', s.tree place.name = .ok root ∧
      root.updateAt f place.address = .ok root' ∧ s.put place.name root' = s' := by
  unfold change
  cases s.tree place.name with
  | error e => simp
  | ok root =>
      cases hupdate : root.updateAt f place.address with
      | error position => simp [hupdate]
      | ok root' => simp [hupdate]

theorem stock_change {s s' : Slots α} {place : Place} {f : Block α → Block α}
    (h : s.change place f = .ok s') :
    ∃ b, s.read place = .ok b ∧ s'.stock + b.stock = s.stock + (f b).stock := by
  obtain ⟨root, root', htree, hupdate, rfl⟩ := change_eq_ok_iff.mp h
  obtain ⟨b, hb⟩ := (Block.updateAt_isOk_iff f place.address root).mp ⟨root', hupdate⟩
  have hput := s.stock_put place.name root'
  have hroot := Block.stock_updateAt hb hupdate
  rw [held_of_tree htree] at hput
  refine ⟨b, read_eq_ok_iff.mpr ⟨root, htree, hb⟩, add_right_cancel (b := root.stock) ?_⟩
  calc (s.put place.name root').stock + b.stock + root.stock
      = (s.put place.name root').stock + root.stock + b.stock := by abel
    _ = s.stock + (root'.stock + b.stock) := by rw [hput, add_assoc]
    _ = s.stock + (f b).stock + root.stock := by rw [hroot]; abel

theorem adopt_eq_ok_iff {s s' : Slots α} {place : Place} {child : String} :
    s.adopt place child = .ok s' ↔ child ≠ place.name ∧ (∃ b, s.read place = .ok b) ∧
      ∃ moved, s.tree child = .ok moved ∧ (s.drop child).change place (·.addChild moved) = .ok s' := by
  unfold adopt
  by_cases hsame : child = place.name
  · simp [hsame]
  · rw [if_neg hsame]
    cases hread : s.read place with
    | error e => simp
    | ok b =>
        cases hchild : s.tree child with
        | error e => simp
        | ok moved => simp [hsame]

theorem stock_adopt {s s' : Slots α} {place : Place} {child : String}
    (h : s.adopt place child = .ok s') : s'.stock = s.stock := by
  obtain ⟨-, -, moved, hmoved, hchange⟩ := adopt_eq_ok_iff.mp h
  obtain ⟨b, -, hstock⟩ := stock_change hchange
  have hdrop := s.stock_drop child
  have hadd := (Mutation.addChild moved).stock_apply b
  have hnew : (Mutation.addChild moved).stock = moved.stock := by
    simp [Mutation.stock, Mutation.newStatements, Mutation.newChildren]
  rw [held_of_tree hmoved] at hdrop
  rw [hnew] at hadd
  refine add_right_cancel (b := b.stock) ?_
  calc s'.stock + b.stock = (s.drop child).stock + ((Mutation.addChild moved).apply b).stock := hstock
    _ = (s.drop child).stock + moved.stock + b.stock := by rw [hadd]; abel
    _ = s.stock + b.stock := by rw [hdrop]

end Slots

/-! ## Books -/

/-- What commands made, copied and dropped. -/
structure Books (α : Type) where
  made : Stock α
  copied : Stock α
  dropped : Stock α

namespace Books

def none : Books α :=
  ⟨0, 0, 0⟩

def add (books books' : Books α) : Books α :=
  ⟨books.made + books'.made, books.copied + books'.copied, books.dropped + books'.dropped⟩

end Books

namespace Slots

/-- The books of one command. A created block, an added statement and a child that is given as a
value count as made. A tree is dropped by its name, or by storing another tree under this name. -/
def account (s : Slots α) : Command α → Books α
  | .create name _ => ⟨(1, 0), 0, s.held name⟩
  | .copy place name =>
    match s.read place with
    | .error _ => .none
    | .ok b => ⟨0, b.stock, s.held name⟩
  | .copyChildren place stem =>
    match s.read place with
    | .error _ => .none
    | .ok b => ⟨0, stockOf b.children, ((copyNames stem b.children.length).map s.held).sum⟩
  | .mutate place m =>
    match s.read place with
    | .error _ => .none
    | .ok _ => ⟨m.stock, 0, 0⟩
  | .adopt _ _ => .none
  | .drop name => ⟨0, 0, s.held name⟩

/-- A command that fails is passed over. -/
def perform (s : Slots α) (c : Command α) : Slots α :=
  match s.run c with
  | .error _ => s
  | .ok s' => s'

def performAll (s : Slots α) (cs : List (Command α)) : Slots α :=
  cs.foldl perform s

/-- The books of commands that are performed one after the other. -/
def books : List (Command α) → Slots α → Books α
  | [], _ => .none
  | c :: cs, s => (s.account c).add (books cs (s.perform c))

/-- The place that a command needs a block at. -/
def Command.place? : Command α → Option Place
  | .copy place _ | .copyChildren place _ | .mutate place _ | .adopt place _ => some place
  | .create _ _ | .drop _ => none

/-- Without a block at its place a command fails. -/
theorem perform_of_read_eq_error {s : Slots α} {c : Command α} {place : Place}
    (hplace : c.place? = some place) {e : SlotError} (h : s.read place = .error e) :
    s.perform c = s := by
  have hnone {s' : Slots α} (f : Block α → Block α) : s.change place f ≠ .ok s' := by
    intro hchange
    obtain ⟨b, hread, -⟩ := stock_change hchange
    rw [h] at hread
    cases hread
  have hfails : ∀ s', s.run c ≠ .ok s' := by
    intro s' hrun
    cases c with
    | create => cases hplace
    | drop => cases hplace
    | copy =>
        cases hplace
        simp [run, h] at hrun
    | copyChildren =>
        cases hplace
        simp [run, h] at hrun
    | mutate _ m =>
        cases hplace
        exact hnone m.apply hrun
    | adopt _ child =>
        cases hplace
        obtain ⟨-, ⟨b, hread⟩, -⟩ := adopt_eq_ok_iff.mp hrun
        rw [h] at hread
        cases hread
  unfold perform
  split
  · rfl
  · next hrun => exact absurd hrun (hfails _)

/-- One command: what is held and dropped was held before, made or copied. -/
theorem stock_run {s s' : Slots α} {c : Command α} (h : s.run c = .ok s') :
    s'.stock + (s.account c).dropped = s.stock + (s.account c).made + (s.account c).copied := by
  cases c with
  | create name prototype =>
      cases h
      have hleaf : (Block.leaf prototype : Block α).stock = (1, 0) := by
        rw [Block.stock_eq]
        exact add_zero _
      rw [account, ← hleaf, add_zero]
      exact s.stock_put name _
  | copy place name =>
      rw [run] at h
      split at h
      · cases h
      · next b hread =>
        cases h
        simp only [account, hread, add_zero]
        exact s.stock_put name b
  | copyChildren place stem =>
      rw [run] at h
      split at h
      · cases h
      · next b hread =>
        cases h
        simp only [account, hread, add_zero]
        exact s.stock_putAll stem b.children
  | mutate place m =>
      obtain ⟨b, hread, hstock⟩ := stock_change h
      simp only [account, hread, add_zero]
      rw [m.stock_apply] at hstock
      refine add_right_cancel (b := b.stock) ?_
      rw [hstock]
      abel
  | adopt place child =>
      simp only [account, Books.none, add_zero]
      exact stock_adopt h
  | drop name =>
      cases h
      simp only [account, add_zero]
      exact s.stock_drop name

theorem account_of_run_eq_error {s : Slots α} {c : Command α} {e : SlotError}
    (h : s.run c = .error e) : s.account c = .none := by
  cases c with
  | create => cases h
  | drop => cases h
  | adopt => rfl
  | copy =>
      rw [run] at h
      split at h
      · next hread => rw [account, hread]
      · cases h
  | copyChildren =>
      rw [run] at h
      split at h
      · next hread => rw [account, hread]
      · cases h
  | mutate place m =>
      cases hread : s.read place with
      | error => rw [account, hread]
      | ok b =>
          -- Where there is a block it can be changed.
          obtain ⟨root, htree, hb⟩ := read_eq_ok_iff.mp hread
          obtain ⟨root', hroot'⟩ := (Block.updateAt_isOk_iff m.apply place.address root).mpr ⟨b, hb⟩
          have hok := change_eq_ok_iff.mpr ⟨root, root', htree, hroot', rfl⟩
          rw [run, hok] at h
          cases h

theorem stock_perform (s : Slots α) (c : Command α) :
    (s.perform c).stock + (s.account c).dropped =
      s.stock + (s.account c).made + (s.account c).copied := by
  unfold perform
  split
  · next h =>
    rw [account_of_run_eq_error h]
    exact (add_zero _).symm
  · next h => exact stock_run h

theorem stock_performAll (s : Slots α) (cs : List (Command α)) :
    (s.performAll cs).stock + (books cs s).dropped =
      s.stock + (books cs s).made + (books cs s).copied := by
  induction cs generalizing s with
  | nil => exact (add_zero _).symm
  | cons c cs ih =>
      have hfirst := s.stock_perform c
      have hrest := ih (s.perform c)
      simp only [performAll, books, Books.add, List.foldl_cons] at hrest ⊢
      rw [add_left_comm, hrest, ← add_assoc, ← add_assoc, add_comm (s.account c).dropped, hfirst]
      abel

/-- However trees are created, copied, changed, put into one another and dropped: the blocks held
and dropped are those that were held, made and copied, and so are the statements, each as often as
it occurs. The move of a tree below another one keeps both as they are, and a command at a place
without a block changes nothing. -/
theorem stock_conserved (s : Slots α) (cs : List (Command α)) :
    ((s.performAll cs).blockCount + (books cs s).dropped.1 =
          s.blockCount + (books cs s).made.1 + (books cs s).copied.1 ∧
        ((s.performAll cs).allStatements : Multiset α) + (books cs s).dropped.2 =
          s.allStatements + (books cs s).made.2 + (books cs s).copied.2) ∧
      ((empty : Slots α).blockCount = 0 ∧ (empty : Slots α).allStatements = []) ∧
      (∀ place child s', s.run (.adopt place child) = .ok s' →
        s'.blockCount = s.blockCount ∧ (s'.allStatements : Multiset α) = s.allStatements) ∧
      ∀ c place e, c.place? = some place → s.read place = .error e → s.perform c = s := by
  have hrun := Prod.ext_iff.mp (s.stock_performAll cs)
  refine ⟨hrun, ⟨rfl, rfl⟩, ?_, ?_⟩
  · intro place child s' h
    exact Prod.ext_iff.mp (stock_adopt h)
  · intro c place e hplace h
    exact perform_of_read_eq_error hplace h

/-- A tree is moved below the last block of another one, which is then copied in part and dropped. In
between, a command finds no block and is passed over. -/
theorem stock_conserved_adopted :
    let s : Slots ℕ :=
      (empty.put "a" ⟨none, [1], [⟨none, [2], []⟩]⟩).put "b" ⟨some "f", [2], [⟨none, [], []⟩]⟩
    let nowhere : Command ℕ := .mutate ⟨"a", [.index 1]⟩ (.addStatement 9)
    let cs : List (Command ℕ) :=
      [.adopt ⟨"a", [.last]⟩ "b", nowhere, .copyChildren ⟨"a", []⟩ "c", .drop "a"]
    (s.performAll cs).blockCount = 3 ∧
      (s.performAll cs).blockCount + (books cs s).dropped.1 =
        s.blockCount + (books cs s).made.1 + (books cs s).copied.1 ∧
      (∃ s', s.run (.adopt ⟨"a", [.last]⟩ "b") = .ok s' ∧ s'.blockCount = s.blockCount) ∧
      s.read ⟨"a", [.index 1]⟩ = .error (.noSuchChild 0) ∧ s.perform nowhere = s := by
  intro s nowhere cs
  obtain ⟨hrun, -, hadopt, hnowhere⟩ := s.stock_conserved cs
  have hmissing : s.read ⟨"a", [.index 1]⟩ = .error (.noSuchChild 0) := rfl
  obtain ⟨s', hs'⟩ : ∃ s', s.run (.adopt ⟨"a", [.last]⟩ "b") = .ok s' := ⟨_, rfl⟩
  refine ⟨by decide +kernel, hrun.1, ⟨s', hs', (hadopt _ _ s' hs').1⟩, hmissing, ?_⟩
  exact hnowhere nowhere _ _ rfl hmissing

end Slots

end BlockOutline
